import SysMonitor.Guarantees.RecordDelivery

/-!
# Framing over many reader sessions

The ring outlives a session: a release leaves the read pointer where the last read put it.
So a new session starts at a record exactly where the last read left off at one. That is
guaranteed when no session ends between a header and its content and, since a refused open is
answered with 0 and reads all the same, no other handle reads in between.
-/

namespace SysMonitor.Guarantees.SessionFraming
open SysMonitor.Library SysMonitor.Source SysMonitor.Source.Interface
open SysMonitor.Source.LogStorage SysMonitor.Source.Reader SysMonitor.Guarantees.RingQueue
open SysMonitor.Guarantees.RecordDelivery

/-- The device, the readers by their file handles, which are numbered as they are opened, and,
as a ghost, the records that were put into the ring. -/
structure Sessions where
  device : Device
  reader : Nat → Option Phase
  opened : Nat
  stored : List LogRecord

inductive SessionCall where
  | log (r : LogRecord) (memory : Option (Nat → Byte)) (outcome : Down)
  | open (current : Pid) (fMode : Word) (outcome : Down)
  | read (handle : Nat) (malloc : Bool) (user : UserCopy) (outcome : Down)
  | release (handle : Nat) (current : Pid) (outcome : Down)

/-- Since `interface_open` always returns 0, every open gives a handle that reads, whether or not
it took the device. -/
def sessionsStep (s : Sessions) : SessionCall → Except Fault (Sessions × Unit)
  | .log r memory outcome => do
    let device ← logItemToStorage s.device r.header r.path r.details memory outcome
    return ({ s with
      device
      stored := if stores s.device r memory outcome then s.stored ++ [r] else s.stored }, ())
  | .open current fMode outcome =>
    let (device, _) := interfaceOpen s.device current fMode outcome
    .ok ({ s with
      device
      reader := Function.update s.reader s.opened (some .wantHeader)
      opened := s.opened + 1 }, ())
  | .read handle malloc user outcome =>
    match s.reader handle with
    | none => .ok (s, ())
    | some phase => do
      let (device, phase, _) ← readerStep s.device phase malloc user outcome
      return ({ s with device, reader := Function.update s.reader handle (some phase) }, ())
  | .release handle current outcome =>
    match s.reader handle with
    | none => .ok (s, ())
    | some _ =>
      let (device, _) := interfaceRelease s.device current outcome
      .ok ({ s with device, reader := Function.update s.reader handle none }, ())

/-- The unread bytes start with a record that was put into the ring, and `ReadHeader` gets
its header; or there are none. -/
def StartsAtRecord (s : Sessions) : Prop :=
  contents s.device = [] ∨ ∃ r ∈ s.stored, r.bytes <+: contents s.device ∧
    (readHeader s.device .complete .acquired).map Prod.snd = .ok (.header r.sent)

instance (s : Sessions) : Decidable (StartsAtRecord s) :=
  inferInstanceAs (Decidable (_ = [] ∨ ∃ r ∈ s.stored, _ ∧ _ = _))

/-- An open that takes the device finds it so. -/
def Aligned (s : Sessions) : SessionCall → Sessions → Unit → Prop
  | .open _ _ _, t, _ => s.device.ownerPid = 0 → t.device.ownerPid ≠ 0 → StartsAtRecord t
  | _, _, _ => True

instance (s : Sessions) (call : SessionCall) (t : Sessions) (answer : Unit) :
    Decidable (Aligned s call t answer) :=
  match call with
  | .open _ _ _ => inferInstanceAs (Decidable (_ = _ → _ ≠ _ → StartsAtRecord t))
  | .log _ _ _ | .read _ _ _ _ | .release _ _ _ => .isTrue trivial

/-- The reader has a header and not yet its content. -/
def midRecord : Option Phase → Bool
  | some (.wantContent _) => true
  | _ => false

/-- No reader is between a header and its content. -/
def Between (s : Sessions) : Prop := ∀ handle < s.opened, midRecord (s.reader handle) = false

instance (s : Sessions) : Decidable (Between s) :=
  inferInstanceAs (Decidable (∀ handle < s.opened, _ = false))

/-- A header that was read is followed by its whole content before its session ends, and before
another handle reads a header or an open takes the device; and no copy to a reader's memory stops
short. -/
def WholeRecords (s : Sessions) : SessionCall → Prop
  | .log _ _ _ => True
  | .open _ fMode outcome =>
    outcome = .acquired → s.device.ownerPid = 0 → FMODE_WRITE &&& fMode = 0 → Between s
  | .read handle malloc user outcome =>
    if midRecord (s.reader handle) then malloc = true ∧ user = .complete ∧ outcome = .acquired
    else s.reader handle = some .wantHeader → outcome = .acquired → user = .complete ∧ Between s
  | .release handle _ _ => midRecord (s.reader handle) = false

instance (s : Sessions) : ∀ call, Decidable (WholeRecords s call)
  | .log _ _ _ => .isTrue trivial
  | .open _ _ _ => inferInstanceAs (Decidable (_ = _ → _ = _ → _ = _ → Between s))
  | .read handle _ _ _ =>
    inferInstanceAs (Decidable (if midRecord (s.reader handle) then _ ∧ _ ∧ _ else _ → _ → _ ∧ _))
  | .release _ _ _ => inferInstanceAs (Decidable (_ = false))

/-- The unread bytes are whole records, but for the header that one of the readers has. -/
def Unread (bytes : List Byte) (pending : List LogRecord) (reader : Nat → Option Phase) : Prop :=
  (∀ handle, midRecord (reader handle) = false) ∧ bytes = pending.flatMap LogRecord.bytes ∨
  ∃ handle h, reader handle = some (.wantContent h) ∧ Waiting bytes pending (.wantContent h) ∧
    ∀ other, other ≠ handle → midRecord (reader other) = false

/-- The framing invariant over all sessions. -/
structure Whole (base size : Nat) (s : Sessions) (q : QueueState size)
    (pending : List LogRecord) : Prop where
  rep : Represents base size s.device q
  small : ∀ r ∈ pending, fullSize r.path r.details ≤ KMALLOC_MAX_SIZE
  stored : ∀ r ∈ pending, r ∈ s.stored
  unread : Unread q.queue.items pending s.reader
  handles : ∀ handle, s.opened ≤ handle → s.reader handle = none

section Step

variable {base size : Nat} {s t : Sessions} {q : QueueState size} {pending : List LogRecord}
  {bytes : List Byte} {reader : Nat → Option Phase} {handle : Nat}

theorem Unread.append (unread : Unread bytes pending reader) (r : LogRecord) :
    Unread (bytes ++ r.bytes) (pending ++ [r]) reader := by
  rcases unread with ⟨between, rfl⟩ | ⟨handle, h, here, waiting, others⟩
  · exact .inl ⟨between, by simp⟩
  · exact .inr ⟨handle, h, here, waiting.append r, others⟩

/-- A handle that is at no record comes, goes or stops. -/
theorem Unread.other (unread : Unread bytes pending reader)
    (before : midRecord (reader handle) = false) {phase : Option Phase}
    (after : midRecord phase = false) :
    Unread bytes pending (Function.update reader handle phase) := by
  have kept : ∀ other, midRecord (reader other) = false →
      midRecord (Function.update reader handle phase other) = false := by
    intro other quiet
    by_cases same : other = handle
    · rw [same, Function.update_self]
      exact after
    · rwa [Function.update_of_ne same]
  rcases unread with ⟨between, whole⟩ | ⟨holder, h, here, waiting, others⟩
  · exact .inl ⟨fun other => kept other (between other), whole⟩
  · refine .inr ⟨holder, h, ?_, waiting, fun other apart => kept other (others other apart)⟩
    rwa [Function.update_of_ne]
    rintro rfl
    rw [here] at before
    cases before

/-- Between records the unread bytes are whole ones. -/
theorem Unread.whole (unread : Unread bytes pending reader)
    (between : ∀ handle, midRecord (reader handle) = false) :
    bytes = pending.flatMap LogRecord.bytes := by
  rcases unread with ⟨-, whole⟩ | ⟨handle, h, here, -⟩
  · exact whole
  · have quiet := between handle
    rw [here] at quiet
    cases quiet

/-- A handle that was never opened is at no record. -/
theorem Whole.between (whole : Whole base size s q pending) (between : Between s) (handle : Nat) :
    midRecord (s.reader handle) = false := by
  rcases Nat.lt_or_ge handle s.opened with old | new
  · exact between handle old
  · rw [whole.handles handle new]
    rfl

theorem Whole.update_handles (whole : Whole base size s q pending) (real : s.reader handle ≠ none)
    (phase : Option Phase) (other : Nat) (new : s.opened ≤ other) :
    Function.update s.reader handle phase other = none := by
  have none := whole.handles other new
  rwa [Function.update_of_ne]
  rintro rfl
  exact real none

theorem log_whole (whole : Whole base size s q pending) (r : LogRecord)
    (memory : Option (Nat → Byte)) (outcome : Down) :
    ∃ t q' pending', sessionsStep s (.log r memory outcome) = .ok (t, ()) ∧
      Whole base size t q' pending' := by
  obtain ⟨d, logged, rep⟩ := logItem_simulates whole.rep r memory outcome
  have step : sessionsStep s (.log r memory outcome) = .ok (⟨d, s.reader, s.opened,
      if stores s.device r memory outcome then s.stored ++ [r] else s.stored⟩, ()) := by
    rw [sessionsStep, logged]
    rfl
  cases went_in : stores s.device r memory outcome with
  | true =>
    simp only [went_in, if_true] at rep step
    obtain ⟨rep, appended, small⟩ := rep
    refine ⟨_, _, pending ++ [r], step, rep, ?_, ?_, ?_, whole.handles⟩
    · intro x member
      rcases List.mem_append.mp member with old | new
      · exact whole.small x old
      · rwa [List.mem_singleton.mp new]
    · intro x member
      rcases List.mem_append.mp member with old | new
      · exact List.mem_append_left _ (whole.stored x old)
      · exact List.mem_append_right _ new
    · dsimp only
      rw [appended]
      exact whole.unread.append r
  | false =>
    simp only [went_in, Bool.false_eq_true, if_false] at rep step
    exact ⟨_, q, pending, step, rep, whole.small, whole.stored, whole.unread, whole.handles⟩

/-- One read of a header, complete or interrupted. -/
theorem readHeader_whole (whole : Whole base size s q pending)
    (here : s.reader handle = some .wantHeader) (malloc : Bool) (user : UserCopy) (outcome : Down)
    (admitted : outcome = .acquired → user = .complete ∧ Between s) :
    ∃ d phase got q', readerStep s.device .wantHeader malloc user outcome = .ok (d, phase, got) ∧
      Whole base size { s with device := d, reader := Function.update s.reader handle (some phase) }
        q' pending := by
  have quiet : midRecord (s.reader handle) = false := by rw [here]; rfl
  have real : s.reader handle ≠ none := by simp [here]
  have handles := fun phase => whole.update_handles real (some phase)
  cases outcome with
  | interrupted =>
    refine ⟨up s.device, .stopped, none, q, rfl, ?_, whole.small, whole.stored,
      whole.unread.other quiet rfl, handles _⟩
    exact whole.rep.of_ring rfl rfl whole.rep.ready whole.rep.owner
  | acquired =>
    obtain ⟨rfl, between⟩ := admitted rfl
    have all := whole.between between
    have unread := whole.unread.whole all
    cases pending with
    | nil =>
      obtain ⟨d, q', read, rep', empty, -⟩ := readHeader_empty whole.rep unread
      refine ⟨d, .wantHeader, none, q', ?_, rep', whole.small, whole.stored, ?_, handles _⟩
      · rw [readerStep, read]
        rfl
      · exact Unread.other (.inl ⟨all, empty⟩) quiet rfl
    | cons r rest =>
      have front : q.queue.items =
          r.sent.toBytes ++ (r.body ++ rest.flatMap LogRecord.bytes) := by
        rw [unread, List.flatMap_cons, r.bytes_eq, List.append_assoc]
      obtain ⟨d, q', read, rep', left, -⟩ := readHeader_record whole.rep r _ front
      refine ⟨d, .wantContent r.sent, none, q', ?_, rep', whole.small, whole.stored, ?_, handles _⟩
      · rw [readerStep, read]
        rfl
      · refine .inr ⟨handle, r.sent, Function.update_self .., ⟨r, rest, rfl, rfl, left⟩, ?_⟩
        intro other apart
        dsimp only
        rw [Function.update_of_ne apart]
        exact all other

/-- The content that follows a header. -/
theorem readContent_whole (whole : Whole base size s q pending) {h : LogHeader}
    (here : s.reader handle = some (.wantContent h)) :
    ∃ d phase got q' pending',
      readerStep s.device (.wantContent h) true .complete .acquired = .ok (d, phase, got) ∧
      Whole base size { s with device := d, reader := Function.update s.reader handle (some phase) }
        q' pending' := by
  have real : s.reader handle ≠ none := by simp [here]
  have handles := fun phase => whole.update_handles real (some phase)
  rcases whole.unread with ⟨between, -⟩ | ⟨holder, h', at_holder, waiting, others⟩
  · have quiet := between handle
    rw [here] at quiet
    cases quiet
  have same : handle = holder := by
    by_contra apart
    have quiet := others handle apart
    rw [here] at quiet
    cases quiet
  rw [← same] at at_holder others
  obtain rfl := Phase.wantContent.inj (Option.some.inj (here.symm.trans at_holder))
  obtain ⟨r, rest, rfl, rfl, left⟩ := waiting
  obtain ⟨d, q', read, rep', unread, -⟩ :=
    readContent_record whole.rep r _ (whole.small r List.mem_cons_self) left
  refine ⟨d, .wantHeader, some ⟨r.sent, r.body, text r.path, text r.details⟩, q', rest, ?_, rep', ?_,
    ?_, .inl ⟨?_, unread⟩, handles _⟩
  · rw [readerStep, read]
    rfl
  · exact fun x member => whole.small x (List.mem_cons_of_mem r member)
  · exact fun x member => whole.stored x (List.mem_cons_of_mem r member)
  · intro other
    dsimp only
    by_cases own : other = handle
    · rw [own, Function.update_self]
      rfl
    · rw [Function.update_of_ne own]
      exact others other own

theorem read_whole (whole : Whole base size s q pending) {malloc : Bool} {user : UserCopy}
    {outcome : Down} (admitted : WholeRecords s (.read handle malloc user outcome)) :
    ∃ t q' pending', sessionsStep s (.read handle malloc user outcome) = .ok (t, ()) ∧
      Whole base size t q' pending' := by
  dsimp only [WholeRecords] at admitted
  rw [sessionsStep]
  rcases here : s.reader handle with _ | _ | h | _
  · exact ⟨s, q, pending, rfl, whole⟩
  · rw [here] at admitted
    obtain ⟨d, phase, got, q', read, whole'⟩ :=
      readHeader_whole whole here malloc user outcome (admitted rfl)
    refine ⟨_, q', pending, ?_, whole'⟩
    dsimp only
    rw [read]
    rfl
  · rw [here] at admitted
    obtain ⟨rfl, rfl, rfl⟩ := admitted
    obtain ⟨d, phase, got, q', pending', read, whole'⟩ := readContent_whole whole here
    refine ⟨_, q', pending', ?_, whole'⟩
    dsimp only
    rw [read]
    rfl
  · refine ⟨_, q, pending, rfl, ?_⟩
    rw [show Function.update s.reader handle (some Phase.stopped) = s.reader from
      Function.update_eq_self_iff.mpr here.symm]
    exact whole

/-- One step of a run in which sessions end between records. -/
theorem sessionsStep_whole (whole : Whole base size s q pending) (call : SessionCall)
    (admitted : WholeRecords s call) :
    ∃ t q' pending', sessionsStep s call = .ok (t, ()) ∧ Whole base size t q' pending' := by
  cases call with
  | log r memory outcome => exact log_whole whole r memory outcome
  | read handle malloc user outcome => exact read_whole whole admitted
  | «open» current fMode outcome =>
    have new := whole.handles s.opened (Nat.le_refl _)
    refine ⟨_, _, pending, rfl, open_simulates whole.rep current fMode outcome, whole.small,
      whole.stored, ?_, fun handle later => ?_⟩
    · rw [queueStep_open_queue]
      exact whole.unread.other (by rw [new]; rfl) rfl
    · have later' : s.opened + 1 ≤ handle := later
      exact (Function.update_of_ne (by omega) ..).trans (whole.handles handle (by omega))
  | release handle current outcome =>
    rw [sessionsStep]
    cases here : s.reader handle with
    | none => exact ⟨s, q, pending, rfl, whole⟩
    | some phase =>
      refine ⟨_, _, pending, rfl, release_simulates whole.rep current outcome, whole.small,
        whole.stored, ?_, whole.update_handles (by simp [here]) none⟩
      rw [queueStep_release_queue]
      exact whole.unread.other admitted rfl

/-- Between records the unread bytes start at one. -/
theorem Whole.startsAtRecord (whole : Whole base size s q pending)
    (between : ∀ handle, midRecord (s.reader handle) = false) : StartsAtRecord s := by
  have same := whole.unread.whole between
  unfold StartsAtRecord
  rw [whole.rep.queue, same]
  cases pending with
  | nil => exact .inl rfl
  | cons r rest =>
    have front : q.queue.items =
        r.sent.toBytes ++ (r.body ++ rest.flatMap LogRecord.bytes) := by
      rw [same, List.flatMap_cons, r.bytes_eq, List.append_assoc]
    obtain ⟨d, q', read, -⟩ := readHeader_record whole.rep r _ front
    right
    refine ⟨r, whole.stored r List.mem_cons_self, ?_, ?_⟩
    · rw [List.flatMap_cons]
      exact List.prefix_append _ _
    · rw [read]
      rfl

/-- An open that takes the device acquired the semaphore, found no owner and asked for no
writing. -/
theorem interfaceOpen_takes {d : Device} {current : Pid} {fMode : Word} {outcome : Down}
    (free : d.ownerPid = 0) (taken : (interfaceOpen d current fMode outcome).1.ownerPid ≠ 0) :
    outcome = .acquired ∧ FMODE_WRITE &&& fMode = 0 := by
  cases outcome with
  | interrupted => exact absurd free taken
  | acquired =>
    refine ⟨rfl, ?_⟩
    by_contra writes
    apply taken
    have refused : openLocked (down d) current fMode = (down d, -EACCES) := by
      rw [openLocked, if_neg (by rw [down]; simp [free]), if_pos writes]
    rw [interfaceOpen]
    dsimp only
    rw [refused]
    exact free

/-- The session that an open begins. -/
theorem open_aligned (before : Whole base size s q pending) {q' : QueueState size}
    {pending' : List LogRecord} (whole : Whole base size t q' pending') {current : Pid}
    {fMode : Word} {outcome : Down} (good : WholeRecords s (.open current fMode outcome))
    (step : sessionsStep s (.open current fMode outcome) = .ok (t, ())) :
    Aligned s (.open current fMode outcome) t () := by
  intro free taken
  cases step
  obtain ⟨acquired, reads⟩ := interfaceOpen_takes free taken
  have between := before.between (good acquired free reads)
  refine whole.startsAtRecord fun handle => ?_
  dsimp only
  by_cases new : handle = s.opened
  · rw [new, Function.update_self]
    rfl
  · rw [Function.update_of_ne new]
    exact between handle

/-- What one step keeps and what it promises. -/
theorem sessionsStep_aligned (s : Sessions) (call : SessionCall)
    (whole : ∃ q pending, Whole base size s q pending) (good : WholeRecords s call) :
    ∃ t answer, sessionsStep s call = .ok (t, answer) ∧ Aligned s call t answer ∧
      ∃ q pending, Whole base size t q pending := by
  obtain ⟨q, pending, whole⟩ := whole
  obtain ⟨t, q', pending', step, whole'⟩ := sessionsStep_whole whole call good
  refine ⟨t, (), step, ?_, q', pending', whole'⟩
  cases call with
  | «open» current fMode outcome => exact open_aligned whole whole' good step
  | log r memory outcome => trivial
  | read handle malloc user outcome => trivial
  | release handle current outcome => trivial

end Step

/-- The device when `begin_interface` has allocated the ring, before the first session. -/
def unopened (base : Nat) (ring : List Byte) : Sessions := ⟨begun base ring, fun _ => none, 0, []⟩

/-- Every run of reader sessions and logged records in which every header that was read is
followed by its content before its session ends, another handle reads a header or an open takes
the device goes through, and each open that takes the device finds its first byte at the
beginning of a record, or the ring empty. -/
theorem sessions_aligned (base : Nat) (ring : List Byte) (pos : 0 < ring.length)
    (calls : List SessionCall)
    (admitted : Admitted sessionsStep WholeRecords (unopened base ring) calls) :
    (∃ r, run sessionsStep (unopened base ring) calls = .ok r) ∧
      EveryStep sessionsStep Aligned (unopened base ring) calls := by
  have start : ∃ q pending, Whole base ring.length (unopened base ring) q pending := by
    refine ⟨.start ring.length, [], begun_represents base ring pos, ?_, ?_, ?_, fun _ _ => rfl⟩
    · intro r member
      simp at member
    · intro r member
      simp at member
    · exact .inl ⟨fun _ => rfl, rfl⟩
  obtain ⟨⟨t, answers, ran, -⟩, every⟩ :=
    run_of_admitted _ sessionsStep_aligned calls _ start admitted
  exact ⟨⟨_, ran⟩, every⟩

/-- A reader takes one record of three and leaves; another one, whose open was refused, takes the
next, and a third session starts at the last. -/
theorem sessions_aligned_in_turn :
    0 < (List.replicate 256 (0 : Byte)).length ∧
    EveryStep sessionsStep Aligned (unopened 4096 (List.replicate 256 0))
      [.open ⟨7, by decide⟩ 1 .acquired, .log sampleRecord (some fun _ => 9) .acquired,
        .log sampleRecord (some fun _ => 9) .acquired, .open ⟨8, by decide⟩ 1 .acquired,
        .log sampleRecord (some fun _ => 9) .acquired, .read 0 true .complete .acquired,
        .read 0 true .complete .acquired, .read 1 true .complete .acquired,
        .read 1 true .complete .acquired, .release 0 ⟨7, by decide⟩ .acquired,
        .open ⟨9, by decide⟩ 1 .acquired] := by
  have pos : 0 < (List.replicate 256 (0 : Byte)).length := by
    rw [List.length_replicate]
    decide
  exact ⟨pos, (sessions_aligned 4096 _ pos _ (by decide +kernel)).2⟩

/-- A reader leaves after a header: the next one takes the bytes of a path for a header. -/
theorem release_mid_record_misaligns :
    ¬EveryStep sessionsStep Aligned (unopened 4096 (List.replicate 128 0))
      [.open ⟨7, by decide⟩ 1 .acquired, .log sampleRecord (some fun _ => 9) .acquired,
        .read 0 true .complete .acquired, .release 0 ⟨7, by decide⟩ .acquired,
        .open ⟨8, by decide⟩ 1 .acquired] := by
  decide +kernel

end SysMonitor.Guarantees.SessionFraming
