import SysMonitor.Guarantees.RingQueue
import SysMonitor.Source.LogStorage
import SysMonitor.Source.Reader

/-!
# Record delivery within one reader session

Writers hand records to `log_item_to_storage`, the reader alternates `ReadHeader` and
`ReadContent`, in any interleaving of single calls. The framing invariant
(`Session.Framed`) says that the ring holds whole records, the first one possibly
without its header, which the reader then has in hand. What the reader obtained is a
prefix of what was accepted, and reading on yields the rest.
-/

namespace SysMonitor.Guarantees.RecordDelivery
open SysMonitor.Library SysMonitor.Source SysMonitor.Source.Interface
open SysMonitor.Source.LogStorage SysMonitor.Source.Reader SysMonitor.Guarantees.RingQueue

/-- The arguments of one call of `log_item_to_storage`. -/
structure LogRecord where
  header : LogHeader
  path : Option CString
  details : Option CString

namespace LogRecord

def bytes (r : LogRecord) : List Byte := record r.header r.path r.details

/-- The part of the record behind its header. -/
def body (r : LogRecord) : List Byte := stringBytes r.path ++ stringBytes r.details

def sent (r : LogRecord) : LogHeader := withOffsets r.header r.path r.details

theorem bytes_eq (r : LogRecord) : r.bytes = r.sent.toBytes ++ r.body := by
  simp [bytes, record, body, sent, List.append_assoc]

theorem body_length (r : LogRecord) :
    r.body.length = stringSize r.path + stringSize r.details := by
  simp [body]

end LogRecord

/-- The text of a string that may be NULL. -/
def text : Option CString → List Byte
  | some s => s.bytes
  | none => []

/-- The session: the device, the reader, what the reader obtained, and, as a ghost,
the records `write_to_interface` did not drop. -/
structure Session where
  device : Device
  phase : Phase
  accepted : List LogRecord
  obtained : List Obtained

inductive Event where
  | log (r : LogRecord) (memory : Option (Nat → Byte))
  | read (malloc : Bool)

/-- The record got a buffer and the ring had room for it. -/
def accepts (d : Device) (r : LogRecord) (memory : Option (Nat → Byte)) : Bool :=
  (kmalloc (fullSize r.path r.details) memory).isSome &&
    d.cycleBufferSize - getUsedSize d > fullSize r.path r.details

/-- Every `down_interruptible` succeeds and every `copy_to_user` is complete. -/
def sessionStep (s : Session) : Event → Except Fault Session
  | .log r memory => do
    let device ← logItemToStorage s.device r.header r.path r.details memory .acquired
    return { s with
      device
      accepted := if accepts s.device r memory then s.accepted ++ [r] else s.accepted }
  | .read malloc => do
    let (device, phase, got) ← readerStep s.device s.phase malloc .complete .acquired
    return { s with device, phase, obtained := s.obtained ++ got.toList }

def sessionStart (d : Device) : Session := ⟨d, .wantHeader, [], []⟩

/-- The reader has the record: every field the writer set, both strings, and at the
header's two offsets the strings that `strlen` finds. -/
structure Delivered (r : LogRecord) (o : Obtained) : Prop where
  sec : o.header.sec = r.header.sec
  nsec : o.header.nsec = r.header.nsec
  pid : o.header.pid = r.header.pid
  tid : o.header.tid = r.header.tid
  operation : o.header.operation = r.header.operation
  api : o.header.api = r.header.api
  result : o.header.result = r.header.result
  path : o.content.path = text r.path
  details : o.content.details = text r.details
  pathOffset : stringAt ((o.header.toBytes ++ o.content.inner).drop o.header.pathOffset.toNat) =
    .ok o.content.path
  detailsOffset :
    stringAt ((o.header.toBytes ++ o.content.inner).drop o.header.detailsOffset.toNat) =
      .ok o.content.details

/-- The bytes waiting in the ring are those of the pending records, from where the
reader stands. -/
def Waiting (waiting : List Byte) (pending : List LogRecord) : Phase → Prop
  | .wantHeader => waiting = pending.flatMap LogRecord.bytes
  | .wantContent h => ∃ r rest, pending = r :: rest ∧ h = r.sent ∧
      waiting = r.body ++ rest.flatMap LogRecord.bytes
  | .stopped => True

/-- The framing invariant, over the queue that the device's ring stands for. -/
structure Framed (base size : Nat) (s : Session) (q : QueueState size)
    (done pending : List LogRecord) : Prop where
  rep : Represents base size s.device q
  ready : q.ready = true
  split : s.accepted = done ++ pending
  small : ∀ r ∈ pending, fullSize r.path r.details ≤ KMALLOC_MAX_SIZE
  delivered : List.Forall₂ Delivered done s.obtained
  waiting : Waiting q.queue.items pending s.phase

theorem stringAt_stringBytes (s : Option CString) (tail : List Byte) :
    stringAt (stringBytes s ++ tail) = .ok (text s) := by
  cases s with
  | none => simp [stringAt, stringBytes, text]
  | some s =>
    have nonzero : ∀ b ∈ s.bytes, decide (b ≠ 0) = true := by
      intro b member
      simp only [ne_eq, decide_not, Bool.not_eq_eq_eq_not, Bool.not_true, decide_eq_false_iff_not]
      intro zero
      exact s.nulFree (zero ▸ member)
    have found : (0 : Byte) ∈ stringBytes (some s) ++ tail := by
      simp [stringBytes, CString.terminated]
    rw [stringAt, if_pos found]
    simp only [stringBytes, CString.terminated, List.append_assoc, text]
    rw [List.takeWhile_append_of_pos nonzero]
    simp

theorem text_length (s : Option CString) : (text s).length + 1 = stringSize s := by
  cases s <;> simp [text, stringSize, CString.strlen]

/-- A record small enough for `kmalloc` has a positive `int` as content size. -/
theorem contentSize_toInt (r : LogRecord)
    (small : fullSize r.path r.details ≤ KMALLOC_MAX_SIZE) :
    r.sent.contentSize.toNat = r.body.length ∧ r.sent.contentSize.toInt = r.body.length ∧
      0 < r.body.length := by
  have length := r.body_length
  have bound : r.body.length ≤ 2 ^ 25 := by
    unfold fullSize KMALLOC_MAX_SIZE at small
    omega
  have value : r.sent.contentSize.toNat = r.body.length := by
    show (BitVec.ofNat 32 _).toNat = _
    rw [BitVec.toNat_ofNat, ← length, Nat.mod_eq_of_lt (by omega)]
  refine ⟨value, ?_, ?_⟩
  · rw [BitVec.toInt_eq_toNat_of_lt (by omega), value]
  · have := text_length r.path
    omega

/-- What `ReadContent` makes of a record's body is the record. -/
theorem delivered_of_body (r : LogRecord)
    (small : fullSize r.path r.details ≤ KMALLOC_MAX_SIZE) :
    Delivered r ⟨r.sent, ⟨r.body, text r.path, text r.details⟩⟩ := by
  have image : r.sent.toBytes.length = LogHeader.size := LogHeader.toBytes_length _
  have path_at : r.sent.pathOffset.toNat = LogHeader.size := rfl
  have details_at : r.sent.detailsOffset.toNat = LogHeader.size + stringSize r.path := by
    show (BitVec.ofNat 32 _).toNat = _
    unfold fullSize KMALLOC_MAX_SIZE at small
    rw [BitVec.toNat_ofNat, Nat.mod_eq_of_lt (by omega)]
  refine ⟨rfl, rfl, rfl, rfl, rfl, rfl, rfl, rfl, rfl, ?_, ?_⟩
  · show stringAt ((r.sent.toBytes ++ r.body).drop _) = _
    rw [path_at, ← image, List.drop_left, LogRecord.body, stringAt_stringBytes]
  · show stringAt ((r.sent.toBytes ++ r.body).drop _) = _
    rw [details_at, ← image, List.drop_length_add_append, LogRecord.body,
      ← stringBytes_length r.path, List.drop_left]
    simpa using stringAt_stringBytes r.details []

/-- A waiting record stays where it is when another one is appended behind it. -/
theorem Waiting.append {waiting : List Byte} {pending : List LogRecord} {phase : Phase}
    (framed : Waiting waiting pending phase) (r : LogRecord) :
    Waiting (waiting ++ r.bytes) (pending ++ [r]) phase := by
  cases phase with
  | wantHeader =>
    have same : waiting = pending.flatMap LogRecord.bytes := framed
    simp [Waiting, same]
  | wantContent h =>
    obtain ⟨first, rest, rfl, rfl, same⟩ := framed
    exact ⟨first, rest ++ [r], rfl, rfl, by simp [same]⟩
  | stopped => trivial

theorem accepts_iff {base size : Nat} {d : Device} {q : QueueState size}
    (rep : Represents base size d q) (r : LogRecord) (buff : List Byte)
    (memory : Option (Nat → Byte)) (got : kmalloc (fullSize r.path r.details) memory = some buff) :
    accepts d r memory = true ↔
      q.queue.items.length + r.bytes.length ≤ size - 1 := by
  have used := contents_length rep.valid
  have bound := rep.valid.used_lt
  rw [rep.queue] at used
  rw [rep.size_eq] at bound
  have length : r.bytes.length = fullSize r.path r.details := record_length ..
  simp only [accepts, got, Option.isSome_some, Bool.true_and, decide_eq_true_eq, rep.size_eq]
  omega

/-- The whole record goes into the ring. -/
def stores (d : Device) (r : LogRecord) (memory : Option (Nat → Byte)) (outcome : Down) : Bool :=
  isDeviceReady d && outcome == .acquired && accepts d r memory

/-- `log_item_to_storage` appends the record whole or leaves the queue as it is. -/
theorem logItem_simulates {base size : Nat} {d : Device} {q : QueueState size}
    (rep : Represents base size d q) (r : LogRecord) (memory : Option (Nat → Byte))
    (outcome : Down) :
    ∃ d', logItemToStorage d r.header r.path r.details memory outcome = .ok d' ∧
      if stores d r memory outcome then
        Represents base size d' { q with queue := q.queue.push r.bytes } ∧
          (q.queue.push r.bytes).items = q.queue.items ++ r.bytes ∧
          fullSize r.path r.details ≤ KMALLOC_MAX_SIZE
      else Represents base size d' q := by
  unfold logItemToStorage stores
  by_cases ready : isDeviceReady d = true
  · have q_ready : q.ready = true := rep.ready.symm.trans ready
    simp only [ready, Bool.not_true, Bool.false_eq_true, if_false, Bool.true_and]
    cases got : kmalloc (fullSize r.path r.details) memory with
    | none =>
      have dropped : accepts d r memory = false := by simp [accepts, got]
      exact ⟨d, rfl, by simpa [dropped] using rep⟩
    | some buff =>
      obtain ⟨small, length⟩ := kmalloc_some got
      dsimp only
      rw [fillBuffer_eq buff r.header r.path r.details length]
      obtain ⟨d', written, rep'⟩ := write_simulates rep r.bytes outcome
      refine ⟨d', written, ?_⟩
      cases outcome with
      | interrupted => exact rep'
      | acquired =>
        have fits_iff := accepts_iff rep r buff memory got
        rw [queueStep, if_pos q_ready] at rep'
        by_cases fits : q.queue.items.length + r.bytes.length ≤ size - 1
        · rw [fits_iff.mpr fits]
          exact ⟨rep', BoundedQueue.push_items_of_fits _ _ fits, small⟩
        · have dropped : accepts d r memory = false := by
            rw [Bool.eq_false_iff]
            exact fun yes => fits (fits_iff.mp yes)
          rw [dropped]
          rw [BoundedQueue.push_of_full _ _ (by omega)] at rep'
          exact rep'
  · rw [Bool.not_eq_true] at ready
    exact ⟨d, by simp [ready], by simpa [ready] using rep⟩

theorem log_framed {base size : Nat} {s : Session} {q : QueueState size}
    {done pending : List LogRecord} (framed : Framed base size s q done pending) (r : LogRecord)
    (memory : Option (Nat → Byte)) :
    ∃ s' q' pending', sessionStep s (.log r memory) = .ok s' ∧
      Framed base size s' q' done pending' ∧ s'.phase = s.phase := by
  have ready : isDeviceReady s.device = true := framed.rep.ready.trans framed.ready
  obtain ⟨d', stored, rep'⟩ := logItem_simulates framed.rep r memory .acquired
  have step : sessionStep s (.log r memory) = .ok
      ⟨d', s.phase, if accepts s.device r memory then s.accepted ++ [r] else s.accepted,
        s.obtained⟩ := by
    simp [sessionStep, stored, bind, Except.bind, pure, Except.pure]
  simp only [stores, ready, Bool.true_and, beq_self_eq_true] at rep'
  cases accepted : accepts s.device r memory with
  | true =>
    simp only [accepted, if_true] at rep' step
    obtain ⟨rep', appended, small⟩ := rep'
    refine ⟨_, _, pending ++ [r], step, ⟨rep', framed.ready, ?_, ?_, framed.delivered, ?_⟩, rfl⟩
    · rw [framed.split, List.append_assoc]
    · intro x member
      rcases List.mem_append.mp member with old | new
      · exact framed.small x old
      · rwa [List.mem_singleton.mp new]
    · dsimp only
      rw [appended]
      exact framed.waiting.append r
  | false =>
    simp only [accepted, Bool.false_eq_true, if_false] at rep' step
    exact ⟨_, q, pending, step,
      ⟨rep', framed.ready, framed.split, framed.small, framed.delivered, framed.waiting⟩, rfl⟩

/-- Reading at an empty ring leaves everything as it was. -/
theorem readHeader_empty {base size : Nat} {d : Device} {q : QueueState size}
    (rep : Represents base size d q) (empty : q.queue.items = []) :
    ∃ d' q', readHeader d .complete .acquired = .ok (d', .noData) ∧
      Represents base size d' q' ∧ q'.queue.items = [] ∧ q'.ready = q.ready := by
  obtain ⟨d', result, read, answer, rep'⟩ := read_simulates rep LogHeader.size .acquired
  simp only [queueStep, BoundedQueue.pop_fst, Answer.bytes.injEq] at answer
  subst answer
  refine ⟨d', _, ?_, rep', by simp [queueStep, empty], rfl⟩
  simp [readHeader, read, empty, bind, Except.bind, pure, Except.pure]

/-- At the start of a record `ReadHeader` gets its header, whole. -/
theorem readHeader_record {base size : Nat} {d : Device} {q : QueueState size}
    (rep : Represents base size d q) (r : LogRecord) (tail : List Byte)
    (front : q.queue.items = r.sent.toBytes ++ tail) :
    ∃ d' q', readHeader d .complete .acquired = .ok (d', .header r.sent) ∧
      Represents base size d' q' ∧ q'.queue.items = tail ∧ q'.ready = q.ready := by
  have image : r.sent.toBytes.length = LogHeader.size := LogHeader.toBytes_length _
  have full : min LogHeader.size q.queue.items.length = LogHeader.size := by
    rw [front, List.length_append, image]; omega
  have head : q.queue.items.take LogHeader.size = r.sent.toBytes := by
    rw [front, List.take_left' image]
  have decoded : LogHeader.ofBytes r.sent.toBytes = r.sent := by
    simpa using LogHeader.ofBytes_toBytes r.sent []
  have some_data : (LogHeader.size : Int) ≠ 0 := by decide
  obtain ⟨d', result, read, answer, rep'⟩ := read_simulates rep LogHeader.size .acquired
  simp only [queueStep, BoundedQueue.pop_fst, Answer.bytes.injEq, full, head] at answer
  subst answer
  refine ⟨d', _, ?_, rep', ?_, rfl⟩
  · simp only [readHeader, read, bind, Except.bind, if_neg some_data, ne_eq, not_true_eq_false,
      if_false, decoded, pure, Except.pure]
  · show q.queue.items.drop LogHeader.size = _
    rw [front, List.drop_left' image]

/-- Behind its header `ReadContent` gets the record's body, whole, and finds in it the
two strings. -/
theorem readContent_record {base size : Nat} {d : Device} {q : QueueState size}
    (rep : Represents base size d q) (r : LogRecord) (tail : List Byte)
    (small : fullSize r.path r.details ≤ KMALLOC_MAX_SIZE)
    (front : q.queue.items = r.body ++ tail) :
    ∃ d' q', readContent d r.sent.contentSize r.sent.pathOffset r.sent.detailsOffset true
        .complete .acquired = .ok (d', some ⟨r.body, text r.path, text r.details⟩) ∧
      Represents base size d' q' ∧ q'.queue.items = tail ∧ q'.ready = q.ready := by
  obtain ⟨count, positive, body_pos⟩ := contentSize_toInt r small
  have not_empty : ¬ (r.body.length : Int) ≤ 0 := by omega
  have full : min r.body.length q.queue.items.length = r.body.length := by
    rw [front, List.length_append]; omega
  have head : q.queue.items.take r.body.length = r.body := by rw [front, List.take_left]
  have path_read : stringAt r.body = .ok (text r.path) := stringAt_stringBytes r.path _
  have behind : r.body.drop ((text r.path).length + 1) = stringBytes r.details := by
    rw [text_length, ← stringBytes_length r.path, LogRecord.body, List.drop_left]
  have details_read : stringAt (stringBytes r.details) = .ok (text r.details) := by
    simpa using stringAt_stringBytes r.details []
  obtain ⟨d', result, read, answer, rep'⟩ := read_simulates rep r.body.length .acquired
  simp only [queueStep, BoundedQueue.pop_fst, Answer.bytes.injEq, full, head] at answer
  subst answer
  refine ⟨d', _, ?_, rep', ?_, rfl⟩
  · simp only [readContent, positive, if_neg not_empty, Bool.not_true, Bool.false_eq_true,
      if_false, count, read, bind, Except.bind, ne_eq, not_true_eq_false, path_read, behind,
      details_read, pure, Except.pure]
  · show q.queue.items.drop r.body.length = _
    rw [front, List.drop_left]

/-- How many reads the reader still needs. -/
def readsLeft (pending : List LogRecord) : Phase → Nat
  | .wantHeader => 2 * pending.length
  | .wantContent _ => 2 * pending.length - 1
  | .stopped => 0

theorem read_framed {base size : Nat} {s : Session} {q : QueueState size}
    {done pending : List LogRecord} (framed : Framed base size s q done pending)
    (malloc : Bool) :
    ∃ s' q' done' pending', sessionStep s (.read malloc) = .ok s' ∧
      Framed base size s' q' done' pending' ∧ s'.accepted = s.accepted ∧
      (malloc = true → s.phase ≠ .stopped → s'.phase ≠ .stopped ∧
        readsLeft pending' s'.phase = readsLeft pending s.phase - 1) := by
  obtain ⟨d, phase, accepted, obtained⟩ := s
  obtain ⟨rep, ready, split, small, delivered, waiting⟩ := framed
  cases phase with
  | stopped =>
    exact ⟨⟨d, .stopped, accepted, obtained⟩, q, done, pending,
      by simp [sessionStep, readerStep, bind, Except.bind, pure, Except.pure],
      ⟨rep, ready, split, small, delivered, waiting⟩, rfl, fun _ no => absurd rfl no⟩
  | wantHeader =>
    have same : q.queue.items = pending.flatMap LogRecord.bytes := waiting
    cases pending with
    | nil =>
      obtain ⟨d', q', read, rep', empty, ready'⟩ := readHeader_empty rep same
      refine ⟨⟨d', .wantHeader, accepted, obtained⟩, q', done, [], ?_,
        ⟨rep', ready'.trans ready, split, small, delivered, empty⟩, rfl, fun _ _ => ⟨nofun, rfl⟩⟩
      simp [sessionStep, readerStep, read, bind, Except.bind, pure, Except.pure]
    | cons r rest =>
      have front : q.queue.items =
          r.sent.toBytes ++ (r.body ++ rest.flatMap LogRecord.bytes) := by
        rw [same, List.flatMap_cons, r.bytes_eq, List.append_assoc]
      obtain ⟨d', q', read, rep', left, ready'⟩ := readHeader_record rep r _ front
      refine ⟨⟨d', .wantContent r.sent, accepted, obtained⟩, q', done, r :: rest, ?_,
        ⟨rep', ready'.trans ready, split, small, delivered, r, rest, rfl, rfl, left⟩, rfl,
        fun _ _ => ⟨nofun, rfl⟩⟩
      simp [sessionStep, readerStep, read, bind, Except.bind, pure, Except.pure]
  | wantContent h =>
    obtain ⟨r, rest, rfl, rfl, same⟩ := waiting
    cases malloc with
    | false =>
      obtain ⟨-, positive, body_pos⟩ := contentSize_toInt r (small r (by simp))
      have not_empty : ¬ r.sent.contentSize.toInt ≤ 0 := by omega
      refine ⟨⟨d, .stopped, accepted, obtained⟩, q, done, r :: rest, ?_,
        ⟨rep, ready, split, small, delivered, trivial⟩, rfl, nofun⟩
      simp [sessionStep, readerStep, readContent, not_empty, bind, Except.bind, pure, Except.pure]
    | true =>
      obtain ⟨d', q', read, rep', left, ready'⟩ :=
        readContent_record rep r _ (small r (by simp)) same
      refine ⟨⟨d', .wantHeader, accepted,
          obtained ++ [⟨r.sent, ⟨r.body, text r.path, text r.details⟩⟩]⟩, q', done ++ [r], rest, ?_,
        ⟨rep', ready'.trans ready, ?_, fun x member => small x (by simp [member]), ?_, left⟩, rfl,
        fun _ _ => ⟨nofun, by simp [readsLeft]; omega⟩⟩
      · simp [sessionStep, readerStep, read, bind, Except.bind, pure, Except.pure]
      · exact split.trans (by simp)
      · exact List.rel_append delivered (.cons (delivered_of_body r (small r (by simp))) .nil)

/-- Every run of the session keeps the framing invariant, and the reader only stops
when it is out of memory. -/
theorem run_framed {base size : Nat} {s : Session} {q : QueueState size}
    {done pending : List LogRecord} (framed : Framed base size s q done pending)
    (events : List Event) :
    ∃ s' q' done' pending', events.foldlM sessionStep s = .ok s' ∧
      Framed base size s' q' done' pending' ∧
      (.read false ∉ events → s.phase ≠ .stopped → s'.phase ≠ .stopped) := by
  induction events generalizing s q done pending with
  | nil => exact ⟨s, q, done, pending, rfl, framed, fun _ going => going⟩
  | cons e events ih =>
    cases e with
    | log r memory =>
      obtain ⟨t, q', pending', step, framed', phase⟩ := log_framed framed r memory
      obtain ⟨s', q'', done', pending'', ran, framed'', going⟩ := ih framed'
      refine ⟨s', q'', done', pending'', ?_, framed'', fun memory_ok start => ?_⟩
      · simp [List.foldlM_cons, step, ran, bind, Except.bind]
      · exact going (fun no => memory_ok (by simp [no])) (phase ▸ start)
    | read malloc =>
      obtain ⟨t, q', done', pending', step, framed', -, progress⟩ := read_framed framed malloc
      obtain ⟨s', q'', done'', pending'', ran, framed'', going⟩ := ih framed'
      refine ⟨s', q'', done'', pending'', ?_, framed'', fun memory_ok start => ?_⟩
      · simp [List.foldlM_cons, step, ran, bind, Except.bind]
      · have granted : malloc = true := by
          cases malloc with
          | false => simp at memory_ok
          | true => rfl
        exact going (fun no => memory_ok (by simp [no])) (progress granted start).1

/-- A reader that goes on reading gets everything that was accepted. -/
theorem drain {base size : Nat} (n : Nat) {s : Session} {q : QueueState size}
    {done pending : List LogRecord} (framed : Framed base size s q done pending)
    (going : s.phase ≠ .stopped) (enough : readsLeft pending s.phase ≤ n) :
    ∃ t, (List.replicate n (Event.read true)).foldlM sessionStep s = .ok t ∧
      t.accepted = s.accepted ∧ List.Forall₂ Delivered t.accepted t.obtained := by
  induction n generalizing s q done pending with
  | zero =>
    have empty : pending = [] := by
      cases phase : s.phase with
      | stopped => exact absurd phase going
      | wantHeader =>
        rw [phase] at enough
        exact List.eq_nil_of_length_eq_zero (by simpa [readsLeft] using enough)
      | wantContent h =>
        have waiting := framed.waiting
        rw [phase] at waiting enough
        obtain ⟨r, rest, rfl, -, -⟩ := waiting
        simp [readsLeft] at enough
        omega
    refine ⟨s, rfl, rfl, ?_⟩
    rw [framed.split, empty, List.append_nil]
    exact framed.delivered
  | succ n ih =>
    obtain ⟨t, q', done', pending', step, framed', accepted, progress⟩ := read_framed framed true
    obtain ⟨going', fewer⟩ := progress rfl going
    obtain ⟨u, ran, accepted', delivered⟩ := ih framed' going' (by omega)
    refine ⟨u, ?_, accepted'.trans accepted, delivered⟩
    simp [List.replicate_succ, List.foldlM_cons, step, ran, bind, Except.bind]

theorem sessionStart_framed {d : Device} (valid : ValidRing d) (ready : d.deviceReady = true)
    (empty : d.readPtr = d.writePtr) :
    Framed d.cycleBuffer d.cycleBufferSize (sessionStart d) ⟨.empty, true, d.ownerPid⟩ [] [] := by
  refine ⟨⟨valid, rfl, rfl, ?_, ready, rfl⟩, rfl, rfl, nofun, .nil, rfl⟩
  show contents d = []
  simp [contents, getUsedSize, empty]

/-- In every interleaving, what the reader obtained is what was accepted first, in
order and unchanged; with memory for `ReadContent` it never leaves its loop, and from
wherever it is in it, reading on yields every accepted record. -/
theorem session_delivers (d : Device) (valid : ValidRing d) (ready : d.deviceReady = true)
    (empty : d.readPtr = d.writePtr) (events : List Event) :
    ∃ s, events.foldlM sessionStep (sessionStart d) = .ok s ∧
      List.Forall₂ Delivered (s.accepted.take s.obtained.length) s.obtained ∧
      (.read false ∉ events → s.phase ≠ .stopped) ∧
      (s.phase ≠ .stopped → ∃ n t, (List.replicate n (Event.read true)).foldlM sessionStep s = .ok t ∧
        t.accepted = s.accepted ∧ List.Forall₂ Delivered t.accepted t.obtained) := by
  obtain ⟨s, q, done, pending, ran, framed, going⟩ :=
    run_framed (sessionStart_framed valid ready empty) events
  have first : s.accepted.take s.obtained.length = done := by
    rw [framed.split, ← framed.delivered.length_eq, List.take_left]
  refine ⟨s, ran, ?_, fun memory_ok => going memory_ok nofun, fun in_loop => ?_⟩
  · rw [first]
    exact framed.delivered
  · exact ⟨readsLeft pending s.phase, drain _ framed in_loop le_rfl⟩

/-- A ring of sixty-four bytes whose pointers stand at its sixtieth byte, so that the
header of the first record already straddles the end. -/
def straddling : Device where
  sem := 1
  deviceReady := true
  cycleBufferSize := 64
  readPtr := 4096 + 60
  writePtr := 4096 + 60
  cycleBuffer := 4096
  ring := List.replicate 64 0
  ownerPid := 7

def sampleRecord : LogRecord where
  header := ⟨1, 2, 3, 4, 5, 6, 7, 0, 0, 0⟩
  path := some ⟨[97, 98], by decide, by decide⟩
  details := none

/-- One record written to the straddling ring, read, and a second one dropped in
between for lack of room. -/
theorem session_delivers_straddling :
    ValidRing straddling ∧ straddling.deviceReady = true ∧
    straddling.readPtr = straddling.writePtr ∧
    ∃ s, [Event.log sampleRecord (some fun _ => 9), .read true, .log sampleRecord (some fun _ => 9),
        .log sampleRecord (some fun _ => 9), .read true].foldlM sessionStep
          (sessionStart straddling) = .ok s ∧
      List.Forall₂ Delivered (s.accepted.take s.obtained.length) s.obtained := by
  have valid : ValidRing straddling := ⟨by decide, by decide, by decide, by decide, by decide,
    by decide⟩
  obtain ⟨s, ran, delivered, -⟩ := session_delivers straddling valid rfl rfl
    [.log sampleRecord (some fun _ => 9), .read true, .log sampleRecord (some fun _ => 9),
      .log sampleRecord (some fun _ => 9), .read true]
  exact ⟨valid, rfl, rfl, s, ran, delivered⟩

end SysMonitor.Guarantees.RecordDelivery
