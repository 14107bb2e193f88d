import SysMonitor.Guarantees.FilterMemory
import SysMonitor.Guarantees.RecordDelivery
import SysMonitor.Source.ContentMemory
import SysMonitor.Source.MainLoop

/-!
# What the reader prints, from the driver's records to the output

The loop of `main` with its memory does what the reader does with its lists: every record that
`ReadContent` gets is printed as the accepted filters say, and its block is freed. Together with
record delivery, the output is that of the records that the driver put into the ring, in their
order.
-/

namespace SysMonitor.Guarantees.MainOutput
open SysMonitor.Library SysMonitor.Library.CyclicBuffer
open SysMonitor.Library.BlockHeap (Owns Changes Rewrites Borrows ne_null)
open SysMonitor.Library.ResumableSearch (Settles settles_of_eq)
open SysMonitor.Source SysMonitor.Source.Interface SysMonitor.Source.Reader
open SysMonitor.Source.FilterMemory SysMonitor.Source.MainLoop
open SysMonitor.Source.Filter (FilterItem World)
open SysMonitor.Source.ReaderOutput (printRecord composeLine)
open SysMonitor.Source.ReaderStrings (UserString)
open SysMonitor.Guarantees.FilterMemory

section Content

variable {d d' : Device}

theorem readStraight_fits {min copyed uncopied : Nat} {delivered : List Byte} {result : ReadResult}
    (read : readStraight d min copyed delivered uncopied = .ok (d', result)) :
    result.delivered.length ≤ delivered.length + min := by
  unfold readStraight at read
  split at read
  · obtain ⟨bytes, stored, read⟩ := bind_eq_ok read
    cases read
    dsimp only
    rw [List.length_append, List.length_take, ringBytes_length stored]
    omega
  · cases read
    exact Nat.le_add_right _ _

/-- A read stores no more than it was asked for. -/
theorem readLocked_fits {count : Nat} {user : UserCopy} {result : ReadResult}
    (read : readLocked d count user = .ok (d', result)) : result.delivered.length ≤ count := by
  unfold readLocked at read
  dsimp only at read
  have below : (if count > getUsedSize d then getUsedSize d else count) ≤ count := by
    split <;> omega
  generalize (if count > getUsedSize d then getUsedSize d else count) = min at read below
  generalize d.cycleBufferSize - (d.readPtr - d.cycleBuffer) = firstSize at read
  by_cases empty : d.readPtr = d.writePtr
  · rw [if_pos empty] at read
    cases read
    exact Nat.zero_le count
  rw [if_neg empty] at read
  by_cases across : d.readPtr > d.writePtr ∧ firstSize ≤ min
  · rw [if_pos across] at read
    by_cases none : firstSize = 0
    · rw [if_pos none] at read
      cases read
    · rw [if_neg none] at read
      obtain ⟨bytes, first, read⟩ := bind_eq_ok read
      have length := ringBytes_length first
      split at read
      · have fits := readStraight_fits read
        omega
      · cases read
        dsimp only
        rw [List.length_take, length]
        omega
  · rw [if_neg across] at read
    have fits := readStraight_fits read
    rw [List.length_nil] at fits
    omega

theorem interfaceRead_fits {count : Nat} {user : UserCopy} {down : Down} {result : ReadResult}
    (read : interfaceRead d count user down = .ok (d', result)) : result.delivered.length ≤ count := by
  cases down with
  | interrupted =>
    cases read
    exact Nat.zero_le count
  | acquired =>
    obtain ⟨⟨e, result'⟩, locked, read⟩ := bind_eq_ok read
    cases read
    exact readLocked_fits locked

theorem copyToUser_spec {h : ReaderHeap} {p : Ptr} {bytes delivered : List Byte}
    (here : h.block p = some (.chars bytes)) (fits : delivered.length ≤ bytes.length) :
    ∃ h', copyToUser h p delivered = .ok h' ∧
      Rewrites h h' p (.chars (splice bytes 0 delivered)) := by
  refine ⟨h.store p (.chars (splice bytes 0 delivered)), ?_, Rewrites.store (by simp [here]) _⟩
  rw [copyToUser, readBytes_live here]
  show (if delivered.length ≤ bytes.length then _ else _) = _
  rw [if_pos fits]
  rfl

/-- The content size that `ReadContent` goes on with is its value as an `int`. -/
theorem toInt_of_positive {contentSize : Word} (positive : ¬ contentSize.toInt ≤ 0) :
    contentSize.toInt = contentSize.toNat := by
  have cases := BitVec.toInt_eq_toNat_cond contentSize
  have bound := contentSize.isLt
  split at cases <;> omega

/-- What is stored over the whole block is all that it holds. -/
theorem splice_whole {bytes delivered : List Byte} (length : delivered.length = bytes.length) :
    splice bytes 0 delivered = delivered := by
  simp [splice, length]

/-- `ReadContent` in memory does what it does with lists, and keeps its block only for a record. -/
theorem readContent_spec {h : ReaderHeap} {mine : List Nat} (owns : Owns h mine)
    (d : Device) (contentSize pathOffset detailsOffset : Word) (outcome : Option (Nat → Byte))
    (user : UserCopy) (down : Down) :
    match Reader.readContent d contentSize pathOffset detailsOffset outcome.isSome user down with
    | .error fault =>
      MainLoop.readContent h d contentSize pathOffset detailsOffset outcome user down = .error fault
    | .ok (d', none) => ∃ h',
      MainLoop.readContent h d contentSize pathOffset detailsOffset outcome user down
        = .ok (d', h', none) ∧ Borrows h h' mine []
    | .ok (d', some content) => ∃ h' block,
      MainLoop.readContent h d contentSize pathOffset detailsOffset outcome user down
        = .ok (d', h', some (block, content.path.length + 1)) ∧
      Borrows h h' mine [block] ∧ h'.block block = some (.chars content.inner) ∧
      stringAt content.inner = .ok content.path ∧
      stringAt (content.inner.drop (content.path.length + 1)) = .ok content.details := by
  have borrows := Borrows.refl owns
  rw [Reader.readContent, MainLoop.readContent]
  by_cases empty : contentSize.toInt ≤ 0
  · rw [if_pos empty, if_pos empty]
    exact ⟨h, rfl, borrows⟩
  rw [if_neg empty, if_neg empty]
  cases outcome with
  | none => exact ⟨h, rfl, borrows⟩
  | some garbage =>
    obtain ⟨block, h₁, given, real, room, borrows₁, -⟩ := malloc_spec borrows
      (.chars ((List.range contentSize.toNat).map garbage))
    simp only [Option.isSome_some, Bool.not_true, Bool.false_eq_true, if_false, mallocChars,
      Option.map_some, given, if_neg real, bind, Except.bind, pure, Except.pure]
    cases read : interfaceRead d contentSize.toNat user down with
    | error fault => rfl
    | ok delivery =>
      obtain ⟨d₁, result⟩ := delivery
      have fits := interfaceRead_fits read
      obtain ⟨h₂, copied, rewrites⟩ := copyToUser_spec room
        (fits.trans (Nat.le_of_eq (garbage_length _ garbage).symm))
      have borrows₂ := borrows₁.rewrite List.mem_cons_self rewrites
      dsimp only
      rw [copied]
      dsimp only
      by_cases short : result.returned ≠ contentSize.toInt
      · have freed := free_live (borrows₂.changes.owns.live block (by simp))
        rw [if_pos short, if_pos short, freed]
        exact ⟨_, rfl, borrows₂.release⟩
      rw [if_neg short, if_neg short]
      have length : result.delivered.length = contentSize.toNat := by
        have size := toInt_of_positive empty
        have counted := interfaceRead_counts read (by omega)
        omega
      rw [splice_whole (length.trans (garbage_length _ garbage).symm)] at rewrites
      rw [stringIn_live rewrites.here, List.drop_zero]
      cases path : stringAt result.delivered with
      | error fault => rfl
      | ok first =>
        dsimp only
        rw [stringIn_live rewrites.here]
        cases details : stringAt (result.delivered.drop (first.length + 1)) with
        | error fault => rfl
        | ok second => exact ⟨h₂, block, rfl, borrows₂, rewrites.here, path, details⟩

end Content

/-- The reader without its memory: how many records it got, and what it printed. -/
structure ReaderState where
  device : Device
  phase : Phase
  records : Nat
  printed : List Byte

def readerStart (device : Device) : ReaderState := ⟨device, .wantHeader, 0, []⟩

def view (s : MainState) : ReaderState := ⟨s.device, s.phase, s.records, s.printed⟩

section Loop

variable (worlds : Nat → Nat → World) (rules : List FilterItem)

theorem contains_eq_false_iff {string : List Byte} : string.contains 0 = false ↔ 0 ∉ string := by
  rw [← List.contains_iff_mem, Bool.eq_false_iff]

/-- What is printed of the record with this number. -/
def printObtained (k : Nat) (o : Obtained) : Except Fault (List Byte) :=
  if free : o.content.path.contains 0 = false ∧ o.content.details.contains 0 = false then
    printRecord (worlds k) rules ⟨o.header, o.content.path, o.content.details,
      contains_eq_false_iff.mp free.1, contains_eq_false_iff.mp free.2⟩
  else throw .outOfBounds

theorem printObtained_free (k : Nat) (o : Obtained) (path : 0 ∉ o.content.path)
    (details : 0 ∉ o.content.details) :
    printObtained worlds rules k o = printRecord (worlds k) rules
      ⟨o.header, o.content.path, o.content.details, path, details⟩ :=
  dif_pos ⟨contains_eq_false_iff.mpr path, contains_eq_false_iff.mpr details⟩

/-- The rest of a step, when the `read` led to a record or to none. -/
def readerGets (s : ReaderState) (device : Device) (phase : Phase) :
    Option Obtained → Except Fault ReaderState
  | none => return { s with device, phase }
  | some o => do
    let line ← printObtained worlds rules s.records o
    return ⟨device, phase, s.records + 1, s.printed ++ line⟩

/-- A step of the loop over the list of the rules. -/
def readerNext (s : ReaderState) (event : MainEvent) : Except Fault ReaderState :=
  match event with
  | .log header path details memory down => do
    let device ← LogStorage.logItemToStorage s.device header path details memory down
    return { s with device }
  | .read outcome user down => do
    let (device, phase, got) ← readerStep s.device s.phase outcome.isSome user down
    readerGets worlds rules s device phase got

variable {rules} {items : List (Ptr × Ptr)} {s : MainState}

/-- The loop over the memory goes as the loop over the list, and keeps the filters and no block
besides theirs. -/
def Refines (s : MainState) (items : List (Ptr × Ptr)) (rules : List FilterItem)
    (call : Nat → Option (Except Fault MainState)) (result : Except Fault ReaderState) : Prop :=
  ∃ reached, Settles call reached ∧ reached.map view = result ∧
    ∀ s', reached = .ok s' → Holds s'.filters items rules ∧
      Changes s.filters.heap s'.filters.heap (blocks items) (blocks items)

theorem refines_error {call : Nat → Option (Except Fault MainState)} {fault : Fault}
    (always : ∀ fuel, call fuel = some (.error fault)) : Refines s items rules call (.error fault) :=
  ⟨.error fault, settles_of_eq always, rfl, nofun⟩

/-- A step that leaves the filters as they are. -/
theorem refines_same (s' : MainState) {call : Nat → Option (Except Fault MainState)}
    (holds : Holds s.filters items rules) (always : ∀ fuel, call fuel = some (.ok s'))
    (same : s'.filters = s.filters) : Refines s items rules call (.ok (view s')) := by
  refine ⟨.ok s', settles_of_eq always, rfl, fun t reached => ?_⟩
  obtain rfl := Except.ok.inj reached
  rw [same]
  exact ⟨holds, Changes.refl holds.owns⟩

theorem recordAt_live {h : ReaderHeap} {header : LogHeader} {block start : Nat}
    {path details : List Byte} (first : stringIn h block 0 = .ok path)
    (second : stringIn h block start = .ok details) :
    recordAt h header (block, start) = .ok ⟨header, path, details, stringIn_nulFree first,
      stringIn_nulFree second⟩ := by
  unfold recordAt
  split
  · rename_i path' details' pathFound detailsFound
    obtain rfl := Except.ok.inj (first.symm.trans pathFound)
    obtain rfl := Except.ok.inj (second.symm.trans detailsFound)
    rfl
  · rename_i failed
    cases first.symm.trans failed
  · rename_i failed _
    cases second.symm.trans failed

/-- The line of a record is that of the list of the rules. -/
theorem showRecord_settles {filters : Filters} (holds : Holds filters items rules) (k : Nat)
    (r : Filter.LogRecord) :
    Settles (showRecord (worlds k) (worlds k rules.length) filters r)
      (printRecord (worlds k) rules r) := by
  have decided : Settles (filterLog (worlds k) filters r) (Filter.filterLog (worlds k) rules r) :=
    filterFrom_spec holds.each holds.linked.path holds.linked.nonnull (worlds k) _
  exact decided.map _

/-- What `main` does with a record that it has got. -/
theorem finishRecord_refines {t : MainState} {heap : ReaderHeap} {block : Ptr} {o : Obtained}
    (holds : Holds s.filters items rules) (borrows : Borrows s.filters.heap heap (blocks items) [block])
    (filters : t.filters = { s.filters with heap })
    (content : heap.block block = some (.chars o.content.inner))
    (path : stringAt o.content.inner = .ok o.content.path)
    (details : stringAt (o.content.inner.drop (o.content.path.length + 1)) = .ok o.content.details) :
    Refines s items rules
      (finishRecord worlds (fun k => worlds k rules.length) t o.header
        (block, o.content.path.length + 1))
      (do
        let line ← printObtained worlds rules t.records o
        return ⟨t.device, .wantHeader, t.records + 1, t.printed ++ line⟩) := by
  obtain ⟨device, filters', phase, records, printed⟩ := t
  dsimp only at filters
  subst filters
  have holds' : Holds { s.filters with heap } items rules := holds.borrowed borrows
  have first : stringIn heap block 0 = .ok o.content.path := by
    rw [stringIn_live content, List.drop_zero, path]
  have second : stringIn heap block (o.content.path.length + 1) = .ok o.content.details := by
    rw [stringIn_live content, details]
  have free := And.intro (stringIn_nulFree first) (stringIn_nulFree second)
  let record : Filter.LogRecord := ⟨o.header, o.content.path, o.content.details, free.1, free.2⟩
  have shown := showRecord_settles worlds holds' records record
  have released := borrows.release
  have freed := free_live (borrows.changes.owns.live block (by simp))
  have finished : Settles
      (finishRecord worlds (fun k => worlds k rules.length)
        ⟨device, { s.filters with heap }, phase, records, printed⟩ o.header
        (block, o.content.path.length + 1))
      (do
        let line ← printRecord (worlds records) rules record
        let heap ← FilterMemory.free heap block
        return ⟨device, { s.filters with heap }, .wantHeader, records + 1, printed ++ line⟩) := by
    unfold finishRecord
    rw [recordAt_live first second]
    exact shown.map _
  have same : printObtained worlds rules records o = printRecord (worlds records) rules record :=
    printObtained_free worlds rules records o free.1 free.2
  dsimp only
  rw [freed] at finished
  rw [same]
  cases printing : printRecord (worlds records) rules record with
  | error fault =>
    rw [printing] at finished
    exact ⟨_, finished, rfl, nofun⟩
  | ok line =>
    rw [printing] at finished
    refine ⟨_, finished, rfl, fun t reached => ?_⟩
    obtain rfl := Except.ok.inj reached
    exact ⟨holds.borrowed released, released.changes⟩

/-- A step of the loop. -/
theorem mainStep_refines (holds : Holds s.filters items rules) (event : MainEvent) :
    Refines s items rules (mainStep worlds (fun k => worlds k rules.length) s event)
      (readerNext worlds rules (view s) event) := by
  obtain ⟨device, filters, phase, records, printed⟩ := s
  cases event with
  | log header path details memory down =>
    show Refines _ items rules _
      (LogStorage.logItemToStorage device header path details memory down >>= _)
    cases logged : LogStorage.logItemToStorage device header path details memory down with
    | error fault => exact refines_error fun _ => by simp only [mainStep, logged]; rfl
    | ok device' =>
      exact refines_same ⟨device', filters, phase, records, printed⟩ holds
        (fun _ => by simp only [mainStep, logged]; rfl) rfl
  | read outcome user down =>
    cases phase with
    | stopped => exact refines_same _ holds (fun _ => rfl) rfl
    | wantHeader =>
      cases header : readHeader device user down with
      | error fault =>
        simp only [readerNext, readerStep, view, header, bind, Except.bind]
        exact refines_error fun _ => by simp only [mainStep, header]; rfl
      | ok answer =>
        obtain ⟨device', result⟩ := answer
        simp only [readerNext, readerStep, view, header, bind, Except.bind, pure, Except.pure]
        cases result with
        | noData =>
          exact refines_same ⟨device', filters, .wantHeader, records, printed⟩ holds
            (fun _ => by simp only [mainStep, header]; rfl) rfl
        | failed =>
          exact refines_same ⟨device', filters, .stopped, records, printed⟩ holds
            (fun _ => by simp only [mainStep, header]; rfl) rfl
        | header h =>
          exact refines_same ⟨device', filters, .wantContent h, records, printed⟩ holds
            (fun _ => by simp only [mainStep, header]; rfl) rfl
    | wantContent header =>
      have got := readContent_spec holds.owns device header.contentSize header.pathOffset
        header.detailsOffset outcome user down
      simp only [readerNext, readerStep, view, bind, Except.bind, pure, Except.pure]
      cases content : Reader.readContent device header.contentSize header.pathOffset
          header.detailsOffset outcome.isSome user down with
      | error fault =>
        rw [content] at got
        exact refines_error fun _ => by simp only [mainStep, got]
      | ok answer =>
        obtain ⟨device', found⟩ := answer
        rw [content] at got
        cases found with
        | none =>
          obtain ⟨heap, read, borrows⟩ := got
          refine ⟨_, settles_of_eq fun _ => by simp only [mainStep, read]; rfl, rfl, fun t reached => ?_⟩
          obtain rfl := Except.ok.inj reached
          exact ⟨holds.borrowed borrows, borrows.changes⟩
        | some found =>
          obtain ⟨heap, block, read, borrows, inner, path, details⟩ := got
          let t : MainState := ⟨device', { filters with heap }, .wantContent header, records, printed⟩
          have finished := finishRecord_refines (t := t) (o := ⟨header, found⟩) worlds holds borrows
            rfl inner path details
          have same : mainStep worlds (fun k => worlds k rules.length)
              ⟨device, filters, .wantContent header, records, printed⟩ (.read outcome user down)
            = finishRecord worlds (fun k => worlds k rules.length) t header
              (block, found.path.length + 1) := funext fun _ => by simp only [mainStep, read, t]
          rw [same]
          exact finished

theorem mainRun_refines (holds : Holds s.filters items rules) (events : List MainEvent) :
    Refines s items rules (mainRun worlds (fun k => worlds k rules.length) s events)
      (events.foldlM (readerNext worlds rules) (view s)) := by
  induction events generalizing s with
  | nil => exact refines_same _ holds (fun _ => rfl) rfl
  | cons event events ih =>
    obtain ⟨reached, settled, same, kept⟩ := mainStep_refines worlds holds event
    rw [List.foldlM_cons, ← same]
    cases reached with
    | error fault =>
      exact ⟨.error fault, settled.bind (settles_of_eq fun _ => rfl), rfl, nofun⟩
    | ok t =>
      obtain ⟨holds', changes⟩ := kept t rfl
      obtain ⟨reached', settled', same', kept'⟩ := ih holds'
      refine ⟨reached', settled.bind settled', same', fun u ended => ?_⟩
      obtain ⟨holds'', changes'⟩ := kept' u ended
      exact ⟨holds'', changes.trans changes'⟩

end Loop

section Start

theorem addFilters_start (calls : List (UserString × Mallocs)) :
    ∃ filters items, Settles (addFilters .empty calls) (.ok filters) ∧
      Holds filters items (calls.filterMap fun call => accepted call.1 call.2) ∧
      ∀ p, filters.heap.block p ≠ none → p ∈ blocks items := by
  obtain ⟨filters, items, added, holds, changes⟩ := addFilters_spec empty_holds calls
  rw [List.nil_append] at holds
  refine ⟨filters, items, added, holds, fun p live => ?_⟩
  exact changes.tight p (.inr (Nat.pos_of_ne_zero (ne_null live))) live

variable (worlds : Nat → Nat → World) (calls : List (UserString × Mallocs)) (device : Device)

/-- Whatever is written meanwhile, whichever calls are interrupted, come short or find no memory:
the loop of `main` comes to the end that the loop over the list of the accepted rules comes to, the
linked list still holds these rules, and there is no block left but their items and values. -/
theorem main_refines (events : List MainEvent) :
    let rules := calls.filterMap fun call => accepted call.1 call.2
    ∃ filters items reached, Settles (addFilters .empty calls) (.ok filters) ∧
      Settles (mainRun worlds (fun k => worlds k rules.length) (mainStart device filters) events)
        reached ∧
      reached.map view = events.foldlM (readerNext worlds rules) (readerStart device) ∧
      items.length = rules.length ∧ (blocks items).Nodup ∧
      ∀ s, reached = .ok s → Holds s.filters items rules ∧
        ∀ p, s.filters.heap.block p ≠ none ↔ p ∈ blocks items := by
  intro rules
  obtain ⟨filters, items, added, holds, tight⟩ := addFilters_start calls
  obtain ⟨reached, settled, same, kept⟩ :=
    mainRun_refines (s := mainStart device filters) worlds holds events
  refine ⟨filters, items, reached, added, settled, same, holds.each.length_eq, holds.owns.nodup, ?_⟩
  intro s ended
  obtain ⟨holds', changes⟩ := kept s ended
  refine ⟨holds', fun p => ⟨fun live => ?_, holds'.owns.live p⟩⟩
  by_cases old : p ∈ blocks items
  · exact old
  by_cases fresh : filters.heap.fresh ≤ p
  · exact changes.tight p (.inr fresh) live
  · rw [changes.others p (Nat.lt_of_not_le fresh) old] at live
    exact tight p live

end Start

section Delivery

open SysMonitor.Guarantees.RecordDelivery SysMonitor.Guarantees.RingQueue

/-- A read is not interrupted, and its `copy_to_user` is complete. -/
def Undisturbed : MainEvent → Prop
  | .log _ _ _ _ _ => True
  | .read _ user down => user = .complete ∧ down = .acquired

/-- A `log_item_to_storage` that is interrupted stores as little as one without memory. -/
def sessionEvent : MainEvent → Event
  | .log header path details memory down =>
    .log ⟨header, path, details⟩ (if down = .acquired then memory else none)
  | .read outcome _ _ => .read outcome.isSome

theorem logItemToStorage_interrupted (d : Device) (header : LogHeader) (path details : Option CString)
    (memory : Option (Nat → Byte)) (down : Down) :
    LogStorage.logItemToStorage d header path details memory down
      = LogStorage.logItemToStorage d header path details (if down = .acquired then memory else none)
          .acquired := by
  cases down with
  | acquired => rfl
  | interrupted =>
    rw [if_neg (by decide)]
    unfold LogStorage.logItemToStorage
    cases LogStorage.kmalloc (LogStorage.fullSize path details) memory with
    | none => simp [LogStorage.kmalloc]
    | some buff => simp [writeToInterface, LogStorage.kmalloc]

theorem text_nulFree (s : Option CString) : 0 ∉ text s := by
  cases s with
  | none => exact List.not_mem_nil
  | some s => exact s.nulFree

/-- A record as it was handed to `log_item_to_storage`. -/
def logged (r : RecordDelivery.LogRecord) : Filter.LogRecord :=
  ⟨r.header, text r.path, text r.details, text_nulFree r.path, text_nulFree r.details⟩

variable (worlds : Nat → Nat → World) (rules : List FilterItem)

/-- What is printed of the records from this number on; the first that goes wrong is the end. -/
def printRecords : Nat → List Filter.LogRecord → Except Fault (List Byte)
  | _, [] => .ok []
  | k, r :: rest => do
    let line ← printRecord (worlds k) rules r
    let lines ← printRecords (k + 1) rest
    return line ++ lines

theorem printRecords_append (k : Nat) (before after : List Filter.LogRecord) :
    printRecords worlds rules k (before ++ after) = (do
      let lines ← printRecords worlds rules k before
      let more ← printRecords worlds rules (k + before.length) after
      return lines ++ more) := by
  induction before generalizing k with
  | nil =>
    simp only [List.nil_append, List.length_nil, Nat.add_zero, printRecords, bind, Except.bind]
    cases printRecords worlds rules k after <;> rfl
  | cons r before ih =>
    have place : k + 1 + before.length = k + (r :: before).length := by
      rw [List.length_cons]
      omega
    simp only [List.cons_append, printRecords, ih, place, bind, Except.bind, pure, Except.pure]
    cases printRecord (worlds k) rules r with
    | error fault => rfl
    | ok line =>
      dsimp only
      cases printRecords worlds rules (k + 1) before with
      | error fault => rfl
      | ok lines =>
        dsimp only
        cases printRecords worlds rules (k + (r :: before).length) after with
        | error fault => rfl
        | ok more => simp only [List.append_assoc]

section Fields

variable {r r' : Filter.LogRecord}

/-- The two records differ only in what the filter and the line do not look at. -/
structure SameFields (r r' : Filter.LogRecord) : Prop where
  sec : r.header.sec = r'.header.sec
  nsec : r.header.nsec = r'.header.nsec
  pid : r.header.pid = r'.header.pid
  operation : r.header.operation = r'.header.operation
  api : r.header.api = r'.header.api
  result : r.header.result = r'.header.result
  path : r.path = r'.path
  details : r.details = r'.details

theorem SameFields.filterFrom (same : SameFields r r') (worlds : Nat → World) (result) :
    Filter.filterFrom worlds r rules result = Filter.filterFrom worlds r' rules result := by
  induction rules generalizing worlds result with
  | nil => rfl
  | cons rule rules ih =>
    have one : Filter.filterOneLog (worlds 0) rule r = Filter.filterOneLog (worlds 0) rule r' := by
      simp only [Filter.filterOneLog, same.sec, same.nsec, same.pid, same.operation, same.api,
        same.result, same.path, same.details]
    simp only [Filter.filterFrom, one, ih]

theorem SameFields.printRecord (same : SameFields r r') (worlds : Nat → World) :
    printRecord worlds rules r = printRecord worlds rules r' := by
  have line : composeLine (worlds rules.length) r = composeLine (worlds rules.length) r' := by
    simp only [composeLine, ReaderOutput.lineText, same.sec, same.nsec, same.pid, same.operation,
      same.api, same.result, same.path, same.details]
  rw [ReaderOutput.printRecord, ReaderOutput.printRecord, Filter.filterLog, Filter.filterLog,
    same.filterFrom, line]

end Fields

/-- A record that was delivered prints as it was logged. -/
theorem printObtained_delivered {r : RecordDelivery.LogRecord} {o : Obtained}
    (delivered : Delivered r o) (k : Nat) :
    printObtained worlds rules k o = printRecord (worlds k) rules (logged r) := by
  have free : 0 ∉ o.content.path ∧ 0 ∉ o.content.details := by
    rw [delivered.path, delivered.details]
    exact ⟨text_nulFree r.path, text_nulFree r.details⟩
  rw [printObtained_free worlds rules k o free.1 free.2]
  exact SameFields.printRecord rules ⟨delivered.sec, delivered.nsec, delivered.pid,
    delivered.operation, delivered.api, delivered.result, delivered.path, delivered.details⟩ (worlds k)

theorem printRecords_delivered {more : List RecordDelivery.LogRecord} {got : Option Obtained}
    (delivered : List.Forall₂ Delivered more got.toList) (s : ReaderState) (device : Device)
    (phase : Phase) :
    readerGets worlds rules s device phase got
      = (printRecords worlds rules s.records (more.map logged)).map fun lines =>
        (⟨device, phase, s.records + more.length, s.printed ++ lines⟩ : ReaderState) := by
  cases got with
  | none =>
    obtain rfl := List.forall₂_nil_right_iff.mp delivered
    simp [readerGets, printRecords, Except.map, pure, Except.pure]
  | some o =>
    cases delivered with
    | cons here rest =>
      obtain rfl := List.forall₂_nil_right_iff.mp rest
      rw [readerGets, printObtained_delivered worlds rules here]
      simp only [List.map_cons, List.map_nil, printRecords, bind, Except.bind, pure, Except.pure,
        Except.map, List.length_singleton, List.append_nil]
      cases printRecord (worlds s.records) rules (logged _) <;> rfl

variable {base size : Nat} {s : Session} {q : QueueState size}
  {done pending : List RecordDelivery.LogRecord}

/-- The session goes on to where these many more records were obtained, and the loop over the list
prints them. -/
def Prints (base size : Nat) (done : List RecordDelivery.LogRecord)
    (next : Except Fault Session) (output : List Byte → Except Fault ReaderState) : Prop :=
  ∃ s' q' more pending', next = .ok s' ∧ Framed base size s' q' (done ++ more) pending' ∧
    ∀ printed, output printed
      = (printRecords worlds rules done.length (more.map logged)).map fun lines =>
        ⟨s'.device, s'.phase, done.length + more.length, printed ++ lines⟩

theorem step_prints (framed : Framed base size s q done pending) {event : MainEvent}
    (undisturbed : Undisturbed event) :
    Prints worlds rules base size done (sessionStep s (sessionEvent event)) fun printed =>
      readerNext worlds rules ⟨s.device, s.phase, done.length, printed⟩ event := by
  cases event with
  | log header path details memory down =>
    obtain ⟨s', q', pending', step, framed', phase⟩ := log_framed framed ⟨header, path, details⟩
      (if down = .acquired then memory else none)
    obtain ⟨device, stored, rest⟩ := bind_eq_ok step
    obtain rfl := Except.ok.inj rest
    refine ⟨_, q', [], pending', step, by rwa [List.append_nil], fun printed => ?_⟩
    rw [← logItemToStorage_interrupted] at stored
    simp only [readerNext, stored]
    simp [printRecords, Except.map, bind, Except.bind, pure, Except.pure]
  | read outcome user down =>
    obtain ⟨rfl, rfl⟩ : user = .complete ∧ down = .acquired := undisturbed
    obtain ⟨s', q', done', pending', step, framed', accepted, -⟩ := read_framed framed outcome.isSome
    obtain ⟨⟨device, phase, got⟩, read, rest⟩ := bind_eq_ok step
    obtain rfl := Except.ok.inj rest
    have longer : done.length ≤ done'.length := by
      rw [framed.delivered.length_eq, framed'.delivered.length_eq, List.length_append]
      exact Nat.le_add_right _ _
    have begins : done <+: done' := List.prefix_of_prefix_length_le
      (framed.split ▸ List.prefix_append done pending)
      (accepted ▸ framed'.split ▸ List.prefix_append done' pending') longer
    obtain ⟨more, rfl⟩ := begins
    have delivered : List.Forall₂ Delivered more got.toList := by
      have behind := List.forall₂_drop done.length framed'.delivered
      rwa [List.drop_left, framed.delivered.length_eq, List.drop_left] at behind
    refine ⟨_, q', more, pending', step, framed', fun printed => ?_⟩
    rw [← printRecords_delivered worlds rules delivered
      ⟨s.device, s.phase, done.length, printed⟩ device phase]
    simp only [readerNext, read]
    rfl

theorem run_prints (framed : Framed base size s q done pending) {events : List MainEvent}
    (undisturbed : ∀ event ∈ events, Undisturbed event) :
    Prints worlds rules base size done ((events.map sessionEvent).foldlM sessionStep s) fun printed =>
      events.foldlM (readerNext worlds rules) ⟨s.device, s.phase, done.length, printed⟩ := by
  induction events generalizing s q done pending with
  | nil =>
    refine ⟨s, q, [], pending, rfl, by rwa [List.append_nil], fun printed => ?_⟩
    simp [printRecords, Except.map, pure, Except.pure]
  | cons event events ih =>
    obtain ⟨first, later⟩ := List.forall_mem_cons.mp undisturbed
    obtain ⟨t, q', one, pending', step, framed', stepped⟩ := step_prints worlds rules framed first
    obtain ⟨u, q'', more, pending'', ran, framed'', went⟩ := ih framed' later
    refine ⟨u, q'', one ++ more, pending'', ?_, by rwa [← List.append_assoc], fun printed => ?_⟩
    · simp [step, ran, bind, Except.bind]
    · have stepped := stepped printed
      dsimp only at stepped ⊢
      rw [List.foldlM_cons, stepped, List.map_append, printRecords_append]
      simp only [List.length_map]
      cases printRecords worlds rules done.length (one.map logged) with
      | error fault => rfl
      | ok lines =>
        have further := went (printed ++ lines)
        dsimp only at further
        rw [List.length_append] at further
        refine further.trans ?_
        simp only [bind, Except.bind, List.length_append]
        cases printRecords worlds rules (done.length + one.length) (more.map logged) with
        | error fault => rfl
        | ok rest => simp [Except.map, Nat.add_assoc, pure, Except.pure]

theorem printed_of_view {reached : Except Fault MainState} {lines : Except Fault (List Byte)}
    {shape : List Byte → ReaderState}
    (same : reached.map view = lines.map shape) (keeps : ∀ printed, (shape printed).printed = printed) :
    reached.map (·.printed) = lines := by
  have output := congrArg (Except.map ReaderState.printed) same
  cases reached with
  | error fault =>
    cases lines with
    | error fault' => exact output
    | ok lines => cases output
  | ok s =>
    cases lines with
    | error fault' => cases output
    | ok lines => exact output.trans (congrArg Except.ok (keeps lines))

/-- A run of the monitor from its start: what the session obtained is what is printed. -/
theorem monitor_run {device : Device} (valid : ValidRing device) (ready : device.deviceReady = true)
    (empty : device.readPtr = device.writePtr) (calls : List (UserString × Mallocs))
    {events : List MainEvent} (undisturbed : ∀ event ∈ events, Undisturbed event) :
    let rules := calls.filterMap fun call => accepted call.1 call.2
    ∃ filters session reached, Settles (addFilters .empty calls) (.ok filters) ∧
      (events.map sessionEvent).foldlM sessionStep (sessionStart device) = .ok session ∧
      Settles (mainRun worlds (fun k => worlds k rules.length) (mainStart device filters) events)
        reached ∧
      reached.map view = (printRecords worlds rules 0
        ((session.accepted.take session.obtained.length).map logged)).map fun lines =>
          ⟨session.device, session.phase, session.obtained.length, lines⟩ := by
  intro rules
  obtain ⟨filters, items, added, holds, -⟩ := addFilters_start calls
  obtain ⟨session, q, done, pending, ran, framed, printed⟩ :=
    run_prints worlds rules (sessionStart_framed valid ready empty) undisturbed
  obtain ⟨reached, settled, same, -⟩ :=
    mainRun_refines (s := mainStart device filters) worlds holds events
  rw [List.nil_append] at framed
  have count : done.length = session.obtained.length := framed.delivered.length_eq
  have first : session.accepted.take session.obtained.length = done := by
    rw [framed.split, ← count, List.take_left]
  refine ⟨filters, session, reached, added, ran, settled, ?_⟩
  have went := printed []
  simp only [List.length_nil, Nat.zero_add, List.nil_append, count] at went
  rw [same, first]
  exact went

/-- The output of the monitor. Whatever is written and read, what `main` prints is what the filters
let through of the records that were accepted first, as they were logged; a record whose line goes
wrong is the end. -/
theorem monitor_prints {device : Device} (valid : ValidRing device) (ready : device.deviceReady = true)
    (empty : device.readPtr = device.writePtr) (calls : List (UserString × Mallocs))
    {events : List MainEvent} (undisturbed : ∀ event ∈ events, Undisturbed event) :
    let rules := calls.filterMap fun call => accepted call.1 call.2
    ∃ filters session reached, Settles (addFilters .empty calls) (.ok filters) ∧
      (events.map sessionEvent).foldlM sessionStep (sessionStart device) = .ok session ∧
      Settles (mainRun worlds (fun k => worlds k rules.length) (mainStart device filters) events)
        reached ∧
      reached.map (·.printed) = printRecords worlds rules 0
        ((session.accepted.take session.obtained.length).map logged) := by
  intro rules
  obtain ⟨filters, session, reached, added, ran, settled, same⟩ :=
    monitor_run worlds valid ready empty calls undisturbed
  exact ⟨filters, session, reached, added, ran, settled, printed_of_view same fun _ => rfl⟩

theorem straddling_valid : ValidRing straddling :=
  ⟨by decide, by decide, by decide, by decide, by decide, by decide⟩

/-- A record is logged between two reads, another one is lost to a signal, and the reader gets the
first with the next two. -/
def sampleEvents : List MainEvent :=
  [.read none .complete .acquired,
    .log sampleRecord.header sampleRecord.path sampleRecord.details (some fun _ => 9) .acquired,
    .log sampleRecord.header sampleRecord.path none (some fun _ => 9) .interrupted,
    .read (some fun _ => 9) .complete .acquired, .read (some fun _ => 9) .complete .acquired]

theorem sampleEvents_undisturbed : ∀ event ∈ sampleEvents, Undisturbed event := by
  simp [sampleEvents, Undisturbed]

/-- The one call in `main`, with memory for all three blocks. -/
def mainCalls : List (UserString × Mallocs) := [(adbd, roomForAll)]

theorem straddling_prints :
    ∃ filters session reached, Settles (addFilters .empty mainCalls) (.ok filters) ∧
      (sampleEvents.map sessionEvent).foldlM sessionStep (sessionStart straddling) = .ok session ∧
      Settles (mainRun (fun _ _ => World.empty) (fun _ => World.empty)
        (mainStart straddling filters) sampleEvents) reached ∧
      reached.map (·.printed) = printRecords (fun _ _ => World.empty)
        (mainCalls.filterMap fun call => accepted call.1 call.2) 0
        ((session.accepted.take session.obtained.length).map logged) :=
  monitor_prints (fun _ _ => World.empty) straddling_valid rfl rfl mainCalls sampleEvents_undisturbed

/-- The reader is left to read on, and gets memory whenever it asks. -/
def readOn (n : Nat) (garbage : Nat → Byte) : List MainEvent :=
  List.replicate n (.read (some garbage) .complete .acquired)

theorem readOn_undisturbed (n : Nat) (garbage : Nat → Byte) :
    ∀ event ∈ readOn n garbage, Undisturbed event := by
  intro event inside
  rw [List.eq_of_mem_replicate inside]
  exact ⟨rfl, rfl⟩

/-- Nothing that was accepted is lost. With memory for every record, there is a number of reads
after which the output is that of all the records that were accepted. -/
theorem monitor_drains {device : Device} (valid : ValidRing device) (ready : device.deviceReady = true)
    (empty : device.readPtr = device.writePtr) (calls : List (UserString × Mallocs))
    {events : List MainEvent} (undisturbed : ∀ event ∈ events, Undisturbed event)
    (granted : ∀ event ∈ events, sessionEvent event ≠ .read false) (garbage : Nat → Byte) :
    let rules := calls.filterMap fun call => accepted call.1 call.2
    ∃ filters session n reached, Settles (addFilters .empty calls) (.ok filters) ∧
      (events.map sessionEvent).foldlM sessionStep (sessionStart device) = .ok session ∧
      Settles (mainRun worlds (fun k => worlds k rules.length) (mainStart device filters)
        (events ++ readOn n garbage)) reached ∧
      reached.map (·.printed) = printRecords worlds rules 0 (session.accepted.map logged) := by
  intro rules
  obtain ⟨session, q, done, pending, ran, framed, going⟩ :=
    run_framed (sessionStart_framed valid ready empty) (events.map sessionEvent)
  have in_loop : session.phase ≠ .stopped := by
    refine going (fun inside => ?_) nofun
    obtain ⟨event, member, refused⟩ := List.mem_map.mp inside
    exact granted event member refused
  obtain ⟨t, drained, same, delivered⟩ := drain _ framed in_loop le_rfl
  have all_undisturbed : ∀ event ∈ events ++ readOn (readsLeft pending session.phase) garbage,
      Undisturbed event := by
    intro event inside
    exact (List.mem_append.mp inside).elim (undisturbed event) (readOn_undisturbed _ garbage event)
  obtain ⟨filters, session', reached, added, ran', settled, view_same⟩ :=
    monitor_run worlds valid ready empty calls all_undisturbed
  have reads : (readOn (readsLeft pending session.phase) garbage).map sessionEvent
      = List.replicate (readsLeft pending session.phase) (Event.read true) := List.map_replicate
  rw [List.map_append, List.foldlM_append, ran, reads] at ran'
  obtain rfl : t = session' := Except.ok.inj (drained.symm.trans ran')
  rw [← delivered.length_eq, List.take_length, same] at view_same
  refine ⟨filters, session, _, reached, added, ran, settled, ?_⟩
  exact printed_of_view view_same fun _ => rfl

theorem straddling_drains :
    ∃ filters session n reached, Settles (addFilters .empty mainCalls) (.ok filters) ∧
      ((sampleEvents.drop 1).map sessionEvent).foldlM sessionStep (sessionStart straddling)
        = .ok session ∧
      Settles (mainRun (fun _ _ => World.empty) (fun _ => World.empty)
        (mainStart straddling filters) (sampleEvents.drop 1 ++ readOn n fun _ => 9)) reached ∧
      reached.map (·.printed) = printRecords (fun _ _ => World.empty)
        (mainCalls.filterMap fun call => accepted call.1 call.2) 0 (session.accepted.map logged) :=
  monitor_drains (fun _ _ => World.empty) straddling_valid rfl rfl mainCalls
    (fun event inside => sampleEvents_undisturbed event (List.mem_of_mem_drop inside))
    (by simp [sampleEvents, sessionEvent]) fun _ => 9

end Delivery

end SysMonitor.Guarantees.MainOutput
