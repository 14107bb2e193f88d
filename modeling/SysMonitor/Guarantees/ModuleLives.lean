import SysMonitor.Guarantees.HookRemoval
import SysMonitor.Guarantees.RingQueue
import SysMonitor.Source.ModuleLife

/-!
# The lives of the module

The module is loaded, used and unloaded any number of times, and a load may fail at every step of
`sys_monitor_init`. Each life has a new ring that behaves as a bounded queue, and nothing of it is
left afterwards: the system call table is what it was, and of the resources the kernel keeps only
the pages of the rings whose `end_interface` was interrupted.
-/

namespace SysMonitor.Guarantees.ModuleLives
open SysMonitor.Library SysMonitor.Source SysMonitor.Source.Interface SysMonitor.Source.ModuleLife
open SysMonitor.Source.Main (Installation DirectHook justLoaded NR_exit NR_read NR_write NR_open
  NR_close NR_creat NR_ioctl)
open SysMonitor.Source.SysCallTable (Layout NR_fork NR_execve NR_clone NR_vfork)
open SysMonitor.Guarantees.HookInstall (smallLayout)
open SysMonitor.Guarantees.HookRemoval SysMonitor.Guarantees.RingQueue

/-- The size of the ring. -/
def ringSize : Nat := 2 ^ PAGE_INCREASE <<< PAGE_SHIFT

inductive LifeEvent where
  /-- The loader puts the module's functions at new addresses. -/
  | insmod (l : Layout) (fake : DirectHook → Word) (a : LoadAnswers)
  | call (c : Call)
  | rmmod (down : Down)

inductive LifeAnswer where
  /-- The module is there already, or it is not there. -/
  | refused
  | code (result : Int)
  | device (answer : Answer)
  deriving DecidableEq

section Machines

def lifeStep (s : Life) : LifeEvent → Except LifeFault (Life × LifeAnswer)
  | .insmod l fake a =>
    if s.loaded then .ok (s, .refused)
    else do
      let r ← sysMonitorInit l fake (fresh s) a
      return ({ r.1 with loaded := decide (r.2 = 0) }, .code r.2)
  | .call c =>
    if s.loaded then
      match deviceStep s.device c with
      | .ok r => .ok ({ s with device := r.1 }, .device r.2)
      | .error fault => .error (.access fault)
    else .ok (s, .refused)
  | .rmmod down =>
    if s.loaded then do
      let s ← sysMonitorExit s down
      return ({ s with loaded := false }, .code 0)
    else .ok (s, .refused)

/-- The module as its users see it. `lost` counts the rings whose pages stay allocated. -/
structure Monitor where
  queue : Option (QueueState ringSize)
  lost : Nat

/-- One of the steps of `interface_init` fails. -/
def InterfaceFails (a : LoadAnswers) : Prop :=
  a.classCreate = .null ∨ a.deviceCreate = .null ∨ a.cdevAdd ≠ 0 ∨ a.down = .interrupted ∨
    a.pages.isNone = true

instance (a : LoadAnswers) : Decidable (InterfaceFails a) := by
  unfold InterfaceFails
  infer_instance

/-- What the first of the steps that fails makes of a load. -/
def loadResult (a : LoadAnswers) : Int :=
  if !a.tableFound || !a.logRoom then -EINVAL
  else if a.allocChrdevRegion < 0 then a.allocChrdevRegion
  else if !a.processRoom then -1
  else if InterfaceFails a then -EINVAL
  else 0

def monitorStep (m : Monitor) : LifeEvent → Monitor × LifeAnswer
  | .insmod _ _ a =>
    match m.queue with
    | some _ => (m, .refused)
    | none =>
      ({ m with queue := if loadResult a = 0 then some (.start ringSize) else none },
        .code (loadResult a))
  | .call c =>
    match m.queue with
    | some q => ({ m with queue := some (queueStep q c).1 }, .device (queueStep q c).2)
    | none => (m, .refused)
  | .rmmod down =>
    match m.queue with
    | some _ => (⟨none, if down = .interrupted then m.lost + 1 else m.lost⟩, .code 0)
    | none => (m, .refused)

end Machines

section Ledger

variable {s : Life} {r : Resource} (front : List Resource) {older : List Resource}

theorem release_behind (out : r ∉ front) (held : s.held = front ++ r :: older) :
    release s r = .ok { s with held := front ++ older } := by
  have inside : r ∈ s.held := by simp [held]
  have rest : s.held.erase r = front ++ older := by
    rw [held, List.erase_append_right _ out, List.erase_cons_head]
  rw [release, if_pos inside, rest]

/-- What `cleanup_dev_add` gives back, with `front` acquired since. -/
theorem interface_released (cdev : .cdev ∉ front) (device : .device ∉ front)
    (monitorClass : .monitorClass ∉ front)
    (held : s.held = front ++ .cdev :: .device :: .monitorClass :: older) :
    cleanupDevAdd s = .ok { s with held := front ++ older } := by
  rw [cleanupDevAdd, release_behind front cdev held]
  dsimp only [bind, Except.bind]
  rw [cleanupDeviceCreate, release_behind front device rfl]
  dsimp only [bind, Except.bind]
  rw [cleanupClassCreate, release_behind front monitorClass rfl]

theorem process_released (processCache : .processCache ∉ front) (chrdevRegion : .chrdevRegion ∉ front)
    (logCache : .logCache ∉ front)
    (held : s.held = front ++ .processCache :: .chrdevRegion :: .logCache :: older) :
    cleanProcess s = .ok { s with held := front ++ older } := by
  rw [cleanProcess, release_behind front processCache held]
  dsimp only [bind, Except.bind]
  rw [cleanAlloc, release_behind front chrdevRegion rfl]
  dsimp only [bind, Except.bind]
  rw [cleanLog, release_behind front logCache rfl]

end Ledger

section Load

variable {s : Life} {a : LoadAnswers}

/-- The answers that the comparisons with NULL tell apart. -/
structure Distinguished (a : LoadAnswers) : Prop where
  classCreate : a.classCreate ≠ .errorPointer
  deviceCreate : a.deviceCreate ≠ .errorPointer

/-- `begin_interface` in a module that was just loaded. -/
theorem beginInterface_fresh (start : s.device = initial) :
    (∃ p, a.pages = some p ∧ a.down = .acquired ∧ ModuleLife.beginInterface s a
        = ({ s with device := begun p.address p.memory, held := .pages :: s.held }, 0)) ∨
      ((a.down = .interrupted ∨ a.pages.isNone = true) ∧ ∃ d result, result ≠ 0 ∧
        ModuleLife.beginInterface s a = ({ s with device := d }, result)) := by
  cases down : a.down with
  | interrupted =>
    refine .inr ⟨.inl rfl, s.device, -EINTR, by decide, ?_⟩
    rw [ModuleLife.beginInterface, down]
    rfl
  | acquired =>
    cases pages : a.pages with
    | none =>
      refine .inr ⟨.inr rfl, (Interface.beginInterface initial none .acquired).1, -ENOMEM,
        by decide, ?_⟩
      rw [ModuleLife.beginInterface, down, pages, start]
      rfl
    | some p =>
      refine .inl ⟨p, rfl, rfl, ?_⟩
      rw [ModuleLife.beginInterface, down, pages, start, begun, p.length]
      rfl

/-- What `class_create` and `device_create` really registered. -/
def registered (a : LoadAnswers) : List Resource :=
  (if a.deviceCreate = .created then [.device] else []) ++
    if a.classCreate = .created then [.monitorClass] else []

theorem create_create (s : Life) (a : LoadAnswers) :
    create (create s .monitorClass a.classCreate) .device a.deviceCreate
      = { s with held := registered a ++ s.held } := by
  rw [registered]
  cases a.classCreate <;> cases a.deviceCreate <;> rfl

theorem interfaceInit_eq (s : Life) (a : LoadAnswers) :
    interfaceInit s a
      = if a.classCreate = .null then .ok (s, -EINVAL)
        else if a.deviceCreate = .null then
          failing (-EINVAL) (cleanupClassCreate (create s .monitorClass a.classCreate))
        else if a.cdevAdd ≠ 0 then
          failing (-EINVAL) (cleanupDeviceCreate { s with held := registered a ++ s.held })
        else if (ModuleLife.beginInterface { s with held := .cdev :: (registered a ++ s.held) } a).2
            ≠ 0 then
          failing (-EINVAL) (cleanupDevAdd
            (ModuleLife.beginInterface { s with held := .cdev :: (registered a ++ s.held) } a).1)
        else
          .ok ((ModuleLife.beginInterface { s with held := .cdev :: (registered a ++ s.held) } a).1,
            0) := by
  rw [interfaceInit]
  dsimp only
  rw [create_create]
  rfl

theorem created_of {c : Created} (told : c ≠ .errorPointer) (some : c ≠ .null) : c = .created := by
  cases c with
  | created => rfl
  | null => exact absurd rfl some
  | errorPointer => exact absurd rfl told

theorem Distinguished.registered_eq (told : Distinguished a) (monitorClass : a.classCreate ≠ .null)
    (device : a.deviceCreate ≠ .null) : registered a = [.device, .monitorClass] := by
  rw [registered, created_of told.classCreate monitorClass, created_of told.deviceCreate device]
  rfl

/-- An error pointer is taken for success. -/
theorem interfaceInit_works (start : s.device = initial) (works : ¬ InterfaceFails a) :
    ∃ p : Pages, interfaceInit s a = .ok ({ s with
      device := begun p.address p.memory
      held := .pages :: .cdev :: (registered a ++ s.held) }, 0) := by
  obtain ⟨monitorClass, device, cdev, later⟩ : _ ∧ _ ∧ _ ∧ _ := by
    simpa only [InterfaceFails, not_or] using works
  rw [interfaceInit_eq, if_neg monitorClass, if_neg device, if_neg cdev]
  rcases @beginInterface_fresh { s with held := .cdev :: (registered a ++ s.held) } a start with
    ⟨p, -, -, begun⟩ | ⟨fails, -⟩
  · refine ⟨p, ?_⟩
    rw [begun, if_neg (by simp)]
  · exact absurd fails (not_or.mpr later)

/-- A failed `interface_init` gives back what it acquired. -/
theorem interfaceInit_fails (start : s.device = initial) (told : Distinguished a)
    (fails : InterfaceFails a) :
    ∃ d, interfaceInit s a = .ok ({ s with device := d }, -EINVAL) := by
  rw [interfaceInit_eq]
  by_cases monitorClass : a.classCreate = .null
  · exact ⟨s.device, by rw [if_pos monitorClass]⟩
  rw [if_neg monitorClass]
  by_cases device : a.deviceCreate = .null
  · refine ⟨s.device, ?_⟩
    rw [if_pos device, failing, cleanupClassCreate, created_of told.classCreate monitorClass,
      release_behind [] (by simp) rfl]
    rfl
  rw [if_neg device, told.registered_eq monitorClass device]
  by_cases cdev : a.cdevAdd ≠ 0
  · refine ⟨s.device, ?_⟩
    rw [if_pos cdev, failing, cleanupDeviceCreate, release_behind [] (by simp) rfl]
    dsimp only [bind, Except.bind]
    rw [cleanupClassCreate, release_behind [] (by simp) rfl]
    rfl
  rw [if_neg cdev]
  rcases @beginInterface_fresh { s with held := .cdev :: ([.device, .monitorClass] ++ s.held) } a
    start with ⟨p, pages, down, -⟩ | ⟨-, d, result, failed, begun⟩
  · simp [InterfaceFails, monitorClass, device, cdev, down, pages] at fails
  · refine ⟨d, ?_⟩
    rw [begun, if_pos failed, failing, interface_released [] (by simp) (by simp) (by simp) rfl]
    rfl

/-- What a loaded module has, the newest first. -/
def whole : List Resource :=
  [.pages, .cdev, .device, .monitorClass, .processCache, .chrdevRegion, .logCache]

theorem sysMonitorInit_eq (l : Layout) (fake : DirectHook → Word) (s : Life) (a : LoadAnswers) :
    ModuleLife.sysMonitorInit l fake s a
      = if (!a.tableFound || !a.logRoom) = true then .ok (s, -EINVAL)
        else if a.allocChrdevRegion < 0 then
          failing a.allocChrdevRegion (cleanLog { s with held := .logCache :: s.held })
        else if (!a.processRoom) = true then
          failing (-1) (cleanAlloc { s with held := .chrdevRegion :: .logCache :: s.held })
        else
          (interfaceInit { s with held := .processCache :: .chrdevRegion :: .logCache :: s.held }
            a).bind fun r =>
              if r.2 < 0 then failing r.2 (cleanProcess r.1)
              else .ok ({ r.1 with
                installation := Main.sysMonitorInit l fake r.1.installation }, 0) := by
  rw [ModuleLife.sysMonitorInit, ← ite_or]
  congr 1
  simp

theorem interface_of_load (works : loadResult a = 0) : ¬ InterfaceFails a := by
  intro fails
  unfold loadResult at works
  rw [if_pos fails] at works
  split at works
  · exact absurd works (by decide)
  split at works
  · omega
  split at works <;> exact absurd works (by decide)

/-- A failed load gives back what it acquired and leaves the table alone. -/
theorem sysMonitorInit_fails (l : Layout) (fake : DirectHook → Word) (start : s.device = initial)
    (told : Distinguished a) (fails : loadResult a ≠ 0) :
    ∃ t, ModuleLife.sysMonitorInit l fake s a = .ok (t, loadResult a) ∧ t.held = s.held ∧
      t.installation = s.installation := by
  rw [sysMonitorInit_eq]
  unfold loadResult at fails ⊢
  by_cases early : (!a.tableFound || !a.logRoom) = true
  · rw [if_pos early, if_pos early]
    exact ⟨s, rfl, rfl, rfl⟩
  rw [if_neg early] at fails ⊢
  rw [if_neg early]
  by_cases region : a.allocChrdevRegion < 0
  · rw [if_pos region, if_pos region, failing, cleanLog, release_behind [] (by simp) rfl]
    exact ⟨_, rfl, rfl, rfl⟩
  rw [if_neg region] at fails ⊢
  rw [if_neg region]
  by_cases full : (!a.processRoom) = true
  · rw [if_pos full, if_pos full, failing, cleanAlloc, release_behind [] (by simp) rfl]
    dsimp only [bind, Except.bind]
    rw [cleanLog, release_behind [] (by simp) rfl]
    exact ⟨_, rfl, rfl, rfl⟩
  rw [if_neg full] at fails ⊢
  rw [if_neg full]
  by_cases interface : InterfaceFails a
  · obtain ⟨d, ran⟩ := @interfaceInit_fails
      { s with held := .processCache :: .chrdevRegion :: .logCache :: s.held } a start told interface
    rw [ran, if_pos interface]
    dsimp only [Except.bind]
    rw [if_pos (by decide), failing, process_released [] (by simp) (by simp) (by simp) rfl]
    exact ⟨_, rfl, rfl, rfl⟩
  · rw [if_neg interface] at fails
    exact absurd rfl fails

theorem sysMonitorInit_works (l : Layout) (fake : DirectHook → Word) (start : s.device = initial)
    (works : loadResult a = 0) :
    ∃ t, ∃ p : Pages, ModuleLife.sysMonitorInit l fake s a = .ok (t, 0) ∧
      t.device = begun p.address p.memory ∧
      t.held = .pages :: .cdev ::
        (registered a ++ .processCache :: .chrdevRegion :: .logCache :: s.held) ∧
      t.installation = Main.sysMonitorInit l fake s.installation := by
  rw [sysMonitorInit_eq]
  unfold loadResult at works
  by_cases early : (!a.tableFound || !a.logRoom) = true
  · rw [if_pos early] at works
    exact absurd works (by decide)
  rw [if_neg early] at works ⊢
  by_cases region : a.allocChrdevRegion < 0
  · rw [if_pos region] at works
    omega
  rw [if_neg region] at works ⊢
  by_cases full : (!a.processRoom) = true
  · rw [if_pos full] at works
    exact absurd works (by decide)
  rw [if_neg full] at works ⊢
  by_cases interface : InterfaceFails a
  · rw [if_pos interface] at works
    exact absurd works (by decide)
  · obtain ⟨p, ran⟩ := @interfaceInit_works
      { s with held := .processCache :: .chrdevRegion :: .logCache :: s.held } a start interface
    rw [ran]
    exact ⟨_, p, rfl, rfl, rfl, rfl⟩

end Load

section Unload

variable {s : Life} {older : List Resource}

theorem sysMonitorExit_eq (s : Life) (down : Down) :
    ModuleLife.sysMonitorExit s down
      = (ModuleLife.endInterface
          { s with installation := Main.sysMonitorExit s.installation } down).bind fun s =>
          (cleanupDevAdd s).bind cleanProcess := by
  rw [ModuleLife.sysMonitorExit, interfaceCleanup]
  dsimp only [bind, Except.bind]
  cases ModuleLife.endInterface { s with installation := Main.sysMonitorExit s.installation } down with
  | error fault => rfl
  | ok t =>
    dsimp only [cleanupDevAdd, cleanupDeviceCreate, cleanupClassCreate, bind, Except.bind]
    cases release t .cdev with
    | error fault => rfl
    | ok t =>
      cases release t .device with
      | error fault => rfl
      | ok t => rfl

/-- What an unload leaves of its own pages. -/
def kept : Down → List Resource
  | .interrupted => [.pages]
  | .acquired => []

theorem not_kept {r : Resource} {down : Down} (other : r ≠ .pages) : r ∉ kept down := by
  intro inside
  cases down with
  | interrupted => exact other (List.mem_singleton.mp inside)
  | acquired => exact List.not_mem_nil inside

theorem endInterface_pages (held : s.held = .pages :: older) (ring : s.device.cycleBuffer ≠ 0)
    (down : Down) :
    ModuleLife.endInterface s down = .ok { s with
      device := (Interface.endInterface s.device down).1
      held := kept down ++ older } := by
  rw [ModuleLife.endInterface]
  cases down with
  | interrupted =>
    rw [if_neg (by simp), held]
    rfl
  | acquired =>
    rw [if_pos ⟨rfl, ring⟩]
    exact release_behind [] (by simp) held

theorem sysMonitorExit_spec (held : s.held = whole ++ older) (ring : s.device.cycleBuffer ≠ 0)
    (down : Down) :
    ∃ t, ModuleLife.sysMonitorExit s down = .ok t ∧ t.held = kept down ++ older ∧
      t.installation = Main.sysMonitorExit s.installation := by
  have ended := @endInterface_pages { s with installation := Main.sysMonitorExit s.installation }
    (whole.tail ++ older) held ring down
  generalize (Interface.endInterface s.device down).1 = d at ended
  rw [sysMonitorExit_eq, ended]
  dsimp only [Except.bind]
  rw [interface_released (kept down) (not_kept (by decide)) (not_kept (by decide)) (not_kept (by decide))
    rfl]
  dsimp only [Except.bind]
  rw [process_released (kept down) (not_kept (by decide)) (not_kept (by decide)) (not_kept (by decide))
    rfl]
  refine ⟨_, rfl, rfl, ?_⟩
  dsimp only

end Unload

section Lives

variable {table : Nat → Word} {s : Life} {m : Monitor}

/-- The module and what its users see of it. -/
structure Stands (table : Nat → Word) (s : Life) (m : Monitor) : Prop where
  loaded : s.loaded = m.queue.isSome
  held : s.held = (if m.queue.isSome then whole else []) ++ List.replicate m.lost .pages
  ring : ∀ q, m.queue = some q → ∃ base, base ≠ 0 ∧ Represents base ringSize s.device q
  hooked : m.queue ≠ none →
    ∃ l fake code, s.installation = Main.sysMonitorInit l fake (justLoaded table code)
  restored : m.queue = none → s.installation.hooks.table = table

theorem insmod_simulates (stands : Stands table s m) (l : Layout) (fake : DirectHook → Word)
    {a : LoadAnswers} (told : Distinguished a) :
    ∃ t, lifeStep s (.insmod l fake a) = .ok (t, (monitorStep m (.insmod l fake a)).2) ∧
      Stands table t (monitorStep m (.insmod l fake a)).1 := by
  obtain ⟨queue, lost⟩ := m
  cases queue with
  | some q =>
    have loaded : s.loaded = true := stands.loaded
    exact ⟨s, if_pos loaded, stands⟩
  | none =>
    have idle : ¬ s.loaded = true := by simp [stands.loaded]
    by_cases works : loadResult a = 0
    · obtain ⟨t, p, ran, device, held, installation⟩ :=
        @sysMonitorInit_works (fresh s) a l fake rfl works
      have interface := interface_of_load works
      rw [told.registered_eq (fun null => interface (.inl null))
        fun null => interface (.inr (.inl null))] at held
      refine ⟨{ t with loaded := true }, ?_, ?_⟩
      · rw [lifeStep, if_neg idle, ran, monitorStep, works]
        rfl
      · rw [monitorStep]
        dsimp only
        rw [if_pos works]
        refine ⟨rfl, ?_, ?_, fun _ => ⟨l, fake, s.installation.hooks.code, ?_⟩, nofun⟩
        · exact held.trans (congrArg (whole ++ ·) stands.held)
        · intro q same
          obtain rfl := Option.some.inj same
          have represents := begun_represents p.address p.memory (by rw [p.length]; decide)
          rw [p.length] at represents
          exact ⟨p.address, p.real, by rw [device]; exact represents⟩
        · rw [installation, fresh, stands.restored rfl]
    · obtain ⟨t, ran, held, installation⟩ :=
        @sysMonitorInit_fails (fresh s) a l fake rfl told works
      refine ⟨{ t with loaded := false }, ?_, ?_⟩
      · rw [lifeStep, if_neg idle, ran]
        dsimp only [bind, Except.bind, pure, Except.pure]
        rw [decide_eq_false works]
        rfl
      · rw [monitorStep]
        dsimp only
        rw [if_neg works]
        refine ⟨rfl, held.trans stands.held, nofun, fun some => absurd rfl some, fun _ => ?_⟩
        dsimp only
        rw [installation]
        exact stands.restored rfl

theorem call_simulates (stands : Stands table s m) (c : Call) :
    ∃ t, lifeStep s (.call c) = .ok (t, (monitorStep m (.call c)).2) ∧
      Stands table t (monitorStep m (.call c)).1 := by
  obtain ⟨queue, lost⟩ := m
  cases queue with
  | none =>
    have idle : ¬ s.loaded = true := by simp [stands.loaded]
    exact ⟨s, if_neg idle, stands⟩
  | some q =>
    have loaded : s.loaded = true := stands.loaded
    obtain ⟨base, real, represents⟩ := stands.ring q rfl
    obtain ⟨d, ran, represents⟩ := deviceStep_simulates s.device q c represents
    refine ⟨{ s with device := d }, ?_, ?_⟩
    · rw [lifeStep, if_pos loaded, ran]
      rfl
    · refine ⟨stands.loaded, stands.held, ?_, fun _ => stands.hooked nofun, nofun⟩
      intro q' same
      obtain rfl := Option.some.inj same
      exact ⟨base, real, represents⟩

theorem rmmod_simulates (real : ∀ n, table n ≠ 0) (stands : Stands table s m) (down : Down) :
    ∃ t, lifeStep s (.rmmod down) = .ok (t, (monitorStep m (.rmmod down)).2) ∧
      Stands table t (monitorStep m (.rmmod down)).1 := by
  obtain ⟨queue, lost⟩ := m
  cases queue with
  | none =>
    have idle : ¬ s.loaded = true := by simp [stands.loaded]
    exact ⟨s, if_neg idle, stands⟩
  | some q =>
    have loaded : s.loaded = true := stands.loaded
    obtain ⟨base, nonzero, represents⟩ := stands.ring q rfl
    obtain ⟨l, fake, code, installed⟩ := stands.hooked nofun
    obtain ⟨t, ran, held, installation⟩ := sysMonitorExit_spec stands.held
      (by rw [represents.base_eq]; exact nonzero) down
    have back := (sysMonitorExit_restorable (sysMonitorInit_restorable l fake table code) real).same.eq
    refine ⟨{ t with loaded := false }, ?_, ?_⟩
    · rw [lifeStep, if_pos loaded, ran]
      rfl
    · refine ⟨rfl, ?_, nofun, fun some => absurd rfl some, fun _ => ?_⟩
      · rw [monitorStep]
        cases down <;> exact held
      · rw [installation, installed]
        exact back

theorem lifeStep_simulates (real : ∀ n, table n ≠ 0) (stands : Stands table s m)
    {e : LifeEvent} (told : ∀ l fake a, e = .insmod l fake a → Distinguished a) :
    ∃ t, lifeStep s e = .ok (t, (monitorStep m e).2) ∧
      Stands table t (monitorStep m e).1 := by
  cases e with
  | insmod l fake a => exact insmod_simulates stands l fake (told l fake a rfl)
  | call c => exact call_simulates stands c
  | rmmod down => exact rmmod_simulates real stands down

/-- Before the first load. -/
def unloaded (table : Nat → Word) (code : Word → Word) : Life :=
  ⟨false, initial, justLoaded table code, []⟩

end Lives

theorem release_missing {s : Life} {r : Resource} (out : r ∉ s.held) :
    release s r = .error (.notHeld r) := if_neg out

/-- A load that takes an error pointer for success ends in an unload that gives back what was never
registered. -/
theorem confused_faults (l : Layout) (fake : DirectHook → Word) (table : Nat → Word)
    (code : Word → Word) {a : LoadAnswers} (works : loadResult a = 0) (confused : ¬ Distinguished a)
    (down : Down) :
    ∃ r, run lifeStep (unloaded table code) [.insmod l fake a, .rmmod down]
      = .error (.notHeld r) := by
  obtain ⟨t, p, ran, device, held, -⟩ :=
    @sysMonitorInit_works (fresh (unloaded table code)) a l fake rfl works
  have loads : lifeStep (unloaded table code) (.insmod l fake a)
      = .ok ({ t with loaded := true }, .code 0) := by
    rw [lifeStep, if_neg (by simp [unloaded]), ran]
    rfl
  have ended := @endInterface_pages
    { t with loaded := true, installation := Main.sysMonitorExit t.installation } _ held
    (by rw [device]; exact p.real) down
  have faults : ∃ r, ModuleLife.sysMonitorExit { t with loaded := true } down
      = .error (.notHeld r) := by
    rw [sysMonitorExit_eq, ended]
    dsimp only [Except.bind]
    rw [cleanupDevAdd, release_behind (kept down) (not_kept (by decide)) rfl]
    dsimp only [bind, Except.bind]
    rw [cleanupDeviceCreate]
    by_cases device : a.deviceCreate = .created
    · have monitorClass : a.classCreate ≠ .created := by
        intro created
        exact confused ⟨by simp [created], by simp [device]⟩
      have one : registered a = [.device] := by simp [registered, device, monitorClass]
      rw [one, List.singleton_append, release_behind (kept down) (not_kept (by decide)) rfl]
      dsimp only [bind, Except.bind]
      refine ⟨.monitorClass, ?_⟩
      rw [cleanupClassCreate, release_missing]
      simp [not_kept, fresh, unloaded]
    · refine ⟨.device, ?_⟩
      rw [release_missing]
      · rfl
      · simp [not_kept, registered, device, fresh, unloaded]
  obtain ⟨r, fault⟩ := faults
  refine ⟨r, ?_⟩
  rw [run, loads]
  dsimp only [bind, Except.bind]
  rw [run, lifeStep, if_pos rfl, fault]
  rfl

/-- Pages for a ring. -/
def zeroPages : Pages :=
  ⟨0xc1000000, List.replicate ringSize 0, by decide, List.length_replicate⟩

/-- A load to which nothing happens. -/
def smooth : LoadAnswers :=
  ⟨true, true, 0, true, .created, .created, 0, .acquired, some zeroPages⟩

/-- A load with the functions of the direct hooks at this address. -/
def load (address : Word) (a : LoadAnswers) : LifeEvent := .insmod smallLayout (fun _ => address) a

/-- A load without memory for the ring, a load, an interrupted unload, and another life with other
addresses. -/
def twoLives : List LifeEvent :=
  [load 0xbf000400 { smooth with pages := none }, load 0xbf000400 smooth,
    .call (.open ⟨7, by decide⟩ 1 .acquired), .call (.write [1, 2] .acquired),
    load 0xbf000400 smooth, .rmmod .interrupted, .call (.read 2 .acquired),
    load 0xbf000500 smooth, .call (.read 2 .acquired), .rmmod .acquired]

/-- The answers, and the pages of the first ring. -/
example : (runSpec monitorStep ⟨none, 0⟩ twoLives).2
      = [.code (-22), .code 0, .device (.code 0), .device .unit, .refused, .code 0, .refused, .code 0,
        .device (.bytes ⟨0, []⟩), .code 0] ∧
    (runSpec monitorStep ⟨none, 0⟩ twoLives).1.lost = 1 := by
  decide

end SysMonitor.Guarantees.ModuleLives
