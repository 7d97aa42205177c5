import Recsync.Lib.Runs
import Recsync.Cf.Eviction
import Recsync.Cf.SweepWrites
import Recsync.Cf.Threads

set_option autoImplicit false

namespace Recsync.Cf

open Py (Error Program)
open Runs (EveryStep)

/-- The two flags that other threads read. -/
def Flags (running cancelled : Bool) (p : Processor) : Prop :=
  p.running = running ∧ p.cancelled = cancelled

section Flags

variable {running cancelled : Bool}

theorem registerChannel_flags (i n : String) :
    Program.Maintains (Flags running cancelled) (registerChannel i n) := by
  intro p flags
  unfold registerChannel Program.after
  by_cases tracked : i ∈ p.ids (.name n)
  · simp only [tracked, if_true]
    exact flags
  · cases known : p.iocs i with
    | none =>
      simp only [tracked, known, if_false, Processor.iocs_setIds]
      exact flags
    | some info =>
      simp only [tracked, known, if_false, Processor.iocs_setIds]
      exact flags

theorem removeChannel_flags (k : Key) (i : String) :
    Program.Maintains (Flags running cancelled) (removeChannel k i) := by
  intro p flags
  unfold removeChannel Program.after
  by_cases tracked : i ∉ p.ids k
  · simp only [tracked, not_false_eq_true, if_true]
    exact flags
  · simp only [tracked, if_false, Processor.iocs_setChannels, Processor.iocs_setIds]
    cases p.iocs i with
    | none => exact flags
    | some info =>
      simp only
      split <;> exact flags

theorem flags_kept (i : String) : KeptBySteps (Flags running cancelled) i :=
  ⟨registerChannel_flags i, fun k => removeChannel_flags k i, fun _ _ flags => flags⟩

theorem updateIocInfos_flags (cfg : CFConfig) (env : Env) (t : Transaction)
    (records : Py.Dict String RecordInfo) :
    Program.Maintains (Flags running cancelled)
      (updateIocInfos cfg env t (iocInfoOf cfg env t) records) :=
  (flags_kept t.iocid).updateIocInfos cfg env (fun _ _ flags => flags) records

theorem evictIoc_flags (env : Env) (i : String) :
    Program.Maintains (Flags running cancelled) (evictIoc env i) :=
  (flags_kept i).evictIoc env fun _ flags => flags

end Flags

/-- Every Active channel of the second store is in the first one, as it is. -/
def SetsNoActive (s s' : Store) : Prop :=
  ∀ n e, s'.get? n = some e → e.Active → s.get? n = some e

/-- No channel with the id of this recceiver is Active. -/
def NoneActive (cfg : CFConfig) (s : Store) : Prop :=
  ∀ n e, s.get? n = some e → e.has .recceiverId cfg.recceiverId → ¬ e.Active

section Stores

variable {cfg : CFConfig}

theorem SetsNoActive.refl (s : Store) : SetsNoActive s s := fun _ _ stored _ => stored

theorem NoneActive.after {s s' : Store} (none : NoneActive cfg s) (sets : SetsNoActive s s') :
    NoneActive cfg s' :=
  fun n e stored own active => none n e (sets n e stored active) own active

theorem setProperty_inactive (e : CFEntry) (owner : String) :
    ¬ (e.setProperty (property .pvStatus owner PVStatus.inactive.value)).Active := by
  rintro ⟨q, member, name, value⟩
  rcases List.mem_append.mp member with kept | last
  · exact of_decide_eq_true (List.mem_filter.mp kept).2 name
  · rw [List.mem_singleton.mp last, property_value] at value
    exact absurd value (by decide)

theorem markInactive_sets (names : List String) (s : Store) :
    SetsNoActive s (markInactive cfg names s) := by
  unfold markInactive updateProperty
  induction names generalizing s with
  | nil => exact SetsNoActive.refl s
  | cons n rest ih =>
    intro m e stored active
    have later := ih _ m e stored active
    dsimp only at later
    cases found : s.get? n with
    | none =>
      rw [found] at later
      exact later
    | some old =>
      rw [found] at later
      dsimp only at later
      rw [Py.Dict.get?_set] at later
      split at later
      · rw [← Option.some.inj later] at active
        exact absurd active (setProperty_inactive old cfg.username)
      · exact later

theorem findActiveForRecceiver_nil {env : Env} {s : Store}
    (nothing : findActiveForRecceiver cfg env s = []) : NoneActive cfg s := by
  intro n e stored own active
  have inside : ({ e with name := n } : CFChannel) ∈ env.replyOrder ((storedChannels s).filter
      fun ch => decide ch.toCFEntry.Active && decide (ch.toCFEntry.has .recceiverId
        cfg.recceiverId)) := by
    rw [(env.replyOrder_perm _).mem_iff, List.mem_filter, mem_storedChannels]
    exact ⟨stored, by simp [active, own]⟩
  unfold findActiveForRecceiver at nothing
  dsimp only at nothing
  split at nothing
  · rename_i positive
    rcases List.take_eq_nil_iff.mp nothing with zero | empty
    · omega
    · rw [empty] at inside
      cases inside
  · rw [nothing] at inside
    cases inside

end Stores

namespace Task

variable {client : ChannelFinderAdapter} {cfg : CFConfig} {setup : Setup} {env : Env} {w : World}

/-- With the service stopped, the thread makes nothing Active any more. -/
def Quiet : Task → Prop
  | .starting _ | .sweeping _ _ | .ended _ => True
  | _ => False

theorem giveUp_spec (job : Job) :
    (giveUp env job w).1.proc.running = w.proc.running ∧
      (giveUp env job w).1.proc.cancelled = w.proc.cancelled ∧
      ∃ result, (giveUp env job w).2 = .ended result := by
  have kept : Flags w.proc.running w.proc.cancelled
      ((evictIoc env job.transaction.iocid).after w.proc) := evictIoc_flags env _ _ ⟨rfl, rfl⟩
  unfold giveUp
  split
  · unfold Program.after at kept
    cases ran : evictIoc env job.transaction.iocid w.proc with
    | ok u p =>
      rw [ran] at kept
      exact ⟨kept.1, kept.2, _, rfl⟩
    | error e p =>
      rw [ran] at kept
      exact ⟨kept.1, kept.2, _, rfl⟩
  · exact ⟨rfl, rfl, _, rfl⟩

/-- What every step of a thread keeps: the flags, and who sweeps. -/
structure Tame (w : World) (task : Task) (after : World × Task) : Prop where
  running : after.1.proc.running = w.proc.running
  cancelled : after.1.proc.cancelled = w.proc.cancelled
  sweeps : after.2.Sweeps → task.Sweeps
  quiet : task.Quiet → w.proc.running = false →
    after.2.Quiet ∧ SetsNoActive w.store after.1.store

theorem tame_ended (task : Task) (result : Except Error Unit) : Tame w task (w, .ended result) :=
  ⟨rfl, rfl, False.elim, fun _ _ => ⟨trivial, SetsNoActive.refl _⟩⟩

theorem tame_of_flags {task : Task} {after : World × Task} (loud : ¬ task.Quiet)
    (running : after.1.proc.running = w.proc.running)
    (cancelled : after.1.proc.cancelled = w.proc.cancelled) (still : ¬ after.2.Sweeps) :
    Tame w task after :=
  ⟨running, cancelled, fun sweeps => absurd sweeps still, fun quiet => absurd quiet loud⟩

theorem tame_giveUp {task : Task} (loud : ¬ task.Quiet) (job : Job) :
    Tame w task (giveUp env job w) := by
  obtain ⟨running, cancelled, result, last⟩ := @giveUp_spec env w job
  exact tame_of_flags loud running cancelled (by rw [last]; exact id)

theorem tame_starting (t : Transaction) :
    Tame w (.starting t) (proceed client cfg setup env w (.starting t)) := by
  have kept : Flags w.proc.running w.proc.cancelled ((updateIocInfos cfg env t (iocInfoOf cfg env t)
      (recordsOf cfg setup env t)).after w.proc) := updateIocInfos_flags cfg env t _ _ ⟨rfl, rfl⟩
  unfold Program.after at kept
  simp only [proceed]
  split
  · exact tame_ended _ _
  rename_i running
  split
  · exact tame_ended _ _
  split
  · exact tame_ended _ _
  -- the thread has found the service running
  cases ran : updateIocInfos cfg env t (iocInfoOf cfg env t) (recordsOf cfg setup env t) w.proc with
  | error e p =>
    rw [ran] at kept
    exact ⟨kept.1, kept.2, False.elim, fun _ stopped => absurd stopped (by simpa using running)⟩
  | ok del p =>
    rw [ran] at kept
    exact ⟨kept.1, kept.2, False.elim, fun _ stopped => absurd stopped (by simpa using running)⟩

theorem tame_proceed (task : Task) : Tame w task (proceed client cfg setup env w task) := by
  cases task with
  | starting t => exact tame_starting t
  | attempting job =>
    simp only [proceed]
    split
    · exact tame_giveUp id job
    · split
      · exact tame_giveUp id job
      · exact tame_of_flags id rfl rfl id
  | fetching job =>
    simp only [proceed]
    split
    · exact tame_ended _ _
    · split
      · exact tame_ended _ _
      · exact tame_of_flags id rfl rfl id
  | reconciled job old new handled =>
    simp only [proceed]
    split
    · exact tame_ended _ _
    · split
      · exact tame_ended _ _
      · exact tame_of_flags id rfl rfl id
  | writing job todo =>
    cases todo with
    | nil =>
      simp only [proceed]
      split
      · exact tame_ended _ _
      · exact tame_ended _ _
    | cons batch rest => exact tame_of_flags id rfl rfl id
  | sweeping sweep failures =>
    cases sweep with
    | querying => exact ⟨rfl, rfl, fun _ => trivial, fun _ _ => ⟨trivial, SetsNoActive.refl _⟩⟩
    | cleaning names =>
      exact ⟨rfl, rfl, fun _ => trivial, fun _ _ => ⟨trivial, markInactive_sets names w.store⟩⟩
    | finished => exact ⟨rfl, rfl, fun _ => trivial, fun _ _ => ⟨trivial, SetsNoActive.refl _⟩⟩
  | ended result => exact tame_ended _ _

theorem sweepAgain_quiet (running : Bool) (failures : Nat) :
    (sweepAgain running failures).Quiet := by
  unfold sweepAgain
  split <;> trivial

theorem tame_fails (torn : List CFChannel → List CFChannel) (tornNames : List String → List String)
    (task : Task) : Tame w task (fails cfg torn tornNames w task) := by
  have same : ∀ task : Task, Tame w task (w, task) :=
    fun task => ⟨rfl, rfl, id, fun quiet _ => ⟨quiet, SetsNoActive.refl _⟩⟩
  cases task with
  | starting t => exact same _
  | attempting job => exact same _
  | fetching job =>
    simp only [fails]
    split
    · exact tame_ended _ _
    · exact tame_of_flags id rfl rfl id
  | reconciled job old new handled =>
    simp only [fails]
    split
    · exact same _
    · exact tame_of_flags id rfl rfl id
  | writing job todo =>
    cases todo with
    | nil => exact same _
    | cons batch rest => exact tame_of_flags id rfl rfl id
  | sweeping sweep failures =>
    cases sweep with
    | querying =>
      exact ⟨rfl, rfl, fun _ => trivial, fun _ _ => ⟨sweepAgain_quiet _ _, SetsNoActive.refl _⟩⟩
    | cleaning names =>
      exact ⟨rfl, rfl, fun _ => trivial,
        fun _ _ => ⟨sweepAgain_quiet _ _, markInactive_sets _ w.store⟩⟩
    | finished => exact same _
  | ended result => exact same _

/-- The sweep comes to its end only with nothing left to clean. -/
theorem proceed_finished {task : Task} {failures : Nat}
    (finished : (proceed client cfg setup env w task).2 = .sweeping .finished failures) :
    task = .sweeping .finished failures ∨
      NoneActive cfg w.store ∧ (proceed client cfg setup env w task).1 = w := by
  have sweeps := (@tame_proceed client cfg setup env w task).sweeps (by rw [finished]; trivial)
  cases task with
  | sweeping sweep n =>
    cases sweep with
    | querying =>
      simp only [proceed, Task.sweeping.injEq] at finished
      split at finished
      · rename_i nothing
        exact Or.inr ⟨findActiveForRecceiver_nil (List.map_eq_nil_iff.mp nothing), rfl⟩
      · cases finished.1
    | cleaning names => cases finished
    | finished => exact Or.inl finished
  | _ => exact absurd sweeps id

theorem fails_finished {torn : List CFChannel → List CFChannel}
    {tornNames : List String → List String} {task : Task} {failures : Nat}
    (finished : (fails cfg torn tornNames w task).2 = .sweeping .finished failures) :
    task = .sweeping .finished failures := by
  have sweeps := (tame_fails torn tornNames task).sweeps (by rw [finished]; trivial)
  have again : ∀ running n, sweepAgain running n ≠ .sweeping .finished failures := by
    intro running n
    unfold sweepAgain
    split <;> simp
  cases task with
  | sweeping sweep n =>
    cases sweep with
    | querying => exact absurd finished (again _ _)
    | cleaning names => exact absurd finished (again _ _)
    | finished => exact finished
  | _ => exact absurd sweeps id

end Task

namespace Service

variable {client : ChannelFinderAdapter} {cfg : CFConfig} {setup : Setup} {s : Service}
  {done : List Event}

/-- After a stop sweep nothing is Active, and no thread makes anything Active. -/
structure Final (cfg : CFConfig) (s : Service) : Prop where
  stopped : s.proc.running = false
  quiet : ∀ th ∈ s.threads, th.2.Quiet
  clean : NoneActive cfg s.store

/-- What holds of the lock and the threads after the events `done`. -/
structure Orderly (cfg : CFConfig) (done : List Event) (s : Service) : Prop where
  free : s.holder = none → s.threads = [] ∧ s.waiting = []
  held : ∀ k h, s.holder = some (k, h) → ∃ task, s.threads = [(k, task)]
  wired : ∀ k d, s.holder = some (k, .commit d) → (s.proc.cancelled = true ↔ d = .chained)
  asked : ∀ k, s.holder = some (k, .commit .chained) → .cancel k ∈ done
  stopping : ∀ k, (k, Work.stop) ∈ s.waiting → s.proc.running = false
  sweeping : ∀ th ∈ s.threads, th.2.Sweeps → s.proc.running = false
  finished : ∀ th ∈ s.threads, ∀ n, th.2 = .sweeping .finished n → s.swept = true
  final : s.swept = true → s.Final cfg

theorem Orderly.more (inv : s.Orderly cfg done) (e : Event) : s.Orderly cfg (done ++ [e]) :=
  { inv with asked := fun k chained => List.mem_append_left _ (inv.asked k chained) }

/-- Who gets the lock, and who still waits. -/
theorem grant_cases (s : Service) (work : List (Nat × Work)) :
    s.grant cfg work = { s with holder := none, waiting := [] } ∨
      (∃ k t rest, (k, Work.commit t) :: rest <:+ work ∧
        s.grant cfg work = { s with waiting := rest }.commitWithLock k t) ∨
      ∃ k rest, (k, Work.stop) :: rest <:+ work ∧
        s.grant cfg work = { s with
          holder := some (k, .stop)
          waiting := rest
          threads := s.threads ++ [(k, .sweeping .querying 0)] } := by
  induction work with
  | nil => exact Or.inl rfl
  | cons first rest ih =>
    obtain ⟨k, work⟩ := first
    cases work with
    | commit t => exact Or.inr (Or.inl ⟨k, t, rest, List.suffix_rfl, rfl⟩)
    | stop =>
      simp only [grant]
      split
      · exact Or.inr (Or.inr ⟨k, rest, List.suffix_rfl, rfl⟩)
      · rcases ih with free | ⟨j, t, left, suffix, next⟩ | ⟨j, left, suffix, next⟩
        · exact Or.inl free
        · exact Or.inr (Or.inl ⟨j, t, left, suffix.trans (List.suffix_cons _ _), next⟩)
        · exact Or.inr (Or.inr ⟨j, left, suffix.trans (List.suffix_cons _ _), next⟩)

section Granted

variable (idle : s.threads = []) {rest : List (Nat × Work)} {k : Nat}
  (clean : s.swept = true → NoneActive cfg s.store)
include idle clean

theorem Orderly.unlocked (stopped : s.swept = true → s.proc.running = false) :
    ({ s with holder := none, waiting := [] } : Service).Orderly cfg done where
  free := fun _ => ⟨idle, rfl⟩
  held := by intro k h holder; cases holder
  wired := by intro k d holder; cases holder
  asked := by intro k holder; cases holder
  stopping := by intro k member; cases member
  sweeping := by simp [idle]
  finished := by simp [idle]
  final := fun swept => ⟨stopped swept, by simp [idle], clean swept⟩

theorem Orderly.lockCommit {t : Transaction} (stopped : s.swept = true → s.proc.running = false)
    (stopping : ∀ j, (j, Work.stop) ∈ rest → s.proc.running = false) :
    ({ s with waiting := rest }.commitWithLock k t).Orderly cfg done := by
  have alone : ({ s with waiting := rest }.commitWithLock k t).threads = [(k, .starting t)] := by
    simp [commitWithLock, idle]
  exact {
    free := by intro holder; cases holder
    held := by
      intro j h holder
      obtain ⟨rfl, -⟩ := Prod.mk.inj (Option.some.inj holder)
      exact ⟨_, alone⟩
    wired := by
      intro j d holder
      obtain ⟨-, same⟩ := Prod.mk.inj (Option.some.inj holder)
      obtain rfl := Holder.commit.inj same
      simp [commitWithLock]
    asked := by
      intro j holder
      obtain ⟨-, same⟩ := Prod.mk.inj (Option.some.inj holder)
      cases same
    stopping := stopping
    sweeping := by simp [alone, Task.Sweeps]
    finished := by simp [alone]
    final := fun swept => ⟨stopped swept, by simp [alone, Task.Quiet], clean swept⟩ }

/-- The final sweep begins. -/
theorem Orderly.lockStop (halted : s.proc.running = false) :
    ({ s with
      holder := some (k, .stop)
      waiting := rest
      threads := s.threads ++ [(k, .sweeping .querying 0)] } : Service).Orderly cfg done where
  free := by intro holder; cases holder
  held := by
    intro j h holder
    obtain ⟨rfl, -⟩ := Prod.mk.inj (Option.some.inj holder)
    exact ⟨_, by simp [idle]; rfl⟩
  wired := by
    intro j d holder
    obtain ⟨-, same⟩ := Prod.mk.inj (Option.some.inj holder)
    cases same
  asked := by
    intro j holder
    obtain ⟨-, same⟩ := Prod.mk.inj (Option.some.inj holder)
    cases same
  stopping := fun _ _ => halted
  sweeping := fun _ _ _ => halted
  finished := by simp [idle]
  final := fun swept => ⟨halted, by simp [idle, Task.Quiet], clean swept⟩

end Granted

theorem Orderly.grant (idle : s.threads = []) {work : List (Nat × Work)}
    (stopping : ∀ k, (k, Work.stop) ∈ work → s.proc.running = false)
    (stopped : s.swept = true → s.proc.running = false)
    (clean : s.swept = true → NoneActive cfg s.store) :
    (s.grant cfg work).Orderly cfg done := by
  rcases @grant_cases cfg s work with free | ⟨k, t, rest, suffix, next⟩ | ⟨k, rest, suffix, next⟩
  · rw [free]
    exact unlocked idle clean stopped
  · rw [next]
    exact lockCommit idle clean stopped fun j member =>
      stopping j (suffix.subset (List.mem_cons_of_mem _ member))
  · rw [next]
    exact lockStop idle clean (stopping k (suffix.subset List.mem_cons_self))

@[simp] theorem grant_store (s : Service) (work : List (Nat × Work)) :
    (s.grant cfg work).store = s.store ∧ (s.grant cfg work).swept = s.swept := by
  rcases @grant_cases cfg s work with free | ⟨k, t, rest, -, next⟩ | ⟨k, rest, -, next⟩
  · rw [free]
    exact ⟨rfl, rfl⟩
  · rw [next]
    exact ⟨rfl, rfl⟩
  · rw [next]
    exact ⟨rfl, rfl⟩

theorem run_free {work : Work} (free : s.holder = none) :
    s.run cfg work = { s with next := s.next + 1 }.grant cfg ((s.next, work) :: s.waiting) := by
  simp only [Service.run, free]

theorem run_busy {work : Work} {holding : Nat × Holder} (busy : s.holder = some holding) :
    s.run cfg work =
      { s with next := s.next + 1, waiting := s.waiting ++ [(s.next, work)] } := by
  simp only [Service.run, busy]

theorem Orderly.run (inv : s.Orderly cfg done) {work : Work}
    (stopped : work = .stop → s.proc.running = false) : (s.run cfg work).Orderly cfg done := by
  have stopping : ∀ k, (k, Work.stop) ∈ s.waiting ++ [(s.next, work)] → s.proc.running = false := by
    intro k member
    rcases List.mem_append.mp member with before | last
    · exact inv.stopping k before
    · exact stopped (Prod.mk.inj (List.mem_singleton.mp last)).2.symm
  cases holder : s.holder with
  | none =>
    rw [run_free holder]
    obtain ⟨idle, nobody⟩ := inv.free holder
    apply Orderly.grant
    · exact idle
    · intro k member
      apply stopping k
      simpa [nobody] using member
    · exact fun swept => (inv.final swept).stopped
    · exact fun swept => (inv.final swept).clean
  | some holding =>
    rw [run_busy holder]
    have busy : s.holder ≠ none := by simp [holder]
    refine ⟨fun free => absurd free busy, inv.held, inv.wired, inv.asked, stopping, inv.sweeping,
      inv.finished, ?_⟩
    intro swept
    exact ⟨(inv.final swept).stopped, (inv.final swept).quiet, (inv.final swept).clean⟩

theorem Orderly.taskOf (inv : s.Orderly cfg done) {number : Nat} {task : Task}
    (found : s.taskOf number = some task) :
    s.threads = [(number, task)] ∧ ∃ h, s.holder = some (number, h) := by
  cases holder : s.holder with
  | none => simp [Service.taskOf, (inv.free holder).1] at found
  | some holding =>
    obtain ⟨k, h⟩ := holding
    obtain ⟨own, alone⟩ := inv.held k h holder
    simp only [Service.taskOf, alone, List.find?_cons, List.find?_nil] at found
    split at found
    · rename_i same
      obtain rfl : k = number := by simpa using same
      obtain rfl : own = task := by simpa using found
      exact ⟨alone, h, rfl⟩
    · cases found

/-- A sweep that has not come to its end before comes to it with this step. -/
theorem finished_of_swept {number : Nat} {w : World} {task : Task} (before : ¬ s.swept = true)
    (swept : (s.setTask number w task).swept = true) : ∃ n, task = .sweeping .finished n := by
  simp only [Service.setTask, Bool.or_eq_true, before, Bool.false_eq_true, false_or] at swept
  split at swept
  · rename_i n
    exact ⟨n, rfl⟩
  · cases swept

theorem Orderly.setTask (inv : s.Orderly cfg done) {number : Nat} {task : Task}
    (found : s.taskOf number = some task) {after : World × Task}
    (tame : Task.Tame s.toWorld task after)
    (finish : ∀ n, after.2 = .sweeping .finished n → task = .sweeping .finished n ∨
      NoneActive cfg s.store ∧ after.1 = s.toWorld) :
    (s.setTask number after.1 after.2).Orderly cfg done := by
  obtain ⟨alone, h, holder⟩ := inv.taskOf found
  have next : (s.setTask number after.1 after.2).threads = [(number, after.2)] := by
    simp [Service.setTask, alone]
  have stops : after.2.Sweeps → s.proc.running = false := by
    intro sweeps
    exact inv.sweeping (number, task) (by simp [alone]) (tame.sweeps sweeps)
  have kept : s.swept = true → Final cfg (s.setTask number after.1 after.2) := by
    intro swept
    have final := inv.final swept
    obtain ⟨quiet, sets⟩ := tame.quiet (final.quiet (number, task) (by simp [alone])) final.stopped
    refine ⟨tame.running.trans final.stopped, ?_, final.clean.after sets⟩
    rw [next]
    simpa using quiet
  refine ⟨?_, ?_, ?_, ?_, ?_, ?_, ?_, ?_⟩
  · intro free
    exact absurd (holder.symm.trans free) (by simp)
  · intro k h' holds
    have holds := holder.symm.trans holds
    obtain ⟨rfl, -⟩ := Prod.mk.inj (Option.some.inj holds)
    exact ⟨_, next⟩
  · intro k d holds
    rw [← inv.wired k d holds]
    exact iff_of_eq (congrArg (· = true) tame.cancelled)
  · exact inv.asked
  · intro k member
    exact tame.running.trans (inv.stopping k member)
  · intro th member sweeps
    rw [next, List.mem_singleton] at member
    exact tame.running.trans (stops (by rwa [member] at sweeps))
  · intro th member n finished
    rw [next, List.mem_singleton] at member
    have finished : after.2 = .sweeping .finished n := by rwa [member] at finished
    simp only [Service.setTask, finished, Bool.or_true]
  · intro swept
    by_cases before : s.swept = true
    · exact kept before
    · obtain ⟨n, finished⟩ := finished_of_swept before swept
      rcases finish n finished with already | ⟨clean, same⟩
      · exact absurd (inv.finished (number, task) (by simp [alone]) n already) before
      · refine ⟨tame.running.trans (stops (by rw [finished]; trivial)), ?_, ?_⟩
        · rw [next, finished]
          simp [Task.Quiet]
        · change NoneActive cfg after.1.store
          rw [same]
          exact clean

theorem Orderly.release (inv : s.Orderly cfg done) {s' : Service} (world : s'.toWorld = s.toWorld)
    (waiting : s'.waiting = s.waiting) (swept : s'.swept = s.swept) (idle : s'.threads = []) :
    (s'.release cfg).Orderly cfg done := by
  apply Orderly.grant idle
  · rw [waiting, world]
    exact inv.stopping
  · rw [swept, world]
    exact fun swept => (inv.final swept).stopped
  · rw [swept, world]
    exact fun swept => (inv.final swept).clean

theorem Orderly.deliver (inv : s.Orderly cfg done) {number : Nat} {task : Task}
    (found : s.taskOf number = some task) (result : Except Error Unit) :
    ({ s with threads := s.threads.filter fun th => decide (th.1 ≠ number) }.settle cfg number
      result).Orderly cfg done := by
  obtain ⟨alone, h, holder⟩ := inv.taskOf found
  have idle : s.threads.filter (fun th => decide (th.1 ≠ number)) = [] := by simp [alone]
  unfold Service.settle
  simp only [holder]
  cases h with
  | stop =>
    simp only [if_true]
    exact inv.release rfl rfl rfl idle
  | commit d =>
    have wired := inv.wired number d holder
    simp only [if_true]
    split
    · exact inv.release rfl rfl rfl idle
    · exact inv.release rfl rfl rfl idle
    · exact inv.release rfl rfl rfl idle
    · rename_i cancelled
      cases wired.mp cancelled

/-- A commit that is running is not cancelled a second time. -/
theorem Orderly.cancel (inv : s.Orderly cfg done) {number : Nat}
    (once : ∀ d, s.holder = some (number, .commit d) → .cancel number ∉ done) :
    (s.cancel cfg number).Orderly cfg (done ++ [.cancel number]) := by
  have asked := inv.asked
  have inv := inv.more (.cancel number)
  unfold Service.cancel
  split
  · have free : s.holder = none → s.threads = [] ∧ s.waiting.filter (fun w => !isCommit number w) =
      [] := by
      intro free
      obtain ⟨idle, nobody⟩ := inv.free free
      exact ⟨idle, by simp [nobody]⟩
    refine ⟨free, inv.held, inv.wired, inv.asked, ?_, inv.sweeping, inv.finished, ?_⟩
    · intro k member
      exact inv.stopping k (List.mem_of_mem_filter member)
    · intro swept
      exact ⟨(inv.final swept).stopped, (inv.final swept).quiet, (inv.final swept).clean⟩
  · split
    · rename_i holding holder
      split
      · rename_i same
        subst same
        obtain ⟨task, alone⟩ := inv.held holding _ holder
        refine ⟨?_, ?_, ?_, ?_, inv.stopping, inv.sweeping, inv.finished, ?_⟩
        · intro free
          cases free
        · intro k h holds
          obtain ⟨rfl, -⟩ := Prod.mk.inj (Option.some.inj holds)
          exact ⟨task, alone⟩
        · intro k d holds
          obtain ⟨-, same⟩ := Prod.mk.inj (Option.some.inj holds)
          obtain rfl := Holder.commit.inj same
          simp
        · intro k holds
          obtain ⟨rfl, -⟩ := Prod.mk.inj (Option.some.inj holds)
          simp
        · intro swept
          exact ⟨(inv.final swept).stopped, (inv.final swept).quiet, (inv.final swept).clean⟩
      · exact inv
    · rename_i holding holder
      split
      · rename_i same
        subst same
        exact absurd (asked holding holder) (once _ holder)
      · exact inv
    · exact inv

/-- A commit that has the lock is cancelled at most once. -/
def Once (done : List Event) (s : Service) (e : Event) : Prop :=
  ∀ number d, e = .cancel number → s.holder = some (number, .commit d) → .cancel number ∉ done

theorem Orderly.step (inv : s.Orderly cfg done) {e : Event} (once : Once done s e) :
    (s.step client cfg setup e).Orderly cfg (done ++ [e]) := by
  cases e with
  | commit t => exact (inv.run (by simp)).more _
  | stop =>
    have stopped : ({ s with proc := { s.proc with running := false } } :
      Service).Orderly cfg done :=
      ⟨inv.free, inv.held, inv.wired, inv.asked, fun _ _ => rfl, fun _ _ _ => rfl, inv.finished,
        fun swept => ⟨rfl, (inv.final swept).quiet, (inv.final swept).clean⟩⟩
    exact (stopped.run fun _ => rfl).more _
  | cancel number => exact inv.cancel fun d holder => once number d rfl holder
  | proceed number env =>
    simp only [Service.step]
    split
    · rename_i task found
      exact (inv.setTask found (Task.tame_proceed task) fun n => Task.proceed_finished).more _
    · exact inv.more _
  | fails number torn part tornNames partNames =>
    simp only [Service.step]
    split
    · rename_i task found
      exact (inv.setTask found (Task.tame_fails torn tornNames task)
        fun n finished => Or.inl (Task.fails_finished finished)).more _
    · exact inv.more _
  | deliver number =>
    simp only [Service.step]
    split
    · rename_i result ended
      obtain ⟨task, found, -⟩ := Option.bind_eq_some_iff.mp ended
      exact (inv.deliver found result).more _
    · exact inv.more _

@[simp] theorem release_store (s : Service) : (s.release cfg).store = s.store :=
  (grant_store s s.waiting).1

theorem run_store (s : Service) (work : Work) : (s.run cfg work).store = s.store := by
  cases holder : s.holder with
  | none =>
    rw [run_free holder]
    exact (grant_store _ _).1
  | some holding => rw [run_busy holder]

theorem cancel_store (s : Service) (number : Nat) : (s.cancel cfg number).store = s.store := by
  unfold Service.cancel
  split
  · rfl
  · split
    · split <;> rfl
    · split
      · exact release_store _
      · rfl
    · rfl

theorem settle_store (s : Service) (number : Nat) (result : Except Error Unit) :
    (s.settle cfg number result).store = s.store := by
  unfold Service.settle
  split
  · split
    · dsimp only
      split
      · exact release_store _
      · exact release_store _
      · exact release_store _
      · rfl
    · rfl
  · split
    · exact release_store _
    · rfl
  · rfl

/-- Once a stop sweep has come to its end, no step makes a channel Active. -/
theorem Orderly.step_sets (inv : s.Orderly cfg done) (swept : s.swept = true) (e : Event) :
    SetsNoActive s.store (s.step client cfg setup e).store := by
  have final := inv.final swept
  have same {s' : Service} (unchanged : s'.store = s.store) : SetsNoActive s.store s'.store := by
    rw [unchanged]
    exact SetsNoActive.refl _
  have quiet {number : Nat} {task : Task} (found : s.taskOf number = some task) : task.Quiet :=
    final.quiet (number, task) (by simp [(inv.taskOf found).1])
  cases e with
  | commit t => exact same (run_store s _)
  | stop => exact same (run_store _ _)
  | cancel number => exact same (cancel_store s number)
  | proceed number env =>
    simp only [Service.step]
    split
    · rename_i task found
      exact ((Task.tame_proceed task).quiet (quiet found) final.stopped).2
    · exact SetsNoActive.refl _
  | fails number torn part tornNames partNames =>
    simp only [Service.step]
    split
    · rename_i task found
      exact ((Task.tame_fails torn tornNames task).quiet (quiet found) final.stopped).2
    · exact SetsNoActive.refl _
  | deliver number =>
    simp only [Service.step]
    split
    · exact same (settle_store _ _ _)
    · exact SetsNoActive.refl _

/-- In every state of the run, a commit that has the lock is cancelled at most once. -/
def CancelsOnce (client : ChannelFinderAdapter) (cfg : CFConfig) (setup : Setup) (s : Service)
    (events : List Event) : Prop :=
  EveryStep (fun done e => Once done (s.steps client cfg setup done) e) events

def cancelled (events : List Event) : List Nat :=
  events.filterMap fun
    | .cancel number => some number
    | _ => none

theorem cancelsOnce_of_nodup {events : List Event} (nodup : (cancelled events).Nodup) :
    CancelsOnce client cfg setup s events := by
  rintro before e after rfl number d rfl holder member
  have split : cancelled (before ++ .cancel number :: after) =
      cancelled before ++ number :: cancelled after := List.filterMap_append
  rw [split, List.nodup_append] at nodup
  have earlier : number ∈ cancelled before := List.mem_filterMap.mpr ⟨_, member, rfl⟩
  exact nodup.2.2 number earlier number (by simp) rfl

def idle (w : World) : Service := { toWorld := w }

theorem orderly_idle (w : World) : (idle w).Orderly cfg [] where
  free := fun _ => ⟨rfl, rfl⟩
  held := by intro k h holder; cases holder
  wired := by intro k d holder; cases holder
  asked := by intro k holder; cases holder
  stopping := by intro k member; cases member
  sweeping := by intro th member; cases member
  finished := by intro th member; cases member
  final := by intro swept; cases swept

theorem Orderly.steps (inv : s.Orderly cfg []) {events : List Event}
    (once : CancelsOnce client cfg setup s events) {reached : List Event}
    (inside : reached <+: events) :
    (s.steps client cfg setup reached).Orderly cfg reached := by
  apply EveryStep.maintains (I := fun done => (s.steps client cfg setup done).Orderly cfg done)
    once inv _
    inside
  intro done e _ before last
  rw [Service.steps, List.foldl_append]
  exact before.step last

/-- Commits and the stop sweep are exclusive, and once a stop sweep has come to its end with
nothing left to clean, no step makes a channel Active and none with the id of this recceiver is. -/
structure StopIsFinal (client : ChannelFinderAdapter) (cfg : CFConfig) (setup : Setup) (s : Service)
    (events : List Event) : Prop where
  exclusive : ∀ reached, reached <+: events → (s.steps client cfg setup reached).threads.length ≤ 1
  silent : ∀ before e after, events = before ++ e :: after →
    (s.steps client cfg setup before).swept = true →
    SetsNoActive (s.steps client cfg setup before).store
      (s.steps client cfg setup (before ++ [e])).store
  clean : ∀ reached, reached <+: events → (s.steps client cfg setup reached).swept = true →
    NoneActive cfg (s.steps client cfg setup reached).store

theorem steps_append (s : Service) (first second : List Event) :
    s.steps client cfg setup (first ++ second) =
      (s.steps client cfg setup first).steps client cfg setup second :=
  List.foldl_append

end Service

/-- In every interleaving of commits, their threads and cancellations, at most one of each running
commit, and of stops of the service, the commits and the sweep are exclusive and the sweep is
final. -/
theorem stop_sweep_final (client : ChannelFinderAdapter) (cfg : CFConfig) (setup : Setup)
    (w : World)
    {events : List Service.Event}
    (once : Service.CancelsOnce client cfg setup (.idle w) events) :
    Service.StopIsFinal client cfg setup (.idle w) events := by
  have orderly {reached : List Service.Event} (inside : reached <+: events) :=
    (Service.orderly_idle w).steps once inside
  refine ⟨?_, ?_, ?_⟩
  · intro reached inside
    have inv := orderly inside
    cases holder : (Service.steps client cfg setup (.idle w) reached).holder with
    | none => simp [(inv.free holder).1]
    | some holding =>
      obtain ⟨task, alone⟩ := inv.held holding.1 holding.2 holder
      simp [alone]
  · rintro before e after rfl swept
    rw [Service.steps_append]
    exact (orderly ⟨e :: after, rfl⟩).step_sets swept e
  · intro reached inside swept
    exact ((orderly inside).final swept).clean

def oneActive : Store :=
  Py.Dict.set ∅ "pv" { owner := "cfstore", properties :=
    [property .recceiverId "cfstore" "r", property .pvStatus "cfstore" PVStatus.active.value] }

/-- A commit that writes although it is cancelled and the service stopped, another one that waits,
and the sweep. -/
def cancelledAndStopped : List Service.Event :=
  [.commit (announce "a" 5064 "pv2"), .commit (announce "b" 5064 "pv"), .proceed 0 {},
    .proceed 0 {}, .proceed 0 {}, .proceed 0 {}, .stop, .cancel 0, .proceed 0 {}, .proceed 0 {},
    .deliver 0, .proceed 1 {}, .deliver 1, .proceed 2 {}, .proceed 2 {}, .proceed 2 {}, .deliver 2]

theorem stop_sweep_final_cancelled :
    let start := Service.idle { store := oneActive }
    Service.CancelsOnce (pagedQueries 10000) (pagesOf 10000) {} start cancelledAndStopped ∧
      (start.steps (pagedQueries 10000) (pagesOf 10000) {} cancelledAndStopped).swept = true ∧
      Service.StopIsFinal (pagedQueries 10000) (pagesOf 10000) {} start cancelledAndStopped := by
  intro start
  have once : Service.CancelsOnce (pagedQueries 10000) (pagesOf 10000) {} start
      cancelledAndStopped := Service.cancelsOnce_of_nodup (by decide)
  exact ⟨once, by decide, stop_sweep_final _ _ _ _ once⟩

end Recsync.Cf
