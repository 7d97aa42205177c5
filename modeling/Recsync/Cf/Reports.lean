import Mathlib.Data.List.Perm.Subperm
import Recsync.Cf.Stop

set_option autoImplicit false

/- What the Deferreds of the commits fire with. -/
namespace Recsync.Cf

open Py (Error)
open Runs (EveryStep)

namespace Service

variable {client : ChannelFinderAdapter} {cfg : CFConfig} {setup : Setup} {s s' : Service}
  {done : List Event}

theorem nodup_of_subperm {a b : List Nat} (less : a.Subperm b) (nodup : b.Nodup) : a.Nodup := by
  obtain ⟨l, same, sublist⟩ := less
  exact same.nodup_iff.mp (nodup.sublist sublist)

/-- The Deferreds that have the lock or wait for it. -/
def pending (s : Service) : List Nat :=
  (s.holder.map Prod.fst).toList ++ s.waiting.map Prod.fst

/-- Every Deferred fires once, and that of a commit whose thread has ended has fired: with a failure
if the commit was cancelled, and only then. -/
structure Reports (s : Service) : Prop where
  nodup : (s.fired.map Prod.fst ++ s.pending).Nodup
  fresh : ∀ n ∈ s.fired.map Prod.fst ++ s.pending, n < s.next
  reported : ∀ d ∈ s.delivered, ∃ f, (d.number, f) ∈ s.fired ∧ (f ≠ .success ↔ d.cancelled = true)

theorem grant_pending (s : Service) (work : List (Nat × Work)) :
    ∃ rest, rest <:+ work ∧ (s.grant cfg work).pending = rest.map Prod.fst := by
  rcases @grant_cases cfg s work with free | ⟨k, t, rest, suffix, next⟩ | ⟨k, rest, suffix, next⟩
  · exact ⟨[], List.nil_suffix, by rw [free]; rfl⟩
  · exact ⟨_, suffix, by rw [next]; rfl⟩
  · exact ⟨_, suffix, by rw [next]; rfl⟩

theorem grant_logs (s : Service) (work : List (Nat × Work)) :
    (s.grant cfg work).fired = s.fired ∧ (s.grant cfg work).delivered = s.delivered ∧
      (s.grant cfg work).next = s.next := by
  rcases @grant_cases cfg s work with free | ⟨k, t, rest, -, next⟩ | ⟨k, rest, -, next⟩
  · rw [free]
    exact ⟨rfl, rfl, rfl⟩
  · rw [next]
    exact ⟨rfl, rfl, rfl⟩
  · rw [next]
    exact ⟨rfl, rfl, rfl⟩

/-- Nothing fires and nothing new waits. -/
theorem Reports.shrink (inv : s.Reports) (fired : s'.fired = s.fired)
    (delivered : s'.delivered = s.delivered) (next : s'.next = s.next)
    (fewer : s'.pending.Sublist s.pending) : s'.Reports := by
  have less : (s'.fired.map Prod.fst ++ s'.pending).Sublist (s.fired.map Prod.fst ++
    s.pending) := by
    rw [fired]
    exact List.Sublist.append_left fewer _
  refine ⟨inv.nodup.sublist less, ?_, ?_⟩
  · intro n member
    rw [next]
    exact inv.fresh n (less.subset member)
  · rw [fired, delivered]
    exact inv.reported

theorem Reports.fires (inv : s.Reports) {number : Nat} {outcome : Fired}
    (fired : s'.fired = s.fired ++ [(number, outcome)]) (next : s'.next = s.next)
    (fewer : (number :: s'.pending).Subperm s.pending)
    (delivered : ∀ d ∈ s'.delivered, d ∈ s.delivered ∨
      d.number = number ∧ (outcome ≠ .success ↔ d.cancelled = true)) : s'.Reports := by
  have less : (s'.fired.map Prod.fst ++ s'.pending).Subperm (s.fired.map Prod.fst ++
    s.pending) := by
    rw [fired, List.map_append, List.append_assoc]
    exact (List.subperm_append_left _).mpr fewer
  refine ⟨nodup_of_subperm less inv.nodup, ?_, ?_⟩
  · intro n member
    rw [next]
    exact inv.fresh n (less.subset member)
  · intro d member
    rw [fired]
    rcases delivered d member with before | ⟨rfl, agrees⟩
    · obtain ⟨f, inside, agrees⟩ := inv.reported d before
      exact ⟨f, List.mem_append_left _ inside, agrees⟩
    · exact ⟨outcome, by simp, agrees⟩

theorem Reports.run (inv : s.Reports) (work : Work) : (s.run cfg work).Reports := by
  have nodup : (s.fired.map Prod.fst ++ (s.pending ++ [s.next])).Nodup := by
    rw [← List.append_assoc, List.nodup_append]
    refine ⟨inv.nodup, by simp, ?_⟩
    intro a member b last same
    have small := inv.fresh a member
    rw [same, List.mem_singleton.mp last] at small
    omega
  have fresh : ∀ n ∈ s.fired.map Prod.fst ++ (s.pending ++ [s.next]), n < s.next + 1 := by
    intro n member
    rw [← List.append_assoc, List.mem_append, List.mem_singleton] at member
    rcases member with before | rfl
    · have small := inv.fresh n before
      omega
    · omega
  cases holder : s.holder with
  | none =>
    rw [run_free holder]
    obtain ⟨rest, suffix, pending⟩ := @grant_pending cfg { s with next := s.next + 1 }
      ((s.next, work) :: s.waiting)
    obtain ⟨fired, delivered, next⟩ := @grant_logs cfg { s with next := s.next + 1 }
      ((s.next, work) :: s.waiting)
    have few : (s.fired.map Prod.fst ++ rest.map Prod.fst).Subperm
        (s.fired.map Prod.fst ++ (s.pending ++ [s.next])) := by
      refine (List.subperm_append_left _).mpr ?_
      refine (suffix.sublist.map Prod.fst).subperm.trans ?_
      have all : ((s.next, work) :: s.waiting).map Prod.fst = s.next :: s.pending := by
        simp [Service.pending, holder]
      rw [all]
      exact (List.perm_append_singleton _ _).symm.subperm
    refine ⟨?_, ?_, ?_⟩
    · rw [fired, pending]
      exact nodup_of_subperm few nodup
    · rw [fired, pending, next]
      intro n member
      exact fresh n (few.subset member)
    · rw [fired, delivered]
      exact inv.reported
  | some holding =>
    rw [run_busy holder]
    have all : ({ s with next := s.next + 1, waiting := s.waiting ++ [(s.next, work)] } :
        Service).pending = s.pending ++ [s.next] := by
      simp [Service.pending]
    refine ⟨?_, ?_, inv.reported⟩
    · rw [all]
      exact nodup
    · rw [all]
      exact fresh

/-- The lock is released after the Deferred of its holder has fired. -/
theorem Reports.release (inv : s.Reports) {number : Nat} {h : Holder}
    (holder : s.holder = some (number, h)) {outcome : Fired}
    (fired : s'.fired = s.fired ++ [(number, outcome)]) (next : s'.next = s.next)
    (waiting : s'.waiting = s.waiting)
    (delivered : ∀ d ∈ s'.delivered, d ∈ s.delivered ∨
      d.number = number ∧ (outcome ≠ .success ↔ d.cancelled = true)) :
    (s'.release cfg).Reports := by
  obtain ⟨rest, suffix, pending⟩ := @grant_pending cfg s' s'.waiting
  obtain ⟨sameFired, sameDelivered, sameNext⟩ := @grant_logs cfg s' s'.waiting
  have fewer : (number :: rest.map Prod.fst).Subperm s.pending := by
    have all : s.pending = number :: s'.waiting.map Prod.fst := by
      simp [Service.pending, holder, waiting]
    rw [all, List.subperm_cons]
    exact (suffix.sublist.map Prod.fst).subperm
  exact inv.fires (sameFired.trans fired) (sameNext.trans next) (pending ▸ fewer)
    fun d member => delivered d (sameDelivered ▸ member)

/-- The lock is released and nothing fires. -/
theorem Reports.drop (inv : s.Reports) (fired : s'.fired = s.fired)
    (delivered : s'.delivered = s.delivered) (next : s'.next = s.next)
    (waiting : s'.waiting = s.waiting) : (s'.release cfg).Reports := by
  obtain ⟨rest, suffix, pending⟩ := @grant_pending cfg s' s'.waiting
  obtain ⟨sameFired, sameDelivered, sameNext⟩ := @grant_logs cfg s' s'.waiting
  have fewer : (rest.map Prod.fst).Sublist s.pending := by
    rw [waiting] at suffix
    exact (suffix.sublist.map Prod.fst).trans (List.sublist_append_right _ _)
  exact inv.shrink (sameFired.trans fired) (sameDelivered.trans delivered) (sameNext.trans next)
    (pending ▸ fewer)

/-- A commit that waits for the lock is taken off the queue. -/
theorem Reports.dequeue (inv : s.Reports) {number : Nat}
    (waits : s.waiting.any (isCommit number) = true) :
    ({ s with waiting := s.waiting.filter fun w => !isCommit number w }.fire number
      .cancelledError).Reports := by
  obtain ⟨⟨k, work⟩, member, isOne⟩ := List.any_eq_true.mp waits
  cases work with
  | stop => cases isOne
  | commit t =>
    obtain rfl : k = number := by simpa [isCommit] using isOne
    have nodup := inv.nodup
    rw [Service.pending, ← List.append_assoc, List.nodup_append] at nodup
    have queued : k ∈ s.waiting.map Prod.fst := List.mem_map_of_mem member
    refine inv.fires rfl rfl ?_ fun d inside => Or.inl inside
    apply List.cons_subperm_of_not_mem_of_mem
    · intro still
      rcases List.mem_append.mp still with holds | left
      · exact nodup.2.2 k (List.mem_append_right _ holds) k queued rfl
      · obtain ⟨other, inside, same⟩ := List.mem_map.mp left
        obtain ⟨there, kept⟩ := List.mem_filter.mp inside
        have equal := List.inj_on_of_nodup_map nodup.2.1 there member same
        simp [equal, isCommit] at kept
    · exact List.mem_append_right _ queued
    · exact (List.Sublist.append_left (List.filter_sublist.map Prod.fst) _).subperm

theorem Reports.cancel (inv : s.Reports) (orderly : s.Orderly cfg done) {number : Nat}
    (once : ∀ d, s.holder = some (number, .commit d) → .cancel number ∉ done) :
    (s.cancel cfg number).Reports := by
  unfold Service.cancel
  split
  · rename_i waits
    exact inv.dequeue waits
  · split
    · rename_i holding holder
      split
      · rename_i same
        subst same
        refine inv.shrink (by rfl) (by rfl) (by rfl) ?_
        simp [Service.pending, holder]
      · exact inv
    · rename_i holding holder
      split
      · rename_i same
        subst same
        exact absurd (orderly.asked holding holder) (once _ holder)
      · exact inv
    · exact inv

theorem Reports.deliver (inv : s.Reports) (orderly : s.Orderly cfg done) {number : Nat}
    {task : Task}
    (found : s.taskOf number = some task) (result : Except Error Unit) :
    ({ s with threads := s.threads.filter fun th => decide (th.1 ≠ number) }.settle cfg number
      result).Reports := by
  obtain ⟨-, h, holder⟩ := orderly.taskOf found
  unfold Service.settle
  simp only [holder]
  cases h with
  | stop =>
    simp only [if_true]
    exact inv.drop rfl rfl rfl rfl
  | commit d =>
    have wired := orderly.wired number d holder
    simp only [if_true]
    -- the two ways to fire: the flag is set exactly when `d` was cancelled
    have last {outcome : Fired} (agrees : outcome ≠ .success ↔ decide (d = .chained) = true) :
        ∀ x ∈ s.delivered ++ [{ number, result, cancelled := decide (d = .chained) : Delivery }],
          x ∈ s.delivered ∨ x.number = number ∧ (outcome ≠ .success ↔ x.cancelled = true) := by
      intro x member
      rcases List.mem_append.mp member with before | now
      · exact Or.inl before
      · rw [List.mem_singleton.mp now]
        exact Or.inr ⟨rfl, agrees⟩
    split
    · exact inv.release holder (by rfl) (by rfl) (by rfl) (last (by simp))
    · exact inv.release holder (by rfl) (by rfl) (by rfl) (last (by simp))
    · rename_i running
      rw [wired.mpr rfl] at running
      cases running
    · rename_i cancelled
      cases wired.mp cancelled

theorem Reports.step (inv : s.Reports) (orderly : s.Orderly cfg done) {e : Event}
    (once : Once done s e) : (s.step client cfg setup e).Reports := by
  cases e with
  | commit t => exact inv.run _
  | stop =>
    have stopped : ({ s with proc := { s.proc with running := false } } : Service).Reports :=
      ⟨inv.nodup, inv.fresh, inv.reported⟩
    exact stopped.run _
  | cancel number => exact inv.cancel orderly fun d holder => once number d rfl holder
  | proceed number env =>
    simp only [Service.step]
    split
    · exact ⟨inv.nodup, inv.fresh, inv.reported⟩
    · exact inv
  | fails number torn part tornNames partNames =>
    simp only [Service.step]
    split
    · exact ⟨inv.nodup, inv.fresh, inv.reported⟩
    · exact inv
  | deliver number =>
    simp only [Service.step]
    split
    · rename_i result ended
      obtain ⟨task, found, -⟩ := Option.bind_eq_some_iff.mp ended
      exact inv.deliver orderly found result
    · exact inv

theorem reports_idle (w : World) : (idle w).Reports :=
  ⟨by simp [idle, Service.pending], by simp [idle, Service.pending], by simp [idle]⟩

theorem Reports.steps (w : World) {events : List Event}
    (once : CancelsOnce client cfg setup (idle w) events) :
    ((idle w).steps client cfg setup events).Reports := by
  apply EveryStep.maintains (I := fun done =>
    ((idle w).steps client cfg setup done).Orderly cfg done ∧
    ((idle w).steps client cfg setup done).Reports) once ⟨orderly_idle w, reports_idle w⟩ _
      List.prefix_rfl |>.2
  rintro done e - ⟨orderly, reports⟩ last
  rw [Service.steps, List.foldl_append]
  exact ⟨orderly.step last, reports.step orderly last⟩

/-- The Deferred of the commit has fired exactly once, with a failure if its thread raised or it was
cancelled while the thread was running, and only then. -/
def Reported (s : Service) (d : Delivery) : Prop :=
  ∃ f, s.fired.filter (fun x => decide (x.1 = d.number)) = [(d.number, f)] ∧
    (f ≠ .success ↔ d.result ≠ .ok () ∨ d.cancelled = true)

theorem filter_fired {l : List (Nat × Fired)} (nodup : (l.map Prod.fst).Nodup) {n : Nat} {f : Fired}
    (member : (n, f) ∈ l) : l.filter (fun x => decide (x.1 = n)) = [(n, f)] := by
  obtain ⟨before, after, rfl⟩ := List.append_of_mem member
  have others : ∀ x ∈ before ++ after, x.1 ≠ n := by
    rw [List.map_append, List.map_cons, List.nodup_middle, ← List.map_append,
      List.nodup_cons] at nodup
    intro x inside same
    exact nodup.1 (List.mem_map.mpr ⟨x, inside, same⟩)
  have none (part : List (Nat × Fired)) (sub : ∀ x ∈ part, x ∈ before ++ after) :
      part.filter (fun x => decide (x.1 = n)) = [] := by
    rw [List.filter_eq_nil_iff]
    intro x inside same
    exact others x (sub x inside) (of_decide_eq_true same)
  rw [List.filter_append, List.filter_cons_of_pos (by simp),
    none before fun x inside => List.mem_append_left _ inside,
    none after fun x inside => List.mem_append_right _ inside, List.nil_append]

end Service

/-- In every run in which no running commit is cancelled twice, a commit whose thread has ended
is reported as it should be exactly when its thread returned or it was cancelled: an exception of a
commit that was not cancelled is only logged. -/
theorem reported_iff (client : ChannelFinderAdapter) (cfg : CFConfig) (setup : Setup) (w : World)
    {events : List Service.Event}
    (once : Service.CancelsOnce client cfg setup (.idle w) events) {d : Delivery}
    (member : d ∈ (Service.steps client cfg setup (.idle w) events).delivered) :
    (Service.steps client cfg setup (.idle w) events).Reported d ↔
      (d.result = .ok () ∨ d.cancelled = true) := by
  have inv := Service.Reports.steps w once
  obtain ⟨f, fired, agrees⟩ := inv.reported d member
  have alone := Service.filter_fired (List.nodup_append.mp inv.nodup).1 fired
  constructor
  · rintro ⟨g, only, reported⟩
    obtain rfl : f = g := by simpa [alone] using only
    by_cases returned : d.result = .ok ()
    · exact Or.inl returned
    · exact Or.inr (agrees.mp (reported.mpr (Or.inl returned)))
  · intro condition
    refine ⟨f, alone, agrees.trans ?_⟩
    rcases condition with returned | cancelled
    · simp [returned]
    · simp [cancelled]

/-- A commit that is cancelled while its thread is running. -/
def cancelledCommit : List Service.Event :=
  [.commit (announce "a" 5064 "pv"), .proceed 0 {}, .proceed 0 {}, .cancel 0, .proceed 0 {},
    .deliver 0]

theorem reported_iff_cancelledCommit :
    let after := Service.steps (pagedQueries 10000) (pagesOf 10000) {} (.idle {}) cancelledCommit
    Service.CancelsOnce (pagedQueries 10000) (pagesOf 10000) {} (.idle {}) cancelledCommit ∧
      ∃ d ∈ after.delivered, after.Reported d := by
  have once : Service.CancelsOnce (pagedQueries 10000) (pagesOf 10000) {} (.idle {})
      cancelledCommit := Service.cancelsOnce_of_nodup (by decide)
  refine ⟨once, _, List.mem_singleton.mpr rfl, ?_⟩
  exact (reported_iff _ (pagesOf 10000) {} {} once (List.mem_singleton.mpr rfl)).mpr (Or.inr rfl)

/-- A commit whose only attempt fails, so that its thread raises `CancelledError`. -/
def failedPush : List Service.Event :=
  [.commit (announce "a" 5064 "pv"), .proceed 0 {}, .proceed 0 {},
    .fails 0 id (fun _ => List.Subset.refl _) id (fun _ => List.Subset.refl _), .proceed 0 {},
    .deliver 0]

theorem failed_push_unreported :
    let after := Service.steps (pagedQueries 10000) { pagesOf 10000 with pushMaxRetries := 1 } {}
      (.idle {}) failedPush
    ∃ d ∈ after.delivered, d.result = .error .cancelledError ∧ ¬ after.Reported d := by
  intro after
  refine ⟨_, List.mem_singleton.mpr rfl, rfl, ?_⟩
  rintro ⟨f, alone, reported⟩
  have success : f = .success := by
    have only : after.fired.filter (fun x => decide (x.1 = 0)) = [(0, .success)] := by decide
    rw [only] at alone
    simpa using alone.symm
  exact reported.mpr (Or.inl (by decide)) success

end Recsync.Cf
