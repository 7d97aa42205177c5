import Recsync.Cf.Clean

set_option autoImplicit false

/- `clean_service` when ChannelFinder refuses some of its requests. -/
namespace Recsync.Cf

open Py (Error)

/-- What happens to the sweep: something becomes of its request, or the service is stopped. -/
inductive SweepEvent where
  | request (a : Answer)
  | stops

namespace SweepEvent

def apply (client : ChannelFinderAdapter) (cfg : CFConfig) (setup : Setup) (s : World × Task) :
    SweepEvent → World × Task
  | .request a => a.onRequest client cfg setup s
  | .stops => ({ s.1 with proc := { s.1.proc with running := false } }, s.2)

def fails : SweepEvent → Bool
  | .request a => a.raised
  | .stops => false

def succeeds : SweepEvent → Bool
  | .request a => !a.raised
  | .stops => false

end SweepEvent

/-- The thread of `clean_service`, with what happens to it. -/
def cleanThread (client : ChannelFinderAdapter) (cfg : CFConfig) (setup : Setup)
    (events : List SweepEvent) (w : World) : World × Task :=
  events.foldl (SweepEvent.apply client cfg setup) (w, .sweeping .querying 0)

section Stores

variable {cfg : CFConfig} {s : Store} {names part : List String}

theorem setProperty_setProperty (e : CFEntry) (p : CFProperty) :
    (e.setProperty p).setProperty p = e.setProperty p := by
  simp [CFEntry.setProperty, List.filter_append]

/-- A channel that is named twice is updated as if named once. -/
theorem get?_updateProperty_mem (p : CFProperty) (names : List String) (s : Store) (n : String) :
    (updateProperty s p names).get? n =
      if n ∈ names then (s.get? n).map fun e => e.setProperty p else s.get? n := by
  rw [updateProperty]
  induction names generalizing s with
  | nil => simp
  | cons name rest ih =>
    rw [List.foldl_cons, ih]
    by_cases here : n = name
    · subst here
      cases found : s.get? n with
      | none => simp [found]
      | some e => simp [setProperty_setProperty]
    · cases found : s.get? name with
      | none => simp [here]
      | some e => simp [here, Py.Dict.get?_set_ne s _ here]

/-- An update of some of the channels that a query found. -/
theorem get?_markInactive_part (found : ∀ n ∈ names, sweptAt cfg s n = true)
    (inside : part ⊆ names) (n : String) :
    (markInactive cfg part s).get? n =
      if n ∈ part then (s.get? n).map (CFEntry.afterSweep cfg) else s.get? n := by
  rw [markInactive, get?_updateProperty_mem]
  by_cases named : n ∈ part
  · have swept := found n (inside named)
    rw [if_pos named, if_pos named]
    cases stored : s.get? n with
    | none => rfl
    | some e =>
      rw [sweptAt, stored, Option.any_some, decide_eq_true_iff] at swept
      rw [Option.map_some, Option.map_some, CFEntry.afterSweep, if_pos swept]
      rfl
  · rw [if_neg named, if_neg named]

theorem sweptAt_markInactive_part (found : ∀ n ∈ names, sweptAt cfg s n = true)
    (inside : part ⊆ names) (n : String) :
    sweptAt cfg (markInactive cfg part s) n = (sweptAt cfg s n && !decide (n ∈ part)) := by
  rw [sweptAt, get?_markInactive_part found inside]
  by_cases named : n ∈ part
  · rw [if_pos named, decide_eq_true named, Bool.not_true, Bool.and_false]
    cases s.get? n with
    | none => rfl
    | some e => simp [not_swept_afterSweep]
  · rw [if_neg named, decide_eq_false named, Bool.not_false, Bool.and_true]
    rfl

/-- An update leaves no more to sweep than there was, and less if it names a channel. -/
theorem length_activeFor_part (found : ∀ n ∈ names, sweptAt cfg s n = true)
    (inside : part ⊆ names) :
    (activeFor cfg (markInactive cfg part s)).length + (if part = [] then 0 else 1) ≤
      (activeFor cfg s).length := by
  have keys : (markInactive cfg part s).keys = s.keys := keys_updateProperty _ _ s
  have left : s.keys.filter (sweptAt cfg (markInactive cfg part s)) =
      (s.keys.filter (sweptAt cfg s)).filter fun n => !decide (n ∈ part) := by
    rw [List.filter_filter]
    apply List.filter_congr
    intro n _
    rw [sweptAt_markInactive_part found inside, Bool.and_comm]
  rw [length_activeFor, length_activeFor, keys, left]
  cases part with
  | nil => simp
  | cons n rest =>
    have swept := found n (inside List.mem_cons_self)
    have stored : n ∈ s.keys := by
      rw [sweptAt, Option.any_eq_true] at swept
      obtain ⟨e, stored, -⟩ := swept
      exact (s.mem_keys_iff n).mpr ⟨e, stored⟩
    have fewer := List.length_filter_lt_length_iff_exists (p := fun m => !decide (m ∈ n :: rest))
      (l := s.keys.filter (sweptAt cfg s))|>.mpr
      ⟨n, List.mem_filter.mpr ⟨stored, swept⟩, by simp⟩
    rw [if_neg (List.cons_ne_nil n rest)]
    omega

end Stores

/-- Half as much again after each failure, the pause of one second grows to five at the fourth. -/
theorem pause_grown (failures : Nat) :
    5 * 2 ^ (failures + 1) ≤ 3 ^ (failures + 1) ↔ 4 ≤ failures + 1 := by
  constructor
  · intro grown
    by_contra few
    have small : failures = 0 ∨ failures = 1 ∨ failures = 2 := by omega
    rcases small with rfl | rfl | rfl <;> exact absurd grown (by decide)
  · intro enough
    obtain ⟨k, rfl⟩ := Nat.exists_eq_add_of_le' (show 3 ≤ failures by omega)
    induction k with
    | zero => decide
    | succ k ih =>
      have before := ih (by omega)
      have two : 2 ^ (k + 1 + 3 + 1) = 2 ^ (k + 3 + 1) * 2 := Nat.pow_succ ..
      have three : 3 ^ (k + 1 + 3 + 1) = 3 ^ (k + 3 + 1) * 3 := Nat.pow_succ ..
      omega

/-- Where the sweep is after that many failures, the last of them with the service stopped. -/
def SweepAt (cfg : CFConfig) (running : Bool) (failures late : Nat) (s : Store) : Task → Prop
  | .sweeping .querying k => k = failures ∧ (running = false → failures < 4 ∨ late = 0)
  | .sweeping (.cleaning names) k => k = failures ∧ (running = false → failures < 4 ∨ late = 0) ∧
      names ≠ [] ∧ ∀ n ∈ names, sweptAt cfg s n = true
  | .sweeping .finished _ => activeFor cfg s = []
  | .ended result => result = .ok () ∧ running = false ∧ 4 ≤ failures
  | _ => False

/-- How many answers the sweep needs, at most, to come to its end. -/
def sweepRank (cfg : CFConfig) (s : Store) : Task → Nat
  | .sweeping .querying _ => 2 * (activeFor cfg s).length + 1
  | .sweeping (.cleaning _) _ => 2 * (activeFor cfg s).length
  | _ => 0

def SweptOrKept (cfg : CFConfig) (before after : Store) : Prop :=
  ∀ n, after.get? n = before.get? n ∨ after.get? n = (before.get? n).map (CFEntry.afterSweep cfg)

section Steps

variable {client : ChannelFinderAdapter} {cfg : CFConfig} {setup : Setup} {failures late : Nat}
  {w : World} {names part : List String}

theorem SweptOrKept.refl (s : Store) : SweptOrKept cfg s s := fun _ => Or.inl rfl

theorem SweptOrKept.trans {s t u : Store} (first : SweptOrKept cfg s t)
    (second : SweptOrKept cfg t u) : SweptOrKept cfg s u := by
  intro n
  have twice : ((s.get? n).map (CFEntry.afterSweep cfg)).map (CFEntry.afterSweep cfg) =
      (s.get? n).map (CFEntry.afterSweep cfg) := by
    cases s.get? n with
    | none => rfl
    | some e => simp [afterSweep_afterSweep]
  rcases second n with later | later <;> rcases first n with sooner | sooner <;>
    simp only [later, sooner, twice, true_or, or_true]

theorem sweptOrKept_markInactive {s : Store} (found : ∀ n ∈ names, sweptAt cfg s n = true)
    (inside : part ⊆ names) : SweptOrKept cfg s (markInactive cfg part s) := by
  intro n
  rw [get?_markInactive_part found inside]
  split
  · exact Or.inr rfl
  · exact Or.inl rfl

/-- How many of the requests raise, and how many are answered. -/
def refused (events : List SweepEvent) : Nat := events.countP SweepEvent.fails

def answered (events : List SweepEvent) : Nat := events.countP SweepEvent.succeeds

/-- How many of the requests raise while the service is stopped. -/
def refusedLate : Bool → List SweepEvent → Nat
  | _, [] => 0
  | _, .stops :: rest => refusedLate false rest
  | running, .request a :: rest =>
    (if running then 0 else refused [.request a]) + refusedLate running rest

/-- Whether the service is running in the end. -/
def runningAfter (running : Bool) (events : List SweepEvent) : Bool :=
  running && events.all fun e => match e with | .request _ => true | .stops => false

structure SweepRun (cfg : CFConfig) (failures late : Nat) (events : List SweepEvent) (w : World)
    (task : Task) (after : World × Task) : Prop where
  proc : after.1.proc = { w.proc with running := runningAfter w.proc.running events }
  channels : SweptOrKept cfg w.store after.1.store
  place : SweepAt cfg after.1.proc.running (failures + refused events)
    (late + refusedLate w.proc.running events) after.1.store after.2
  rank : sweepRank cfg after.1.store after.2 = 0 ∨ 0 < sweepRank cfg w.store task ∧
    sweepRank cfg after.1.store after.2 + answered events ≤ sweepRank cfg w.store task +
      refused events

theorem runningAfter_request (running : Bool) (a : Answer) :
    runningAfter running [.request a] = running := Bool.and_true running

theorem refused_request (a : Answer) : refused [.request a] = if a.raised then 1 else 0 :=
  List.countP_singleton

theorem answered_request (a : Answer) : answered [.request a] = if a.raised then 0 else 1 := by
  cases raised : a.raised <;> simp [answered, SweepEvent.succeeds, raised]

/-- A sweep that is through or given up makes no request. -/
theorem sweepRun_over {task : Task} (a : Answer) (stopped : sweepRank cfg w.store task = 0)
    (place : ∀ f l, failures ≤ f → SweepAt cfg w.proc.running f l w.store task) :
    SweepRun cfg failures late [.request a] w task (w, task) := by
  refine ⟨?_, SweptOrKept.refl _, place _ _ (Nat.le_add_right _ _), Or.inl stopped⟩
  rw [runningAfter_request]

theorem sweepRun_query (env : Env) (early : w.proc.running = false → failures < 4 ∨ late = 0) :
    SweepRun cfg failures late [.request (.answers env)] w (.sweeping .querying failures)
      (Task.proceed client cfg setup env w (.sweeping .querying failures)) := by
  have page := @findActiveForRecceiver_isPage cfg env w.store
  have none : refused [.request (.answers env)] = 0 := refused_request _
  have one : answered [.request (.answers env)] = 1 := answered_request _
  have quiet : refusedLate w.proc.running [.request (.answers env)] = 0 := by
    rw [refusedLate, none, ite_self, refusedLate]
  simp only [Task.proceed]
  by_cases nothing : (findActiveForRecceiver cfg env w.store).map CFChannel.name = []
  · rw [if_pos nothing]
    refine ⟨by rw [runningAfter_request], SweptOrKept.refl _, ?_, Or.inl rfl⟩
    exact page.nonempty (List.map_eq_nil_iff.mp nothing)
  · rw [if_neg nothing]
    refine ⟨by rw [runningAfter_request], SweptOrKept.refl _, ?_,
      Or.inr ⟨Nat.succ_pos _, by rw [one, none]; exact Nat.le_refl _⟩⟩
    rw [none, quiet]
    refine ⟨rfl, early, nothing, ?_⟩
    intro n member
    obtain ⟨ch, inside, rfl⟩ := List.mem_map.mp member
    obtain ⟨stored, swept⟩ := mem_activeFor.mp (page.inside ch inside)
    simp [sweptAt, stored, swept]

theorem sweepRun_clean (env : Env) (early : w.proc.running = false → failures < 4 ∨ late = 0)
    (nonempty : names ≠ []) (found : ∀ n ∈ names, sweptAt cfg w.store n = true) :
    SweepRun cfg failures late [.request (.answers env)] w (.sweeping (.cleaning names) failures)
      (Task.proceed client cfg setup env w (.sweeping (.cleaning names) failures)) := by
  have fewer := length_activeFor_part found (List.Subset.refl names)
  rw [if_neg nonempty] at fewer
  have none : refused [.request (.answers env)] = 0 := refused_request _
  have one : answered [.request (.answers env)] = 1 := answered_request _
  have quiet : refusedLate w.proc.running [.request (.answers env)] = 0 := by
    rw [refusedLate, none, ite_self, refusedLate]
  refine ⟨by rw [runningAfter_request]; rfl,
    sweptOrKept_markInactive found (List.Subset.refl names),
    ?_, Or.inr ?_⟩
  · rw [none, quiet]
    exact ⟨rfl, early⟩
  · rw [one, none]
    simp only [Task.proceed, sweepRank]
    constructor <;> omega

theorem sweepAgain_place (running : Bool) (s : Store) (l : Nat) :
    SweepAt cfg running (failures + 1) l s (Task.sweepAgain running failures) := by
  have limit := pause_grown failures
  rw [Task.sweepAgain]
  split
  · next last => exact ⟨rfl, last.1, limit.mp last.2⟩
  · next more =>
    refine ⟨rfl, ?_⟩
    intro stopped
    have below : ¬ 4 ≤ failures + 1 := fun reached => more ⟨stopped, limit.mpr reached⟩
    exact Or.inl (by omega)

theorem sweepRank_sweepAgain (running : Bool) (s : Store) :
    sweepRank cfg s (Task.sweepAgain running failures) ≤ 2 * (activeFor cfg s).length + 1 := by
  rw [Task.sweepAgain]
  split
  · exact Nat.zero_le _
  · exact Nat.le_refl _

theorem sweepRun_refused {torn : List CFChannel → List CFChannel} (whole : ∀ l, torn l ⊆ l)
    {part : List String → List String} (inside : ∀ l, part l ⊆ l) {task : Task}
    (place : SweepAt cfg w.proc.running failures late w.store task) :
    SweepRun cfg failures late [.request (.raises torn whole part inside)] w task
      (task.fails cfg torn part w) := by
  have one : refused [.request (.raises torn whole part inside)] = 1 := refused_request _
  have none : answered [.request (.raises torn whole part inside)] = 0 := answered_request _
  match task, place with
  | .sweeping .querying k, ⟨same, _⟩ =>
    subst same
    refine ⟨by rw [runningAfter_request]; rfl, SweptOrKept.refl _, ?_, Or.inr ?_⟩
    · rw [one]
      exact sweepAgain_place _ _ _
    · have rank := @sweepRank_sweepAgain cfg k w.proc.running w.store
      rw [one, none]
      simp only [Task.fails, sweepRank] at rank ⊢
      constructor <;> omega
  | .sweeping (.cleaning names) k, ⟨same, _, nonempty, found⟩ =>
    subst same
    refine ⟨by rw [runningAfter_request]; rfl, sweptOrKept_markInactive found (inside names), ?_,
      Or.inr ?_⟩
    · rw [one]
      exact sweepAgain_place _ _ _
    · have rank := @sweepRank_sweepAgain cfg k w.proc.running
        (markInactive cfg (part names) w.store)
      have fewer := length_activeFor_part found (inside names)
      have left := length_activeFor_part found (List.Subset.refl names)
      rw [if_neg nonempty] at left
      rw [one, none]
      simp only [Task.fails, sweepRank] at rank ⊢
      constructor <;> omega
  | .sweeping .finished k, drained => exact sweepRun_over _ rfl fun _ _ _ => drained
  | .ended result, ⟨ok, stopped, many⟩ =>
    exact sweepRun_over _ rfl fun f _ more => ⟨ok, stopped, Nat.le_trans many more⟩

theorem sweepRun_answered (env : Env) {task : Task}
    (place : SweepAt cfg w.proc.running failures late w.store task) :
    SweepRun cfg failures late [.request (.answers env)] w task
      (task.proceed client cfg setup env w) := by
  match task, place with
  | .sweeping .querying k, ⟨same, early⟩ =>
    subst same
    exact sweepRun_query env early
  | .sweeping (.cleaning names) k, ⟨same, early, nonempty, found⟩ =>
    subst same
    exact sweepRun_clean env early nonempty found
  | .sweeping .finished k, drained => exact sweepRun_over _ rfl fun _ _ _ => drained
  | .ended result, ⟨ok, stopped, many⟩ =>
    exact sweepRun_over _ rfl fun f _ more => ⟨ok, stopped, Nat.le_trans many more⟩

/-- When the service is stopped, the failures after that begin to count. -/
theorem sweepRun_stops {task : Task} (none : w.proc.running = true → late = 0)
    (place : SweepAt cfg w.proc.running failures late w.store task) :
    SweepRun cfg failures late [.stops] w task
      (SweepEvent.apply client cfg setup (w, task) .stops) := by
  have still : SweepAt cfg false failures late w.store task := by
    cases running : w.proc.running with
    | false =>
      rw [running] at place
      exact place
    | true =>
      rw [running] at place
      match task, place with
      | .sweeping .querying k, ⟨same, _⟩ => exact ⟨same, fun _ => Or.inr (none running)⟩
      | .sweeping (.cleaning names) k, ⟨same, _, nonempty, found⟩ =>
        exact ⟨same, fun _ => Or.inr (none running), nonempty, found⟩
      | .sweeping .finished k, drained => exact drained
      | .ended result, ⟨ok, stopped, many⟩ => cases stopped
  refine ⟨?_, SweptOrKept.refl _, still, ?_⟩
  · simp [SweepEvent.apply, runningAfter]
  · rcases Nat.eq_zero_or_pos (sweepRank cfg w.store task) with none | some
    · exact Or.inl none
    · exact Or.inr ⟨some, Nat.le_refl _⟩

theorem sweepRun_event (e : SweepEvent) {task : Task} (none : w.proc.running = true → late = 0)
    (place : SweepAt cfg w.proc.running failures late w.store task) :
    SweepRun cfg failures late [e] w task (e.apply client cfg setup (w, task)) := by
  cases e with
  | request a =>
    cases a with
    | answers env => exact sweepRun_answered env place
    | raises torn whole part inside => exact sweepRun_refused whole inside place
  | stops => exact sweepRun_stops none place

end Steps

section Run

variable {client : ChannelFinderAdapter} {cfg : CFConfig} {setup : Setup}

theorem refused_cons (e : SweepEvent) (rest : List SweepEvent) :
    refused (e :: rest) = refused [e] + refused rest :=
  @List.countP_append _ SweepEvent.fails [e] rest

theorem answered_cons (e : SweepEvent) (rest : List SweepEvent) :
    answered (e :: rest) = answered [e] + answered rest :=
  @List.countP_append _ SweepEvent.succeeds [e] rest

theorem runningAfter_cons (running : Bool) (e : SweepEvent) (rest : List SweepEvent) :
    runningAfter running (e :: rest) = runningAfter (runningAfter running [e]) rest := by
  simp [runningAfter, Bool.and_assoc]

theorem refusedLate_cons (running : Bool) (e : SweepEvent) (rest : List SweepEvent) :
    refusedLate running (e :: rest) =
      refusedLate running [e] + refusedLate (runningAfter running [e]) rest := by
  cases e with
  | request a => rw [refusedLate, refusedLate, refusedLate, runningAfter_request, Nat.add_zero]
  | stops => simp [refusedLate, runningAfter]

/-- No failure comes late while the service is running. -/
theorem refusedLate_running {running : Bool} {e : SweepEvent}
    (still : runningAfter running [e] = true) : running = true ∧ refusedLate running [e] = 0 := by
  cases e with
  | request a =>
    rw [runningAfter_request] at still
    exact ⟨still, by rw [still]; rfl⟩
  | stops => simp [runningAfter] at still

theorem SweepRun.cons {failures late : Nat} {e : SweepEvent} {rest : List SweepEvent} {w : World}
    {task : Task} {mid after : World × Task} (first : SweepRun cfg failures late [e] w task mid)
    (after' : SweepRun cfg (failures + refused [e]) (late + refusedLate w.proc.running [e]) rest
      mid.1 mid.2 after) : SweepRun cfg failures late (e :: rest) w task after := by
  have between : mid.1.proc.running = runningAfter w.proc.running [e] := by rw [first.proc]
  refine ⟨?_, first.channels.trans after'.channels, ?_, ?_⟩
  · rw [after'.proc, between, ← runningAfter_cons, first.proc]
  · have place := after'.place
    rw [between, Nat.add_assoc, Nat.add_assoc] at place
    rw [refused_cons, refusedLate_cons]
    exact place
  · have before := first.rank
    have later := after'.rank
    rw [refused_cons, answered_cons]
    omega

theorem sweepRun_events (events : List SweepEvent) {failures late : Nat} {w : World} {task : Task}
    (none : w.proc.running = true → late = 0)
    (place : SweepAt cfg w.proc.running failures late w.store task) :
    SweepRun cfg failures late events w task
      (events.foldl (SweepEvent.apply client cfg setup) (w, task)) := by
  induction events generalizing failures late w task with
  | nil =>
    refine ⟨by simp [runningAfter], SweptOrKept.refl _, place, ?_⟩
    rcases Nat.eq_zero_or_pos (sweepRank cfg w.store task) with none | more
    · exact Or.inl none
    · exact Or.inr ⟨more, Nat.le_refl _⟩
  | cons e rest ih =>
    have first := @sweepRun_event client cfg setup failures late w e task none place
    apply first.cons
    apply ih
    · intro running
      rw [first.proc] at running
      obtain ⟨before, quiet⟩ := refusedLate_running running
      rw [none before, quiet]
    · exact first.place

theorem cleanThread_spec (events : List SweepEvent) (w : World) :
    SweepRun cfg 0 0 events w (.sweeping .querying 0) (cleanThread client cfg setup events w) :=
  sweepRun_events events (fun _ => rfl) ⟨rfl, fun _ => Or.inr rfl⟩

theorem drained_of_kept {before after : Store} (kept : SweptOrKept cfg before after)
    (nothing : activeFor cfg after = []) : Drained cfg before after := by
  apply drained_of_channels
  intro n
  rcases kept n with same | swept
  · rw [← same]
    cases stored : after.get? n with
    | none => rfl
    | some e =>
      have other : ¬ e.Swept cfg := by
        intro active
        have inside : ({ e with name := n } : CFChannel) ∈ activeFor cfg after :=
          mem_activeFor.mpr ⟨stored, active⟩
        rw [nothing] at inside
        cases inside
      rw [Option.map_some, afterSweep_of_not_swept other]
  · exact swept

theorem SweepAt.ended {running : Bool} {failures late : Nat} {s : Store} {task : Task}
    (place : SweepAt cfg running failures late s task) {result : Except Error Unit}
    (gave : task.result? = some result) :
    result = .ok () ∧ (activeFor cfg s = [] ∨ running = false ∧ 4 ≤ failures) := by
  match task, place with
  | .sweeping .finished _, drained => exact ⟨(Option.some.inj gave).symm, Or.inl drained⟩
  | .ended _, ⟨ok, given⟩ => exact ⟨(Option.some.inj gave).symm.trans ok, Or.inr given⟩

/-- While the thread goes on. -/
theorem SweepAt.going {running : Bool} {failures late : Nat} {s : Store} {task : Task}
    (place : SweepAt cfg running failures late s task) (going : task.result? = none) :
    0 < sweepRank cfg s task ∧ (running = false → failures < 4 ∨ late = 0) := by
  match task, place with
  | .sweeping .querying _, ⟨_, early⟩ => exact ⟨Nat.succ_pos _, early⟩
  | .sweeping (.cleaning _) _, ⟨_, early, nonempty, found⟩ =>
    have left := length_activeFor_part found (List.Subset.refl _)
    rw [if_neg nonempty] at left
    refine ⟨?_, early⟩
    rw [sweepRank]
    omega

/-- Whatever requests fail, however much of an update is done then, and whenever the service is
stopped: the sweep touches nothing but what it is about, needs two answers for a page and one more
for a failure, and ends with nothing left, unless the service is stopped and four requests have
failed. With four failures it ends at the first that comes after the stop. -/
theorem sweep_outlasts_faults (client : ChannelFinderAdapter) (cfg : CFConfig) (setup : Setup)
    (events : List SweepEvent) (w : World) :
    let after := cleanThread client cfg setup events w
    let running := runningAfter w.proc.running events
    after.1.proc = { w.proc with running := running } ∧
      SweptOrKept cfg w.store after.1.store ∧
      (after.2.result? = none →
        answered events ≤ 2 * (activeFor cfg w.store).length + refused events ∧
        (running = false → refused events < 4 ∨ refusedLate w.proc.running events = 0)) ∧
      ∀ result, after.2.result? = some result → result = .ok () ∧
        (Drained cfg w.store after.1.store ∨ running = false ∧ 4 ≤ refused events) := by
  intro after running
  have spec := @cleanThread_spec client cfg setup events w
  have place := spec.place
  rw [Nat.zero_add, Nat.zero_add, spec.proc] at place
  refine ⟨spec.proc, spec.channels, ?_, ?_⟩
  · intro going
    obtain ⟨more, early⟩ := place.going going
    have start : sweepRank cfg w.store (.sweeping .querying 0) =
        2 * (activeFor cfg w.store).length + 1 := rfl
    have rank := spec.rank
    rw [start] at rank
    refine ⟨?_, early⟩
    omega
  · intro result gave
    obtain ⟨ok, ends⟩ := place.ended gave
    exact ⟨ok, ends.imp_left (drained_of_kept spec.channels)⟩

end Run

end Recsync.Cf
