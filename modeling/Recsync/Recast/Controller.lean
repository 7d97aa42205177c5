import Mathlib.Data.List.Basic
import Mathlib.Data.List.Perm.Basic

set_option autoImplicit false

/- The processor controller hands one transaction to all of its processors, and drops those that
fail at it. -/
namespace Recsync.Processors

/-- The failure of a Deferred, as far as `punish` tells one from another. -/
inductive Failure (ε : Type) where
  | cancelled
  | error (e : ε)
deriving Repr, DecidableEq

/-- What a processor does with a transaction. A `commit` that raises or that returns `None` is,
behind `maybeDeferred`, one whose Deferred has fired at once. -/
structure Reaction (ε : Type) where
  atOnce : Bool
  outcome : Except (Failure ε) Unit

/-- The failure that costs a processor its place. -/
def Reaction.punished {ε : Type} (reaction : Reaction ε) : Bool :=
  match reaction.outcome with
  | .error (.error _) => true
  | .error .cancelled => false
  | .ok () => false

def Reaction.failure? {ε : Type} (reaction : Reaction ε) : Option (Failure ε) :=
  match reaction.outcome with
  | .error failure => some failure
  | .ok () => none

/-- The processors are told apart by identity, and `__init__` builds each of them anew. -/
structure ProcessorController (α : Type) where
  procs : List α
  nodup : procs.Nodup

/-- A `commit` of the controller: the processors that are left, the list `defers` with the
processor of each of them, and what the Deferreds that have fired came to. -/
structure Commit (α ε : Type) where
  procs : List α
  defers : List (α × Option (Except (Failure ε) Unit))

def Commit.called {α ε : Type} (commit : Commit α ε) : List α := commit.defers.map Prod.fst

section Code

variable {α ε : Type} [DecidableEq α]

/-- The errback `punish`. A processor that has gone before is only logged. -/
def punish (procs : List α) (processor : α) : Except (Failure ε) Unit → List α
  | .error .cancelled => procs
  | .error (.error _) => procs.erase processor
  | .ok () => procs

theorem length_punish_le (procs : List α) (processor : α)
    (outcome : Except (Failure ε) Unit) :
    (punish procs processor outcome).length ≤ procs.length := by
  match outcome with
  | .error .cancelled => exact Nat.le_refl _
  | .error (.error _) => exact List.length_erase_le
  | .ok () => exact Nat.le_refl _

/-- The list comprehension. Its iterator is an index into `self.procs`, which an errback that
runs at once changes under it. -/
def dispatch (react : α → Reaction ε) (procs : List α) (index : Nat) : Commit α ε :=
  if h : index < procs.length then
    let P := procs.get ⟨index, h⟩
    if (react P).atOnce then
      let rest := dispatch react (punish procs P (react P).outcome) (index + 1)
      { rest with defers := (P, some (react P).outcome) :: rest.defers }
    else
      let rest := dispatch react procs (index + 1)
      { rest with defers := (P, none) :: rest.defers }
  else { procs := procs, defers := [] }
termination_by procs.length - index
decreasing_by
  · have shorter := length_punish_le procs (procs.get ⟨index, h⟩)
      (react (procs.get ⟨index, h⟩)).outcome
    omega
  · omega

/-- `ProcessorController.commit` up to its return. -/
def ProcessorController.commit (controller : ProcessorController α) (react : α → Reaction ε) :
    Commit α ε :=
  dispatch react controller.procs 0

/-- The processors whose Deferred has not fired. -/
def Commit.pending (commit : Commit α ε) : List α :=
  (commit.defers.filter fun entry => entry.2.isNone).map Prod.fst

/-- A Deferred fires after the return. -/
def Commit.fire (react : α → Reaction ε) (commit : Commit α ε) (processor : α) : Commit α ε where
  procs := punish commit.procs processor (react processor).outcome
  defers := commit.defers.map fun entry =>
    if entry.1 = processor then (entry.1, some (react processor).outcome) else entry

def findFirstError : List (Except (Failure ε) Unit) → Option (Failure ε)
  | [] => none
  | .ok () :: rest => findFirstError rest
  | .error failure :: _ => some failure

/-- The `DeferredList` with its callback: nothing before every Deferred of it has fired, then
success or a failure. -/
def Commit.returned (commit : Commit α ε) : Option (Option (Failure ε)) :=
  if commit.pending = [] then some (findFirstError (commit.defers.filterMap Prod.snd)) else none

/-- The commit when the Deferreds that were left at the return have fired, in the order given. -/
def ProcessorController.settle (controller : ProcessorController α) (react : α → Reaction ε)
    (order : List α) : Commit α ε :=
  order.foldl (Commit.fire react) (controller.commit react)

/-- Every processor is called once, those that fail with an error of their own and no others lose
their place, and the Deferred that is returned fails with the first failure in the order of the
list. -/
structure EveryProcessorServed (procs : List α) (react : α → Reaction ε)
    (settled : Commit α ε) : Prop where
  called : ∀ p, settled.called.count p = if p ∈ procs then 1 else 0
  kept : settled.procs = procs.filter fun p => !(react p).punished
  returned : settled.returned = some (procs.findSome? fun p => (react p).failure?)

theorem punish_eq (react : α → Reaction ε) (procs : List α) (p : α) :
    punish procs p (react p).outcome = if (react p).punished then procs.erase p else procs := by
  unfold punish Reaction.punished
  match (react p).outcome with
  | .error .cancelled => rfl
  | .error (.error _) => rfl
  | .ok () => rfl

omit [DecidableEq α] in
theorem findFirstError_map (react : α → Reaction ε) (procs : List α) :
    findFirstError (procs.map fun p => (react p).outcome) =
      procs.findSome? fun p => (react p).failure? := by
  induction procs with
  | nil => rfl
  | cons p procs ih =>
    simp only [List.map_cons, List.findSome?_cons, Reaction.failure?]
    match (react p).outcome with
    | .error _ => rfl
    | .ok () => exact ih

/-! ### The dispatch -/

/-- The entry that the dispatch leaves for a processor. -/
def entry (react : α → Reaction ε) (p : α) : α × Option (Except (Failure ε) Unit) :=
  (p, if (react p).atOnce then some (react p).outcome else none)

/-- A processor that is thrown out while the list is being walked. -/
def Reaction.ejected (reaction : Reaction ε) : Bool := reaction.atOnce && reaction.punished

theorem dispatch_end (react : α → Reaction ε) (procs : List α) (index : Nat)
    (h : procs.length ≤ index) : dispatch react procs index = { procs := procs, defers := [] } := by
  rw [dispatch, dif_neg (by omega)]

theorem dispatch_at (react : α → Reaction ε) (visited : List α) (p : α) (rest : List α) :
    dispatch react (visited ++ p :: rest) visited.length =
      let next := if (react p).ejected then (visited ++ p :: rest).erase p else visited ++ p :: rest
      { procs := (dispatch react next (visited.length + 1)).procs
        defers := entry react p :: (dispatch react next (visited.length + 1)).defers } := by
  have bound : visited.length < (visited ++ p :: rest).length := by simp
  have here : (visited ++ p :: rest).get ⟨visited.length, bound⟩ = p := by simp
  rw [dispatch, dif_pos bound]
  simp only [here, Reaction.ejected, entry]
  by_cases now : (react p).atOnce = true
  · simp [now, punish_eq]
  · simp [now]

/-- The walk over processors none of which is thrown out on the way. -/
theorem dispatch_append (react : α → Reaction ε) (visited before rest : List α)
    (stay : ∀ p ∈ before, (react p).ejected = false) :
    dispatch react (visited ++ before ++ rest) visited.length =
      { procs := (dispatch react (visited ++ before ++ rest) (visited ++ before).length).procs
        defers := before.map (entry react) ++
          (dispatch react (visited ++ before ++ rest) (visited ++ before).length).defers } := by
  induction before generalizing visited with
  | nil => simp
  | cons p before ih =>
    have next := ih (visited ++ [p]) fun q hq => stay q (List.mem_cons_of_mem p hq)
    have shape : visited ++ [p] ++ before ++ rest = visited ++ p :: (before ++ rest) := by simp
    have counted : (visited ++ [p] ++ before).length = (visited ++ p :: before).length := by simp
    have moved : (visited ++ [p]).length = visited.length + 1 := by simp
    rw [shape, counted, moved] at next
    have asked : visited ++ p :: before ++ rest = visited ++ p :: (before ++ rest) := by simp
    rw [asked, dispatch_at, stay p List.mem_cons_self]
    simp only [Bool.false_eq_true, if_false]
    rw [next]
    simp

/-- No processor is called that is not further on in the list. -/
theorem length_dispatch_le (react : α → Reaction ε) (procs : List α) (index : Nat) :
    (dispatch react procs index).defers.length ≤ procs.length - index := by
  fun_induction dispatch react procs index with
  | case1 procs index h P now rest ih =>
    have shorter := length_punish_le procs P (react P).outcome
    have further : rest.defers.length ≤ procs.length - (index + 1) :=
      Nat.le_trans ih (by omega)
    simp only [List.length_cons]
    omega
  | case2 procs index h P later rest ih =>
    have further : rest.defers.length ≤ procs.length - (index + 1) := ih
    simp only [List.length_cons]
    omega
  | case3 procs index h => simp

/-- Behind a processor that is thrown out one is passed over, so that not all are called. -/
theorem length_dispatch_lt (react : α → Reaction ε) (before : List α) (p : α) (rest : List α)
    (stay : ∀ q ∈ before, (react q).ejected = false) (gone : (react p).ejected = true)
    (more : rest ≠ []) :
    (dispatch react (before ++ p :: rest) 0).defers.length < (before ++ p :: rest).length := by
  have walked := dispatch_append react [] before (p :: rest) stay
  simp only [List.nil_append, List.length_nil] at walked
  have behind := length_dispatch_le react ((before ++ p :: rest).erase p) (before.length + 1)
  have shorter : ((before ++ p :: rest).erase p).length = (before ++ p :: rest).length - 1 :=
    List.length_erase_of_mem (by simp)
  have left : 0 < rest.length := List.length_pos_iff.mpr more
  rw [walked, dispatch_at, gone]
  simp only [if_true, List.length_append, List.length_cons, List.length_map] at behind shorter ⊢
  omega

/-- When only the last one may be thrown out, the walk comes to all of them. -/
theorem dispatch_all (react : α → Reaction ε) (procs : List α) (nodup : procs.Nodup)
    (stay : ∀ p ∈ procs.dropLast, (react p).ejected = false) :
    dispatch react procs 0 =
      { procs := procs.filter fun p => !(react p).ejected
        defers := procs.map (entry react) } := by
  rcases List.eq_nil_or_concat procs with rfl | ⟨before, last, rfl⟩
  · exact dispatch_end react [] 0 (Nat.le_refl 0)
  · rw [List.concat_eq_append] at nodup stay ⊢
    rw [List.dropLast_concat] at stay
    have fresh : last ∉ before := by
      intro again
      have apart := (List.nodup_append.mp nodup).2.2
      exact apart last again last (List.mem_singleton_self last) rfl
    have kept : before.filter (fun p => !(react p).ejected) = before := by
      apply List.filter_eq_self.mpr
      intro p hp
      simp [stay p hp]
    have walked := dispatch_append react [] before [last] stay
    simp only [List.nil_append, List.length_nil] at walked
    rw [walked, dispatch_at]
    cases gone : (react last).ejected with
    | true =>
      have erased : (before ++ [last]).erase last = before := by
        rw [List.erase_append_right [last] fresh, List.erase_cons_head, List.append_nil]
      simp only [if_true, erased]
      rw [dispatch_end react before (before.length + 1) (by omega)]
      simp [List.filter_append, kept, gone]
    | false =>
      simp only [Bool.false_eq_true, if_false]
      rw [dispatch_end react (before ++ [last]) (before.length + 1) (by simp)]
      simp [List.filter_append, kept, gone]

/-! ### The Deferreds that fire later -/

theorem foldl_fire_procs (react : α → Reaction ε) (order : List α) (commit : Commit α ε)
    (nodup : commit.procs.Nodup) :
    (order.foldl (Commit.fire react) commit).procs =
      commit.procs.filter fun p => !(order.contains p && (react p).punished) := by
  induction order generalizing commit with
  | nil => simp
  | cons q order ih =>
    have first : (commit.fire react q).procs =
        commit.procs.filter fun p => !(p == q && (react p).punished) := by
      simp only [Commit.fire, punish_eq]
      cases gone : (react q).punished with
      | true =>
        simp only [if_true, nodup.erase_eq_filter]
        apply List.filter_congr
        intro p _
        by_cases same : p = q
        · simp [same, gone]
        · simp [bne, beq_eq_false_iff_ne.mpr same]
      | false =>
        simp only [Bool.false_eq_true, if_false]
        symm
        apply List.filter_eq_self.mpr
        intro p _
        by_cases same : p = q
        · simp [same, gone]
        · simp [same]
    have rest := ih (commit.fire react q) (by rw [first]; exact nodup.filter _)
    rw [List.foldl_cons, rest, first, List.filter_filter]
    apply List.filter_congr
    intro p _
    rw [List.contains_cons]
    cases p == q <;> cases order.contains p <;> cases (react p).punished <;> rfl

theorem foldl_fire_defers (react : α → Reaction ε) (order : List α) (commit : Commit α ε) :
    (order.foldl (Commit.fire react) commit).defers =
      commit.defers.map fun entry =>
        if entry.1 ∈ order then (entry.1, some (react entry.1).outcome) else entry := by
  induction order generalizing commit with
  | nil => simp
  | cons q order ih =>
    rw [List.foldl_cons, ih]
    simp only [Commit.fire, List.map_map]
    apply List.map_congr_left
    intro entry _
    by_cases same : entry.1 = q
    · simp [same]
    · simp [same]

theorem settle_called (controller : ProcessorController α) (react : α → Reaction ε)
    (order : List α) :
    (controller.settle react order).called = (controller.commit react).called := by
  unfold ProcessorController.settle Commit.called
  rw [foldl_fire_defers, List.map_map]
  apply List.map_congr_left
  intro entry _
  by_cases fired : entry.1 ∈ order
  · simp [fired]
  · simp [fired]

/-! ### Serving every processor -/

theorem called_commit (controller : ProcessorController α) (react : α → Reaction ε)
    (stay : ∀ p ∈ controller.procs.dropLast, (react p).ejected = false) :
    (controller.commit react).called = controller.procs := by
  unfold ProcessorController.commit Commit.called
  rw [dispatch_all react controller.procs controller.nodup stay, List.map_map]
  exact List.map_id controller.procs

/-- Those that are left to fire are those that have not fired at once. -/
theorem mem_pending_commit (controller : ProcessorController α) (react : α → Reaction ε)
    (stay : ∀ p ∈ controller.procs.dropLast, (react p).ejected = false) (p : α) :
    p ∈ (controller.commit react).pending ↔ p ∈ controller.procs ∧ (react p).atOnce = false := by
  unfold ProcessorController.commit Commit.pending
  rw [dispatch_all react controller.procs controller.nodup stay]
  simp only [List.filter_map, List.map_map, List.mem_map, List.mem_filter, Function.comp, entry]
  constructor
  · rintro ⟨q, ⟨mem, later⟩, rfl⟩
    refine ⟨mem, ?_⟩
    cases now : (react q).atOnce with
    | true => simp [now] at later
    | false => rfl
  · rintro ⟨mem, later⟩
    exact ⟨p, ⟨mem, by simp [later]⟩, rfl⟩

theorem settle_defers (controller : ProcessorController α) (react : α → Reaction ε)
    (order : List α) (fired : order.Perm (controller.commit react).pending)
    (stay : ∀ p ∈ controller.procs.dropLast, (react p).ejected = false) :
    (controller.settle react order).defers =
      controller.procs.map fun p => (p, some (react p).outcome) := by
  have pending := mem_pending_commit controller react stay
  have defers : (controller.commit react).defers = controller.procs.map (entry react) := by
    unfold ProcessorController.commit
    rw [dispatch_all react controller.procs controller.nodup stay]
  unfold ProcessorController.settle
  rw [foldl_fire_defers, defers, List.map_map]
  apply List.map_congr_left
  intro p mem
  simp only [Function.comp, entry, fired.mem_iff, pending]
  cases now : (react p).atOnce with
  | true => simp
  | false => simp [mem]

theorem settle_procs (controller : ProcessorController α) (react : α → Reaction ε)
    (order : List α) (fired : order.Perm (controller.commit react).pending)
    (stay : ∀ p ∈ controller.procs.dropLast, (react p).ejected = false) :
    (controller.settle react order).procs =
      controller.procs.filter fun p => !(react p).punished := by
  have pending := mem_pending_commit controller react stay
  have procs : (controller.commit react).procs =
      controller.procs.filter fun p => !(react p).ejected := by
    unfold ProcessorController.commit
    rw [dispatch_all react controller.procs controller.nodup stay]
  unfold ProcessorController.settle
  rw [foldl_fire_procs react order _ (by rw [procs]; exact controller.nodup.filter _), procs,
    List.filter_filter]
  apply List.filter_congr
  intro p mem
  have waits : order.contains p = !(react p).atOnce := by
    rw [Bool.eq_iff_iff, List.contains_iff_mem, fired.mem_iff, pending]
    simp [mem]
  rw [waits, Reaction.ejected]
  cases (react p).atOnce <;> cases (react p).punished <;> rfl

theorem settle_returned (controller : ProcessorController α) (react : α → Reaction ε)
    (order : List α) (fired : order.Perm (controller.commit react).pending)
    (stay : ∀ p ∈ controller.procs.dropLast, (react p).ejected = false) :
    (controller.settle react order).returned =
      some (controller.procs.findSome? fun p => (react p).failure?) := by
  have defers := settle_defers controller react order fired stay
  have all : (controller.settle react order).pending = [] := by
    simp [Commit.pending, defers, List.filter_map, Function.comp_def]
  have outcomes : (controller.settle react order).defers.filterMap Prod.snd =
      controller.procs.map fun p => (react p).outcome := by
    rw [defers, List.filterMap_map]
    exact congrFun List.filterMap_eq_map controller.procs
  rw [Commit.returned, if_pos all, outcomes, findFirstError_map]

/-- One processor is passed over when one before it is thrown out during the walk. -/
theorem called_short (controller : ProcessorController α) (react : α → Reaction ε)
    (p : α) (mem : p ∈ controller.procs.dropLast) (gone : (react p).ejected = true) :
    (controller.commit react).called.length < controller.procs.length := by
  have found : (controller.procs.dropLast.find? fun q => (react q).ejected).isSome :=
    List.find?_isSome.mpr ⟨p, mem, gone⟩
  obtain ⟨first, first_eq⟩ := Option.isSome_iff_exists.mp found
  obtain ⟨ejected, before, between, split, stay⟩ := List.find?_eq_some_iff_append.mp first_eq
  have some_procs : controller.procs ≠ [] := by
    intro none
    simp [none] at mem
  have whole : controller.procs =
      before ++ first :: (between ++ [controller.procs.getLast some_procs]) := by
    calc controller.procs
        = controller.procs.dropLast ++ [controller.procs.getLast some_procs] :=
          (List.dropLast_append_getLast some_procs).symm
      _ = before ++ first :: (between ++ [controller.procs.getLast some_procs]) := by
          rw [split]
          simp
  have short := length_dispatch_lt react before first
    (between ++ [controller.procs.getLast some_procs])
    (fun q hq => by simpa using stay q hq) ejected (by simp)
  rw [← whole] at short
  simpa [Commit.called, ProcessorController.commit] using short

/-- The transaction reaches all processors exactly when none but the last one fails at once with
an error of its own. -/
theorem everyProcessorServed_iff (controller : ProcessorController α) (react : α → Reaction ε)
    (order : List α) (fired : order.Perm (controller.commit react).pending) :
    EveryProcessorServed controller.procs react (controller.settle react order) ↔
      ∀ p ∈ controller.procs.dropLast, ¬((react p).atOnce = true ∧ (react p).punished = true) := by
  constructor
  · intro served p mem ⟨now, punished⟩
    have short := called_short controller react p mem (by simp [Reaction.ejected, now, punished])
    have all : (controller.settle react order).called.Perm controller.procs := by
      apply List.perm_iff_count.mpr
      intro q
      rw [served.called q, controller.nodup.count]
    rw [settle_called] at all
    have same := all.length_eq
    omega
  · intro kept
    have stay : ∀ p ∈ controller.procs.dropLast, (react p).ejected = false := by
      intro p mem
      simpa [Reaction.ejected] using kept p mem
    refine ⟨?_, settle_procs controller react order fired stay,
      settle_returned controller react order fired stay⟩
    intro p
    rw [settle_called, called_commit controller react stay, controller.nodup.count]

end Code

/-- The processors of `procs = show,cf`. -/
def showAndCf : ProcessorController String where
  procs := ["show", "cf"]
  nodup := by decide

/-- The first `commit` raises, the second one is done later. -/
def showRaises : String → Reaction String
  | "show" => { atOnce := true, outcome := .error (.error "AttributeError") }
  | _ => { atOnce := false, outcome := .ok () }

theorem processor_passed_over :
    [].Perm (showAndCf.commit showRaises).pending ∧
      (showAndCf.settle showRaises []).called.count "cf" = 0 ∧
      ¬EveryProcessorServed showAndCf.procs showRaises (showAndCf.settle showRaises []) := by
  have ran : showAndCf.commit showRaises =
      { procs := ["cf"], defers := [("show", some (.error (.error "AttributeError")))] } := by
    simp [ProcessorController.commit, showAndCf, dispatch, showRaises, punish]
  have called : (showAndCf.settle showRaises []).called.count "cf" = 0 := by
    rw [settle_called, ran]
    decide
  refine ⟨by rw [ran]; decide, called, ?_⟩
  intro served
  have once := served.called "cf"
  rw [called] at once
  simp [showAndCf] at once

/-- The first one fails later, the second one is cancelled at once. -/
def cfCancelled : String → Reaction String
  | "show" => { atOnce := false, outcome := .error (.error "AttributeError") }
  | _ => { atOnce := true, outcome := .error .cancelled }

theorem everyProcessorServed_iff_showAndCf :
    ["show"].Perm (showAndCf.commit cfCancelled).pending ∧
      EveryProcessorServed showAndCf.procs cfCancelled
        (showAndCf.settle cfCancelled ["show"]) := by
  have ran : showAndCf.commit cfCancelled =
      { procs := ["show", "cf"], defers := [("show", none), ("cf", some (.error .cancelled))] } := by
    simp [ProcessorController.commit, showAndCf, dispatch, cfCancelled, punish]
  have fired : ["show"].Perm (showAndCf.commit cfCancelled).pending := by
    rw [ran]
    decide
  refine ⟨fired, (everyProcessorServed_iff showAndCf cfCancelled ["show"] fired).mpr ?_⟩
  -- the one that is cancelled at once is the last one
  intro p member both
  obtain rfl := List.mem_singleton.mp (show p ∈ ["show"] from member)
  cases both.1

end Recsync.Processors
