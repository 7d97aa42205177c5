import Mathlib.Logic.Function.Basic
import Recsync.Lib.Collections

set_option autoImplicit false

/- A dictionary cut down to some of its keys. -/
namespace Py.Dict

variable {κ ν : Type}

/-- The entries whose keys satisfy `p`, in their order. -/
def only (p : κ → Bool) (d : Dict κ ν) : Dict κ ν :=
  ⟨d.entries.filter fun e => p e.1, (List.filter_sublist.map Prod.fst).nodup d.nodup⟩

theorem eq_of_entries {d d' : Dict κ ν} (same : d.entries = d'.entries) : d = d' := by
  cases d
  cases d'
  cases same
  rfl

@[simp] theorem only_empty (p : κ → Bool) : (∅ : Dict κ ν).only p = ∅ := rfl

theorem only_only {p q : κ → Bool} (inside : ∀ k, p k = true → q k = true) (d : Dict κ ν) :
    (d.only q).only p = d.only p := by
  apply eq_of_entries
  simp only [only, List.filter_filter]
  apply List.filter_congr
  intro e _
  cases here : p e.1 with
  | false => rfl
  | true => rw [inside e.1 here, Bool.and_self]

variable [DecidableEq κ]

theorem get?_only (p : κ → Bool) (d : Dict κ ν) (k : κ) :
    (d.only p).get? k = if p k then d.get? k else none := by
  apply Option.ext
  intro v
  rw [get?_eq_some_iff, only, List.mem_filter]
  by_cases inside : p k
  · simp [inside, get?_eq_some_iff]
  · simp [inside]

theorem mem_keys_only (p : κ → Bool) (d : Dict κ ν) (k : κ) :
    k ∈ (d.only p).keys ↔ k ∈ d.keys ∧ p k = true := by
  simp only [mem_keys_iff, get?_only]
  by_cases inside : p k
  · simp [inside]
  · simp [inside]

theorem filter_modifyEntries (p : κ → Bool) (k : κ) (v : ν) (entries : List (κ × ν)) :
    (modifyEntries entries k v).filter (fun e => p e.1) =
      modifyEntries (entries.filter fun e => p e.1) k v := by
  induction entries with
  | nil => rfl
  | cons e rest ih =>
    simp only [modifyEntries, List.map_cons] at ih ⊢
    by_cases here : e.1 = k
    · by_cases inside : p k
      · simp [here, inside, ih]
      · simp [here, inside, ih]
    · by_cases inside : p e.1
      · simp [here, inside, ih]
      · simp [here, inside, ih]

/-- A key of the part is set in the part. -/
theorem only_set_of_mem {p : κ → Bool} {k : κ} (inside : p k = true) (d : Dict κ ν) (v : ν) :
    (d.set k v).only p = (d.only p).set k v := by
  apply eq_of_entries
  by_cases known : k ∈ d.keys
  · have here : k ∈ (d.only p).keys := (mem_keys_only p d k).mpr ⟨known, inside⟩
    rw [set, set, dif_pos known, dif_pos here]
    exact filter_modifyEntries p k v d.entries
  · have absent : k ∉ (d.only p).keys := fun there => known ((mem_keys_only p d k).mp there).1
    rw [set, set, dif_neg known, dif_neg absent]
    simp [only, inside]

/-- Another key leaves the part as it is. -/
theorem only_set_of_not_mem {p : κ → Bool} {k : κ} (outside : p k = false) (d : Dict κ ν) (v : ν) :
    (d.set k v).only p = d.only p := by
  apply eq_of_entries
  by_cases known : k ∈ d.keys
  · rw [set, dif_pos known]
    show (modifyEntries d.entries k v).filter (fun e => p e.1) = _
    rw [filter_modifyEntries]
    -- no entry that is left has the key
    refine (List.map_congr_left ?_).trans (List.map_id _)
    intro e member
    have there := (List.mem_filter.mp member).2
    have other : e.1 ≠ k := by
      rintro rfl
      rw [outside] at there
      cases there
    rw [if_neg other]
    rfl
  · rw [set, dif_neg known]
    simp [only, outside]

end Py.Dict

/- Machines that share a store, each with a part of it to itself. -/
namespace Regions

variable {ι Local Event Store : Type} [DecidableEq ι]

structure State (ι Local Store : Type) where
  machines : ι → Local
  store : Store

variable (step : ι → Local × Store → Event → Local × Store)

/-- One machine takes a step. -/
def shared (s : State ι Local Store) (e : ι × Event) : State ι Local Store :=
  let after := step e.1 (s.machines e.1, s.store) e.2
  ⟨Function.update s.machines e.1 after.1, after.2⟩

variable (s : State ι Local Store) (i : ι) (e : Event)

theorem shared_self : (shared step s (i, e)).machines i = (step i (s.machines i, s.store) e).1 :=
  Function.update_self ..

theorem shared_other {j : ι} (other : j ≠ i) :
    (shared step s (i, e)).machines j = s.machines j :=
  Function.update_of_ne other ..

theorem shared_store : (shared step s (i, e)).store = (step i (s.machines i, s.store) e).2 := rfl

def run (s : State ι Local Store) (events : List (ι × Event)) : State ι Local Store :=
  events.foldl (shared step) s

def alone (i : ι) (s : Local × Store) (events : List Event) : Local × Store :=
  events.foldl (step i) s

def eventsOf (i : ι) (events : List (ι × Event)) : List Event :=
  events.filterMap fun e => if e.1 = i then some e.2 else none

/-- The machines keep to their parts: a step is the same on the part of its machine, and the parts
of the others stay. -/
structure Keep (part : ι → Store → Store) (I : State ι Local Store → Prop)
    (A : ι → Event → Prop) : Prop where
  kept : ∀ s e, I s → A e.1 e.2 → I (shared step s e)
  own : ∀ s i e, I s → A i e → step i (s.machines i, part i s.store) e =
    ((step i (s.machines i, s.store) e).1, part i (step i (s.machines i, s.store) e).2)
  others : ∀ s i e, I s → A i e → ∀ j, j ≠ i →
    part j (step i (s.machines i, s.store) e).2 = part j s.store

variable {step} {part : ι → Store → Store} {I : State ι Local Store → Prop} {A : ι → Event → Prop}

theorem Keep.shared_alone (keep : Keep step part I A) {s : State ι Local Store} (start : I s)
    {e : ι × Event} (allowed : A e.1 e.2) (i : ι) :
    ((shared step s e).machines i, part i (shared step s e).store) =
      alone step i (s.machines i, part i s.store) (eventsOf i [e]) := by
  by_cases here : e.1 = i
  · subst here
    rw [shared_self, shared_store, ← keep.own s e.1 e.2 start allowed]
    simp [eventsOf, alone]
  · rw [shared_other step s e.1 e.2 (Ne.symm here), shared_store,
      keep.others s e.1 e.2 start allowed i (Ne.symm here)]
    simp [eventsOf, alone, here]

theorem Keep.run_alone (keep : Keep step part I A) {s : State ι Local Store} (start : I s)
    {events : List (ι × Event)} (allowed : ∀ e ∈ events, A e.1 e.2) (i : ι) :
    I (run step s events) ∧
      ((run step s events).machines i, part i (run step s events).store) =
        alone step i (s.machines i, part i s.store) (eventsOf i events) := by
  induction events generalizing s with
  | nil => exact ⟨start, rfl⟩
  | cons e rest ih =>
    rw [List.forall_mem_cons] at allowed
    obtain ⟨inv, later⟩ := ih (keep.kept s e start allowed.1) allowed.2
    refine ⟨inv, later.trans ?_⟩
    rw [keep.shared_alone start allowed.1 i, alone, alone, alone, ← List.foldl_append]
    congr 1
    exact (List.filterMap_append (l := [e])).symm

/-- What no machine changes stays. -/
theorem Keep.run_unchanged (keep : Keep step part I A) {β : Type} (f : Store → β)
    (unchanged : ∀ s i e, I s → A i e → f (step i (s.machines i, s.store) e).2 = f s.store)
    {s : State ι Local Store} (start : I s) {events : List (ι × Event)}
    (allowed : ∀ e ∈ events, A e.1 e.2) : f (run step s events).store = f s.store := by
  induction events generalizing s with
  | nil => rfl
  | cons e rest ih =>
    rw [List.forall_mem_cons] at allowed
    exact (ih (keep.kept s e start allowed.1) allowed.2).trans
      (unchanged s e.1 e.2 start allowed.1)

end Regions
