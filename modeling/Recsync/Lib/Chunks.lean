import Mathlib.Data.List.Basic
import Mathlib.Data.List.Induction

set_option autoImplicit false

namespace Py

variable {α : Type}

/-- The slices `items[i : i + size]` for `i` in `range(0, len(items), size)`, for a
positive size. -/
def chunks (size : Nat) (items : List α) : List (List α) :=
  (List.range ((items.length + size - 1) / size)).map fun i => (items.drop (i * size)).take size

theorem flatten_slices (size : Nat) (items : List α) (count : Nat) :
    ((List.range count).map fun i => (items.drop (i * size)).take size).flatten =
      items.take (count * size) := by
  induction count with
  | zero => simp
  | succ count ih =>
    rw [List.range_succ, List.map_append, List.flatten_append, ih, Nat.succ_mul, List.take_add]
    simp

theorem chunks_flatten {size : Nat} (positive : 0 < size) (items : List α) :
    (chunks size items).flatten = items := by
  rw [chunks, flatten_slices, List.take_of_length_le]
  have whole := Nat.div_add_mod (items.length + size - 1) size
  have rest := Nat.mod_lt (items.length + size - 1) positive
  rw [Nat.mul_comm] at whole
  omega

theorem length_le_of_mem_chunks {size : Nat} {items chunk : List α}
    (member : chunk ∈ chunks size items) : chunk.length ≤ size := by
  obtain ⟨i, -, rfl⟩ := List.mem_map.mp member
  exact List.length_take_le _ _

section Groups

/-- The groups that are closed and the open one, after one more item. -/
def addToGroup (fits : List α → α → Bool) (st : List (List α) × List α) (item : α) :
    List (List α) × List α :=
  if st.2.isEmpty then (st.1, [item])
  else if fits st.2 item then (st.1, st.2 ++ [item])
  else (st.1 ++ [st.2], [item])

def closeGroup (st : List (List α) × List α) : List (List α) :=
  if st.2.isEmpty then st.1 else st.1 ++ [st.2]

/-- The items in groups, each of which takes the next item as long as it fits. -/
def groups (fits : List α → α → Bool) (items : List α) : List (List α) :=
  closeGroup (items.foldl (addToGroup fits) ([], []))

variable {fits : List α → α → Bool} {st : List (List α) × List α}

theorem closeGroup_flatten (st : List (List α) × List α) :
    (closeGroup st).flatten = st.1.flatten ++ st.2 := by
  rw [closeGroup]
  split
  · next empty => rw [List.isEmpty_iff.mp empty, List.append_nil]
  · simp

theorem addToGroup_flatten (item : α) : (closeGroup (addToGroup fits st item)).flatten =
    (closeGroup st).flatten ++ [item] := by
  rw [closeGroup_flatten, closeGroup_flatten, addToGroup]
  split
  · next empty => rw [List.isEmpty_iff.mp empty, List.append_nil]
  · split
    · rw [List.append_assoc]
    · simp

/-- When each item fits behind all those before it, there is one group. -/
theorem groups_whole {items : List α} (nonempty : items ≠ [])
    (room : ∀ l x, l ++ [x] <+: items → l ≠ [] → fits l x = true) : groups fits items = [items] := by
  have taken : ∀ l, l <+: items → l.foldl (addToGroup fits) ([], []) = ([], l) := by
    intro l
    induction l using List.reverseRecOn with
    | nil => exact fun _ => rfl
    | append_singleton l x ih =>
      intro part
      rw [List.foldl_append, ih ((List.prefix_append l [x]).trans part), List.foldl_cons,
        List.foldl_nil, addToGroup]
      cases l with
      | nil => rfl
      | cons first rest => simp [room (first :: rest) x part (by simp)]
  rw [groups, taken items (List.prefix_refl items), closeGroup]
  simp [nonempty]

theorem groups_flatten (fits : List α → α → Bool) (items : List α) :
    (groups fits items).flatten = items := by
  have run : ∀ st, (closeGroup (items.foldl (addToGroup fits) st)).flatten =
      (closeGroup st).flatten ++ items := by
    induction items with
    | nil =>
      intro st
      rw [List.foldl_nil, List.append_nil]
    | cons item rest ih =>
      intro st
      rw [List.foldl_cons, ih, addToGroup_flatten, List.append_assoc, List.singleton_append]
  exact run ([], [])

/-- All closed groups, and the open one unless it is empty. -/
def EachGroup (P : List α → Prop) (st : List (List α) × List α) : Prop :=
  (∀ g ∈ st.1, g ≠ [] ∧ P g) ∧ (st.2 ≠ [] → P st.2)

theorem EachGroup.closed {P : List α → Prop} (each : EachGroup P st) :
    ∀ g ∈ closeGroup st, g ≠ [] ∧ P g := by
  rw [closeGroup]
  split
  · exact each.1
  · next open_ =>
    have some : st.2 ≠ [] := fun empty => open_ (List.isEmpty_iff.mpr empty)
    intro g member
    cases List.mem_append.mp member with
    | inl closed => exact each.1 g closed
    | inr last =>
      rw [List.mem_singleton.mp last]
      exact ⟨some, each.2 some⟩

theorem EachGroup.add {P : List α → Prop} {item : α} (each : EachGroup P st) (single : P [item])
    (grows : ∀ g, g ≠ [] → P g → fits g item = true → P (g ++ [item])) :
    EachGroup P (addToGroup fits st item) := by
  rw [addToGroup]
  split
  · exact ⟨each.1, fun _ => single⟩
  · next open_ =>
    have some : st.2 ≠ [] := fun empty => open_ (List.isEmpty_iff.mpr empty)
    split
    · next fit => exact ⟨each.1, fun _ => grows st.2 some (each.2 some) fit⟩
    · refine ⟨fun g member => ?_, fun _ => single⟩
      cases List.mem_append.mp member with
      | inl closed => exact each.1 g closed
      | inr last =>
        rw [List.mem_singleton.mp last]
        exact ⟨some, each.2 some⟩

/-- What holds of a single item and stays when an item is added that fits holds of each group. -/
theorem groups_induct {P : List α → Prop} {items : List α} (single : ∀ item ∈ items, P [item])
    (grows : ∀ g, g ≠ [] → ∀ item ∈ items, P g → fits g item = true → P (g ++ [item])) :
    ∀ g ∈ groups fits items, g ≠ [] ∧ P g := by
  have run : ∀ st, EachGroup P st → EachGroup P (items.foldl (addToGroup fits) st) := by
    induction items with
    | nil => exact fun st each => each
    | cons item rest ih =>
      intro st each
      apply ih (fun other member => single other (List.mem_cons_of_mem _ member))
        (fun g some other member => grows g some other (List.mem_cons_of_mem _ member))
      exact each.add (single item List.mem_cons_self)
        (fun g some => grows g some item List.mem_cons_self)
  exact (run ([], []) ⟨nofun, fun none => absurd rfl none⟩).closed

end Groups

end Py
