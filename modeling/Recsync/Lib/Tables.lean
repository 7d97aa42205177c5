import Mathlib.Data.List.Nodup

set_option autoImplicit false

/- Rows of a table that are found by a key. -/
namespace Tables

section Find

variable {α κ : Type}

theorem nodup_filter {key : α → κ} {rows : List α} (nodup : (rows.map key).Nodup) (keep : α → Bool) :
    ((rows.filter keep).map key).Nodup :=
  nodup.sublist (List.filter_sublist.map key)

variable [DecidableEq κ] (key : α → κ)

def find (rows : List α) (k : κ) : Option α := rows.find? fun row => decide (key row = k)

variable {key} {rows : List α} {k : κ}

theorem mem_of_find {row : α} (found : find key rows k = some row) : row ∈ rows ∧ key row = k :=
  ⟨List.mem_of_find?_eq_some found, by simpa using List.find?_some found⟩

theorem find_eq_none_iff : find key rows k = none ↔ ∀ row ∈ rows, key row ≠ k := by
  simp [find, List.find?_eq_none]

theorem find_of_mem (nodup : (rows.map key).Nodup) {row : α} (member : row ∈ rows) :
    find key rows (key row) = some row := by
  cases found : find key rows (key row) with
  | none => exact absurd rfl (find_eq_none_iff.mp found row member)
  | some other =>
    obtain ⟨inside, same⟩ := mem_of_find found
    rw [List.inj_on_of_nodup_map nodup inside member same]

theorem find_concat (rows : List α) (row : α) (k : κ) :
    find key (rows ++ [row]) k = (find key rows k).or (if key row = k then some row else none) := by
  rw [find, List.find?_append]
  by_cases same : key row = k <;> simp [find, same]

theorem find_filter_of_keeps {keep : α → Bool}
    (keeps : ∀ row ∈ rows, key row = k → keep row = true) :
    find key (rows.filter keep) k = find key rows k := by
  induction rows with
  | nil => rfl
  | cons row rest ih =>
    have tail := ih fun other member => keeps other (List.mem_cons_of_mem row member)
    by_cases same : key row = k
    · rw [List.filter_cons, if_pos (keeps row (by simp) same)]
      simp [find, same]
    · by_cases kept : keep row = true
      · rw [List.filter_cons, if_pos kept]
        simpa [find, same] using tail
      · rw [List.filter_cons, if_neg kept]
        simpa [find, same] using tail

theorem find_filter_of_drops {keep : α → Bool}
    (drops : ∀ row ∈ rows, key row = k → keep row = false) :
    find key (rows.filter keep) k = none := by
  rw [find_eq_none_iff]
  intro row member same
  obtain ⟨inside, kept⟩ := List.mem_filter.mp member
  rw [drops row inside same] at kept
  cases kept

theorem nodup_concat (nodup : (rows.map key).Nodup) {row : α} (fresh : find key rows (key row) = none) :
    ((rows ++ [row]).map key).Nodup := by
  rw [List.map_append, List.nodup_append]
  refine ⟨nodup, List.nodup_singleton _, ?_⟩
  intro a inside b last same
  obtain ⟨other, member, rfl⟩ := List.mem_map.mp inside
  obtain rfl : b = key row := by simpa using last
  exact find_eq_none_iff.mp fresh other member same

variable (key) in
/-- Insert a row in the place of the row with the same key. -/
def upsert (rows : List α) (row : α) : List α :=
  (rows.filter fun other => decide (key other ≠ key row)) ++ [row]

theorem mem_upsert {row other : α} :
    other ∈ upsert key rows row ↔ other ∈ rows ∧ key other ≠ key row ∨ other = row := by
  simp [upsert]

theorem find_upsert (rows : List α) (row : α) (k : κ) :
    find key (upsert key rows row) k = if k = key row then some row else find key rows k := by
  rw [upsert, find_concat]
  by_cases same : k = key row
  · rw [find_filter_of_drops (by simp [same]), if_pos same, if_pos same.symm]
    rfl
  · have other : ¬ key row = k := fun equal => same equal.symm
    rw [find_filter_of_keeps (fun row _ here => by simp [here, same]), if_neg same, if_neg other,
      Option.or_none]

theorem nodup_upsert (nodup : (rows.map key).Nodup) (row : α) :
    ((upsert key rows row).map key).Nodup :=
  nodup_concat (nodup_filter nodup _) (find_filter_of_drops (by simp))

/-- Where neither the row nor the one that it replaces counts. -/
theorem filter_upsert {keep : α → Bool} {row : α} (drops : keep row = false)
    (same : ∀ other ∈ rows, key other = key row → keep other = false) :
    (upsert key rows row).filter keep = rows.filter keep := by
  rw [upsert, List.filter_append, List.filter_filter, List.filter_cons_of_neg (by simp [drops]),
    List.filter_nil, List.append_nil]
  apply List.filter_congr
  intro other member
  by_cases equal : key other = key row
  · simp [equal, same other member equal]
  · simp [equal]

theorem filter_key (nodup : (rows.map key).Nodup) (k : κ) :
    rows.filter (fun row => decide (key row = k)) = (find key rows k).toList := by
  induction rows with
  | nil => rfl
  | cons row rest ih =>
    obtain ⟨fresh, later⟩ := List.nodup_cons.mp nodup
    by_cases here : key row = k
    · have none : rest.filter (fun row => decide (key row = k)) = [] := by
        rw [List.filter_eq_nil_iff]
        intro other member same
        exact fresh (here ▸ of_decide_eq_true same ▸ List.mem_map_of_mem member)
      simp [find, here, none]
    · simpa [find, here] using ih later

end Find

def nextKey (keys : List Nat) : Nat := keys.foldr max 0 + 1

theorem lt_nextKey {keys : List Nat} {k : Nat} (member : k ∈ keys) : k < nextKey keys := by
  unfold nextKey
  induction keys with
  | nil => cases member
  | cons first rest ih =>
    rw [List.foldr_cons]
    rcases List.mem_cons.mp member with rfl | later
    · omega
    · have below := ih later
      omega

theorem nextKey_fresh (keys : List Nat) : nextKey keys ∉ keys :=
  fun member => Nat.lt_irrefl _ (lt_nextKey member)

end Tables
