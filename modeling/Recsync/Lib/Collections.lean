import Mathlib.Data.List.Nodup
import Mathlib.Data.List.Lookmap

set_option autoImplicit false

namespace Py

/-- An insertion-ordered dictionary. Overwriting a key keeps its position and a
new key goes to the end, so `entries` is the iteration order. -/
structure Dict (κ ν : Type) where
  entries : List (κ × ν)
  nodup : (entries.map Prod.fst).Nodup

namespace Dict

variable {κ ν : Type}

def empty : Dict κ ν := ⟨[], List.nodup_nil⟩

instance : EmptyCollection (Dict κ ν) := ⟨empty⟩

instance : Inhabited (Dict κ ν) := ⟨empty⟩

def keys (d : Dict κ ν) : List κ := d.entries.map Prod.fst

def values (d : Dict κ ν) : List ν := d.entries.map Prod.snd

theorem keys_nodup (d : Dict κ ν) : d.keys.Nodup := d.nodup

@[simp] theorem keys_empty : (∅ : Dict κ ν).keys = [] := rfl

theorem eq_empty_of_keys {d : Dict κ ν} (none : d.keys = []) : d = ∅ := by
  obtain ⟨entries, nodup⟩ := d
  obtain rfl : entries = [] := List.map_eq_nil_iff.mp none
  rfl

variable [DecidableEq κ]

def get? (d : Dict κ ν) (k : κ) : Option ν := (d.entries.find? fun e => e.1 == k).map Prod.snd

@[simp] theorem get?_empty (k : κ) : (∅ : Dict κ ν).get? k = none := rfl

theorem get?_eq_some_iff (d : Dict κ ν) (k : κ) (v : ν) :
    d.get? k = some v ↔ (k, v) ∈ d.entries := by
  constructor
  · intro found
    obtain ⟨⟨key, value⟩, hit, rfl⟩ := Option.map_eq_some_iff.mp found
    have same : key = k := by simpa using List.find?_some hit
    exact same ▸ List.mem_of_find?_eq_some hit
  · intro member
    obtain ⟨e, hit⟩ : ∃ e, d.entries.find? (fun e => e.1 == k) = some e := by
      rw [← Option.isSome_iff_exists, List.find?_isSome]
      exact ⟨(k, v), member, by simp⟩
    have same : e.1 = k := by simpa using List.find?_some hit
    have equal : e = (k, v) :=
      List.inj_on_of_nodup_map d.nodup (List.mem_of_find?_eq_some hit) member same
    simp [get?, hit, equal]

theorem get?_eq_none_iff (d : Dict κ ν) (k : κ) : d.get? k = none ↔ k ∉ d.keys := by
  simp only [get?, Option.map_eq_none_iff, List.find?_eq_none, keys, List.mem_map, not_exists,
    not_and, beq_iff_eq]

theorem mem_keys_iff (d : Dict κ ν) (k : κ) : k ∈ d.keys ↔ ∃ v, d.get? k = some v := by
  rw [← Option.isSome_iff_exists, ← Option.ne_none_iff_isSome, ne_eq, get?_eq_none_iff, not_not]

def modifyEntries (entries : List (κ × ν)) (k : κ) (v : ν) : List (κ × ν) :=
  entries.map fun e => if e.1 = k then (k, v) else e

theorem modifyEntries_keys (entries : List (κ × ν)) (k : κ) (v : ν) :
    (modifyEntries entries k v).map Prod.fst = entries.map Prod.fst := by
  simp only [modifyEntries, List.map_map]
  apply List.map_congr_left
  intro e _
  by_cases same : e.1 = k <;> simp [same]

/-- `d[k] = v`. -/
def set (d : Dict κ ν) (k : κ) (v : ν) : Dict κ ν :=
  if known : k ∈ d.keys then
    ⟨modifyEntries d.entries k v, by rw [modifyEntries_keys]; exact d.nodup⟩
  else
    ⟨d.entries ++ [(k, v)], by
      rw [List.map_append, List.nodup_append]
      refine ⟨d.nodup, by simp, ?_⟩
      intro a member b last equal
      apply known
      have : b = k := by simpa using last
      rw [← this, ← equal]
      exact member⟩

theorem keys_set (d : Dict κ ν) (k : κ) (v : ν) :
    (d.set k v).keys = if k ∈ d.keys then d.keys else d.keys ++ [k] := by
  unfold set
  split
  · exact modifyEntries_keys d.entries k v
  · simp [keys]

theorem mem_entries_set (d : Dict κ ν) (k : κ) (v : ν) (e : κ × ν) :
    e ∈ (d.set k v).entries ↔ e = (k, v) ∨ e.1 ≠ k ∧ e ∈ d.entries := by
  unfold set
  split
  · rename_i known
    obtain ⟨old, present, rfl⟩ := List.mem_map.mp known
    constructor
    · intro member
      obtain ⟨source, inside, rfl⟩ := List.mem_map.mp member
      by_cases same : source.1 = old.1
      · exact Or.inl (by simp [same])
      · exact Or.inr (by simpa [same] using inside)
    · rintro (rfl | ⟨other, inside⟩)
      · exact List.mem_map.mpr ⟨old, present, by simp⟩
      · exact List.mem_map.mpr ⟨e, inside, by simp [other]⟩
  · rename_i fresh
    simp only [List.mem_append, List.mem_singleton]
    constructor
    · rintro (inside | rfl)
      · refine Or.inr ⟨?_, inside⟩
        rintro rfl
        exact fresh (List.mem_map_of_mem inside)
      · exact Or.inl rfl
    · rintro (rfl | ⟨_, inside⟩)
      · exact Or.inr rfl
      · exact Or.inl inside

@[simp] theorem get?_set_self (d : Dict κ ν) (k : κ) (v : ν) : (d.set k v).get? k = some v := by
  rw [get?_eq_some_iff, mem_entries_set]
  exact Or.inl rfl

theorem get?_set_ne (d : Dict κ ν) {k key : κ} (v : ν) (other : key ≠ k) :
    (d.set k v).get? key = d.get? key := by
  apply Option.ext
  intro value
  simp [get?_eq_some_iff, mem_entries_set, other]

theorem get?_set (d : Dict κ ν) (k key : κ) (v : ν) :
    (d.set k v).get? key = if key = k then some v else d.get? key := by
  by_cases same : key = k
  · simp [same]
  · rw [get?_set_ne d v same, if_neg same]

theorem entries_set_of_not_mem (d : Dict κ ν) {k : κ} (v : ν) (fresh : k ∉ d.keys) :
    (d.set k v).entries = d.entries ++ [(k, v)] := by
  rw [set, dif_neg fresh]

/-- At most one entry has a given key. -/
theorem filter_entries (d : Dict κ ν) (k : κ) :
    d.entries.filter (fun e => decide (e.1 = k)) = (d.get? k).toList.map fun v => (k, v) := by
  obtain ⟨entries, nodup⟩ := d
  unfold get?
  induction entries with
  | nil => rfl
  | cons e rest ih =>
    obtain ⟨fresh, restNodup⟩ := List.nodup_cons.mp nodup
    by_cases here : e.1 = k
    · have gone : rest.filter (fun e => decide (e.1 = k)) = [] := by
        rw [List.filter_eq_nil_iff]
        intro other member same
        apply fresh
        rw [here, ← of_decide_eq_true same]
        exact List.mem_map_of_mem member
      subst here
      simp [gone]
    · have tail := ih restNodup
      simpa [here] using tail

/-- The pairs of a key with the items under it. -/
theorem filter_flatMap {α : Type} (d : Dict κ ν) (items : ν → List α) (k : κ) :
    (d.entries.flatMap fun e => (items e.2).map fun x => (e.1, x)).filter
        (fun e => decide (e.1 = k)) =
      (((d.get? k).map items).getD []).map fun x => (k, x) := by
  have parts : (d.entries.flatMap fun e => (items e.2).map fun x => (e.1, x)).filter
      (fun e => decide (e.1 = k)) =
        (d.entries.filter fun e => decide (e.1 = k)).flatMap fun e => (items e.2).map fun x => (e.1, x) := by
    generalize d.entries = entries
    induction entries with
    | nil => rfl
    | cons e rest ih =>
      rw [List.flatMap_cons, List.filter_append, ih, List.filter_cons]
      by_cases here : e.1 = k
      · simp [here, List.filter_map, Function.comp_def]
      · simp [here, List.filter_map, Function.comp_def]
  rw [parts, filter_entries]
  cases d.get? k <;> simp

/-- `d.pop(k, None)`. -/
def erase (d : Dict κ ν) (k : κ) : Dict κ ν :=
  ⟨d.entries.filter fun e => decide (e.1 ≠ k), (List.filter_sublist.map Prod.fst).nodup d.nodup⟩

theorem get?_erase (d : Dict κ ν) (k key : κ) :
    (d.erase k).get? key = if key = k then none else d.get? key := by
  apply Option.ext
  intro value
  rw [get?_eq_some_iff, erase, List.mem_filter]
  by_cases same : key = k
  · simp [same]
  · rw [if_neg same, get?_eq_some_iff]
    simp [same]

end Dict

/-- A set, kept as the list of its elements without repetitions. -/
structure Set (α : Type) where
  elems : List α
  nodup : elems.Nodup

namespace Set

variable {α : Type}

instance : EmptyCollection (Set α) := ⟨⟨[], List.nodup_nil⟩⟩

instance : Membership α (Set α) := ⟨fun s a => a ∈ s.elems⟩

theorem mem_iff {s : Set α} {a : α} : a ∈ s ↔ a ∈ s.elems := Iff.rfl

@[simp] theorem not_mem_empty (a : α) : a ∉ (∅ : Set α) := List.not_mem_nil

def size (s : Set α) : Nat := s.elems.length

theorem size_pos_of_mem {s : Set α} {a : α} (member : a ∈ s) : 0 < s.size :=
  List.length_pos_of_mem member

theorem eq_empty_of_size {s : Set α} (none : s.size = 0) : s = ∅ := by
  cases s with
  | mk elems nodup =>
    obtain rfl : elems = [] := List.length_eq_zero_iff.mp none
    rfl

theorem eq_empty_of_forall {s : Set α} (none : ∀ a, a ∉ s) : s = ∅ :=
  eq_empty_of_size (List.length_eq_zero_iff.mpr (List.eq_nil_iff_forall_not_mem.mpr none))

variable [DecidableEq α]

def add (s : Set α) (a : α) : Set α := ⟨s.elems.insert a, s.nodup.insert⟩

def discard (s : Set α) (a : α) : Set α := ⟨s.elems.erase a, s.nodup.erase a⟩

@[simp] theorem mem_add {s : Set α} {a b : α} : b ∈ s.add a ↔ b = a ∨ b ∈ s :=
  List.mem_insert_iff

@[simp] theorem mem_discard {s : Set α} {a b : α} : b ∈ s.discard a ↔ b ≠ a ∧ b ∈ s :=
  s.nodup.mem_erase_iff

theorem size_add {s : Set α} {a : α} (fresh : a ∉ s) : (s.add a).size = s.size + 1 :=
  List.length_insert_of_not_mem fresh

theorem add_of_mem {s : Set α} {a : α} (member : a ∈ s) : s.add a = s := by
  have same : s.elems.insert a = s.elems := List.insert_of_mem member
  cases s
  simp only [add] at *
  congr

theorem size_discard {s : Set α} {a : α} (member : a ∈ s) : (s.discard a).size + 1 = s.size := by
  have shorter : (s.discard a).size = s.elems.length - 1 := List.length_erase_of_mem member
  have positive : 0 < s.elems.length := size_pos_of_mem member
  unfold size at shorter ⊢
  omega

end Set

end Py
