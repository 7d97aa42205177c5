import Mathlib.Data.List.Nodup

set_option autoImplicit false

/- Shared resources: each name has the list of those who serve it, in the order in which
they came, and the last of them holds it. -/
namespace Ownership

variable {ν ι : Type} [DecidableEq ν] [DecidableEq ι]

abbrev Owners (ν ι : Type) := ν → List ι

def arrive (i : ι) (l : List ι) : List ι := if i ∈ l then l else l ++ [i]

def serve (o : Owners ν ι) (i : ι) (names : List ν) : Owners ν ι :=
  fun n => if n ∈ names then arrive i (o n) else o n

def leave (o : Owners ν ι) (i : ι) : Owners ν ι := fun n => (o n).erase i

def holder (o : Owners ν ι) (n : ν) : Option ι := (o n).getLast?

omit [DecidableEq ν] [DecidableEq ι] in
theorem holder_eq_none_iff (o : Owners ν ι) (n : ν) : holder o n = none ↔ o n = [] :=
  List.getLast?_eq_none_iff

omit [DecidableEq ν] [DecidableEq ι] in
theorem holder_mem {o : Owners ν ι} {n : ν} {i : ι} (holds : holder o n = some i) : i ∈ o n :=
  List.mem_of_getLast? holds

theorem mem_arrive {i j : ι} {l : List ι} : j ∈ arrive i l ↔ j = i ∨ j ∈ l := by
  unfold arrive
  split
  · rename_i member
    exact ⟨Or.inr, fun either => either.elim (fun same => same ▸ member) id⟩
  · simp [or_comm]

theorem arrive_nodup {i : ι} {l : List ι} (nodup : l.Nodup) : (arrive i l).Nodup := by
  unfold arrive
  split
  · exact nodup
  · rename_i fresh
    exact List.Nodup.append nodup (by simp) (by simpa using fresh)

theorem arrive_idem (i : ι) (l : List ι) : arrive i (arrive i l) = arrive i l := by
  have member : i ∈ arrive i l := mem_arrive.mpr (Or.inl rfl)
  rw [arrive, if_pos member]

/-- A newcomer holds every name that it serves. -/
theorem holder_serve {o : Owners ν ι} {i : ι} {names : List ν} {n : ν} (served : n ∈ names)
    (fresh : i ∉ o n) : holder (serve o i names) n = some i := by
  simp [holder, serve, arrive, served, fresh]

theorem holder_serve_of_not_mem {o : Owners ν ι} {i : ι} {names : List ν} {n : ν}
    (other : n ∉ names) : holder (serve o i names) n = holder o n := by
  simp [holder, serve, other]

omit [DecidableEq ν] in
/-- Somebody else's leaving does not move a name. -/
theorem holder_leave_of_ne {o : Owners ν ι} {i j : ι} {n : ν} (holds : holder o n = some j)
    (other : j ≠ i) : holder (leave o i) n = some j := by
  obtain ⟨before, split⟩ := List.getLast?_eq_some_iff.mp holds
  have stays : [j].erase i = [j] := List.erase_of_not_mem (by simpa using other.symm)
  unfold holder leave
  rw [split, List.erase_append]
  split <;> simp [stays]

omit [DecidableEq ν] in
/-- Others keep the names of whoever leaves. -/
theorem mem_leave {o : Owners ν ι} {i j : ι} {n : ν} (other : j ≠ i) (serving : j ∈ o n) :
    j ∈ leave o i n :=
  (List.mem_erase_of_ne other).mpr serving

omit [DecidableEq ν] in
theorem holder_leave_ne {o : Owners ν ι} {i j : ι} {n : ν} (nodup : (o n).Nodup)
    (holds : holder (leave o i) n = some j) : j ≠ i :=
  (nodup.mem_erase_iff.mp (holder_mem holds)).1

end Ownership
