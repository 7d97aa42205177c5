import Recsync.Lib.Ownership
import Recsync.Lib.Runs

set_option autoImplicit false

/- Who serves what after a number of visits, each of which begins some names or leaves all. -/
namespace Ownership

inductive Visit (ν ι : Type) where
  | serves (i : ι) (names : List ν)
  | leaves (i : ι)

variable {ν ι : Type} [DecidableEq ν] [DecidableEq ι]

def visit (o : Owners ν ι) : Visit ν ι → Owners ν ι
  | .serves i names => serve o i names
  | .leaves i => leave o i

def visits (all : List (Visit ν ι)) : Owners ν ι := all.foldl visit fun _ => []

/-- Nobody comes back. -/
def Once (all : List (Visit ν ι)) : Prop :=
  Runs.EveryStep (fun before v => ∀ i names, v = .serves i names → .leaves i ∉ before) all

section Visits

variable {all : List (Visit ν ι)}

theorem visits_concat (all : List (Visit ν ι)) (v : Visit ν ι) :
    visits (all ++ [v]) = visit (visits all) v := List.foldl_concat ..

theorem visits_nodup (all : List (Visit ν ι)) (n : ν) : (visits all n).Nodup := by
  induction all using List.reverseRecOn with
  | nil => exact List.nodup_nil
  | append_singleton all v ih =>
    rw [visits_concat]
    cases v with
    | serves i names =>
      simp only [visit, serve]
      split
      · exact arrive_nodup ih
      · exact ih
    | leaves i => exact ih.erase i

/-- A name is served by those who have begun it and have not left. -/
theorem mem_visits (once : Once all) (i : ι) (n : ν) :
    i ∈ visits all n ↔ (∃ names, .serves i names ∈ all ∧ n ∈ names) ∧ .leaves i ∉ all := by
  induction all using List.reverseRecOn with
  | nil => simp [visits]
  | append_singleton all v ih =>
    have before := ih once.take
    have here := once all v [] rfl
    rw [visits_concat]
    cases v with
    | serves j names =>
      have stayed : .leaves j ∉ all := here j names rfl
      simp only [visit, serve, List.mem_append, List.mem_singleton, Visit.serves.injEq, reduceCtorEq,
        or_false]
      split
      · next named =>
        rw [mem_arrive, before]
        constructor
        · rintro (rfl | ⟨⟨others, member, listed⟩, open_⟩)
          · exact ⟨⟨names, Or.inr ⟨rfl, rfl⟩, named⟩, stayed⟩
          · exact ⟨⟨others, Or.inl member, listed⟩, open_⟩
        · rintro ⟨⟨others, member | ⟨rfl, -⟩, listed⟩, open_⟩
          · exact Or.inr ⟨⟨others, member, listed⟩, open_⟩
          · exact Or.inl rfl
      · next unnamed =>
        rw [before]
        constructor
        · rintro ⟨⟨others, member, listed⟩, open_⟩
          exact ⟨⟨others, Or.inl member, listed⟩, open_⟩
        · rintro ⟨⟨others, member | ⟨-, rfl⟩, listed⟩, open_⟩
          · exact ⟨⟨others, member, listed⟩, open_⟩
          · exact absurd listed unnamed
    | leaves j =>
      simp only [visit, leave, List.mem_append, List.mem_singleton, reduceCtorEq, or_false,
        Visit.leaves.injEq, not_or]
      rw [(visits_nodup all n).mem_erase_iff, before]
      constructor
      · rintro ⟨other, named, open_⟩
        exact ⟨named, open_, other⟩
      · rintro ⟨named, open_, other⟩
        exact ⟨other, named, open_⟩

theorem holder_visits (once : Once all) {i : ι} {n : ν} (holds : holder (visits all) n = some i) :
    (∃ names, .serves i names ∈ all ∧ n ∈ names) ∧ .leaves i ∉ all :=
  (mem_visits once i n).mp (holder_mem holds)

theorem holder_visits_isSome {i : ι} {n : ν} (serving : i ∈ visits all n) :
    ∃ j, holder (visits all) n = some j := by
  cases holds : holder (visits all) n with
  | none =>
    rw [(holder_eq_none_iff _ n).mp holds] at serving
    cases serving
  | some j => exact ⟨j, rfl⟩

end Visits

end Ownership
