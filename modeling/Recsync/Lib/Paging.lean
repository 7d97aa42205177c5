set_option autoImplicit false

/- Work on what a query finds, one page after another until nothing is found. -/
namespace Paging

variable {Item State : Type}

/-- Query, work on the page, and query again. The number of the query goes along, since the same
query can be answered in different ways. -/
def drain (find : Nat → State → List Item) (work : List Item → State → State) :
    Nat → Nat → Nat → State → Option (Nat × State)
  | 0, _, _, _ => none
  | fuel + 1, query, total, s =>
    match find query s with
    | [] => some (total, s)
    | item :: rest =>
      drain find work fuel (query + 1) (total + (item :: rest).length) (work (item :: rest) s)

/-- A query finds something as long as something is left, and what is found is worked off. -/
structure Drains (find : Nat → State → List Item) (work : List Item → State → State)
    (left : State → Nat) : Prop where
  nonempty : ∀ query s, find query s = [] → left s = 0
  shrinks : ∀ query s, left (work (find query s) s) + (find query s).length = left s

section Drain

variable {find : Nat → State → List Item} {work : List Item → State → State} {left : State → Nat}

/-- The loop ends, with as many items as there were, and keeps what the work on a page keeps. -/
theorem drain_complete (drains : Drains find work left) {P : State → Prop}
    (keeps : ∀ query s, P s → P (work (find query s) s)) {fuel : Nat} (query total : Nat) {s : State}
    (enough : left s < fuel) (start : P s) :
    ∃ t, drain find work fuel query total s = some (total + left s, t) ∧ left t = 0 ∧ P t := by
  induction fuel generalizing query total s with
  | zero => omega
  | succ fuel ih =>
    cases page : find query s with
    | nil =>
      have done := drains.nonempty query s page
      exact ⟨s, by simp [drain, page, done], done, start⟩
    | cons item rest =>
      have shrinks := drains.shrinks query s
      have kept := keeps query s start
      rw [page] at shrinks kept
      have fewer : left (work (item :: rest) s) < fuel := by
        rw [List.length_cons] at shrinks
        omega
      obtain ⟨t, run, done, good⟩ := ih (query + 1) (total + (item :: rest).length) fewer kept
      refine ⟨t, ?_, done, good⟩
      simp only [drain, page]
      rw [run]
      congr 2
      omega

end Drain

end Paging
