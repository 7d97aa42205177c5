import Mathlib.Data.List.Nodup

set_option autoImplicit false

/- Lists that grow by what they do not hold yet. -/
namespace Additions

variable {α : Type} [DecidableEq α]

/-- Add items one after the other, those that are wanted and not there yet. -/
def extend (wanted : α → Bool) (present : List α) : List α → List α
  | [] => present
  | item :: rest =>
    if wanted item = false then extend wanted present rest
    else if item ∈ present then extend wanted present rest
    else extend wanted (present ++ [item]) rest

/-- The first occurrences of the items that are wanted and not there, in order. -/
def additions (wanted : α → Bool) (present items : List α) : List α :=
  (items.filter fun item => wanted item && decide (item ∉ present)).eraseDups

section Extend

variable {wanted : α → Bool} {present : List α}

theorem extend_append (first second : List α) : extend wanted present (first ++ second) =
    extend wanted (extend wanted present first) second := by
  induction first generalizing present with
  | nil => rfl
  | cons item rest ih =>
    rw [List.cons_append, extend, extend]
    split
    · exact ih
    · split
      · exact ih
      · exact ih

theorem extend_eq (items : List α) :
    extend wanted present items = present ++ additions wanted present items := by
  induction items generalizing present with
  | nil => simp [extend, additions]
  | cons item rest ih =>
    rw [extend, additions]
    split
    · next unwanted =>
      rw [ih, additions, List.filter_cons_of_neg (by simp [unwanted])]
    · split
      · next there =>
        rw [ih, additions, List.filter_cons_of_neg (by simp [there])]
      · next some new =>
        have others :
            rest.filter (fun other => wanted other && decide (other ∉ present ++ [item])) =
              (rest.filter fun other => wanted other && decide (other ∉ present)).filter
              fun other => !other == item := by
          rw [List.filter_filter]
          apply List.filter_congr
          intro other member
          by_cases same : other = item
          · simp [same]
          · simp [same]
        rw [ih, additions, List.filter_cons_of_pos (by simp [some, new]), List.eraseDups_cons,
          others, List.append_assoc, List.singleton_append]

theorem extend_nodup {items : List α} (nodup : present.Nodup) :
    (extend wanted present items).Nodup := by
  induction items generalizing present with
  | nil => exact nodup
  | cons item rest ih =>
    rw [extend]
    split
    · exact ih nodup
    · split
      · exact ih nodup
      · next some new =>
        apply ih
        rw [List.nodup_append]
        refine ⟨nodup, List.nodup_singleton item, ?_⟩
        intro other there last single same
        rw [List.mem_singleton] at single
        exact new (by rw [← single, ← same]; exact there)

end Extend

end Additions
