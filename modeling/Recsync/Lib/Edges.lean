import Mathlib.Data.List.Destutter

set_option autoImplicit false

/- The changes of a signal: what is left of its values when repetitions are not reported. -/
namespace Edges

variable {α : Type} [DecidableEq α]

/-- The values that differ from the one before them. Before the first one the value is `start`. -/
def changes (start : α) (values : List α) : List α := (values.destutter' (· ≠ ·) start).tail

theorem cons_changes (start : α) (values : List α) :
    start :: changes start values = values.destutter' (· ≠ ·) start := by
  induction values with
  | nil => rfl
  | cons v rest ih =>
    by_cases same : start = v
    · have kept : ¬ (start ≠ v) := not_not.mpr same
      rw [changes, List.destutter'_cons_neg _ kept]
      exact ih
    · rw [changes, List.destutter'_cons_pos _ same]
      rfl

theorem destutter'_concat (start : α) (values : List α) (v : α) :
    (values ++ [v]).destutter' (· ≠ ·) start =
      values.destutter' (· ≠ ·) start ++ if values.getLastD start = v then [] else [v] := by
  induction values generalizing start with
  | nil =>
    by_cases same : start = v
    · simp [same]
    · simp [same]
  | cons w rest ih =>
    by_cases same : start = w
    · subst same
      have kept : ¬ (start ≠ start) := not_not.mpr rfl
      rw [List.cons_append, List.destutter'_cons_neg _ kept, List.destutter'_cons_neg _ kept, ih,
        List.getLastD_cons]
    · rw [List.cons_append, List.destutter'_cons_pos _ same, List.destutter'_cons_pos _ same, ih,
        List.getLastD_cons]
      rfl

theorem changes_concat (start : α) (values : List α) (v : α) :
    changes start (values ++ [v]) =
      changes start values ++ if values.getLastD start = v then [] else [v] := by
  rw [changes, destutter'_concat, List.tail_append_of_ne_nil (List.destutter'_ne_nil _ _)]
  rfl

/-- No value is reported twice in a row. -/
theorem changes_alternate (start : α) (values : List α) :
    (start :: changes start values).IsChain (· ≠ ·) := by
  rw [cons_changes]
  exact List.isChain_destutter' _ values start

end Edges
