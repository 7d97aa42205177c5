import Mathlib.Data.List.Induction

set_option autoImplicit false

/- Runs as lists of steps. -/
namespace Runs

variable {α : Type}

/-- Every step of the run satisfies `P` with respect to the steps taken before it. -/
def EveryStep (P : List α → α → Prop) (run : List α) : Prop :=
  ∀ done c rest, run = done ++ c :: rest → P done c

namespace EveryStep

variable {P : List α → α → Prop} {c : α} {run first second : List α}

theorem nil (P : List α → α → Prop) : EveryStep P [] := by
  intro done c rest split
  simp at split

theorem append (all : EveryStep P run) (last : P run c) : EveryStep P (run ++ [c]) := by
  intro done d rest split
  rcases List.eq_nil_or_concat rest with rfl | ⟨front, final, rfl⟩
  · obtain ⟨rfl, same⟩ := List.append_inj' split rfl
    obtain rfl : c = d := by simpa using same
    exact last
  · have shorter : run ++ [c] = (done ++ d :: front) ++ [final] := by simpa using split
    exact all done d front (List.append_inj' shorter rfl).1

theorem cons (head : P [] c) (tail : EveryStep (fun done => P (c :: done)) run) :
    EveryStep P (c :: run) := by
  intro done d rest split
  cases done with
  | nil =>
    obtain ⟨rfl, -⟩ := List.cons.inj split
    exact head
  | cons e front =>
    obtain ⟨rfl, later⟩ := List.cons.inj split
    exact tail front d rest later

theorem take (all : EveryStep P (first ++ second)) : EveryStep P first := by
  intro done d rest split
  exact all done d (rest ++ second) (by simp [split])

theorem drop (all : EveryStep P (first ++ second)) :
    EveryStep (fun done => P (first ++ done)) second := by
  intro done d rest split
  exact all (first ++ done) d rest (by simp [split])

/-- What every step that satisfies `P` maintains holds wherever the run gets to. -/
theorem maintains (all : EveryStep P run) {I : List α → Prop} (start : I [])
    (step : ∀ done, ∀ d ∈ run, I done → P done d → I (done ++ [d])) {reached : List α}
    (inside : reached <+: run) : I reached := by
  induction reached using List.reverseRecOn with
  | nil => exact start
  | append_singleton done d ih =>
    obtain ⟨rest, split⟩ := inside
    have now : run = done ++ d :: rest := by simpa using split.symm
    have before : I done := ih ⟨d :: rest, now.symm⟩
    exact step done d (by simp [now]) before (all done d rest now)

end EveryStep

section Rank

variable {σ ε : Type} (step : σ → ε → σ) (Own : ε → Prop)

/-- Every step of the run is one of these and changes the state. -/
def Busy (s : σ) (run : List ε) : Prop :=
  EveryStep (fun done e => Own e ∧ step (done.foldl step s) e ≠ done.foldl step s) run

/-- None of these steps changes the state. -/
def AtRest (s : σ) : Prop := ∀ e, Own e → step s e = s

/-- The steps keep an invariant, and under it each of them lowers the rank or changes nothing. -/
structure Ranked (I : σ → Prop) (rank : σ → Nat) : Prop where
  keeps : ∀ s e, I s → Own e → I (step s e)
  lowers : ∀ s e, I s → Own e → step s e = s ∨ rank (step s e) < rank s

variable {step Own} {I : σ → Prop} {rank : σ → Nat} {s : σ}

theorem Busy.cons {e : ε} {run : List ε} (own : Own e) (moves : step s e ≠ s)
    (busy : Busy step Own (step s e) run) : Busy step Own s (e :: run) :=
  EveryStep.cons (P := fun done e => Own e ∧ step (done.foldl step s) e ≠ done.foldl step s)
    ⟨own, moves⟩ busy

/-- A busy run is no longer than the rank is lowered. -/
theorem Ranked.busy (ranked : Ranked step Own I rank) (start : I s) {run : List ε}
    (busy : Busy step Own s run) :
    I (run.foldl step s) ∧ rank (run.foldl step s) + run.length ≤ rank s := by
  apply EveryStep.maintains
    (I := fun done => I (done.foldl step s) ∧ rank (done.foldl step s) + done.length ≤ rank s)
    busy ⟨start, Nat.le_refl _⟩ _ List.prefix_rfl
  rintro done e - ⟨inv, shorter⟩ ⟨own, moves⟩
  have lower := (ranked.lowers _ e inv own).resolve_left moves
  rw [List.foldl_append, List.length_append]
  refine ⟨ranked.keeps _ e inv own, ?_⟩
  change rank (step _ e) + (done.length + 1) ≤ rank s
  omega

theorem Ranked.comes_to_rest (ranked : Ranked step Own I rank) (n : Nat) {s : σ} (start : I s)
    (bound : rank s ≤ n) : ∃ run, Busy step Own s run ∧ AtRest step Own (run.foldl step s) := by
  induction n generalizing s with
  | zero =>
    refine ⟨[], EveryStep.nil _, fun e own => ?_⟩
    have stuck := ranked.lowers s e start own
    exact stuck.resolve_right (by omega)
  | succ n ih =>
    by_cases rest : AtRest step Own s
    · exact ⟨[], EveryStep.nil _, rest⟩
    · rw [AtRest, Classical.not_forall] at rest
      obtain ⟨e, active⟩ := rest
      obtain ⟨own, moves⟩ := Classical.not_imp.mp active
      have lower := (ranked.lowers s e start own).resolve_left moves
      obtain ⟨run, busy, ended⟩ := ih (ranked.keeps s e start own) (by omega)
      exact ⟨e :: run, busy.cons own moves, ended⟩

end Rank

end Runs
