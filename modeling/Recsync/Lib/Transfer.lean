import Mathlib.Init

set_option autoImplicit false

/- A transfer that goes on in turns: some turns move a part of what is left, others nothing. -/
namespace Transfer

inductive Turn where
  /-- at most `more + 1` elements go over -/
  | moves (more : Nat)
  /-- nothing goes over, and the next turn may -/
  | again
  /-- the transfer is given up -/
  | stops
  deriving DecidableEq, Repr

def Turn.isMoves : Turn → Bool
  | .moves _ => true
  | _ => false

inductive Ending where
  | done
  | stopped
  /-- the turns are used up -/
  | waiting
  deriving DecidableEq, Repr

/-- What has gone over, and what is left. -/
structure Progress (α : Type) where
  moved : List α
  left : List α
  deriving DecidableEq

variable {α : Type}

def Progress.move (p : Progress α) (count : Nat) : Progress α :=
  ⟨p.moved ++ p.left.take count, p.left.drop count⟩

/-- How a transfer ends, how far it has come, and the turns that it has not used. -/
structure Result (α : Type) where
  ending : Ending
  progress : Progress α
  turns : List Turn
  deriving DecidableEq

/-- Move elements until there are `len` of them. No turn moves more than is missing or left; one
that finds nothing left ends the transfer. -/
def run (len : Nat) (p : Progress α) : List Turn → Result α
  | [] => if len ≤ p.moved.length then ⟨.done, p, []⟩ else ⟨.waiting, p, []⟩
  | turn :: rest =>
    if len ≤ p.moved.length then ⟨.done, p, turn :: rest⟩
    else
      match turn with
      | .moves more =>
        if p.left = [] then ⟨.stopped, p, rest⟩
        else run len (p.move (min (more + 1) (len - p.moved.length))) rest
      | .again => run len p rest
      | .stops => ⟨.stopped, p, rest⟩

section Move

variable {p : Progress α} {len count : Nat}

@[simp] theorem Progress.move_source : (p.move count).moved ++ (p.move count).left =
    p.moved ++ p.left := by
  simp [Progress.move]

theorem Progress.length_moved_move :
    (p.move count).moved.length = p.moved.length + min count p.left.length := by
  simp [Progress.move]

theorem Progress.length_left_move :
    (p.move count).left.length = p.left.length - count := by
  simp [Progress.move]

end Move

section Run

variable {len : Nat} {p : Progress α} {turns : List Turn}

theorem run_done (full : len ≤ p.moved.length) (turns : List Turn) :
    run len p turns = ⟨.done, p, turns⟩ := by
  cases turns with
  | nil => exact if_pos full
  | cons turn rest => exact if_pos full

theorem run_nil (open_ : p.moved.length < len) : run len p [] = ⟨.waiting, p, []⟩ :=
  if_neg (Nat.not_le.mpr open_)

section Turns

variable {more : Nat} {rest : List Turn} (open_ : p.moved.length < len)
include open_

theorem run_moves (some : p.left ≠ []) : run len p (.moves more :: rest) =
    run len (p.move (min (more + 1) (len - p.moved.length))) rest := by
  apply (if_neg (Nat.not_le.mpr open_)).trans
  exact if_neg some

theorem run_exhausted (none : p.left = []) :
    run len p (.moves more :: rest) = ⟨.stopped, p, rest⟩ := by
  apply (if_neg (Nat.not_le.mpr open_)).trans
  exact if_pos none

theorem run_again : run len p (.again :: rest) = run len p rest :=
  if_neg (Nat.not_le.mpr open_)

theorem run_stops : run len p (.stops :: rest) = ⟨.stopped, p, rest⟩ :=
  if_neg (Nat.not_le.mpr open_)

end Turns

/-- Nothing is lost, repeated or changed in order. -/
theorem run_source : (run len p turns).progress.moved ++ (run len p turns).progress.left =
    p.moved ++ p.left := by
  fun_induction run len p turns with
  | case5 p rest open_ more some ih => rw [ih, Progress.move_source]
  | case6 p rest open_ ih => exact ih
  | _ => rfl

theorem run_moved_le (short : p.moved.length ≤ len) :
    (run len p turns).progress.moved.length ≤ len := by
  fun_induction run len p turns with
  | case5 p rest open_ more some ih =>
    apply ih
    rw [Progress.length_moved_move]
    omega
  | case6 p rest open_ ih => exact ih short
  | _ => exact short

theorem run_done_iff (short : p.moved.length ≤ len) :
    (run len p turns).ending = .done ↔ (run len p turns).progress.moved.length = len := by
  fun_induction run len p turns with
  | case1 p full => exact iff_of_true rfl (Nat.le_antisymm short full)
  | case2 p open_ => exact iff_of_false nofun (Nat.ne_of_lt (Nat.not_le.mp open_))
  | case3 p turn rest full => exact iff_of_true rfl (Nat.le_antisymm short full)
  | case4 p rest open_ more none => exact iff_of_false nofun (Nat.ne_of_lt (Nat.not_le.mp open_))
  | case5 p rest open_ more some ih =>
    apply ih
    rw [Progress.length_moved_move]
    omega
  | case6 p rest open_ ih => exact ih short
  | case7 p rest open_ => exact iff_of_false nofun (Nat.ne_of_lt (Nat.not_le.mp open_))

/-- A transfer ends when it is given up, or when enough turns move something. -/
theorem run_ends (enough : .stops ∈ turns ∨ len ≤ p.moved.length + turns.countP Turn.isMoves) :
    (run len p turns).ending ≠ .waiting := by
  fun_induction run len p turns with
  | case2 p open_ =>
    rw [List.countP_nil] at enough
    simp only [List.not_mem_nil, false_or] at enough
    omega
  | case5 p rest open_ more some ih =>
    have positive : 0 < p.left.length := List.length_pos_iff.mpr some
    apply ih
    rw [Progress.length_moved_move]
    simp only [List.mem_cons, reduceCtorEq, false_or,
      List.countP_cons_of_pos (show Turn.isMoves (.moves more) = true from rfl)] at enough
    exact enough.imp id fun turns => by omega
  | case6 p rest open_ ih =>
    apply ih
    simpa [Turn.isMoves] using enough
  | _ => nofun

/-- A transfer that is not given up does not end before it is done, if enough is there. -/
theorem run_not_stopped (calm : .stops ∉ turns)
    (there : len ≤ p.moved.length + p.left.length) : (run len p turns).ending ≠ .stopped := by
  fun_induction run len p turns with
  | case4 p rest open_ more none =>
    rw [none, List.length_nil] at there
    omega
  | case5 p rest open_ more some ih =>
    apply ih fun member => calm (List.mem_cons_of_mem _ member)
    rw [Progress.length_moved_move, Progress.length_left_move]
    omega
  | case6 p rest open_ ih => exact ih (fun member => calm (List.mem_cons_of_mem _ member)) there
  | case7 p rest open_ => exact absurd List.mem_cons_self calm
  | _ => nofun

/-- The turns that are not used are the last ones. -/
theorem run_suffix : (run len p turns).turns <:+ turns := by
  fun_induction run len p turns with
  | case1 p full => exact List.suffix_refl _
  | case2 p open_ => exact List.suffix_refl _
  | case3 p turn rest full => exact List.suffix_refl _
  | case4 p rest open_ more none => exact List.suffix_cons _ _
  | case5 p rest open_ more some ih => exact ih.trans (List.suffix_cons _ _)
  | case6 p rest open_ ih => exact ih.trans (List.suffix_cons _ _)
  | case7 p rest open_ => exact List.suffix_cons _ _

/-- A turn that moves something is used for at least one element. -/
theorem run_unused (done : (run len p turns).ending = .done) :
    p.moved.length + turns.countP Turn.isMoves ≤
      (run len p turns).progress.moved.length + (run len p turns).turns.countP Turn.isMoves := by
  fun_induction run len p turns with
  | case1 p full => exact Nat.le_refl _
  | case2 p open_ => cases done
  | case3 p turn rest full => exact Nat.le_refl _
  | case4 p rest open_ more none => cases done
  | case5 p rest open_ more some ih =>
    have positive : 0 < p.left.length := List.length_pos_iff.mpr some
    have later := ih done
    rw [Progress.length_moved_move] at later
    rw [List.countP_cons_of_pos (show Turn.isMoves (.moves more) = true from rfl)]
    omega
  | case6 p rest open_ ih =>
    rw [List.countP_cons_of_neg (show ¬ Turn.isMoves .again = true from nofun)]
    exact ih done
  | case7 p rest open_ => cases done

/-- No turn gives the transfer up, and enough of them move something. -/
structure Flows (turns : List Turn) (count : Nat) : Prop where
  calm : .stops ∉ turns
  enough : count ≤ turns.countP Turn.isMoves

/-- A transfer that flows is done, and what comes after it flows as well. -/
theorem run_flows {later : Nat} (flows : Flows turns (len + later)) (there : len ≤ p.left.length)
    (fresh : p.moved = []) :
    (run len p turns).ending = .done ∧ Flows (run len p turns).turns later := by
  have empty : p.moved.length = 0 := by rw [fresh, List.length_nil]
  have enough := flows.enough
  have done : (run len p turns).ending = .done := by
    have ends := @run_ends α len p turns (Or.inr (by omega))
    have calm := @run_not_stopped α len p turns flows.calm (by omega)
    cases ending : (run len p turns).ending with
    | done => rfl
    | stopped => exact absurd ending calm
    | waiting => exact absurd ending ends
  have size := (run_done_iff (by omega : p.moved.length ≤ len)).mp done
  have unused := run_unused done
  refine ⟨done, fun member => flows.calm (run_suffix.subset member), ?_⟩
  omega

end Run

section Fresh

variable {len : Nat} {source : List α} {turns : List Turn}

/-- What a transfer from a source has moved is a prefix, and the rest is what is left. -/
theorem run_fresh : ∃ count, count ≤ len ∧ count ≤ source.length ∧
    (run len ⟨[], source⟩ turns).progress = ⟨source.take count, source.drop count⟩ ∧
    ((run len ⟨[], source⟩ turns).ending = .done ↔ count = len) := by
  have whole : (run len ⟨[], source⟩ turns).progress.moved ++
      (run len ⟨[], source⟩ turns).progress.left = source := by
    simpa using @run_source α len ⟨[], source⟩ turns
  have short := @run_moved_le α len ⟨[], source⟩ turns (Nat.zero_le _)
  have done := @run_done_iff α len ⟨[], source⟩ turns (Nat.zero_le _)
  generalize (run len ⟨[], source⟩ turns).progress = progress at whole short done ⊢
  refine ⟨progress.moved.length, short, ?_, ?_, done⟩
  · rw [← whole, List.length_append]
    omega
  · rw [← whole, List.take_left, List.drop_left]

end Fresh

end Transfer
