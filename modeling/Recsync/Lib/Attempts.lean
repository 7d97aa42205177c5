set_option autoImplicit false

/- A plan of calls, carried out up to the first one that fails. -/
namespace Attempts

variable {Call State : Type}

/-- How a plan ends: with all calls made, or with the first one that fails. -/
inductive End (Call State : Type) where
  | complete (s : State)
  | failed (c : Call) (s : State)

namespace End

def andThen : End Call State → (State → End Call State) → End Call State
  | complete s, next => next s
  | failed c s, _ => failed c s

def state : End Call State → State
  | complete s => s
  | failed _ s => s

def failure : End Call State → Option Call
  | complete _ => none
  | failed c _ => some c

end End

variable (perform : Call → State → Bool × State)

def attempt : List Call → State → End Call State
  | [], s => .complete s
  | c :: rest, s =>
    let (ok, s) := perform c s
    if ok then attempt rest s else .failed c s

theorem attempt_cons (c : Call) (rest : List Call) (s : State) :
    attempt perform (c :: rest) s =
      if (perform c s).1 = true then attempt perform rest (perform c s).2
      else .failed c (perform c s).2 := rfl

theorem attempt_append (first second : List Call) (s : State) :
    attempt perform (first ++ second) s =
      (attempt perform first s).andThen (attempt perform second) := by
  induction first generalizing s with
  | nil => rfl
  | cons c rest ih =>
    rw [List.cons_append, attempt_cons, attempt_cons]
    by_cases ok : (perform c s).1 = true
    · rw [if_pos ok, if_pos ok, ih]
    · rw [if_neg ok, if_neg ok]
      rfl

theorem mem_of_failed {plan : List Call} {s t : State} {c : Call}
    (failed : attempt perform plan s = .failed c t) : c ∈ plan := by
  induction plan generalizing s with
  | nil => cases failed
  | cons first rest ih =>
    rw [attempt_cons] at failed
    split at failed
    · exact List.mem_cons_of_mem first (ih failed)
    · cases failed
      exact List.mem_cons_self

end Attempts
