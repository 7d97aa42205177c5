import Mathlib.Init

set_option autoImplicit false

/- A Deferred: a result, or the promise of one, and the functions that wait for it. -/
namespace Deferred

/-- What a function on the chain comes back with: a value, an exception, or another Deferred
that has fired or not. -/
inductive Returned (ε α : Type) where
  | value (a : α)
  | raised (e : ε)
  | deferred (fired : Option (Except ε α))

/-- One link: `addCallback` and `addErrback` leave the other function out, which then passes the
result on. -/
structure Link (κ : Type) where
  callback : Option κ := none
  errback : Option κ := none

def Link.select {κ ε α : Type} (link : Link κ) : Except ε α → Option κ
  | .ok _ => link.callback
  | .error _ => link.errback

/-- The chain. Without a result it has not been fired, or it waits for a Deferred that one of
its functions returned. -/
structure Chain (κ ε α : Type) where
  result : Option (Except ε α)
  links : List (Link κ) := []

variable {κ ε α σ : Type}

/-- `defer.succeed`. -/
def succeed (a : α) : Chain κ ε α := { result := some (.ok a) }

section Run

variable (call : κ → Except ε α → σ → Returned ε α × σ)

def runCallbacks : List (Link κ) → Except ε α → σ → Chain κ ε α × σ
  | [], result, s => ({ result := some result }, s)
  | link :: rest, result, s =>
    match link.select result with
    | none => runCallbacks rest result s
    | some f =>
      match call f result s with
      | (.value a, s') => runCallbacks rest (.ok a) s'
      | (.raised e, s') => runCallbacks rest (.error e) s'
      | (.deferred (some fired), s') => runCallbacks rest fired s'
      | (.deferred none, s') => ({ result := none, links := rest }, s')

/-- `addCallbacks`: the functions run at once when the result is there. -/
def addLink (chain : Chain κ ε α) (link : Link κ) (s : σ) : Chain κ ε α × σ :=
  match chain.result with
  | none => ({ chain with links := chain.links ++ [link] }, s)
  | some result => runCallbacks call (chain.links ++ [link]) result s

def resume (chain : Chain κ ε α) (fired : Except ε α) (s : σ) : Chain κ ε α × σ :=
  match chain.result with
  | none => runCallbacks call chain.links fired s
  | some _ => (chain, s)

/-- A function that is added after the others have run comes last. -/
theorem runCallbacks_concat (links : List (Link κ)) (link : Link κ) (result : Except ε α) (s : σ) :
    runCallbacks call (links ++ [link]) result s =
      addLink call (runCallbacks call links result s).1 link
        (runCallbacks call links result s).2 := by
  induction links generalizing result s with
  | nil => rfl
  | cons first links ih =>
    simp only [List.cons_append, runCallbacks]
    cases first.select result with
    | none => exact ih result s
    | some f =>
      obtain ⟨returned, s', came⟩ : ∃ returned s', call f result s = (returned, s') := ⟨_, _, rfl⟩
      simp only [came]
      cases returned with
      | value a => exact ih (.ok a) s'
      | raised e => exact ih (.error e) s'
      | deferred fired =>
        cases fired with
        | none => rfl
        | some fired => exact ih fired s'

end Run

end Deferred
