import Recsync.Cf.Requests

set_option autoImplicit false

/- The processor as a service: commits and the stop sweep behind the lock, each in a thread, and
the Deferreds that tie them to the reactor. -/
namespace Recsync.Cf

open Py (Error)

inductive Work where
  | commit (t : Transaction)
  | stop

/-- The Deferred `d` that `_commit_with_lock` returns. -/
inductive Wiring where
  /-- not called -/
  | pending
  /-- called by its canceller: it waits for the Deferred of the thread -/
  | chained
  deriving DecidableEq, Repr

/-- What holds the lock. -/
inductive Holder where
  | commit (d : Wiring)
  | stop
  deriving DecidableEq, Repr

/-- What the Deferred of a commit fires with. -/
inductive Fired where
  | success
  | cancelledError
  | alreadyCalledError
  deriving DecidableEq, Repr

/-- The result of a commit thread, and whether its Deferred was cancelled before it came. -/
structure Delivery where
  number : Nat
  result : Except Error Unit
  cancelled : Bool

/-- The processor, ChannelFinder, the lock and the threads. -/
structure Service extends World where
  /-- the number of the next Deferred -/
  next : Nat := 0
  holder : Option (Nat × Holder) := none
  waiting : List (Nat × Work) := []
  threads : List (Nat × Task) := []
  /-- a stop sweep has come to its end -/
  swept : Bool := false
  delivered : List Delivery := []
  fired : List (Nat × Fired) := []

namespace Service

inductive Event where
  /-- `commit` is called -/
  | commit (t : Transaction)
  /-- the Deferred of a commit is cancelled -/
  | cancel (number : Nat)
  /-- `stopService` is called -/
  | stop
  | proceed (number : Nat) (env : Env)
  | fails (number : Nat) (torn : List CFChannel → List CFChannel) (part : ∀ l, torn l ⊆ l)
      (tornNames : List String → List String) (partNames : ∀ l, tornNames l ⊆ l)
  /-- the reactor gets the result of a thread -/
  | deliver (number : Nat)

variable (client : ChannelFinderAdapter) (cfg : CFConfig) (setup : Setup)

def fire (s : Service) (number : Nat) (outcome : Fired) : Service :=
  { s with fired := s.fired ++ [(number, outcome)] }

def commitWithLock (s : Service) (number : Nat) (t : Transaction) : Service :=
  { s with
    proc := { s.proc with cancelled := false }
    holder := some (number, .commit .pending)
    threads := s.threads ++ [(number, .starting t)] }

/-- The first that waits gets the lock. Without `clean_on_stop`, `_stop_service_with_lock` returns
at once. -/
def grant (s : Service) : List (Nat × Work) → Service
  | [] => { s with holder := none, waiting := [] }
  | (number, .commit t) :: rest => { s with waiting := rest }.commitWithLock number t
  | (number, .stop) :: rest =>
    if cfg.cleanOnStop then
      { s with
        holder := some (number, .stop)
        waiting := rest
        threads := s.threads ++ [(number, .sweeping .querying 0)] }
    else grant s rest

/-- `DeferredLock.release`. -/
def release (s : Service) : Service := s.grant cfg s.waiting

/-- `DeferredLock.run`. -/
def run (s : Service) (work : Work) : Service :=
  let number := s.next
  let s := { s with next := number + 1 }
  match s.holder with
  | none => s.grant cfg ((number, work) :: s.waiting)
  | some _ => { s with waiting := s.waiting ++ [(number, work)] }

def isCommit (number : Nat) : Nat × Work → Bool
  | (n, .commit _) => n == number
  | (_, .stop) => false

/-- The Deferred that `commit` returned is cancelled. While it waits for the lock it is taken off
the queue. With the lock, the cancellation goes to `d`, and from `d`, once that is called, to the
Deferred of the thread: this has no canceller of its own, so it fires at once. -/
def cancel (s : Service) (number : Nat) : Service :=
  if s.waiting.any (isCommit number) then
    { s with waiting := s.waiting.filter fun w => !isCommit number w }.fire number .cancelledError
  else
    match s.holder with
    | some (holding, .commit .pending) =>
      if holding = number then
        { s with
          proc := { s.proc with cancelled := true }
          holder := some (number, .commit .chained) }
      else s
    | some (holding, .commit .chained) =>
      if holding = number then (s.fire number .cancelledError).release cfg else s
    | _ => s

/-- `chain_result` and `chain_error`, `wait_for_thread`, and the release of the lock. A result that
is there twice is an error; a result that nobody waits for is dropped. -/
def settle (s : Service) (number : Nat) (result : Except Error Unit) : Service :=
  match s.holder with
  | some (holding, .commit d) =>
    if holding = number then
      let s := { s with delivered :=
          s.delivered ++ [{ number, result, cancelled := decide (d = Wiring.chained) : Delivery }] }
      match s.proc.cancelled, d with
      | false, .pending => (s.fire number .success).release cfg
      | true, .chained => (s.fire number .cancelledError).release cfg
      | false, .chained => (s.fire number .alreadyCalledError).release cfg
      | true, .pending => s
    else s
  | some (holding, .stop) => if holding = number then s.release cfg else s
  | none => s

def taskOf (s : Service) (number : Nat) : Option Task :=
  (s.threads.find? fun th => th.1 == number).map Prod.snd

def setTask (s : Service) (number : Nat) (w : World) (task : Task) : Service :=
  { s with
    toWorld := w
    threads := s.threads.map fun th => if th.1 = number then (number, task) else th
    swept := s.swept || match task with | .sweeping .finished _ => true | _ => false }

def step (s : Service) : Event → Service
  | .commit t => s.run cfg (.commit t)
  | .stop => { s with proc := { s.proc with running := false } }.run cfg .stop
  | .cancel number => s.cancel cfg number
  | .proceed number env =>
    match s.taskOf number with
    | some task =>
      let (w, next) := task.proceed client cfg setup env s.toWorld
      s.setTask number w next
    | none => s
  | .fails number torn _ tornNames _ =>
    match s.taskOf number with
    | some task =>
      let (w, next) := task.fails cfg torn tornNames s.toWorld
      s.setTask number w next
    | none => s
  | .deliver number =>
    match (s.taskOf number).bind Task.result? with
    | some result =>
      { s with threads := s.threads.filter fun th => decide (th.1 ≠ number) }.settle cfg
        number result
    | none => s

def steps (s : Service) (events : List Event) : Service := events.foldl (step client cfg setup) s

end Service

end Recsync.Cf
