import Recsync.Db.Commits
import Recsync.Recast.Sources

set_option autoImplicit false

/- Any number of clients whose sessions commit through the database processor. -/
namespace Recsync.Db

open Recast (CollectionSession SessionCall SessionConfig Clock Outcome Transaction Sending Closing
  Sent goodbye inThread flushesAt)
open Recast.CollectionSession (handed)
open Tables

structure Client where
  session : CollectionSession
  /-- what the session was told -/
  calls : List SessionCall := []
  closed : Bool := false
  /-- the connection was lost before the session had flushed all that it was told -/
  dropped : Bool := false
  /-- how many of its transactions the database processor has committed -/
  executed : Nat := 0

/-- The transaction that was handed over and is not committed yet. -/
def Client.waiting (c : Client) : Option Transaction := (handed c.session.log)[c.executed]?

structure System where
  /-- the clients by the source id of their sessions -/
  clients : Nat → Option Client := fun _ => none
  proc : DBProcessor := {}
  /-- the first exception; the processor is removed with it -/
  failed : Option DbError := none

inductive Event where
  | opens (srcid : Nat) (host : String) (port : Nat)
  | call (srcid : Nat) (clock : Clock) (c : SessionCall)
  | close (srcid : Nat)
  /-- a thread runs `_commit` -/
  | execute (srcid : Nat)
  /-- the Deferred of the commit fires -/
  | fires (srcid : Nat) (outcome : Outcome)

def Event.srcid : Event → Nat
  | .opens srcid _ _ | .call srcid _ _ | .close srcid | .execute srcid | .fires srcid _ => srcid

namespace System

variable (limits : SessionConfig) (cfg : DbConfig)

def set (sys : System) (srcid : Nat) (c : Client) : System :=
  { sys with clients := Function.update sys.clients srcid (some c) }

def stepClient (sys : System) (srcid : Nat) (c : Client) : Event → System
  | .opens _ _ _ => sys
  | .call _ clock call =>
    if c.closed then sys
    else sys.set srcid { c with
      session := c.session.call limits inThread clock call
      calls := c.calls ++ [call] }
  | .close _ =>
    if c.closed then sys
    else sys.set srcid { c with
      session := c.session.close inThread
      closed := true
      dropped := c.session.dirty }
  | .execute _ =>
    match c.waiting, sys.failed with
    | some t, none =>
      match commit cfg t sys.proc with
      | (.ok _, proc) => { sys.set srcid { c with executed := c.executed + 1 } with proc }
      | (.error e, proc) =>
        { sys.set srcid { c with executed := c.executed + 1 } with proc, failed := some e }
    | _, _ => sys
  | .fires _ outcome =>
    -- the Deferred of the controller waits for all processors
    if c.waiting.isNone ∨ sys.failed.isSome then
      sys.set srcid { c with session := c.session.fire inThread outcome }
    else sys

def step (sys : System) (e : Event) : System :=
  match sys.clients e.srcid with
  | some c => sys.stepClient limits cfg e.srcid c e
  | none =>
    match e with
    | .opens srcid host port => sys.set srcid { session := CollectionSession.opened host port srcid }
    | _ => sys

def run (sys : System) (events : List Event) : System := events.foldl (step limits cfg) sys

theorem step_elsewhere (sys : System) {e : Event} {srcid : Nat} (other : srcid ≠ e.srcid) :
    (sys.step limits cfg e).clients srcid = sys.clients srcid := by
  have set (s : System) (c : Client) : (s.set e.srcid c).clients srcid = s.clients srcid :=
    Function.update_of_ne other _ _
  unfold step
  split
  · next c known =>
    cases e with
    | opens srcid host port => rfl
    | call srcid clock call =>
      simp only [stepClient]
      split
      · rfl
      · exact set sys _
    | close srcid =>
      simp only [stepClient]
      split
      · rfl
      · exact set sys _
    | execute srcid =>
      simp only [stepClient]
      split
      · split <;> exact set sys _
      · rfl
    | fires srcid outcome =>
      simp only [stepClient]
      split
      · exact set sys _
      · rfl
  · split
    · exact set sys _
    · rfl

theorem run_elsewhere (sys : System) {events : List Event} {srcid : Nat}
    (others : ∀ e ∈ events, srcid ≠ e.srcid) :
    (sys.run limits cfg events).clients srcid = sys.clients srcid := by
  induction events generalizing sys with
  | nil => rfl
  | cons e rest ih =>
    have later := ih (sys.step limits cfg e) fun d member => others d (List.mem_cons_of_mem _ member)
    exact later.trans (sys.step_elsewhere limits cfg (others e List.mem_cons_self))

end System

/-- What the rows say after the transactions. -/
def meaning (cfg : DbConfig) (ts : List Transaction) : View := ts.foldl (fun v t => v.commit cfg t) {}

theorem meaning_concat (cfg : DbConfig) (ts : List Transaction) (t : Transaction) :
    meaning cfg (ts ++ [t]) = (meaning cfg ts).commit cfg t := by
  simp [meaning]

/-- The connection is lost and all transactions are committed. -/
def Client.Finished (c : Client) : Prop :=
  c.closed = true ∧ c.executed = c.session.flushed.length

/-- When the step does not lead to an exception: a client comes from an endpoint that no client
uses which is not finished, a transaction that is flushed fits those flushed before it, and the
connection is lost after the first flush. -/
def Careful (limits : SessionConfig) (cfg : DbConfig) (sys : System) : Event → Prop
  | .opens srcid host port => ∀ other c, other ≠ srcid → sys.clients other = some c →
    c.session.host = host → c.session.port = port → c.Finished
  | .call srcid clock call => ∀ c, sys.clients srcid = some c → c.closed = false →
    flushesAt limits clock c.session call = true →
      (meaning cfg c.session.flushed).Fits cfg c.session.transaction
  | .close srcid => ∀ c, sys.clients srcid = some c → c.session.flushed ≠ []
  | _ => True

/-- The transaction fits those before it. -/
def Fitting (cfg : DbConfig) (done : List Transaction) (t : Transaction) : Prop :=
  (meaning cfg done).Fits cfg t

/-- A client whose session keeps to the order. -/
structure ClientOk (cfg : DbConfig) (srcid : Nat) (c : Client) : Prop where
  session : c.closed = false ∧
      Sending (Fitting cfg) c.session.host c.session.port srcid c.session ∨
    c.closed = true ∧ ∃ front, front ≠ [] ∧
      Closing (Fitting cfg) c.session.host c.session.port srcid front c.session
  executed : c.executed ≤ c.session.flushed.length

def Client.Listed (c : Client) : Prop := 0 < c.executed ∧ ¬ c.Finished

section Client

variable {cfg : DbConfig} {srcid : Nat} {c : Client}

theorem ClientOk.ordered (ok : ClientOk cfg srcid c) : c.session.Ordered := by
  rcases ok.session with ⟨-, sending⟩ | ⟨-, front, -, closing⟩
  · exact sending.ordered
  · exact closing.ordered

theorem ClientOk.taken (ok : ClientOk cfg srcid c) {t : Transaction} (waiting : c.waiting = some t) :
    c.executed < c.session.flushed.length ∧
      c.session.flushed = c.session.flushed.take c.executed ++
        t :: c.session.flushed.drop (c.executed + 1) := by
  obtain ⟨settled, state⟩ := ok.ordered
  obtain ⟨rest, split⟩ := state.handed_prefix
  obtain ⟨bound, here⟩ := List.getElem?_eq_some_iff.mp waiting
  have inside : c.executed < c.session.flushed.length := by
    rw [← split, List.length_append]
    exact Nat.lt_add_right _ bound
  have same : c.session.flushed[c.executed] = t := by
    rw [← here]
    simp only [← split]
    exact List.getElem_append_left bound
  refine ⟨inside, ?_⟩
  rw [← same, ← List.drop_eq_getElem_cons inside, List.take_append_drop]

/-- What a client hands over next: a transaction that fits, or the goodbye. -/
theorem ClientOk.next (ok : ClientOk cfg srcid c) {t : Transaction} (waiting : c.waiting = some t) :
    c.executed < c.session.flushed.length ∧
      c.session.flushed.take (c.executed + 1) = c.session.flushed.take c.executed ++ [t] ∧
      (Sent c.session.host c.session.port srcid (c.session.flushed.take c.executed) t ∧
          Fitting cfg (c.session.flushed.take c.executed) t ∧
          ¬ (c.closed = true ∧ c.executed + 1 = c.session.flushed.length) ∨
        t = goodbye c.session.host c.session.port srcid ∧ c.closed = true ∧
          c.executed + 1 = c.session.flushed.length ∧ 0 < c.executed) := by
  obtain ⟨inside, split⟩ := ok.taken waiting
  have taken : c.session.flushed.take (c.executed + 1) =
      c.session.flushed.take c.executed ++ [t] := by
    have length : (c.session.flushed.take c.executed).length = c.executed := by
      rw [List.length_take]
      omega
    have cut := congrArg (List.take (c.executed + 1)) split
    rw [List.take_append, length, List.take_take] at cut
    simpa using cut
  refine ⟨inside, taken, ?_⟩
  rcases ok.session with ⟨opened, sending⟩ | ⟨closed, front, begun, closing⟩
  · obtain ⟨sent, fitting⟩ := sending.flushed _ t _ split
    exact Or.inl ⟨sent, fitting, by simp [opened]⟩
  · have all := closing.flushed
    have total := congrArg List.length all
    simp only [List.length_append, List.length_cons, List.length_nil] at total
    by_cases last : c.executed + 1 = c.session.flushed.length
    · refine Or.inr ⟨?_, closed, last, ?_⟩
      · have ends := taken
        rw [last, List.take_length, all] at ends
        obtain ⟨-, same⟩ := List.append_inj' ends rfl
        simpa [eq_comm] using same
      · have positive : 0 < front.length := List.length_pos_iff.mpr begun
        omega
    · have early : c.executed < front.length := by omega
      have cut : front = c.session.flushed.take c.executed ++ t :: front.drop (c.executed + 1) := by
        have sameFront : front.take (c.executed + 1) = c.session.flushed.take (c.executed + 1) := by
          rw [all, List.take_append_of_le_length (by omega)]
        rw [taken] at sameFront
        have parts := List.take_append_drop (c.executed + 1) front
        rw [sameFront] at parts
        simpa using parts.symm
      obtain ⟨sent, fitting⟩ := closing.sent _ t _ cut
      exact Or.inl ⟨sent, fitting, fun both => last both.2⟩

end Client

end Recsync.Db
