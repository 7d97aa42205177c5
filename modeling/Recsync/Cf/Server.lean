import Mathlib.Data.List.Pairwise
import Recsync.Cf.SweepWrites
import Recsync.Recast.Sources

set_option autoImplicit false

/- Connections whose sessions commit through one processor. -/
namespace Recsync.Cf

open Recast (CollectionSession SessionCall SessionConfig Clock Sending Closing Sent Settled
    inThread)
open Recast.CollectionSession (handed)

structure Connection where
  session : CollectionSession
  closed : Bool := false

/-- The connections of a recceiver and its processor behind the lock. -/
structure Server where
  /-- the connections by the source id of their sessions -/
  connections : Nat → Option Connection := fun _ => none
  /-- the commits that have or wait for the lock, in the order in which they came -/
  queue : List Recast.Transaction := []
  /-- the commits that have run -/
  done : List Recast.Transaction := []
  world : World := {}

namespace Server

inductive Event where
  | opens (srcid : Nat) (host : String) (port : Nat)
  | call (srcid : Nat) (clock : Clock) (c : SessionCall)
  | close (srcid : Nat)
  /-- the commit that has the lock runs and ends -/
  | commit (env : Env)

/-- The session of a connection goes on, and what it hands over waits for the lock. -/
def advance (srv : Server) (srcid : Nat) (c c' : Connection) : Server :=
  { srv with
    connections := Function.update srv.connections srcid (some c')
    queue := srv.queue ++ (handed c'.session.log).drop (handed c.session.log).length }

/-- The commit runs, every request of it succeeds, and its Deferred fires: an exception is logged
and does not reach the session. -/
def runCommit (client : ChannelFinderAdapter) (cfg : CFConfig) (setup : Setup) (env : Env)
    (t : Recast.Transaction) (rest : List Recast.Transaction) (srv : Server) : Server :=
  let srv := { srv with
    queue := rest
    done := srv.done ++ [t]
    world := client.commitStep cfg setup srv.world { env, transaction := t.toTransaction } }
  match srv.connections t.srcid with
  | some c => srv.advance t.srcid c { c with session := c.session.fire inThread (.ok ()) }
  | none => srv

def step (client : ChannelFinderAdapter) (limits : SessionConfig) (cfg : CFConfig) (setup : Setup)
    (srv : Server) : Event → Server
  | .opens srcid host port =>
    match srv.connections srcid with
    | some _ => srv
    | none =>
      { srv with
        connections := Function.update srv.connections srcid
          (some { session := CollectionSession.opened host port srcid }) }
  | .call srcid clock call =>
    match srv.connections srcid with
    | some c =>
      if c.closed then srv
      else srv.advance srcid c { c with session := c.session.call limits inThread clock call }
    | none => srv
  | .close srcid =>
    match srv.connections srcid with
    | some c =>
      if c.closed then srv
      else srv.advance srcid c { session := c.session.close inThread, closed := true }
    | none => srv
  | .commit env =>
    match srv.queue with
    | [] => srv
    | t :: rest => srv.runCommit client cfg setup env t rest

def run (client : ChannelFinderAdapter) (limits : SessionConfig) (cfg : CFConfig) (setup : Setup)
    (srv : Server) (events : List Event) : Server :=
  events.foldl (step client limits cfg setup) srv

/-- The connection is lost and all its commits have come to the lock. -/
def Gone (srv : Server) (srcid : Nat) : Prop :=
  ∃ c, srv.connections srcid = some c ∧ c.closed = true ∧ handed c.session.log = c.session.flushed

/-- Of two commits with the same iocid and from different connections, the connection of the
first one is gone. -/
def Yields (srv : Server) (a b : Recast.Transaction) : Prop :=
  a.iocid = b.iocid → a.srcid ≠ b.srcid → srv.Gone a.srcid

/-- The session of a connection and the commits of it that have run. -/
structure Holds (done : List Recast.Transaction) (srcid : Nat) (c : Connection) : Prop where
  session : c.closed = false ∧
      Sending (fun _ _ => True) c.session.host c.session.port srcid c.session ∨
    c.closed = true ∧ ∃ front,
      Closing (fun _ _ => True) c.session.host c.session.port srcid front c.session
  settled : ∃ settled, Settled settled c.session ∧
    settled.map Prod.fst = done.filter fun t => decide (t.srcid = srcid)

/-- The commits come to the lock in the order of their sessions, and a session with the iocid of
an earlier one comes only when that one is gone. -/
structure InOrder (srv : Server) : Prop where
  known : ∀ t ∈ srv.done ++ srv.queue, (srv.connections t.srcid).isSome
  log : ∀ srcid c, srv.connections srcid = some c →
    (srv.done ++ srv.queue).filter (fun t => decide (t.srcid = srcid)) = handed c.session.log
  apart : (srv.done ++ srv.queue).Pairwise srv.Yields

section Source

variable {done : List Recast.Transaction} {srcid : Nat} {c : Connection}

theorem Holds.ordered (holds : Holds done srcid c) : c.session.Ordered := by
  obtain ⟨settled, state, -⟩ := holds.settled
  exact state.ordered

theorem Holds.handed_flushed (holds : Holds done srcid c) :
    handed c.session.log <+: c.session.flushed := by
  obtain ⟨settled, state, -⟩ := holds.settled
  exact Recast.CollectionSession.ChainState.handed_prefix state

theorem Holds.source (holds : Holds done srcid c) {t : Recast.Transaction}
    (member : t ∈ c.session.flushed) :
    t.srcid = srcid ∧ t.iocid = iocidOf c.session.host c.session.port := by
  have sent {l : List Recast.Transaction} (all : Runs.EveryStep (fun done t =>
      Sent c.session.host c.session.port srcid done t ∧ True) l) (inside : t ∈ l) :
      t.srcid = srcid ∧ t.iocid = iocidOf c.session.host c.session.port := by
    obtain ⟨before, after, split⟩ := List.append_of_mem inside
    obtain ⟨here, -⟩ := all before t after split
    exact ⟨here.srcid, by rw [Transaction.iocid, here.host, here.port]⟩
  rcases holds.session with ⟨-, sending⟩ | ⟨-, front, closing⟩
  · exact sent sending.flushed member
  · rw [closing.flushed, List.mem_append, List.mem_singleton] at member
    rcases member with inside | rfl
    · exact sent closing.sent inside
    · exact ⟨rfl, rfl⟩

/-- The first of what a session flushes comes to the lock at once. -/
theorem Holds.flushed_nil (holds : Holds done srcid c) (nothing : handed c.session.log = []) :
    c.session.flushed = [] := by
  obtain ⟨settled, state, -⟩ := holds.settled
  rcases state.handed_cases with ⟨all, flushed⟩ | ⟨-, t, queue, all, -⟩
  · rw [flushed, ← all, nothing]
  · simp [all] at nothing

end Source

section Advance

variable {srv : Server} {srcid : Nat} {c c' : Connection}

theorem advance_elsewhere {other : Nat} (different : other ≠ srcid) :
    (srv.advance srcid c c').connections other = srv.connections other :=
  Function.update_of_ne different _ _

theorem advance_here : (srv.advance srcid c c').connections srcid = some c' :=
  Function.update_self _ _ _

/-- A connection that is gone stays so. -/
theorem Gone.advance
    (own : srv.Gone srcid → c'.closed = true ∧ handed c'.session.log = c'.session.flushed)
    {other : Nat} (gone : srv.Gone other) : (srv.advance srcid c c').Gone other := by
  by_cases here : other = srcid
  · subst here
    exact ⟨c', advance_here, own gone⟩
  · obtain ⟨d, there, closed, all⟩ := gone
    exact ⟨d, (advance_elsewhere here).trans there, closed, all⟩

theorem InOrder.advance (inv : srv.InOrder) (known : srv.connections srcid = some c)
    (grown : handed c.session.log <+: handed c'.session.log)
    (source : ∀ t ∈ handed c'.session.log, t.srcid = srcid)
    (own : srv.Gone srcid → c'.closed = true ∧ handed c'.session.log = c'.session.flushed)
    (clear : ∀ t ∈ (handed c'.session.log).drop
      (handed c.session.log).length,
      ∀ a ∈ srv.done ++ srv.queue, srv.Yields a t) :
    (srv.advance srcid c c').InOrder := by
  obtain ⟨new, split⟩ := grown
  have dropped : (handed c'.session.log).drop
      (handed c.session.log).length = new := by
    rw [← split, List.drop_left]
  rw [dropped] at clear
  have ownNew : ∀ t ∈ new, t.srcid = srcid := by
    intro t member
    exact source t (split ▸ List.mem_append_right _ member)
  have log : (srv.advance srcid c c').done ++ (srv.advance srcid c c').queue =
      (srv.done ++ srv.queue) ++ new := by
    simp only [Server.advance, dropped, List.append_assoc]
  refine ⟨?_, ?_, ?_⟩
  · intro t member
    rw [log, List.mem_append] at member
    by_cases here : t.srcid = srcid
    · rw [here, advance_here]
      rfl
    · rcases member with old | last
      · rw [advance_elsewhere here]
        exact inv.known t old
      · exact absurd (ownNew t last) here
  · intro other d there
    rw [log, List.filter_append]
    by_cases here : other = srcid
    · subst here
      obtain rfl : c' = d := Option.some.inj (advance_here.symm.trans there)
      have all : new.filter (fun t => decide (t.srcid = other)) = new := by
        rw [List.filter_eq_self]
        intro t member
        simpa using ownNew t member
      rw [inv.log other c known, all, split]
    · have none : new.filter (fun t => decide (t.srcid = other)) = [] := by
        rw [List.filter_eq_nil_iff]
        intro t member same
        exact here ((of_decide_eq_true same).symm.trans (ownNew t member))
      rw [none, List.append_nil]
      exact inv.log other d ((advance_elsewhere here).symm.trans there)
  · rw [log, List.pairwise_append]
    refine ⟨?_, ?_, ?_⟩
    · apply inv.apart.imp
      intro a b free iocid different
      exact Gone.advance own (free iocid different)
    · apply List.pairwise_of_forall_mem_list
      intro a first b second _ different
      exact absurd ((ownNew a first).trans (ownNew b second).symm) different
    · intro a old b last iocid different
      exact Gone.advance own (clear b last a old iocid different)

/-- A session that has handed something over and is not gone finds only gone ones before it. -/
theorem InOrder.clear (inv : srv.InOrder) (known : srv.connections srcid = some c)
    (begun : handed c.session.log ≠ []) (here : ¬ srv.Gone srcid)
    {iocid : String}
    (own : ∀ t ∈ handed c.session.log, t.iocid = iocid)
    {a : Recast.Transaction} (member : a ∈ srv.done ++ srv.queue) (same : a.iocid = iocid)
    (different : a.srcid ≠ srcid) : srv.Gone a.srcid := by
  obtain ⟨e, handed⟩ := List.exists_mem_of_ne_nil _ begun
  have listed := handed
  rw [← inv.log srcid c known, List.mem_filter] at listed
  obtain ⟨inside, source⟩ := listed
  have source : e.srcid = srcid := of_decide_eq_true source
  have apart : a ≠ e := by
    rintro rfl
    exact different source
  have both : (srv.done ++ srv.queue).Pairwise fun a b => srv.Yields a b ∨ srv.Yields b a :=
    inv.apart.imp Or.inl
  have symmetric : Std.Symm fun a b => srv.Yields a b ∨ srv.Yields b a := ⟨fun _ _ => Or.symm⟩
  rcases both.forall member inside apart with before | after
  · exact before (same.trans (own e handed).symm) (source ▸ different)
  · refine absurd ?_ here
    rw [← source]
    exact after ((own e handed).trans same.symm) (source ▸ different.symm)

end Advance

/-- What holds of the connections and the lock. -/
structure Serial (srv : Server) : Prop where
  order : srv.InOrder
  holds : ∀ srcid c, srv.connections srcid = some c → Holds srv.done srcid c

/-- The other connections with the iocid of this one have handed nothing over, or are gone. -/
def Clear (srv : Server) (srcid : Nat) (c : Connection) : Prop :=
  ∀ other d, other ≠ srcid → srv.connections other = some d →
    iocidOf d.session.host d.session.port = iocidOf c.session.host c.session.port →
    handed d.session.log ≠ [] → srv.Gone other

namespace Serial

variable {srv : Server} {srcid : Nat} {c c' : Connection}

theorem start (w : World) : Serial { world := w } :=
  ⟨⟨by simp, by simp, by simp⟩, by simp⟩

theorem opens (serial : srv.Serial) (absent : srv.connections srcid = none) (host : String)
    (port : Nat) : Serial { srv with
      connections := Function.update srv.connections srcid
        (some { session := CollectionSession.opened host port srcid }) } := by
  have others {t : Recast.Transaction} (member : t ∈ srv.done ++ srv.queue) : t.srcid ≠ srcid := by
    intro same
    have known := serial.order.known t member
    rw [same, absent] at known
    cases known
  have nothing : (srv.done ++ srv.queue).filter (fun t => decide (t.srcid = srcid)) = [] := by
    rw [List.filter_eq_nil_iff]
    intro t member same
    exact others member (of_decide_eq_true same)
  have self : Function.update srv.connections srcid
      (some { session := CollectionSession.opened host port srcid }) srcid =
        some { session := CollectionSession.opened host port srcid } := Function.update_self _ _ _
  refine ⟨⟨?_, ?_, ?_⟩, ?_⟩
  · intro t member
    dsimp only
    rw [Function.update_of_ne (others member)]
    exact serial.order.known t member
  · intro other d there
    by_cases here : other = srcid
    · subst here
      obtain rfl := Option.some.inj (self.symm.trans there)
      exact nothing
    · exact serial.order.log other d ((Function.update_of_ne here _ _).symm.trans there)
  · apply serial.order.apart.imp_of_mem
    rintro a b first - yields iocid different
    obtain ⟨d, there, gone⟩ := yields iocid different
    exact ⟨d, (Function.update_of_ne (others first) _ _).trans there, gone⟩
  · intro other d there
    by_cases here : other = srcid
    · subst here
      obtain rfl := Option.some.inj (self.symm.trans there)
      refine ⟨Or.inl ⟨rfl, Recast.sending_opened _ host port other⟩, [], .idle rfl, ?_⟩
      have fewer := (List.filter_append ..).symm.trans nothing
      exact (List.append_eq_nil_iff.mp fewer).1.symm
    · exact serial.holds other d ((Function.update_of_ne here _ _).symm.trans there)

theorem advance (serial : srv.Serial) (known : srv.connections srcid = some c)
    (opened : c.closed = false) (session : Holds srv.done srcid c')
    (sameHost : c'.session.host = c.session.host) (samePort : c'.session.port = c.session.port)
    (grown : handed c.session.log <+: handed c'.session.log)
    (clear : c.session.flushed = [] → c'.session.flushed ≠ [] → srv.Clear srcid c) :
    (srv.advance srcid c c').Serial := by
  have holds := serial.holds srcid c known
  have here : ¬ srv.Gone srcid := by
    rintro ⟨d, there, closed, -⟩
    obtain rfl : c = d := Option.some.inj (known.symm.trans there)
    rw [opened] at closed
    cases closed
  have source {t : Recast.Transaction} (member : t ∈ handed c'.session.log) :
      t.srcid = srcid ∧ t.iocid = iocidOf c.session.host c.session.port := by
    rw [← sameHost, ← samePort]
    exact session.source (session.handed_flushed.subset member)
  refine ⟨serial.order.advance known grown (fun t member => (source member).1)
    (fun gone => absurd gone here) ?_, ?_⟩
  · intro t new a member iocid different
    obtain ⟨own, ownIocid⟩ := source (List.mem_of_mem_drop new)
    rw [own] at different
    rw [ownIocid] at iocid
    by_cases begun : handed c.session.log = []
    · -- the first transaction of the session
      have flushed : c'.session.flushed ≠ [] := by
        intro none
        have inside := session.handed_flushed.subset (List.mem_of_mem_drop new)
        simp [none] at inside
      obtain ⟨d, there⟩ := Option.isSome_iff_exists.mp (serial.order.known a member)
      have listed : a ∈ handed d.session.log := by
        rw [← serial.order.log a.srcid d there, List.mem_filter]
        exact ⟨member, by simp⟩
      have other := (serial.holds a.srcid d there).source
        ((serial.holds a.srcid d there).handed_flushed.subset listed)
      exact clear (holds.flushed_nil begun) flushed a.srcid d different there
        (other.2.symm.trans iocid) (List.ne_nil_of_mem listed)
    · exact serial.order.clear known begun here
        (fun t member => (holds.source (holds.handed_flushed.subset member)).2) member iocid
          different
  · intro other d there
    by_cases same : other = srcid
    · subst same
      obtain rfl : c' = d := Option.some.inj (advance_here.symm.trans there)
      exact session
    · exact serial.holds other d ((advance_elsewhere same).symm.trans there)

theorem call (serial : srv.Serial) (known : srv.connections srcid = some c)
    (opened : c.closed = false) (limits : SessionConfig) (clock : Clock) (call : SessionCall)
    (clear : Recast.flushesAt limits clock c.session call = true → c.session.flushed = [] →
      srv.Clear srcid c) :
    (srv.advance srcid c
      { c with session := c.session.call limits inThread clock call }).Serial := by
  have holds := serial.holds srcid c known
  have sending : Sending (fun _ _ => True) c.session.host c.session.port srcid c.session := by
    simpa [opened] using holds.session
  have next := sending.call limits inThread clock call fun _ => trivial
  obtain ⟨host, port, -⟩ := next.source
  obtain ⟨settled, state, done⟩ := holds.settled
  have session : Holds srv.done srcid
      { c with session := c.session.call limits inThread clock call } :=
    ⟨Or.inl ⟨opened, by rwa [host, port]⟩, settled, state.call limits clock call, done⟩
  apply serial.advance known opened session host port
  · have more : Settled (settled ++ []) (c.session.call limits inThread clock call) := by
      rw [List.append_nil]
      exact state.call limits clock call
    exact state.handed_grows more (Recast.call_flushed limits inThread clock c.session call)
  · intro none some
    refine clear ?_ none
    rcases Recast.call_cases limits inThread clock c.session call with
      ⟨calls, collects⟩ | ⟨flushes, -⟩
    · exact absurd (collects.flushed.trans none) some
    · exact flushes

theorem close (serial : srv.Serial) (known : srv.connections srcid = some c)
    (opened : c.closed = false) (clear : c.session.flushed = [] → srv.Clear srcid c) :
    (srv.advance srcid c { session := c.session.close inThread, closed := true }).Serial := by
  have holds := serial.holds srcid c known
  have sending : Sending (fun _ _ => True) c.session.host c.session.port srcid c.session := by
    simpa [opened] using holds.session
  have next := sending.close inThread
  obtain ⟨host, port, -⟩ := next.source
  obtain ⟨settled, state, done⟩ := holds.settled
  have session : Holds srv.done srcid { session := c.session.close inThread, closed := true } :=
    ⟨Or.inr ⟨rfl, _, by rwa [host, port]⟩, settled, state.close, done⟩
  apply serial.advance known opened session host port
  · have more : Settled (settled ++ []) (c.session.close inThread) := by
      rw [List.append_nil]
      exact state.close
    exact state.handed_grows more ⟨_,
      (Recast.CollectionSession.close_flushed inThread c.session).symm⟩
  · exact fun none _ => clear none

theorem same_iocid (serial : srv.Serial) {a b : Recast.Transaction}
    (first : a ∈ srv.done ++ srv.queue) (second : b ∈ srv.done ++ srv.queue)
    (same : a.srcid = b.srcid) : a.iocid = b.iocid := by
  obtain ⟨c, known⟩ := Option.isSome_iff_exists.mp (serial.order.known a first)
  have holds := serial.holds a.srcid c known
  have own {t : Recast.Transaction} (member : t ∈ srv.done ++ srv.queue)
      (source : t.srcid = a.srcid) : t.iocid = iocidOf c.session.host c.session.port := by
    have listed : t ∈ handed c.session.log := by
      rw [← serial.order.log a.srcid c known, List.mem_filter]
      exact ⟨member, by simpa using source⟩
    exact (holds.source (holds.handed_flushed.subset listed)).2
  exact (own first rfl).trans (own second same.symm).symm

theorem next (serial : srv.Serial) {t : Recast.Transaction} {rest : List Recast.Transaction}
    (queue : srv.queue = t :: rest) :
    ∃ c settled behind, srv.connections t.srcid = some c ∧ Settled settled c.session ∧
      settled.map Prod.fst = srv.done.filter (fun u => decide (u.srcid = t.srcid)) ∧
      c.session.commitChain.result = none ∧
      handed c.session.log = settled.map Prod.fst ++ [t] ∧
      c.session.flushed = settled.map Prod.fst ++ t :: behind := by
  obtain ⟨c, known⟩ := Option.isSome_iff_exists.mp (serial.order.known t (by simp [queue]))
  obtain ⟨settled, state, done⟩ := (serial.holds t.srcid c known).settled
  have log := serial.order.log t.srcid c known
  rw [queue, List.filter_append, ← done, List.filter_cons, if_pos (by simp)] at log
  refine ⟨c, settled, ?_⟩
  rcases state.handed_cases with ⟨all, -⟩ | ⟨running, u, behind, all, flushed⟩
  · simp [all] at log
  · rw [all, List.append_cancel_left_eq] at log
    obtain ⟨rfl, -⟩ := List.cons.inj log
    exact ⟨behind, known, state, done, running, all, flushed⟩

/-- It is a transaction of a connected client, or the goodbye of a connection that is gone. -/
theorem next_cases (serial : srv.Serial) {t : Recast.Transaction} {rest : List Recast.Transaction}
    (queue : srv.queue = t :: rest) :
    (∃ host port, Sent host port t.srcid (srv.done.filter fun u => decide (u.srcid = t.srcid)) t) ∧
        ¬ srv.Gone t.srcid ∨
      (∃ host port, t = Recast.goodbye host port t.srcid) ∧ srv.Gone t.srcid := by
  obtain ⟨c, settled, behind, known, -, done, -, all, flushed⟩ := serial.next queue
  have only (closed : ¬ (c.closed = true ∧ handed c.session.log = c.session.flushed)) :
      ¬ srv.Gone t.srcid := by
    rintro ⟨d, there, gone⟩
    obtain rfl : c = d := Option.some.inj (known.symm.trans there)
    exact closed gone
  rcases (serial.holds t.srcid c known).session with ⟨opened, sending⟩ | ⟨closed, front, closing⟩
  · obtain ⟨sent, -⟩ := sending.flushed _ t _ flushed
    exact Or.inl ⟨⟨_, _, done ▸ sent⟩, only (by simp [opened])⟩
  · rw [closing.flushed] at flushed
    rcases List.eq_nil_or_concat behind with rfl | ⟨between, last, rfl⟩
    · obtain ⟨-, same⟩ := List.append_inj' flushed rfl
      refine Or.inr ⟨⟨_, _, (List.cons.inj same).1.symm⟩, c, known, closed, ?_⟩
      rw [all, closing.flushed, flushed]
    · have cut : front ++ [Recast.goodbye c.session.host c.session.port t.srcid] =
          (settled.map Prod.fst ++ t :: between) ++ [last] := by simpa using flushed
      obtain ⟨earlier, -⟩ := List.append_inj' cut rfl
      obtain ⟨sent, -⟩ := closing.sent _ t _ earlier
      refine Or.inl ⟨⟨_, _, done ▸ sent⟩, only ?_⟩
      rintro ⟨-, every⟩
      rw [all, closing.flushed, flushed, List.append_cancel_left_eq] at every
      simp at every

/-- The Deferred of the commit that has the lock fires. -/
theorem fire (serial : srv.Serial) {t : Recast.Transaction} {rest : List Recast.Transaction}
    (queue : srv.queue = t :: rest) (known : srv.connections t.srcid = some c) :
    Holds (srv.done ++ [t]) t.srcid { c with session := c.session.fire inThread (.ok ()) } ∧
      handed c.session.log ≠ [] ∧
      handed c.session.log <+: handed (c.session.fire inThread (.ok ())).log := by
  obtain ⟨d, settled, behind, there, state, done, running, all, flushed⟩ := serial.next queue
  obtain rfl : c = d := Option.some.inj (known.symm.trans there)
  have after := state.fire running all (.ok ())
  have kept := Recast.fire_collects inThread c.session (.ok ())
  refine ⟨⟨?_, settled ++ [(t, .ok ())], after, ?_⟩, by simp [all], ?_⟩
  · dsimp only
    rw [kept.source.1, kept.source.2.1]
    rcases (serial.holds t.srcid c known).session with ⟨opened, sending⟩ | ⟨closed, front, closing⟩
    · exact Or.inl ⟨opened, sending.fire inThread _⟩
    · exact Or.inr ⟨closed, front, closing.fire inThread _⟩
  · rw [List.map_append, done, List.filter_append]
    simp
  · apply state.handed_grows after
    exact List.prefix_iff_eq_take.mpr (by simp [Recast.CollectionSession.fire_flushed])

/-- Where the connection of the commit was gone, it is so still. -/
theorem fire_gone (serial : srv.Serial) {t : Recast.Transaction} {rest : List Recast.Transaction}
    (queue : srv.queue = t :: rest) (known : srv.connections t.srcid = some c)
    (gone : srv.Gone t.srcid) : c.closed = true ∧
      handed (c.session.fire inThread (.ok ())).log =
        (c.session.fire inThread (.ok ())).flushed := by
  obtain ⟨after, -, grown⟩ := serial.fire queue known
  obtain ⟨d, there, closed, every⟩ := gone
  obtain rfl : c = d := Option.some.inj (known.symm.trans there)
  refine ⟨closed, after.handed_flushed.eq_of_length_le ?_⟩
  dsimp only
  rw [Recast.CollectionSession.fire_flushed, ← every]
  exact grown.length_le

end Serial

/-- The commit that has the lock ends, and its session has not heard of it. -/
def committed (client : ChannelFinderAdapter) (cfg : CFConfig) (setup : Setup) (env : Env)
    (t : Recast.Transaction) (rest : List Recast.Transaction) (srv : Server) : Server :=
  { srv with
    queue := rest
    done := srv.done ++ [t]
    world := client.commitStep cfg setup srv.world { env, transaction := t.toTransaction } }

theorem runCommit_eq (client : ChannelFinderAdapter) (cfg : CFConfig) (setup : Setup) (env : Env)
    {t : Recast.Transaction} (rest : List Recast.Transaction) {srv : Server} {c : Connection}
    (known : srv.connections t.srcid = some c) :
    srv.runCommit client cfg setup env t rest = (srv.committed client cfg setup env t rest).advance
      t.srcid c { c with session := c.session.fire inThread (.ok ()) } := by
  simp only [Server.runCommit, committed, known]

namespace Serial

variable {srv : Server} {srcid : Nat} {c c' : Connection}

theorem runCommit (serial : srv.Serial) (client : ChannelFinderAdapter) (cfg : CFConfig)
    (setup : Setup) (env : Env)
    {t : Recast.Transaction} {rest : List Recast.Transaction} (queue : srv.queue = t :: rest) :
    (srv.runCommit client cfg setup env t rest).Serial := by
  obtain ⟨c, known⟩ := Option.isSome_iff_exists.mp (serial.order.known t (by simp [queue]))
  obtain ⟨next, begun, grown⟩ := serial.fire queue known
  have holds := serial.holds t.srcid c known
  have log : (srv.committed client cfg setup env t rest).done ++
    (srv.committed client cfg setup env t rest).queue =
      srv.done ++ srv.queue := by simp [committed, queue]
  have order : (srv.committed client cfg setup env t rest).InOrder :=
    ⟨log ▸ serial.order.known, log ▸ serial.order.log, log ▸ serial.order.apart⟩
  rw [runCommit_eq client cfg setup env rest known]
  refine ⟨order.advance known grown
    (fun u member => (next.source (next.handed_flushed.subset member)).1)
    (serial.fire_gone queue known) ?_, ?_⟩
  · intro u new a member iocid different
    have here : ¬ (srv.committed client cfg setup env t rest).Gone t.srcid := by
      intro gone
      have every := (serial.fire_gone queue known gone).2
      obtain ⟨d, there, -, complete⟩ := gone
      obtain rfl : c = d := Option.some.inj (known.symm.trans there)
      rw [every, Recast.CollectionSession.fire_flushed, ← complete, List.drop_length] at new
      cases new
    obtain ⟨own, ownIocid⟩ := next.source (next.handed_flushed.subset (List.mem_of_mem_drop new))
    have kept := Recast.fire_collects inThread c.session (.ok ())
    rw [kept.source.1, kept.source.2.1] at ownIocid
    exact order.clear known begun here
      (fun u member => (holds.source (holds.handed_flushed.subset member)).2) member
      (iocid.trans ownIocid) (own ▸ different)
  · intro other d there
    by_cases here : other = t.srcid
    · subst here
      obtain rfl := Option.some.inj (advance_here.symm.trans there)
      exact next
    · have before : srv.connections other = some d := by
        rw [advance_elsewhere here] at there
        exact there
      have old := serial.holds other d before
      refine ⟨old.session, ?_⟩
      obtain ⟨settled, state, done⟩ := old.settled
      refine ⟨settled, state, done.trans ?_⟩
      have elsewhere : ¬ t.srcid = other := fun same => here same.symm
      simp [Server.advance, committed, elsewhere]

end Serial

end Server

end Recsync.Cf
