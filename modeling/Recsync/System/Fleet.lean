import Recsync.Cf.Agreement
import Recsync.Cf.Server
import Recsync.Recast.Interrupted
import Recsync.System.Database
import Recsync.System.InStep

set_option autoImplicit false

/- Any number of clients that upload their databases to one server. -/
namespace Recsync.System

open Cf Recast Protocol
open Recast.CollectionSession (handed)

/-- A client with its database, and what is around its connection. -/
structure Site where
  host : String
  port : Nat
  serverKey : Nat
  chance : Chance := {}
  database : Database
  small : port < 2 ^ 16
  range : ∀ n, chance.randint n < 2 ^ 32
  passes : ∀ n, chance.timePasses n = true

namespace Site

variable (x : Site)

def iocid : String := iocidOf x.host x.port

def env (limits : SessionConfig) (srcid : Nat) : Surroundings where
  chance := x.chance
  host := x.host
  port := x.port
  cfg := limits
  srcid _ := srcid
  factory _ := inThread

theorem env_normal (limits : SessionConfig) (srcid : Nat) : Normal (x.env limits srcid) :=
  ⟨x.range, x.passes⟩

def upload : Recast.Upload := x.database.upload

def letters : List Letter := x.database.letters

end Site

/-- A connection without its session, which belongs to the server. -/
structure Wire where
  keepalive : Keepalive := {}
  phase : ClientPhase := .connected
  todo : List Frame
  /-- `connectionLost` was called -/
  lost : Bool := false

namespace Wire

def link (w : Wire) (c : Option Cf.Connection) : Link where
  keepalive := w.keepalive
  phase := w.phase
  todo := w.todo
  sessions := (c.map Cf.Connection.session).toList

def after (w : Wire) (s : Link) : Wire :=
  { w with keepalive := s.keepalive, phase := s.phase, todo := s.todo }

end Wire

/-- The connections of the clients and the server with their sessions. -/
structure Fleet where
  wires : Nat → Wire
  server : Server

inductive FleetEvent where
  | sends (client : Nat)
  | reads (client : Nat)
  | arrives (client : Nat) (clock : Clock)
  | expires (client : Nat)
  /-- the connection is lost -/
  | drops (client : Nat)
  /-- the commit that has the lock runs and ends -/
  | commits (env : Env)

def serverEvent (x : Site) (i : Nat) (clock : Clock) : Effect → Option Server.Event
  | .addClient => some (.opens i x.host x.port)
  | .session 0 call => some (.call i clock call)
  | _ => none

namespace Fleet

variable (queries : ChannelFinderAdapter) (limits : SessionConfig) (cfg : CFConfig) (setup : Setup)
  (sites : Nat → Site)

def link (f : Fleet) (i : Nat) : Link := (f.wires i).link (f.server.connections i)

/-- Every client is connected, and has sent nothing. -/
def start (w : World) : Fleet where
  wires i := { todo := (script (sites i).letters).map (Item.frame (sites i).serverKey) }
  server := { world := w }

/-- A step on the connection of a client. -/
def onLink (f : Fleet) (i : Nat) (clock : Clock) (e : LinkEvent) : Fleet :=
  if (f.wires i).lost then f
  else
    let s := (f.link i).step ((sites i).env limits i) e
    let news := s.keepalive.server.effects.drop (f.wires i).keepalive.server.effects.length
    { wires := Function.update f.wires i ((f.wires i).after s)
      server := (news.filterMap (serverEvent (sites i) i clock)).foldl
        (Server.step queries limits cfg setup) f.server }

def step (f : Fleet) : FleetEvent → Fleet
  | .sends i => f.onLink queries limits cfg setup sites i {} .send
  | .reads i => f.onLink queries limits cfg setup sites i {} .read
  | .arrives i clock => f.onLink queries limits cfg setup sites i clock (.arrive clock)
  | .expires i => f.onLink queries limits cfg setup sites i {} .expire
  | .drops i =>
    if (f.wires i).lost then f
    else
      { wires := Function.update f.wires i { f.wires i with lost := true }
        server := f.server.step queries limits cfg setup (.close i) }
  | .commits env => { f with server := f.server.step queries limits cfg setup (.commit env) }

def run (f : Fleet) (events : List FleetEvent) : Fleet :=
  events.foldl (step queries limits cfg setup sites) f

end Fleet

section Effects

variable {queries : ChannelFinderAdapter} {limits : SessionConfig} {cfg : CFConfig} {setup : Setup}
  {x : Site} {i : Nat}
  {srv srv' : Server}

/-- The session was made by `addClient` for the client. -/
def Owned (x : Site) (i : Nat) (s : CollectionSession) : Prop :=
  s.host = x.host ∧ s.port = x.port ∧ s.srcid = i

/-- The server is ready for what the receiver of an open connection does. -/
structure Attends (x : Site) (i : Nat) (srv : Server) : Prop where
  serial : srv.Serial
  opened : ∀ c, srv.connections i = some c → c.closed = false ∧ Owned x i c.session
  alone : ∀ j c, j ≠ i → srv.connections j = some c →
    iocidOf c.session.host c.session.port ≠ x.iocid

/-- Only the connection of the client changes. -/
structure Apart (i : Nat) (srv srv' : Server) : Prop where
  others : ∀ j, j ≠ i → srv'.connections j = srv.connections j
  world : srv'.world = srv.world
  done : srv'.done = srv.done

theorem Apart.refl (i : Nat) (srv : Server) : Apart i srv srv := ⟨fun _ _ => rfl, rfl, rfl⟩

theorem Apart.trans {srv'' : Server} (first : Apart i srv srv') (second : Apart i srv' srv'') :
    Apart i srv srv'' where
  others j other := (second.others j other).trans (first.others j other)
  world := second.world.trans first.world
  done := second.done.trans first.done

theorem Attends.clear (ready : Attends x i srv) {c : Cf.Connection}
    (known : srv.connections i = some c) : srv.Clear i c := by
  intro j d other there same
  obtain ⟨-, host, port, -⟩ := ready.opened c known
  rw [host, port] at same
  exact absurd same (ready.alone j d other there)

theorem Attends.alone_apart (ready : Attends x i srv) (others : Apart i srv srv') :
    ∀ j c, j ≠ i → srv'.connections j = some c →
      iocidOf c.session.host c.session.port ≠ x.iocid := by
  intro j c other there
  rw [others.others j other] at there
  exact ready.alone j c other there

theorem Owned.congr {s s' : CollectionSession} (owned : Owned x i s)
    (same : s'.host = s.host ∧ s'.port = s.port ∧ s'.srcid = s.srcid) : Owned x i s' :=
  ⟨same.1.trans owned.1, same.2.1.trans owned.2.1, same.2.2.trans owned.2.2⟩

theorem Owned.call {s : CollectionSession} (owned : Owned x i s) (limits : SessionConfig)
    (clock : Clock) (call : SessionCall) : Owned x i (s.call limits inThread clock call) := by
  rcases call_cases limits inThread clock s call with ⟨calls, collects⟩ | ⟨-, calls, flushes,
    collects⟩
  · exact owned.congr collects.source
  · exact (owned.congr flushes.source).congr collects.source

variable (queries cfg setup) in
/-- The first greeting of the client. -/
theorem Attends.opens (ready : Attends x i srv) (absent : srv.connections i = none) :
    let srv' := srv.step queries limits cfg setup (.opens i x.host x.port)
    Attends x i srv' ∧ Apart i srv srv' ∧
      srv'.connections i = some { session := .opened x.host x.port i } := by
  intro srv'
  have next : srv' = { srv with
      connections := Function.update srv.connections i
        (some { session := .opened x.host x.port i }) } := by
    simp only [srv', Server.step, absent]
  have here : srv'.connections i = some { session := .opened x.host x.port i } := by
    rw [next]
    exact Function.update_self ..
  have others : Apart i srv srv' := by
    rw [next]
    exact ⟨fun j other => Function.update_of_ne other .., rfl, rfl⟩
  refine ⟨⟨?_, ?_, ready.alone_apart others⟩, others, here⟩
  · rw [next]
    exact ready.serial.opens absent x.host x.port
  · intro c there
    obtain rfl := Option.some.inj (here.symm.trans there)
    exact ⟨rfl, rfl, rfl, rfl⟩

variable (queries cfg setup) in
theorem Attends.calls (ready : Attends x i srv) {c : Cf.Connection}
    (known : srv.connections i = some c) (clock : Clock) (call : SessionCall) :
    let srv' := srv.step queries limits cfg setup (.call i clock call)
    Attends x i srv' ∧ Apart i srv srv' ∧
      srv'.connections i =
        some { c with session := c.session.call limits inThread clock call } := by
  intro srv'
  obtain ⟨opened, owned⟩ := ready.opened c known
  have next : srv' = srv.advance i c
      { c with session := c.session.call limits inThread clock call } := by
    simp only [srv', Server.step, known, opened, Bool.false_eq_true, if_false]
  have here : srv'.connections i =
      some { c with session := c.session.call limits inThread clock call } := by
    rw [next]
    exact Server.advance_here
  have others : Apart i srv srv' := by
    rw [next]
    exact ⟨fun j other => Server.advance_elsewhere other, rfl, rfl⟩
  refine ⟨⟨?_, ?_, ready.alone_apart others⟩, others, here⟩
  · rw [next]
    exact ready.serial.call known opened limits clock call fun _ _ => ready.clear known
  · intro d there
    obtain rfl := Option.some.inj (here.symm.trans there)
    exact ⟨opened, owned.call limits clock call⟩

def sessionOf (srv : Server) (i : Nat) : List CollectionSession :=
  ((srv.connections i).map Cf.Connection.session).toList

theorem sessionOf_of_none (absent : srv.connections i = none) : sessionOf srv i = [] := by
  rw [sessionOf, absent]
  rfl

theorem sessionOf_of_some {c : Cf.Connection} (known : srv.connections i = some c) :
    sessionOf srv i = [c.session] := by
  rw [sessionOf, known]
  rfl

theorem apply_length (env : Surroundings) (clock : Clock) (sessions : List CollectionSession)
    (e : Effect) : sessions.length ≤ (Recast.Connection.apply env clock sessions e).length := by
  cases e <;> simp [Recast.Connection.apply]

theorem foldl_apply_length (env : Surroundings) (clock : Clock) (news : List Effect)
    (sessions : List CollectionSession) :
    sessions.length ≤ (news.foldl (Recast.Connection.apply env clock) sessions).length := by
  induction news generalizing sessions with
  | nil => exact Nat.le_refl _
  | cons e rest ih => exact Nat.le_trans (apply_length env clock sessions e) (ih _)

/-- The server does what an effect of the receiver says, as long as one session is enough. -/
theorem Attends.effect (ready : Attends x i srv) (clock : Clock) (e : Effect)
    (one : (Recast.Connection.apply (x.env limits i) clock (sessionOf srv i) e).length ≤ 1) :
    let srv' := (serverEvent x i clock e).elim srv (srv.step queries limits cfg setup)
    Attends x i srv' ∧ Apart i srv srv' ∧
      sessionOf srv' i = Recast.Connection.apply (x.env limits i) clock (sessionOf srv i) e := by
  intro srv'
  have idle (none : serverEvent x i clock e = none) : srv' = srv :=
    by simp only [srv', none, Option.elim]
  cases known : srv.connections i with
  | none =>
    have nothing := sessionOf_of_none known
    cases e with
    | addClient =>
      obtain ⟨next, others, here⟩ := @Attends.opens queries limits cfg setup x i srv ready known
      exact ⟨next, others, by rw [nothing]; exact sessionOf_of_some here⟩
    | session number call =>
      have same : srv' = srv := by
        cases number with
        | zero => simp only [srv', serverEvent, Option.elim, Server.step, known]
        | succ n => exact idle rfl
      rw [same, nothing]
      exact ⟨ready, .refl i srv, by simp [Recast.Connection.apply]⟩
    | _ =>
      rw [idle rfl]
      exact ⟨ready, .refl i srv, rfl⟩
  | some c =>
    have single := sessionOf_of_some known
    cases e with
    | addClient =>
      rw [single] at one
      simp [Recast.Connection.apply] at one
    | session number call =>
      cases number with
      | zero =>
        obtain ⟨next, others, here⟩ :=
          @Attends.calls queries limits cfg setup x i srv ready c known clock call
        exact ⟨next, others, by rw [single]; exact sessionOf_of_some here⟩
      | succ n =>
        rw [idle rfl, single]
        exact ⟨ready, .refl i srv, by simp [Recast.Connection.apply]⟩
    | _ =>
      rw [idle rfl]
      exact ⟨ready, .refl i srv, rfl⟩

theorem Attends.effects (ready : Attends x i srv) (clock : Clock) (news : List Effect)
    (one : (news.foldl (Recast.Connection.apply (x.env limits i) clock)
    (sessionOf srv i)).length ≤ 1) :
    let srv' := (news.filterMap (serverEvent x i clock)).foldl
      (Server.step queries limits cfg setup) srv
    Attends x i srv' ∧ Apart i srv srv' ∧
      sessionOf srv' i =
        news.foldl (Recast.Connection.apply (x.env limits i) clock) (sessionOf srv i) := by
  induction news generalizing srv with
  | nil => exact ⟨ready, .refl i srv, rfl⟩
  | cons e rest ih =>
    rw [List.foldl_cons] at one
    obtain ⟨next, others, sessions⟩ :=
      @Attends.effect queries limits cfg setup x i srv ready clock e
      (Nat.le_trans (foldl_apply_length _ clock rest _) one)
    rw [← sessions] at one
    obtain ⟨last, later, all⟩ := ih next one
    rw [sessions] at all
    have step : ((e :: rest).filterMap (serverEvent x i clock)).foldl
        (Server.step queries limits cfg setup) srv = (rest.filterMap (serverEvent x i clock)).foldl
          (Server.step queries limits cfg setup)
          ((serverEvent x i clock e).elim srv (srv.step queries limits cfg setup)) := by
      rw [List.filterMap_cons]
      cases serverEvent x i clock e <;> rfl
    rw [step]
    exact ⟨last, others.trans later, all⟩

end Effects

/-- The timer makes the receiver send a ping, or close the connection. -/
theorem expire_effects (chance : Chance) (k : Keepalive) :
    ∃ pings : List Nat,
      (k.step chance .expire).server.effects = k.server.effects ++ pings.map .ping := by
  by_cases armed : k.armed = true
  · by_cases waiting : k.server.phase = 2
    · refine ⟨[], ?_⟩
      simp only [Keepalive.step, if_pos armed, CastReceiver.writePing_missed chance waiting]
      exact (List.append_nil _).symm
    · refine ⟨[chance.randint k.server.effects.length], ?_⟩
      simp only [Keepalive.step, if_pos armed, CastReceiver.writePing_idle chance waiting]
      rfl
  · refine ⟨[], ?_⟩
    simp only [Keepalive.step, if_neg armed]
    exact (List.append_nil _).symm

theorem foldl_apply_pings (env : Surroundings) (clock : Clock) (pings : List Nat)
    (sessions : List CollectionSession) :
    (pings.map Effect.ping).foldl (Recast.Connection.apply env clock) sessions = sessions := by
  induction pings with
  | nil => rfl
  | cons n rest ih => exact ih

theorem step_sessions (env : Surroundings) (clock : Clock) (s : Link) {e : LinkEvent}
    (own : e = .send ∨ e = .read ∨ e = .expire ∨ e = .arrive clock) :
    (s.step env e).sessions = ((s.step env e).keepalive.server.effects.drop
      s.keepalive.server.effects.length).foldl (Recast.Connection.apply env clock) s.sessions := by
  have quiet (client : e = .send ∨ e = .read) : (s.step env e).sessions =
      ((s.step env e).keepalive.server.effects.drop
        s.keepalive.server.effects.length).foldl (Recast.Connection.apply env clock)
          s.sessions := by
    obtain ⟨server, sessions⟩ := Good.step_client env s client
    rw [server, sessions, List.drop_length]
    rfl
  rcases own with send | read | rfl | rfl
  · exact quiet (Or.inl send)
  · exact quiet (Or.inr read)
  · obtain ⟨pings, effects⟩ := expire_effects env.chance s.keepalive
    show s.sessions = ((s.keepalive.step env.chance .expire).server.effects.drop _).foldl _ _
    rw [effects, List.drop_left, foldl_apply_pings]
  · rfl

/-- What holds of the connection of a client and of its session. -/
structure Tended (limits : SessionConfig) (x : Site) (i : Nat) (w : Wire)
    (c : Option Cf.Connection) : Prop where
  good : w.lost = false → Good (x.env limits i) x.serverKey x.letters (w.link c)
  known : ∀ k, c = some k → k.closed = w.lost ∧ Owned x i k.session
  flushed : ∀ k, c = some k → w.lost = true → ∃ groups, x.upload.Begun groups ∧
    k.session.flushed = groupTransactions x.host x.port i x.upload.clientInfos groups ++
      [goodbye x.host x.port i]

section Client

variable {limits : SessionConfig} {x : Site} {i : Nat} {w : Wire} {c : Option Cf.Connection}

theorem Tended.begun (tended : Tended limits x i w c) (opened : w.lost = false) {k : Cf.Connection}
    (here : c = some k) : ∃ groups, x.upload.Begun groups ∧
      (Good.Delivered (w.link c) → x.upload.Cut groups) ∧
      k.session.flushed = groupTransactions x.host x.port i x.upload.clientInfos groups := by
  have good := tended.good opened
  have upload : (script x.letters).flatMap Item.calls = x.upload.calls := by
    rw [script_calls, Site.letters, x.database.letters_calls]
    rfl
  have session : (w.link c).sessions = [k.session] := by rw [here]; rfl
  -- the calls that the session got are those of the messages that have arrived
  have served (arrived : List Item) (part : arrived <+: script x.letters)
      (served : Served (x.env limits i) arrived (w.link c).keepalive.server (w.link c).sessions) :
      ∃ events, .close ∉ events ∧ received events = arrived.flatMap Item.calls ∧
        k.session = (CollectionSession.opened x.host x.port i).run limits inThread events := by
    cases arrived with
    | nil =>
      rw [served.2.2] at session
      cases session
    | cons first before =>
      obtain ⟨-, events, unclosed, calls, sessions⟩ := served
      refine ⟨events, unclosed, ?_, ?_⟩
      · have greeting : first = .greeting := by
          obtain ⟨rest, split⟩ := part
          exact (List.cons.inj split).1
        rw [greeting]
        exact calls
      · rw [session] at sessions
        exact (List.cons.inj sessions).1
  by_cases delivered : Good.Delivered (w.link c)
  · obtain ⟨events, unclosed, calls, same⟩ :=
      served _ (List.prefix_refl _) (good.flow_delivered delivered).1
    obtain ⟨groups, cut, flushed⟩ := upload_cut limits inThread unclosed (calls.trans upload)
    exact ⟨groups, cut.begun, fun _ => cut, by rw [same]; exact flushed⟩
  · obtain ⟨arrived, inFlight, later, answers, flow⟩ := good.flow
    have part : arrived <+: script x.letters := flow.split ▸ List.prefix_append _ _
    obtain ⟨events, unclosed, calls, same⟩ := served arrived part flow.served
    have asked : received events <+: x.upload.calls := by
      rw [calls, ← upload, flow.split, List.flatMap_append]
      exact List.prefix_append _ _
    obtain ⟨groups, begun, -, flushed⟩ := interrupted_cut limits inThread unclosed asked
    exact ⟨groups, begun, fun all => absurd all delivered, by rw [same]; exact flushed⟩

theorem Tended.drops (tended : Tended limits x i w c) (opened : w.lost = false) :
    Tended limits x i { w with lost := true }
      (c.map fun k => { session := k.session.close inThread, closed := true }) where
  good := by simp
  known := by
    intro k here
    obtain ⟨before, there, rfl⟩ := Option.map_eq_some_iff.mp here
    exact ⟨rfl, (tended.known before there).2.congr (close_source inThread before.session)⟩
  flushed := by
    intro k here _
    obtain ⟨before, there, rfl⟩ := Option.map_eq_some_iff.mp here
    obtain ⟨groups, begun, -, flushed⟩ := tended.begun opened there
    obtain ⟨-, host, port, srcid⟩ := tended.known before there
    refine ⟨groups, begun, ?_⟩
    rw [CollectionSession.close_flushed, flushed, host, port, srcid]
    rfl

theorem Tended.fires {k : Cf.Connection} (tended : Tended limits x i w (some k)) :
    Tended limits x i w (some { k with session := k.session.fire inThread (.ok ()) }) where
  good opened := by
    have good := tended.good opened
    obtain ⟨arrived, inFlight, later, answers, flow⟩ := good.flow
    refine ⟨good.valid, good.unfailed, good.accepted, good.greeting, arrived, inFlight, later,
      answers, ?_⟩
    have served := flow.served.fire 0 (.ok ())
    exact { flow with served := served }
  known := by
    intro l here
    obtain rfl := Option.some.inj here
    obtain ⟨closed, owned⟩ := tended.known k rfl
    exact ⟨closed, owned.congr (fire_collects inThread k.session (.ok ())).source⟩
  flushed := by
    intro l here lost
    obtain rfl := Option.some.inj here
    rw [CollectionSession.fire_flushed]
    exact tended.flushed k rfl lost

end Client

namespace Fleet

/-- The invariant of a run. -/
structure Kept (limits : SessionConfig) (sites : Nat → Site) (f : Fleet) : Prop where
  serial : f.server.Serial
  tended : ∀ i, Tended limits (sites i) i (f.wires i) (f.server.connections i)

namespace Kept

variable {queries : ChannelFinderAdapter} {limits : SessionConfig} {cfg : CFConfig} {setup : Setup}
  {sites : Nat → Site} {f : Fleet}

theorem start (w : World) : Kept limits sites (.start sites w) where
  serial := .start w
  tended i :=
    { good := fun _ => Good.start ((sites i).env_normal limits i) (sites i).serverKey _
      known := by
        intro k here
        cases here
      flushed := by
        intro k here
        cases here }

/-- No two clients have the same address. -/
theorem attends (apart : Function.Injective fun i => (sites i).iocid) (kept : Kept limits sites f)
    {i : Nat} (opened : (f.wires i).lost = false) : Attends (sites i) i f.server where
  serial := kept.serial
  opened c there := by
    obtain ⟨closed, owned⟩ := (kept.tended i).known c there
    exact ⟨closed.trans opened, owned⟩
  alone j c other there same := by
    obtain ⟨-, host, port, -⟩ := (kept.tended j).known c there
    rw [host, port] at same
    exact other (apart same)

theorem onLink (apart : Function.Injective fun i => (sites i).iocid) (kept : Kept limits sites f)
    (i : Nat) (clock : Clock) {e : LinkEvent}
    (own : e = .send ∨ e = .read ∨ e = .expire ∨ e = .arrive clock) :
    let f' := f.onLink queries limits cfg setup sites i clock e
    Kept limits sites f' ∧ f'.server.world = f.server.world ∧ f'.server.done = f.server.done := by
  intro f'
  by_cases lost : (f.wires i).lost = true
  · have same : f' = f := if_pos lost
    rw [same]
    exact ⟨kept, rfl, rfl⟩
  have next := show f' = _ from if_neg lost
  rw [Bool.not_eq_true] at lost
  have good := ((kept.tended i).good lost).step ((sites i).env_normal limits i) e
  have sessions := step_sessions ((sites i).env limits i) clock (f.link i) own
  obtain ⟨ready, others, all⟩ := @Attends.effects queries limits cfg setup (sites i) i f.server
    (kept.attends apart lost) clock _ (sessions ▸ good.sessions_length)
  have link : ((f.wires i).after ((f.link i).step ((sites i).env limits i) e)).link
      (f'.server.connections i) = (f.link i).step ((sites i).env limits i) e := by
    rw [next]
    refine (congrArg (fun sessions => { (f.link i).step ((sites i).env limits i) e with sessions })
      (all.trans sessions.symm)).trans rfl
  rw [next] at link ⊢
  refine ⟨⟨ready.serial, ?_⟩, others.world, others.done⟩
  intro j
  by_cases here : j = i
  · subst here
    dsimp only at link ⊢
    rw [Function.update_self]
    refine ⟨fun _ => by rw [link]; exact good, ?_, ?_⟩
    · intro k there
      obtain ⟨closed, owned⟩ := ready.opened k there
      exact ⟨closed.trans lost.symm, owned⟩
    · intro k there gone
      exact absurd (lost.symm.trans gone) Bool.false_ne_true
  · dsimp only
    rw [Function.update_of_ne here]
    exact Eq.mp (congrArg (Tended limits (sites j) j (f.wires j)) (others.others j here).symm)
      (kept.tended j)

theorem drops (apart : Function.Injective fun i => (sites i).iocid) (kept : Kept limits sites f)
    {i : Nat} (opened : (f.wires i).lost = false) :
    let f' : Fleet :=
      { wires := Function.update f.wires i { f.wires i with lost := true }
        server := f.server.step queries limits cfg setup (.close i) }
    Kept limits sites f' ∧ f'.server.world = f.server.world ∧ f'.server.done = f.server.done := by
  have ready := kept.attends apart opened
  have closed : f.server.step queries limits cfg setup (.close i) =
      (f.server.connections i).elim f.server fun c =>
        f.server.advance i c { session := c.session.close inThread, closed := true } := by
    simp only [Server.step]
    cases known : f.server.connections i with
    | none => rfl
    | some c => simp only [(ready.opened c known).1, Bool.false_eq_true, if_false, Option.elim]
  have here : (f.server.step queries limits cfg setup (.close i)).connections i =
      (f.server.connections i).map fun c =>
        { session := c.session.close inThread, closed := true } := by
    rw [closed]
    cases known : f.server.connections i with
    | none => exact known
    | some c => exact Server.advance_here
  have others (j : Nat) (other : j ≠ i) :
      (f.server.step queries limits cfg setup (.close i)).connections j =
        f.server.connections j := by
    rw [closed]
    cases f.server.connections i with
    | none => rfl
    | some c => exact Server.advance_elsewhere other
  refine ⟨⟨?_, ?_⟩, ?_⟩
  · show (f.server.step queries limits cfg setup (.close i)).Serial
    rw [closed]
    cases known : f.server.connections i with
    | none => exact kept.serial
    | some c =>
      exact kept.serial.close known (ready.opened c known).1 fun _ => ready.clear known
  · intro j
    dsimp only
    by_cases same : j = i
    · subst same
      rw [Function.update_self, here]
      exact (kept.tended j).drops opened
    · rw [Function.update_of_ne same, others j same]
      exact kept.tended j
  · dsimp only
    rw [closed]
    cases f.server.connections i <;> exact ⟨rfl, rfl⟩

theorem commits (kept : Kept limits sites f) (env : Env) {t : Recast.Transaction}
    {rest : List Recast.Transaction} (queue : f.server.queue = t :: rest) :
    let f' : Fleet := { f with server := f.server.runCommit queries cfg setup env t rest }
    Kept limits sites f' ∧ f'.server.done = f.server.done ++ [t] ∧ f'.server.world =
      queries.commitStep cfg setup f.server.world { env, transaction := t.toTransaction } := by
  obtain ⟨c, known⟩ := Option.isSome_iff_exists.mp (kept.serial.order.known t (by simp [queue]))
  have next := Server.runCommit_eq queries cfg setup env rest known
  refine ⟨⟨kept.serial.runCommit queries cfg setup env queue, ?_⟩, ?_⟩
  · intro j
    dsimp only
    rw [next]
    by_cases same : j = t.srcid
    · subst same
      rw [Server.advance_here]
      have before := kept.tended t.srcid
      rw [known] at before
      exact before.fires
    · rw [Server.advance_elsewhere same]
      exact kept.tended j
  · dsimp only
    rw [next]
    exact ⟨rfl, rfl⟩

/-- A step leaves the world alone, or commits one transaction. -/
theorem step (apart : Function.Injective fun i => (sites i).iocid) (kept : Kept limits sites f)
    (e : FleetEvent) :
    let f' := f.step queries limits cfg setup sites e
    Kept limits sites f' ∧
      (f'.server.world = f.server.world ∧ f'.server.done = f.server.done ∨
        ∃ t env, f'.server.done = f.server.done ++ [t] ∧ f'.server.world =
          queries.commitStep cfg setup f.server.world { env, transaction := t.toTransaction }) := by
  cases e with
  | sends i =>
    obtain ⟨next, same⟩ := kept.onLink apart i {} (Or.inl rfl)
    exact ⟨next, Or.inl same⟩
  | reads i =>
    obtain ⟨next, same⟩ := kept.onLink apart i {} (Or.inr (Or.inl rfl))
    exact ⟨next, Or.inl same⟩
  | arrives i clock =>
    obtain ⟨next, same⟩ := kept.onLink apart i clock (Or.inr (Or.inr (Or.inr rfl)))
    exact ⟨next, Or.inl same⟩
  | expires i =>
    obtain ⟨next, same⟩ := kept.onLink apart i {} (Or.inr (Or.inr (Or.inl rfl)))
    exact ⟨next, Or.inl same⟩
  | drops i =>
    simp only [Fleet.step]
    split
    · exact ⟨kept, Or.inl ⟨rfl, rfl⟩⟩
    · next opened =>
      obtain ⟨next, same⟩ := kept.drops apart (by simpa using opened)
      exact ⟨next, Or.inl same⟩
  | commits env =>
    simp only [Fleet.step, Server.step]
    split
    · exact ⟨kept, Or.inl ⟨rfl, rfl⟩⟩
    · next t rest queue =>
      obtain ⟨next, same⟩ := kept.commits env queue
      exact ⟨next, Or.inr ⟨t, env, same⟩⟩

theorem run (apart : Function.Injective fun i => (sites i).iocid) (w : World)
    (events : List FleetEvent) :
    let f := (Fleet.start sites w).run queries limits cfg setup sites events
    Kept limits sites f ∧ ∃ done : List Commit, (∀ c ∈ done, c.faults = []) ∧
      done.map Commit.transaction = f.server.done.map (fun t => t.toTransaction) ∧
      f.server.world = queries.runCommits cfg setup w done := by
  induction events using List.reverseRecOn with
  | nil => exact ⟨start w, [], by simp, rfl, rfl⟩
  | append_singleton events e ih =>
    obtain ⟨kept, done, calm, transactions, world⟩ := ih
    rw [Fleet.run, List.foldl_concat]
    obtain ⟨next, same | ⟨t, env, more, now⟩⟩ := kept.step apart e
    · exact ⟨next, done, calm, by rw [transactions]; exact congrArg _ same.2.symm,
        by rw [← world]; exact same.1⟩
    · refine ⟨next, done ++ [{ env, transaction := t.toTransaction }], ?_, ?_, ?_⟩
      · intro c member
        rcases List.mem_append.mp member with old | new
        · exact calm c old
        · rw [List.mem_singleton.mp new]
      · rw [List.map_append, transactions]
        exact ((congrArg _ more).trans List.map_append).symm
      · rw [runCommits_append, ← world]
        exact now

end Kept

end Fleet

end Recsync.System
