import Recsync.Db.Mirrors
import Recsync.Db.Uploads
import Recsync.System.Directory

set_option autoImplicit false

/- Any number of clients whose databases a server keeps in its tables. -/
namespace Recsync.System

open Recast Protocol CastReceiver
open Db (keyed lastInfo)
open Runs (EveryStep)

section Tables

variable (d : Database)

/-- The last value that the upload gives to an info of the client. -/
def envIn (ioc : Client.Ioc) (key : String) : Option String :=
  lastInfo ((uploadInfos ioc).map fun info => (text info.1, text info.2)) key

/-- What the tables say about a record. -/
def rowOf (ioc : Client.Ioc) (record : Client.DbRecordType × Client.DbRecordNode) :
    Db.RecordView where
  rtype := .text (text (ioc.pdbbase.deref record.2.precord).rdes)
  names := (.text (text (ioc.pdbbase.deref record.2.precord).name), true) ::
    (aliasesIn record.1 record.2).map fun name => (.text (text name), false)
  infos := keyed (tagIn ioc record)

/-- What the tables say about a database: its records by their ids. -/
def tablesOf : Db.View where
  infos := keyed (envIn d.ioc)
  records id :=
    if d.firstId ≤ id then (d.records[id - d.firstId]?).map (rowOf d.ioc) else none

theorem uploadRecords_get (ioc : Client.Ioc) (recordId k : Nat)
    (records : List (Client.DbRecordType × Client.DbRecordNode)) :
    (uploadRecords ioc recordId records)[k]? =
      (records[k]?).map (uploadRecord ioc (recordId + k)) := by
  induction records generalizing recordId k with
  | nil => rfl
  | cons record rest ih =>
    cases k with
    | zero => rfl
    | succ k =>
      rw [uploadRecords, List.getElem?_cons_succ, List.getElem?_cons_succ, ih, Nat.add_right_comm]
      rfl

/-- The messages of an upload say what is in the database. -/
theorem history_upload : Db.history d.upload.calls = tablesOf d := by
  apply Db.View.ext
  · exact Db.history_infos
  · funext id
    have ids : d.upload.records.map UploadRecord.recordId =
      List.range' d.firstId d.records.length :=
      uploadRecords_ids d.ioc d.firstId d.records
    show _ = if d.firstId ≤ id then (d.records[id - d.firstId]?).map (rowOf d.ioc) else none
    by_cases inside : d.firstId ≤ id ∧ id < d.firstId + d.records.length
    · have short : id - d.firstId < d.records.length := by omega
      have here : d.upload.records[id - d.firstId]? =
          some (uploadRecord d.ioc id d.records[id - d.firstId]) := by
        have sum : d.firstId + (id - d.firstId) = id := by omega
        have got := uploadRecords_get d.ioc d.firstId (id - d.firstId) d.records
        rw [List.getElem?_eq_getElem short, sum] at got
        exact got
      have member := List.mem_of_getElem? here
      rw [if_pos inside.1, List.getElem?_eq_getElem short]
      refine (Db.history_record member).trans ?_
      rw [uploadRecord_aliases, List.map_map, funext (uploadRecord_info d.ioc id _)]
      rfl
    · have absent : id ∉ d.upload.records.map UploadRecord.recordId := by
        rw [ids, List.mem_range'_1]
        exact inside
      rw [Db.history_noRecord absent]
      split
      · have long : d.records.length ≤ id - d.firstId := by omega
        rw [List.getElem?_eq_none long]
        rfl
      · rfl

end Tables

def connectionOf (c : Db.Client) : Cf.Connection := { session := c.session, closed := c.closed }

/-- The connections of the clients, and the server with its sessions and its tables. -/
structure Archive where
  wires : Nat → Wire
  server : Db.System

inductive ArchiveEvent where
  | sends (client : Nat)
  | reads (client : Nat)
  | arrives (client : Nat) (clock : Clock)
  | expires (client : Nat)
  /-- the connection is lost -/
  | drops (client : Nat)
  /-- a thread runs `_commit` for the client -/
  | executes (client : Nat)
  /-- the Deferred of the commit fires -/
  | fires (client : Nat) (outcome : Outcome)

def dbEvent (x : Site) (i : Nat) (clock : Clock) : Effect → Option Db.Event
  | .addClient => some (.opens i x.host x.port)
  | .session 0 call => some (.call i clock call)
  | _ => none

namespace Archive

variable (limits : SessionConfig) (cfg : Db.DbConfig) (sites : Nat → Site)

def connection (a : Archive) (i : Nat) : Option Cf.Connection :=
    (a.server.clients i).map connectionOf

def link (a : Archive) (i : Nat) : Link := (a.wires i).link (a.connection i)

/-- Every client is connected, and has sent nothing. -/
def start (db : Db.Database) : Archive where
  wires i := { todo := (script (sites i).letters).map (Item.frame (sites i).serverKey) }
  server := { proc := { db } }

/-- A step on the connection of a client. -/
def onLink (a : Archive) (i : Nat) (clock : Clock) (e : LinkEvent) : Archive :=
  if (a.wires i).lost then a
  else
    let s := (a.link i).step ((sites i).env limits i) e
    let news := s.keepalive.server.effects.drop (a.wires i).keepalive.server.effects.length
    { wires := Function.update a.wires i ((a.wires i).after s)
      server := (news.filterMap (dbEvent (sites i) i clock)).foldl (Db.System.step limits cfg)
        a.server }

def step (a : Archive) : ArchiveEvent → Archive
  | .sends i => a.onLink limits cfg sites i {} .send
  | .reads i => a.onLink limits cfg sites i {} .read
  | .arrives i clock => a.onLink limits cfg sites i clock (.arrive clock)
  | .expires i => a.onLink limits cfg sites i {} .expire
  | .drops i =>
    if (a.wires i).lost then a
    else
      { wires := Function.update a.wires i { a.wires i with lost := true }
        server := a.server.step limits cfg (.close i) }
  | .executes i => { a with server := a.server.step limits cfg (.execute i) }
  | .fires i outcome =>
    let server := a.server.step limits cfg (.fires i outcome)
    let sessions := ((server.clients i).map Db.Client.session).toList
    { wires := Function.update a.wires i ((a.wires i).after ((a.link i).withSessions sessions))
      server }

def run (a : Archive) (events : List ArchiveEvent) : Archive :=
    events.foldl (step limits cfg sites) a

end Archive

section Effects

/-- The effects open a session, or are calls of the one that is there. -/
def Told (r : CastReceiver) (news : List Effect) : Prop :=
  news = [.addClient] ∨ ∀ e ∈ news, e.Within r.sess

variable {env : Surroundings} {serverKey : Nat} {letters : List Letter} {s : Link}

theorem good_session (good : Good env serverKey letters s) :
    s.keepalive.server.sess = none ∧ s.sessions = [] ∨
      s.keepalive.server.sess = some 0 ∧ ∃ session, s.sessions = [session] := by
  obtain ⟨arrived, inFlight, later, answers, flow⟩ := good.flow
  have served := flow.served
  cases arrived with
  | nil => exact Or.inl ⟨served.1, served.2.2⟩
  | cons first before =>
    obtain ⟨sess, events, -, -, sessions⟩ := served
    exact Or.inr ⟨sess, _, sessions⟩

theorem told_same {r r' : CastReceiver} (same : r'.effects = r.effects) :
    ∃ news, r'.effects = r.effects ++ news ∧ Told r news :=
  ⟨[], by rw [same, List.append_nil], Or.inr fun e member => absurd member List.not_mem_nil⟩

theorem told_frame (chance : Chance) (r : CastReceiver) (f : Frame) :
    ∃ news, (afterFrame chance r f).2.effects = r.effects ++ news ∧ Told r news := by
  rcases afterFrame_keeps chance r f with ⟨-, opens⟩ | ⟨-, keeps⟩
  · exact ⟨[.addClient], opens.effects, Or.inl rfl⟩
  · obtain ⟨more, effects, within⟩ := keeps.effects
    exact ⟨more, effects, Or.inr within⟩

/-- The next header or body arrives. -/
theorem told_arrive (good : Good env serverKey letters s) :
    ∃ news, (s.keepalive.step env.chance .arrive).server.effects =
      s.keepalive.server.effects ++ news ∧ Told s.keepalive.server news := by
  by_cases alive : s.keepalive.server.alive = true
  · rw [show s.keepalive.step env.chance .arrive = s.keepalive.arrive env.chance from if_pos alive]
    cases queue : s.keepalive.toServer with
    | nil =>
      apply told_same
      simp only [Keepalive.arrive, queue]
    | cons f rest =>
      rcases good.valid.parsing alive with header | ⟨f', rest', queue', expected⟩
      · apply told_same
        rw [Keepalive.arrive_header queue header]
      · rw [Keepalive.arrive_body queue' expected]
        exact told_frame env.chance s.keepalive.server f'
  · apply told_same
    rw [show s.keepalive.step env.chance .arrive = s.keepalive from if_neg alive]

theorem told_step (good : Good env serverKey letters s) {clock : Clock} {e : LinkEvent}
    (own : e = .send ∨ e = .read ∨ e = .expire ∨ e = .arrive clock) :
    ∃ news, (s.step env e).keepalive.server.effects = s.keepalive.server.effects ++ news ∧
      Told s.keepalive.server news := by
  rcases own with send | read | rfl | rfl
  · exact told_same (by rw [(Good.step_client env s (Or.inl send)).1])
  · exact told_same (by rw [(Good.step_client env s (Or.inr read)).1])
  · obtain ⟨pings, effects⟩ := expire_effects env.chance s.keepalive
    refine ⟨_, effects, Or.inr ?_⟩
    intro e member
    obtain ⟨nonce, -, rfl⟩ := List.mem_map.mp member
    exact ⟨by simp, by simp⟩
  · exact told_arrive good

end Effects

section Server

variable {limits : SessionConfig} {cfg : Db.DbConfig} {x : Site} {i : Nat} {srv srv' : Db.System}

/-- Only the client changes, and none of the tables. -/
structure Beside (i : Nat) (srv srv' : Db.System) : Prop where
  others : ∀ j, j ≠ i → srv'.clients j = srv.clients j
  proc : srv'.proc = srv.proc

theorem Beside.refl (i : Nat) (srv : Db.System) : Beside i srv srv := ⟨fun _ _ => rfl, rfl⟩

def callsHeard (srv : Db.System) (i : Nat) : List SessionCall :=
    ((srv.clients i).map Db.Client.calls).getD []

theorem step_opens (absent : srv.clients i = none) :
    let srv' := srv.step limits cfg (.opens i x.host x.port)
    srv'.clients i = some { session := .opened x.host x.port i } ∧ Beside i srv srv' := by
  intro srv'
  have next : srv' = srv.set i { session := .opened x.host x.port i } := by
    show srv.step limits cfg _ = _
    simp only [Db.System.step, Db.Event.srcid, absent]
  rw [next]
  exact ⟨Function.update_self .., fun j other => Function.update_of_ne other .., rfl⟩

theorem step_call {c : Db.Client} (known : srv.clients i = some c) (opened : c.closed = false)
    (clock : Clock) (call : SessionCall) :
    let srv' := srv.step limits cfg (.call i clock call)
    srv'.clients i = some { c with
        session := c.session.call limits inThread clock call
        calls := c.calls ++ [call] } ∧
      Beside i srv srv' := by
  intro srv'
  have next : srv' = srv.set i { c with
      session := c.session.call limits inThread clock call
      calls := c.calls ++ [call] } := by
    show srv.step limits cfg _ = _
    simp only [Db.System.step, Db.Event.srcid, known, Db.System.stepClient, opened,
      Bool.false_eq_true, if_false]
  rw [next]
  exact ⟨Function.update_self .., fun j other => Function.update_of_ne other .., rfl⟩

variable (limits cfg) in
theorem step_close (opened : ∀ c, srv.clients i = some c → c.closed = false) :
    (srv.step limits cfg (.close i)).clients i = (srv.clients i).map fun c => { c with
      session := c.session.close inThread
      closed := true
      dropped := c.session.dirty } := by
  cases known : srv.clients i with
  | none => simp only [Db.System.step, Db.Event.srcid, known, Option.map]
  | some c =>
    simp only [Db.System.step, Db.Event.srcid, known, Db.System.stepClient, opened c known,
      Bool.false_eq_true, if_false]
    exact Function.update_self ..

variable (limits cfg srv i) in
/-- A commit changes how many transactions of the client are committed. -/
theorem step_execute : ∃ executed : Db.Client → Nat, (srv.step limits cfg (.execute i)).clients i =
    (srv.clients i).map fun c => { c with executed := executed c } := by
  cases known : srv.clients i with
  | none => exact ⟨Db.Client.executed, by simp only [Db.System.step, Db.Event.srcid, known,
      Option.map]⟩
  | some c =>
    simp only [Db.System.step, Db.Event.srcid, known, Db.System.stepClient]
    split
    · refine ⟨fun c => c.executed + 1, ?_⟩
      split <;> exact Function.update_self ..
    · exact ⟨Db.Client.executed, known⟩

variable (limits cfg srv i) in
/-- The Deferred of a commit fires, unless the commit is not done yet. -/
theorem step_fires (outcome : Outcome) : ∃ f : CollectionSession → CollectionSession,
    (f = id ∨ f = fun s => s.fire inThread outcome) ∧
      (srv.step limits cfg (.fires i outcome)).clients i =
        (srv.clients i).map fun c => { c with session := f c.session } := by
  cases known : srv.clients i with
  | none =>
    exact ⟨id, Or.inl rfl, by simp only [Db.System.step, Db.Event.srcid, known, Option.map]⟩
  | some c =>
    simp only [Db.System.step, Db.Event.srcid, known, Db.System.stepClient]
    split
    · exact ⟨_, Or.inr rfl, Function.update_self ..⟩
    · exact ⟨id, Or.inl rfl, known⟩

variable (x i) in
/-- Effects without a session leave the server alone. -/
theorem silent_effects (clock : Clock) {news : List Effect} (within : ∀ e ∈ news, e.Within none) :
    news.filterMap (dbEvent x i clock) = [] ∧ sessionCalls news = [] ∧
      ∀ sessions, news.foldl (Recast.Connection.apply (x.env limits i) clock) sessions =
        sessions := by
  induction news with
  | nil => exact ⟨rfl, rfl, fun _ => rfl⟩
  | cons e rest ih =>
    rw [List.forall_mem_cons] at within
    obtain ⟨events, calls, same⟩ := ih within.2
    cases e with
    | addClient => exact absurd rfl within.1.1
    | session number call => exact absurd (within.1.2 number call rfl) (by simp)
    | _ => exact ⟨events, calls, same⟩

/-- No other client has the address. -/
def Alone (x : Site) (i : Nat) (srv : Db.System) : Prop :=
  ∀ j c, j ≠ i → srv.clients j = some c → ¬ (c.session.host = x.host ∧ c.session.port = x.port)

theorem session_effects (kept : ∀ call ∈ x.upload.calls, Db.KeptCall cfg call) (clock : Clock)
    {news : List Effect} (within : ∀ e ∈ news, e.Within (some 0)) {c : Db.Client}
    (mirrored : srv.Mirrored cfg) (known : srv.clients i = some c) (opened : c.closed = false)
    (owned : Owned x i c.session) (asked : c.calls ++ sessionCalls news <+: x.upload.calls) :
    let srv' := (news.filterMap (dbEvent x i clock)).foldl (Db.System.step limits cfg) srv
    srv'.Mirrored cfg ∧ Beside i srv srv' ∧ ∃ c', srv'.clients i = some c' ∧ c'.closed = false ∧
      Owned x i c'.session ∧ c'.calls = c.calls ++ sessionCalls news ∧
      [c'.session] = news.foldl (Recast.Connection.apply (x.env limits i) clock) [c.session] := by
  induction news generalizing srv c with
  | nil => exact ⟨mirrored, .refl i srv, c, known, opened, owned,
    (List.append_nil _).symm, rfl⟩
  | cons e rest ih =>
    rw [List.forall_mem_cons] at within
    cases e with
    | addClient => exact absurd rfl within.1.1
    | session number call =>
      obtain rfl : number = 0 := (Option.some.inj (within.1.2 number call rfl)).symm
      have asked : c.calls ++ [call] ++ sessionCalls rest <+: x.upload.calls := by
        rw [List.append_assoc]
        exact asked
      have next : c.calls ++ [call] <+: x.upload.calls := (List.prefix_append _ _).trans asked
      have orderly : Db.Orderly limits srv (.call i clock call) := by
        intro d there _
        obtain rfl := Option.some.inj (known.symm.trans there)
        exact Db.orderlyCall_upload next _
      have keeps : Db.Kept cfg (.call i clock call) := kept call (next.subset (by simp))
      obtain ⟨here, beside⟩ := @step_call limits cfg i srv c known opened clock call
      obtain ⟨last, later, all⟩ := ih within.2 (mirrored.step orderly keeps) here opened
        (owned.call limits clock call) asked
      refine ⟨last, ⟨?_, later.proc.trans beside.proc⟩, ?_⟩
      · intro j other
        exact (later.others j other).trans (beside.others j other)
      · obtain ⟨c', there, still, owned', calls, session⟩ := all
        refine ⟨c', there, still, owned', ?_, session⟩
        rw [calls, List.append_assoc]
        rfl
    | _ => exact ih within.2 mirrored known opened owned asked

def sessionsOf (srv : Db.System) (i : Nat) : List CollectionSession :=
  ((srv.clients i).map Db.Client.session).toList

/-- What a step on the connection of a client does to the server. -/
structure Serves (limits : SessionConfig) (cfg : Db.DbConfig) (x : Site) (i : Nat) (clock : Clock)
    (news : List Effect) (srv srv' : Db.System) : Prop where
  mirrored : srv'.Mirrored cfg
  beside : Beside i srv srv'
  heard : callsHeard srv' i = callsHeard srv i ++ sessionCalls news
  opened : ∀ c, srv'.clients i = some c → c.closed = false ∧ Owned x i c.session
  sessions : sessionsOf srv' i =
    news.foldl (Recast.Connection.apply (x.env limits i) clock) (sessionsOf srv i)

variable (cfg) in
theorem Serves.opens (mirrored : srv.Mirrored cfg) (alone : Alone x i srv)
    (absent : srv.clients i = none) (clock : Clock) :
    Serves limits cfg x i clock [.addClient] srv
      (srv.step limits cfg (.opens i x.host x.port)) := by
  obtain ⟨here, beside⟩ := @step_opens limits cfg x i srv absent
  refine ⟨mirrored.step alone trivial, beside, ?_, ?_, ?_⟩
  · rw [callsHeard, callsHeard, here, absent]
    rfl
  · intro c there
    obtain rfl := Option.some.inj (here.symm.trans there)
    exact ⟨rfl, rfl, rfl, rfl⟩
  · rw [sessionsOf, sessionsOf, here, absent]
    rfl

theorem serves_effects (kept : ∀ call ∈ x.upload.calls, Db.KeptCall cfg call) (clock : Clock)
    {r : CastReceiver} {news : List Effect} (told : Told r news) (mirrored : srv.Mirrored cfg)
    (alone : Alone x i srv) (opened : ∀ c, srv.clients i = some c → c.closed = false ∧
      Owned x i c.session)
    (same : r.sess = (srv.clients i).map fun _ => 0)
    (one : (news.foldl (Recast.Connection.apply (x.env limits i) clock)
    (sessionsOf srv i)).length ≤ 1)
    (asked : callsHeard srv i ++ sessionCalls news <+: x.upload.calls) :
    Serves limits cfg x i clock news srv
      ((news.filterMap (dbEvent x i clock)).foldl (Db.System.step limits cfg) srv) := by
  cases known : srv.clients i with
  | none =>
    rcases told with rfl | within
    · exact Serves.opens cfg mirrored alone known clock
    · rw [same, known] at within
      obtain ⟨events, calls, all⟩ := @silent_effects limits x i clock news within
      rw [events]
      refine ⟨mirrored, .refl i srv, ?_, opened, (all _).symm⟩
      rw [calls, List.append_nil]
      rfl
  | some c =>
    obtain ⟨still, owned⟩ := opened c known
    have calls : callsHeard srv i = c.calls := by rw [callsHeard, known]; rfl
    have sessions : sessionsOf srv i = [c.session] := by rw [sessionsOf, known]; rfl
    rcases told with rfl | within
    · rw [sessions] at one
      simp [Recast.Connection.apply] at one
    · rw [same, known] at within
      rw [calls] at asked
      obtain ⟨next, beside, c', there, opened', owned', calls', session⟩ :=
        session_effects kept clock within mirrored known still owned asked
      refine ⟨next, beside, ?_, ?_, ?_⟩
      · rw [callsHeard, there, calls]
        exact calls'
      · intro d here
        obtain rfl := Option.some.inj (there.symm.trans here)
        exact ⟨opened', owned'⟩
      · rw [sessionsOf, there, sessions]
        exact session

end Server

/-- The session of a client goes on, or not, when the Deferred of a commit fires. -/
theorem Tended.settles {limits : SessionConfig} {x : Site} {i : Nat} {w : Wire}
    {c : Option Cf.Connection}
    (tended : Tended limits x i w c) {outcome : Outcome} {f : CollectionSession → CollectionSession}
    (fires : f = id ∨ f = fun s => s.fire inThread outcome) :
    let c' := c.map fun k => { k with session := f k.session }
    Tended limits x i (w.after ((w.link c).withSessions (w.link c').sessions)) c' := by
  intro c'
  have same (s : CollectionSession) : (f s).flushed = s.flushed ∧
      (f s).host = s.host ∧ (f s).port = s.port ∧ (f s).srcid = s.srcid := by
    rcases fires with rfl | rfl
    · exact ⟨rfl, rfl, rfl, rfl⟩
    · exact ⟨CollectionSession.fire_flushed .., (fire_collects inThread s outcome).source⟩
  refine ⟨?_, ?_, ?_⟩
  · intro opened
    have good := tended.good opened
    have link : (w.after ((w.link c).withSessions (w.link c').sessions)).link c' =
        (w.link c).withSessions (w.link c').sessions := rfl
    rw [link]
    apply good.withSessions
    intro arrived served
    have sessions : (w.link c').sessions = (w.link c).sessions.map f := by
      cases c <;> rfl
    rw [sessions]
    rcases fires with rfl | rfl
    · rw [List.map_id]
      exact served
    · have next := served.fire 0 outcome
      cases c with
      | none => exact next
      | some k => exact next
  · intro k here
    obtain ⟨before, there, rfl⟩ := Option.map_eq_some_iff.mp here
    obtain ⟨closed, owned⟩ := tended.known before there
    exact ⟨closed, owned.congr (same before.session).2⟩
  · intro k here lost
    obtain ⟨before, there, rfl⟩ := Option.map_eq_some_iff.mp here
    rw [(same before.session).1]
    exact tended.flushed before there lost

namespace Archive

/-- The invariant of a run. -/
structure Kept (limits : SessionConfig) (cfg : Db.DbConfig) (sites : Nat → Site) (a : Archive) :
    Prop where
  mirrored : a.server.Mirrored cfg
  tended : ∀ i, Tended limits (sites i) i (a.wires i) (a.connection i)
  heard : ∀ i, callsHeard a.server i <+: (sites i).upload.calls
  told : ∀ i, (a.wires i).lost = false →
    callsHeard a.server i = sessionCalls (a.wires i).keepalive.server.effects

namespace Kept

variable {limits : SessionConfig} {cfg : Db.DbConfig} {sites : Nat → Site} {a : Archive}

theorem start (sites : Nat → Site) {db : Db.Database} (sound : db.Sound)
    (clean : ∀ row ∈ db.server, row.owner ≠ cfg.mykey) :
    Kept limits cfg sites (.start sites db) where
  mirrored := ⟨Db.System.Follows.start sound fun _ => clean, by simp [Archive.start],
    by simp [Archive.start]⟩
  tended i :=
    { good := fun _ => Good.start ((sites i).env_normal limits i) (sites i).serverKey _
      known := by
        intro k here
        cases here
      flushed := by
        intro k here
        cases here }
  heard _ := List.nil_prefix
  told _ _ := rfl

theorem change (kept : Kept limits cfg sites a) {i : Nat} {w : Wire} {srv : Db.System}
    (mirrored : srv.Mirrored cfg) (others : ∀ j, j ≠ i → srv.clients j = a.server.clients j)
    (tended : Tended limits (sites i) i w ((srv.clients i).map connectionOf))
    (heard : callsHeard srv i <+: (sites i).upload.calls)
    (told : w.lost = false → callsHeard srv i = sessionCalls w.keepalive.server.effects) :
    Kept limits cfg sites { wires := Function.update a.wires i w, server := srv } := by
  have same (j : Nat) (other : j ≠ i) : callsHeard srv j = callsHeard a.server j := by
    rw [callsHeard, callsHeard, others j other]
  refine ⟨mirrored, ?_, ?_, ?_⟩
  · intro j
    by_cases here : j = i
    · subst here
      dsimp only
      rw [Function.update_self]
      exact tended
    · dsimp only [connection]
      rw [Function.update_of_ne here, others j here]
      exact kept.tended j
  · intro j
    by_cases here : j = i
    · exact here ▸ heard
    · dsimp only
      rw [same j here]
      exact kept.heard j
  · intro j opened
    dsimp only at opened ⊢
    by_cases here : j = i
    · subst here
      rw [Function.update_self] at opened ⊢
      exact told opened
    · rw [Function.update_of_ne here] at opened ⊢
      rw [same j here]
      exact kept.told j opened

theorem alone (kept : Kept limits cfg sites a)
    (apart : Function.Injective fun i => ((sites i).host, (sites i).port)) (i : Nat) :
    Alone (sites i) i a.server := by
  intro j c other there same
  have here : a.connection j = some (connectionOf c) := by rw [connection, there]; rfl
  obtain ⟨-, host, port, -⟩ := (kept.tended j).known _ here
  apply other
  apply apart
  exact Prod.ext (host.symm.trans same.1) (port.symm.trans same.2)

theorem opened (kept : Kept limits cfg sites a) {i : Nat} (opened : (a.wires i).lost = false)
    {c : Db.Client} (known : a.server.clients i = some c) :
    c.closed = false ∧ Owned (sites i) i c.session := by
  have here : a.connection i = some (connectionOf c) := by rw [connection, known]; rfl
  obtain ⟨closed, owned⟩ := (kept.tended i).known _ here
  exact ⟨closed.trans opened, owned⟩

theorem link_sessions (a : Archive) (i : Nat) : (a.link i).sessions = sessionsOf a.server i := by
  show ((a.connection i).map Cf.Connection.session).toList = _
  rw [connection, Option.map_map]
  rfl

theorem session_same (kept : Kept limits cfg sites a) {i : Nat}
    (opened : (a.wires i).lost = false) :
    (a.wires i).keepalive.server.sess = (a.server.clients i).map fun _ => 0 := by
  have sessions := link_sessions a i
  rcases good_session ((kept.tended i).good opened) with ⟨sess, none⟩ | ⟨sess, session, one⟩
  · have here := sessions.symm.trans none
    refine sess.trans ?_
    cases known : a.server.clients i with
    | none => rfl
    | some c => simp [sessionsOf, known] at here
  · have here := sessions.symm.trans one
    refine sess.trans ?_
    cases known : a.server.clients i with
    | none => simp [sessionsOf, known] at here
    | some c => rfl

variable (apart : Function.Injective fun i => ((sites i).host, (sites i).port))
  (texts : ∀ i, ∀ call ∈ (sites i).upload.calls, Db.KeptCall cfg call)

include apart texts in
theorem onLink (kept : Kept limits cfg sites a) (i : Nat) (clock : Clock) {e : LinkEvent}
    (own : e = .send ∨ e = .read ∨ e = .expire ∨ e = .arrive clock) :
    Kept limits cfg sites (a.onLink limits cfg sites i clock e) := by
  by_cases lost : (a.wires i).lost = true
  · rw [show a.onLink limits cfg sites i clock e = a from if_pos lost]
    exact kept
  rw [show a.onLink limits cfg sites i clock e = _ from if_neg lost]
  rw [Bool.not_eq_true] at lost
  have before : Good ((sites i).env limits i) (sites i).serverKey (sites i).letters (a.link i) :=
    (kept.tended i).good lost
  have good := before.step ((sites i).env_normal limits i) e
  obtain ⟨news, effects, told⟩ := told_step before own
  have sessions := step_sessions ((sites i).env limits i) clock (a.link i) own
  have these : ((a.link i).step ((sites i).env limits i) e).keepalive.server.effects.drop
      (a.wires i).keepalive.server.effects.length = news := by
    rw [effects]
    exact List.drop_left
  have calls : callsHeard a.server i ++ sessionCalls news =
      sessionCalls ((a.link i).step ((sites i).env limits i) e).keepalive.server.effects := by
    rw [effects, sessionCalls_append, kept.told i lost]
    rfl
  have asked : callsHeard a.server i ++ sessionCalls news <+: (sites i).upload.calls := by
    have upload : (sites i).letters.map Letter.call ++ [.done] = (sites i).upload.calls :=
      (sites i).database.letters_calls
    rw [calls, ← upload]
    exact good.calls_begun
  have all : ((a.link i).step ((sites i).env limits i) e).sessions =
      news.foldl (Recast.Connection.apply ((sites i).env limits i) clock)
        (sessionsOf a.server i) := by
    rw [sessions, ← link_sessions, ← these]
    rfl
  have serves := @serves_effects limits cfg (sites i) i a.server (texts i) clock _ _ told
    kept.mirrored (kept.alone apart i) (fun c => kept.opened lost) (kept.session_same lost)
    (all ▸ good.sessions_length) asked
  simp only [these]
  refine kept.change serves.mirrored serves.beside.others ?_ (serves.heard ▸ asked) ?_
  · have link : ((a.wires i).after ((a.link i).step ((sites i).env limits i) e)).link
        ((((news.filterMap (dbEvent (sites i) i clock)).foldl (Db.System.step limits cfg)
          a.server).clients i).map connectionOf) = (a.link i).step ((sites i).env limits i) e := by
      have same := serves.sessions.trans all.symm
      simp only [Wire.link, Option.map_map]
      exact congrArg (fun sessions =>
        { (a.link i).step ((sites i).env limits i) e with sessions }) same
    refine ⟨fun _ => by rw [link]; exact good, ?_, ?_⟩
    · intro k there
      obtain ⟨c, known, rfl⟩ := Option.map_eq_some_iff.mp there
      obtain ⟨closed, owned⟩ := serves.opened c known
      exact ⟨closed.trans lost.symm, owned⟩
    · intro k there gone
      exact absurd (lost.symm.trans gone) Bool.false_ne_true
  · intro _
    exact serves.heard.trans calls

theorem drops (kept : Kept limits cfg sites a) {i : Nat} (opened : (a.wires i).lost = false)
    (begun : ∀ c, a.server.clients i = some c → c.session.flushed ≠ []) :
    Kept limits cfg sites
      { wires := Function.update a.wires i { a.wires i with lost := true }
        server := a.server.step limits cfg (.close i) } := by
  have next := step_close limits cfg fun c known => (kept.opened opened (c := c) known).1
  have heard : callsHeard (a.server.step limits cfg (.close i)) i = callsHeard a.server i := by
    rw [callsHeard, callsHeard, next, Option.map_map]
    rfl
  refine kept.change (kept.mirrored.step begun trivial) ?_ ?_ (heard ▸ kept.heard i) (by simp)
  · exact fun j other => Db.System.step_elsewhere limits cfg a.server other
  · have drops := (kept.tended i).drops opened
    rw [connection, Option.map_map] at drops
    rw [next, Option.map_map]
    exact drops

theorem executes (kept : Kept limits cfg sites a) (i : Nat) :
    Kept limits cfg sites { a with server := a.server.step limits cfg (.execute i) } := by
  obtain ⟨executed, next⟩ := step_execute limits cfg i a.server
  have heard : callsHeard (a.server.step limits cfg (.execute i)) i = callsHeard a.server i := by
    rw [callsHeard, callsHeard, next, Option.map_map]
    rfl
  rw [← Function.update_eq_self i a.wires]
  refine kept.change (kept.mirrored.step trivial trivial) ?_ ?_ (heard ▸ kept.heard i)
    (heard ▸ kept.told i)
  · exact fun j other => Db.System.step_elsewhere limits cfg a.server other
  · rw [next, Option.map_map]
    exact kept.tended i

theorem fires (kept : Kept limits cfg sites a) (i : Nat) (outcome : Outcome) :
    Kept limits cfg sites (a.step limits cfg sites (.fires i outcome)) := by
  obtain ⟨f, kind, next⟩ := step_fires limits cfg i a.server outcome
  have heard : callsHeard (a.server.step limits cfg (.fires i outcome)) i =
    callsHeard a.server i := by
    rw [callsHeard, callsHeard, next, Option.map_map]
    rfl
  refine kept.change (kept.mirrored.step trivial trivial) ?_ ?_ (heard ▸ kept.heard i)
    (heard ▸ kept.told i)
  · exact fun j other => Db.System.step_elsewhere limits cfg a.server other
  · have settles := (kept.tended i).settles kind
    rw [next]
    simp only [connection, Wire.link, Option.map_map] at settles ⊢
    exact settles

end Kept

/-- A connection is not lost before the first transaction of its session is flushed. -/
def Patient (a : Archive) : ArchiveEvent → Prop
  | .drops i => ∀ c, a.server.clients i = some c → c.session.flushed ≠ []
  | _ => True

section Run

variable {limits : SessionConfig} {cfg : Db.DbConfig} {sites : Nat → Site} {a : Archive}
  (apart : Function.Injective fun i => ((sites i).host, (sites i).port))
  (texts : ∀ i, ∀ call ∈ (sites i).upload.calls, Db.KeptCall cfg call)

include apart texts in
theorem Kept.step (kept : Kept limits cfg sites a) {e : ArchiveEvent} (patient : a.Patient e) :
    Kept limits cfg sites (a.step limits cfg sites e) := by
  cases e with
  | sends i => exact kept.onLink apart texts i {} (Or.inl rfl)
  | reads i => exact kept.onLink apart texts i {} (Or.inr (Or.inl rfl))
  | arrives i clock => exact kept.onLink apart texts i clock (Or.inr (Or.inr (Or.inr rfl)))
  | expires i => exact kept.onLink apart texts i {} (Or.inr (Or.inr (Or.inl rfl)))
  | drops i =>
    simp only [Archive.step]
    split
    · exact kept
    · next opened => exact kept.drops (by simpa using opened) patient
  | executes i => exact kept.executes i
  | fires i outcome => exact kept.fires i outcome

include apart texts in
theorem Kept.run {db : Db.Database} (sound : db.Sound)
    (clean : ∀ row ∈ db.server, row.owner ≠ cfg.mykey) {events : List ArchiveEvent}
    (patient : EveryStep
      (fun done => ((Archive.start sites db).run limits cfg sites done).Patient) events) :
    Kept limits cfg sites ((Archive.start sites db).run limits cfg sites events) := by
  refine patient.maintains
    (I := fun done => Kept limits cfg sites ((Archive.start sites db).run limits cfg sites done))
    (.start sites sound clean) ?_ List.prefix_rfl
  intro done e _ before now
  rw [Archive.run, List.foldl_append]
  exact before.step apart texts now

end Run

end Archive

/-- Upload Done flushes what is left. -/
theorem done_clean (limits : SessionConfig) (factory : Factory)
    {events : List CollectionSession.Event} (opened : .close ∉ events) {before : List SessionCall}
    (messages : received events = before ++ [.done]) (s : CollectionSession) :
    (s.run limits factory events).dirty = false := by
  obtain ⟨first, ends, rfl, -, done⟩ := received_eq_append messages
  obtain ⟨front, clock, after, rfl, -, silent⟩ := received_eq_singleton done
  simp only [List.mem_append, List.mem_cons, not_or] at opened
  rw [CollectionSession.run_append, CollectionSession.run_append, CollectionSession.run_cons]
  generalize CollectionSession.run limits factory _ front = s
  have quiet := run_silent_collects limits factory opened.2.2.2 silent
    (s.step limits factory (.call clock .done))
  have clean : (s.flush factory).dirty = false := by
    rcases flush_cases factory s with ⟨kept, clean⟩ | flushed
    · simpa [clean] using kept.dirty
    · exact flushed.clean
  simpa using quiet.dirty.trans (congrArg (· || _) clean)

namespace Archive

/-- All messages of the client have arrived, and all that its session has flushed is committed. -/
def UpToDate (a : Archive) (i : Nat) : Prop :=
  (a.wires i).lost = false ∧ Good.Delivered (a.link i) ∧
    ∃ c, a.server.clients i = some c ∧ c.executed = c.session.flushed.length

variable {limits : SessionConfig} {cfg : Db.DbConfig} {sites : Nat → Site} {a : Archive}

theorem Kept.upToDate (kept : Kept limits cfg sites a) {i : Nat} (upToDate : a.UpToDate i) :
    ∃ c, a.server.clients i = some c ∧ c.Settled ∧ 0 < c.executed ∧ Owned (sites i) i c.session ∧
      c.calls = (sites i).upload.calls := by
  obtain ⟨opened, delivered, c, known, executed⟩ := upToDate
  obtain ⟨closed, owned⟩ := kept.opened opened known
  have good : Good ((sites i).env limits i) (sites i).serverKey (sites i).letters (a.link i) :=
    (kept.tended i).good opened
  obtain ⟨served, calls⟩ := good.flow_delivered delivered
  have upload : (sites i).letters.map Letter.call ++ [.done] = (sites i).upload.calls :=
    (sites i).database.letters_calls
  have here : a.connection i = some (connectionOf c) := by rw [connection, known]; rfl
  have told : c.calls = (sites i).upload.calls := by
    have heard := kept.told i opened
    rw [callsHeard, known] at heard
    exact heard.trans (calls.trans upload)
  obtain ⟨-, events, unclosed, messages, sessions⟩ := served
  have session := (Kept.link_sessions a i).symm.trans sessions
  rw [sessionsOf, known] at session
  have same := (List.cons.inj session).1
  have clean : c.session.dirty = false := by
    have asked : received events = ((sites i).letters.map Item.letter).flatMap Item.calls ++
      [.done] := by
      rw [messages, List.flatMap_append]
      rfl
    exact (congrArg CollectionSession.dirty same).trans
      (done_clean limits inThread unclosed asked _)
  obtain ⟨groups, -, cut, flushed⟩ := (kept.tended i).begun opened here
  have some : c.session.flushed ≠ [] := by
    have flushed : c.session.flushed = _ := flushed
    intro none
    rw [flushed] at none
    cases groups with
    | nil => exact absurd ((cut delivered).nothing.mp rfl).1 (List.cons_ne_nil _ _)
    | cons group rest => exact absurd none (List.cons_ne_nil _ _)
  refine ⟨c, known, Or.inl ⟨closed, clean, executed⟩, ?_, owned, told⟩
  rw [executed]
  exact List.length_pos_iff.mpr some

end Archive

/-- The tables mirror the databases of the clients: in every run of any number of clients, however
their messages, timers, losses and commits interleave, the processor raises nothing, the rows of a
client that is up to date are those of its database, nothing is left of a client whose goodbye is
committed, and every server row of this recceiver is that of a client. -/
theorem archive_mirrors_databases {limits : SessionConfig} {cfg : Db.DbConfig} {sites : Nat → Site}
    (apart : Function.Injective fun i => ((sites i).host, (sites i).port))
    (texts : ∀ i, ∀ call ∈ (sites i).upload.calls, Db.KeptCall cfg call) {db : Db.Database}
    (sound : db.Sound) (clean : ∀ row ∈ db.server, row.owner ≠ cfg.mykey)
    {events : List ArchiveEvent}
    (patient : EveryStep
      (fun done => ((Archive.start sites db).run limits cfg sites done).Patient) events) :
    let a := (Archive.start sites db).run limits cfg sites events
    a.server.failed = none ∧ a.server.proc.db.Sound ∧
      (∀ i, a.UpToDate i → ∃ row ∈ a.server.proc.db.server,
        a.server.proc.sources i = some row.id ∧
          row.endpoint = ((sites i).host, (sites i).port, cfg.mykey) ∧
          a.server.proc.db.Mirrors row.id (tablesOf (sites i).database)) ∧
      (∀ i c, a.server.clients i = some c → c.Finished → a.server.proc.sources i = none ∧
        ∀ row ∈ a.server.proc.db.server,
          row.endpoint ≠ ((sites i).host, (sites i).port, cfg.mykey)) ∧
      ∀ row ∈ a.server.proc.db.server, row.owner = cfg.mykey →
        ∃ i c, a.server.clients i = some c ∧ ¬ c.Finished ∧ a.server.proc.sources i =
          some row.id := by
  intro a
  have kept : Archive.Kept limits cfg sites a := .run apart texts sound clean patient
  have mirrors := kept.mirrored.mirrorsHistory limits
  have follows := kept.mirrored.follows
  refine ⟨follows.healthy, follows.sound, ?_, ?_, ?_⟩
  · intro i upToDate
    obtain ⟨c, known, settled, begun, ⟨host, port, -⟩, told⟩ := kept.upToDate upToDate
    obtain ⟨row, member, source, endpoint, rows⟩ := mirrors.committed i c known settled begun
    rw [told] at rows
    rw [host, port] at endpoint
    exact ⟨row, member, source, endpoint, history_upload (sites i).database ▸ rows⟩
  · intro i c known finished
    have here : a.connection i = some (connectionOf c) := by rw [Archive.connection, known]; rfl
    obtain ⟨-, host, port, -⟩ := (kept.tended i).known _ here
    obtain ⟨none, others⟩ := mirrors.gone i c known finished
    refine ⟨none, ?_⟩
    intro row member
    rw [← host, ← port]
    exact others row member
  · intro row member owner
    obtain ⟨i, c, known, listed, source⟩ := follows.owned trivial row member owner
    exact ⟨i, c, known, listed.2, source⟩

instance (cfg : Db.DbConfig) : (call : SessionCall) → Decidable (Db.KeptCall cfg call)
  | .iocInfo key value => inferInstanceAs (Decidable (cfg.stored key = .text key ∧
      cfg.stored value = .text value))
  | .addRecord _ rtype name => inferInstanceAs (Decidable (cfg.stored rtype = .text rtype ∧
      cfg.stored name = .text name))
  | .addAlias _ name => inferInstanceAs (Decidable (cfg.stored name = .text name))
  | .recInfo _ key value => inferInstanceAs (Decidable (cfg.stored key = .text key ∧
      cfg.stored value = .text value))
  | .delRecord _ | .done => inferInstanceAs (Decidable True)

/-- A client uploads its database, which is committed. -/
def archived (i : Nat) : List ArchiveEvent :=
  [.sends i, .reads i] ++ List.replicate 6 (.sends i) ++ List.replicate 14 (.arrives i {}) ++
    [.executes i, .fires i (.ok ())]

/-- Two clients upload their databases, and one of them is lost. -/
def archivedAndLost : List ArchiveEvent := archived 0 ++ archived 1 ++ [.drops 1, .executes 1]

theorem archive_mirrors_databases_lost :
    let a := (Archive.start pumpSite {}).run {} ⟨1, Db.wholeNumbers⟩ pumpSite archivedAndLost
    a.UpToDate 0 ∧ (∃ c, a.server.clients 1 = some c ∧ c.Finished) ∧
      ∃ row ∈ a.server.proc.db.server, a.server.proc.db.Mirrors row.id (tablesOf pumpDatabase) := by
  have apart : Function.Injective fun i => ((pumpSite i).host, (pumpSite i).port) := by
    intro i j same
    have lengths := congrArg (fun p => String.length p.1) same
    simpa [pumpSite] using lengths
  have texts : ∀ i, ∀ call ∈ (pumpSite i).upload.calls, Db.KeptCall ⟨1, Db.wholeNumbers⟩ call := by
    intro i
    show ∀ call ∈ pumpDatabase.upload.calls, Db.KeptCall ⟨1, Db.wholeNumbers⟩ call
    decide +kernel
  have patient : EveryStep (fun done => ((Archive.start pumpSite {}).run {} ⟨1, Db.wholeNumbers⟩
      pumpSite done).Patient) archivedAndLost := by
    have calm : ∀ e ∈ archived 0 ++ archived 1, ∀ b : Archive, b.Patient e := by
      simp [archived, Archive.Patient]
    have flushed : (((Archive.start pumpSite {}).run {} ⟨1, Db.wholeNumbers⟩ pumpSite
        (archived 0 ++ archived 1)).server.clients 1).all
          (fun c => !c.session.flushed.isEmpty) = true := by decide +kernel
    have before : EveryStep (fun done => ((Archive.start pumpSite {}).run {} ⟨1, Db.wholeNumbers⟩
        pumpSite done).Patient) (archived 0 ++ archived 1) := by
      intro done e rest split
      exact calm e (by rw [split]; simp) _
    have drops := before.append (c := .drops 1) (by
      intro c known
      rw [known] at flushed
      simpa using flushed)
    have executes := drops.append (c := .executes 1)
      (show Archive.Patient _ (.executes 1) from trivial)
    simpa [archivedAndLost] using executes
  have mirrors := @archive_mirrors_databases {} ⟨1, Db.wholeNumbers⟩ pumpSite apart texts {}
    Db.Database.sound_empty (by simp) archivedAndLost patient
  generalize reached : (Archive.start pumpSite {}).run {} ⟨1, Db.wholeNumbers⟩ pumpSite
    archivedAndLost = a at mirrors
  have all : (a.wires 0).lost = false ∧ (a.link 0).todo.isEmpty = true ∧
      (a.link 0).keepalive.toServer.isEmpty = true ∧
      (a.server.clients 0).any (fun c => decide (c.executed = c.session.flushed.length)) = true ∧
      (a.server.clients 1).any (fun c => c.closed &&
        decide (c.executed = c.session.flushed.length)) = true := by
    rw [← reached]
    decide +kernel
  have upToDate : a.UpToDate 0 := by
    refine ⟨all.1, ⟨List.isEmpty_iff.mp all.2.1, ?_⟩, ?_⟩
    · rw [List.isEmpty_iff.mp all.2.2.1]
      simp
    · obtain ⟨c, known, executed⟩ := (Option.any_eq_true _ _).mp all.2.2.2.1
      exact ⟨c, known, by simpa using executed⟩
  obtain ⟨c, known, finished⟩ := (Option.any_eq_true _ _).mp all.2.2.2.2
  obtain ⟨row, member, -, -, rows⟩ := mirrors.2.2.1 0 upToDate
  exact ⟨upToDate, ⟨c, known, by simpa [Db.Client.Finished] using finished⟩, row, member, rows⟩

end Recsync.System
