import Recsync.System.Letters
import Recsync.Recast.Groups

set_option autoImplicit false

/- A client and a server on one connection, from the greeting to the pings. -/
namespace Recsync.System

open Protocol Recast CastReceiver

/-- How far `doCasterTCPPhase` is. -/
inductive ClientPhase where
  /-- the greeting is not sent yet -/
  | connected
  /-- the greeting of the server is not read yet -/
  | waiting
  /-- the upload, Upload Done, and then the pings -/
  | talking
  /-- the first message of the server was no greeting -/
  | refused
  deriving DecidableEq, Repr

/-- The thread of the client, the messages on their way, the server and its sessions. -/
structure Link where
  keepalive : Keepalive := {}
  phase : ClientPhase := .connected
  /-- what the client has not sent yet -/
  todo : List Frame
  /-- the sessions that `addClient` has made -/
  sessions : List CollectionSession := []

inductive LinkEvent where
  /-- the client sends the next message of its own -/
  | send
  /-- the client reads a message -/
  | read
  /-- the next header or body is there for the server -/
  | arrive (clock : Clock)
  /-- the ping timer expires -/
  | expire
  /-- the Deferred of the running commit of a session fires -/
  | fires (number : Nat) (outcome : Outcome)

/-- A message of the client's own: its greeting, its upload and Upload Done. -/
inductive Item where
  | greeting
  | letter (l : Letter)
  | done

namespace Item

def frame (serverKey : Nat) : Item → Frame
  | greeting => clientGreetingFrame serverKey
  | letter l => l.frame
  | done => uploadDoneFrame

def calls : Item → List SessionCall
  | greeting => []
  | letter l => [l.call]
  | done => [.done]

end Item

/-- All messages of the client's own. -/
def script (letters : List Letter) : List Item := .greeting :: (letters.map .letter ++ [.done])

def sessionCalls (effects : List Effect) : List SessionCall :=
  effects.filterMap fun
    | .session _ call => some call
    | _ => none

namespace Link

variable (env : Surroundings)

/-- The connection is there and the server has sent its greeting. -/
def start (serverKey : Nat) (letters : List Letter) : Link where
  todo := (script letters).map (Item.frame serverKey)

/-- The transport is disconnecting from the moment on at which a session asks for it. -/
def withSessions (s : Link) (sessions : List CollectionSession) : Link :=
  { s with
    sessions
    keepalive := { s.keepalive with
      server := { s.keepalive.server with
        disconnecting := s.keepalive.server.disconnecting || Connection.lost sessions } } }

/-- The first message of the server has to be its greeting. -/
def readGreeting (s : Link) : Link :=
  match s.keepalive.toClient with
  | [] => s
  | f :: rest => { s with
      keepalive := { s.keepalive with toClient := rest }
      phase := if f.msgId = ServerGreeting.msgId ∧ 1 ≤ f.body.length then .talking else .refused }

/-- The next message of the client's own is sent. -/
def sendNext (s : Link) (phase : ClientPhase) : Link :=
  match s.todo with
  | [] => s
  | f :: todo => { s with keepalive := s.keepalive.step env.chance (.send f), phase, todo }

def step (s : Link) : LinkEvent → Link
  | .send =>
    match s.phase with
    | .connected => s.sendNext env .waiting
    | .talking => s.sendNext env .talking
    | _ => s
  | .read =>
    match s.phase with
    | .waiting => s.readGreeting
    -- the loop for the pings begins after the upload
    | .talking =>
      if s.todo.isEmpty then { s with keepalive := s.keepalive.step env.chance .read } else s
    | _ => s
  | .arrive clock =>
    let keepalive := s.keepalive.step env.chance .arrive
    let news := keepalive.server.effects.drop s.keepalive.server.effects.length
    { s with keepalive }.withSessions (news.foldl (Connection.apply env clock) s.sessions)
  | .expire => { s with keepalive := s.keepalive.step env.chance .expire }
  | .fires number outcome =>
    s.withSessions (s.sessions.modify number fun t => t.fire (env.factory number) outcome)

def run (s : Link) (events : List LinkEvent) : Link := events.foldl (step env) s

end Link

section Script

variable {letters : List Letter} {arrived rest : List Item} {item : Item}

/-- A message of the script is the greeting, as the first one, or it comes after the greeting. -/
theorem script_split (split : script letters = arrived ++ item :: rest) :
    item = .greeting ∧ arrived = [] ∨
      item ≠ .greeting ∧ ∃ before, arrived = .greeting :: before := by
  cases arrived with
  | nil =>
    obtain ⟨rfl, -⟩ := List.cons.inj split
    exact Or.inl ⟨rfl, rfl⟩
  | cons first before =>
    obtain ⟨rfl, later⟩ := List.cons.inj split
    refine Or.inr ⟨?_, before, rfl⟩
    have member : item ∈ letters.map Item.letter ++ [.done] := by simp [later]
    rintro rfl
    simp at member

theorem Item.frame_noPong (serverKey : Nat) (item : Item) :
    (item.frame serverKey).msgId ≠ Pong.msgId := by
  cases item with
  | greeting => exact (by decide : ClientGreeting.msgId ≠ Pong.msgId)
  | letter l => exact l.noPong
  | done => exact (by decide : UploadDone.msgId ≠ Pong.msgId)

theorem Item.frame_filled (serverKey : Nat) (item : Item) :
    (item.frame serverKey).body ≠ [] := by
  cases item with
  | greeting => exact List.cons_ne_nil _ _
  | letter l => exact l.filled
  | done => exact List.cons_ne_nil _ _

@[simp] theorem sessionCalls_append (first second : List Effect) :
    sessionCalls (first ++ second) = sessionCalls first ++ sessionCalls second :=
  List.filterMap_append

theorem script_calls (letters : List Letter) :
    (script letters).flatMap Item.calls = letters.map Letter.call ++ [.done] := by
  have each : (letters.map Item.letter).flatMap Item.calls = letters.map Letter.call := by
    induction letters with
    | nil => rfl
    | cons l letters ih => exact congrArg (l.call :: ·) ih
  rw [script, List.flatMap_cons, List.flatMap_append, each]
  rfl

end Script

section Server

variable (env : Surroundings) {serverKey : Nat} {letters : List Letter}

/-- The receiver and its sessions after some messages of the script. -/
def Served (arrived : List Item) (r : CastReceiver) (sessions : List CollectionSession) : Prop :=
  match arrived with
  | [] => r.sess = none ∧ r.sessions = 0 ∧ sessions = []
  | _ :: before => r.sess = some 0 ∧ ∃ events, .close ∉ events ∧
      received events = before.flatMap Item.calls ∧
      sessions = [(CollectionSession.opened env.host env.port (env.srcid 0)).run env.cfg
        (env.factory 0) events]

variable {env} {arrived rest : List Item} {r r' : CastReceiver} {sessions : List CollectionSession}

theorem Served.congr (served : Served env arrived r sessions) (sess : r'.sess = r.sess)
    (count : r'.sessions = r.sessions) : Served env arrived r' sessions := by
  cases arrived with
  | nil => exact ⟨sess.trans served.1, count.trans served.2.1, served.2.2⟩
  | cons first before => exact ⟨sess.trans served.1, served.2⟩

theorem Served.called {before : List Item} (served : Served env (.greeting :: before) r sessions)
    (item : Item) {call : SessionCall} (calls : item.calls = [call]) (sess : r'.sess = r.sess)
    (clock : Clock) :
    Served env (.greeting :: (before ++ [item])) r'
      (sessions.modify 0 fun t => t.call env.cfg (env.factory 0) clock call) := by
  obtain ⟨opened, events, unclosed, messages, rfl⟩ := served
  refine ⟨sess.trans opened, events ++ [.call clock call], by simp [unclosed], ?_, ?_⟩
  · rw [List.flatMap_append, ← messages]
    simp [received, calls]
  · rw [CollectionSession.run_append]
    rfl

/-- What the arrival of a message of the script does. -/
structure Passes (env : Surroundings) (clock : Clock) (arrived : List Item) (item : Item)
    (sessions : List CollectionSession) (r r' : CastReceiver) (news : List Effect) : Prop where
  effects : r'.effects = r.effects ++ news
  calls : sessionCalls news = item.calls
  failed : r'.failed = r.failed
  disconnecting : r'.disconnecting = r.disconnecting
  pings : (Keepalive.nonces news).length ≤ 1
  served : Served env (arrived ++ [item]) r' (news.foldl (Connection.apply env clock) sessions)

theorem served_finished {before : List Item} (served : Served env (.greeting :: before) r sessions)
    (clock : Clock) :
    ∃ news, Passes env clock (.greeting :: before) .done sessions r
      (finished env.chance r 0) news := by
  by_cases first : r.phase = 1
  · rw [finished, if_pos first]
    exact ⟨[.isDone r.active, .session 0 .done, .ping _],
      List.append_assoc _ _ _, rfl, rfl, rfl, Nat.le_refl 1, served.called .done rfl rfl clock⟩
  · rw [finished, if_neg first]
    exact ⟨[.isDone r.active, .session 0 .done], rfl, rfl, rfl, rfl, Nat.zero_le 1,
      served.called .done rfl rfl clock⟩

/-- A message of the script opens the session or is a call of it. -/
theorem served_item (passes : ∀ n, env.chance.timePasses n = true) {item : Item}
    (split : script letters = arrived ++ item :: rest) (served : Served env arrived r sessions)
    (clock : Clock) :
    ∃ news, Passes env clock arrived item sessions r
      (afterFrame env.chance r (item.frame serverKey)).2 news := by
  rcases script_split split with ⟨rfl, rfl⟩ | ⟨other, before, rfl⟩
  · obtain ⟨g, after⟩ := afterFrame_greets env.chance r (clientGreetingFrame_greets serverKey)
    obtain ⟨-, count, rfl⟩ := served
    have sess : (r.greeted g).sess = some 0 := by
      show some r.sessions = some 0
      rw [count]
    show ∃ news, Passes env clock _ _ _ r (afterFrame _ _ (clientGreetingFrame serverKey)).2 news
    rw [after]
    exact ⟨[.addClient], rfl, rfl, rfl, rfl, Nat.zero_le 1, sess, [], by simp, rfl, rfl⟩
  · cases item with
    | greeting => exact absurd rfl other
    | letter l =>
      show ∃ news, Passes env clock _ _ _ r (afterFrame _ _ l.frame).2 news
      rw [l.reads env.chance r 0 served.1]
      exact ⟨[.session 0 l.call], rfl, rfl, rfl, rfl, Nat.zero_le 1,
        served.called (.letter l) rfl rfl clock⟩
    | done =>
      show ∃ news, Passes env clock _ _ _ r (afterFrame _ _ uploadDoneFrame).2 news
      rw [afterFrame_uploadDone env.chance r passes served.1]
      exact served_finished served clock

theorem Served.fire (served : Served env arrived r sessions) (number : Nat) (outcome : Outcome) :
    Served env arrived r
      (sessions.modify number fun t => t.fire (env.factory number) outcome) := by
  cases arrived with
  | nil =>
    obtain ⟨sess, count, rfl⟩ := served
    exact ⟨sess, count, by simp⟩
  | cons first before =>
    obtain ⟨sess, events, unclosed, messages, rfl⟩ := served
    cases number with
    | zero =>
      refine ⟨sess, events ++ [.fires outcome], by simp [unclosed], ?_, ?_⟩
      · rw [← messages]
        simp [received]
      · rw [CollectionSession.run_append]
        rfl
    | succ number => exact ⟨sess, events, unclosed, messages, by simp⟩

end Server

end Recsync.System
