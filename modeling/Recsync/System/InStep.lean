import Recsync.System.Link

set_option autoImplicit false

/- A client and a server stay in step. -/
namespace Recsync.System

open Protocol Recast CastReceiver

/-- Where the messages of the script and the answers to the pings are. -/
structure Flow (env : Surroundings) (serverKey : Nat) (letters : List Letter) (s : Link)
    (arrived inFlight later : List Item) (answers : List Frame) : Prop where
  split : script letters = arrived ++ (inFlight ++ later)
  todo : s.todo = later.map (Item.frame serverKey)
  toServer : s.keepalive.toServer = inFlight.map (Item.frame serverKey) ++ answers
  pongs : ∀ f ∈ answers, f.msgId = Pong.msgId
  last : answers ≠ [] → later = []
  fresh : s.phase = .connected → arrived = [] ∧ inFlight = []
  served : Served env arrived s.keepalive.server s.sessions
  calls : sessionCalls s.keepalive.server.effects = arrived.flatMap Item.calls

/-- The random numbers are those of `randint(0, 0xFFFFFFFF)`, and an upload takes some time. -/
structure Normal (env : Surroundings) : Prop where
  range : ∀ n, env.chance.randint n < 2 ^ 32
  passes : ∀ n, env.chance.timePasses n = true

/-- What holds of a link in every run. -/
structure Good (env : Surroundings) (serverKey : Nat) (letters : List Letter) (s : Link) :
    Prop where
  valid : s.keepalive.Valid
  unfailed : s.keepalive.server.failed = none
  accepted : s.phase ≠ .refused
  greeting : s.phase ≠ .talking → ∃ more, s.keepalive.toClient = greetingFrame :: more
  flow : ∃ arrived inFlight later answers,
    Flow env serverKey letters s arrived inFlight later answers

namespace Good

variable {env : Surroundings} {serverKey : Nat} {letters : List Letter} {s : Link}
  (normal : Normal env)

theorem valid_disconnecting {k : Keepalive} (valid : k.Valid) (b : Bool) :
    Keepalive.Valid { k with server := { k.server with
      disconnecting := k.server.disconnecting || b } } := by
  refine ⟨valid.agreed.congr rfl rfl rfl, ?_⟩
  intro alive
  apply valid.parsing
  simp only [CastReceiver.alive, Bool.and_eq_true, Bool.not_eq_true', Bool.or_eq_false_iff]
    at alive ⊢
  exact ⟨alive.1.1, alive.2⟩

include normal in
theorem start (serverKey : Nat) (letters : List Letter) :
    Good env serverKey letters (.start serverKey letters) where
  valid := Keepalive.run_valid normal.range []
  unfailed := rfl
  accepted := by simp [Link.start]
  greeting _ := ⟨[], rfl⟩
  flow := ⟨[], [], script letters, [], rfl, rfl, rfl, by simp, by simp, fun _ => ⟨rfl, rfl⟩,
    ⟨rfl, rfl, rfl⟩, rfl⟩

theorem withSessions (good : Good env serverKey letters s) {sessions : List CollectionSession}
    (served : ∀ arrived, Served env arrived s.keepalive.server s.sessions →
      Served env arrived s.keepalive.server sessions) :
    Good env serverKey letters (s.withSessions sessions) := by
  obtain ⟨arrived, inFlight, later, answers, flow⟩ := good.flow
  refine ⟨valid_disconnecting good.valid _, good.unfailed, good.accepted, good.greeting,
    arrived, inFlight, later, answers, ?_⟩
  exact { flow with served := (served arrived flow.served).congr rfl rfl }

include normal in
theorem sendNext (good : Good env serverKey letters s) {phase : ClientPhase}
    (follows : s.phase = .connected ∧ phase = .waiting ∨ s.phase = .talking ∧ phase = .talking) :
    Good env serverKey letters (s.sendNext env phase) := by
  obtain ⟨arrived, inFlight, later, answers, flow⟩ := good.flow
  cases later with
  | nil =>
    have same : s.sendNext env phase = s := by
      rw [Link.sendNext, flow.todo]
      rfl
    rw [same]
    exact good
  | cons item later =>
    have noAnswers : answers = [] := by
      by_contra some
      exact List.cons_ne_nil _ _ (flow.last some)
    have next : s.sendNext env phase = { s with
        keepalive := { s.keepalive with
          toServer := s.keepalive.toServer ++ [item.frame serverKey] }
        phase
        todo := later.map (Item.frame serverKey) } := by
      rw [Link.sendNext, flow.todo]
      simp only [List.map_cons, Keepalive.step, if_neg (item.frame_noPong serverKey)]
    have valid := Keepalive.step_valid normal.range good.valid
      (.send (item.frame serverKey))
    simp only [Keepalive.step, if_neg (item.frame_noPong serverKey)] at valid
    rw [next]
    refine ⟨valid, good.unfailed, ?_, ?_, arrived, inFlight ++ [item], later, [], ?_⟩
    · rcases follows with ⟨-, rfl⟩ | ⟨-, rfl⟩ <;> simp
    · intro silent
      apply good.greeting
      rcases follows with ⟨connected, -⟩ | ⟨-, rfl⟩
      · rw [connected]
        simp
      · exact absurd rfl silent
    · refine ⟨by simp [flow.split], rfl, ?_, by simp, by simp, ?_, flow.served, flow.calls⟩
      · show s.keepalive.toServer ++ _ = _
        simp [flow.toServer, noAnswers]
      · show phase = .connected → _
        rcases follows with ⟨-, rfl⟩ | ⟨-, rfl⟩ <;> simp

theorem readGreeting (good : Good env serverKey letters s) (waiting : s.phase = .waiting) :
    Good env serverKey letters s.readGreeting := by
  obtain ⟨arrived, inFlight, later, answers, flow⟩ := good.flow
  obtain ⟨more, queue⟩ := good.greeting (by simp [waiting])
  have next : s.readGreeting = { s with
      keepalive := { s.keepalive with toClient := more }, phase := .talking } := by
    simp only [Link.readGreeting, queue]
    rfl
  have same : Keepalive.outstanding { s.keepalive with toClient := more } =
      s.keepalive.outstanding := by
    rw [Keepalive.outstanding_eq, Keepalive.outstanding_eq, queue, Keepalive.pings_cons]
    rfl
  rw [next]
  refine ⟨⟨good.valid.agreed.congr rfl rfl same, good.valid.parsing⟩, good.unfailed, by simp,
    fun silent => absurd rfl silent, arrived, inFlight, later, answers, ?_⟩
  exact ⟨flow.split, flow.todo, flow.toServer, flow.pongs, flow.last, by simp, flow.served,
    flow.calls⟩

include normal in
/-- The client reads a message after its upload. -/
theorem readNext (good : Good env serverKey letters s) (talking : s.phase = .talking)
    (sent : s.todo = []) :
    Good env serverKey letters { s with keepalive := s.keepalive.step env.chance .read } := by
  obtain ⟨arrived, inFlight, later, answers, flow⟩ := good.flow
  have ended : later = [] := by
    rw [flow.todo] at sent
    exact List.map_eq_nil_iff.mp sent
  cases queue : s.keepalive.toClient with
  | nil =>
    have same : s.keepalive.step env.chance .read = s.keepalive := by
      simp only [Keepalive.step, queue]
    rw [same]
    exact good
  | cons f rest =>
    have valid := Keepalive.step_valid normal.range good.valid .read
    have next : s.keepalive.step env.chance .read =
        { s.keepalive with toClient := rest, toServer := s.keepalive.toServer ++ echo f } := by
      simp only [Keepalive.step, queue]
    simp only [Keepalive.step, queue] at valid
    rw [next]
    refine ⟨valid, good.unfailed, good.accepted, fun silent => absurd talking silent,
      arrived, inFlight, later, answers ++ echo f, ?_⟩
    refine ⟨flow.split, flow.todo, ?_, ?_, fun _ => ended, ?_, flow.served, flow.calls⟩
    · show s.keepalive.toServer ++ echo f = _
      rw [flow.toServer, List.append_assoc]
    · intro g member
      rcases List.mem_append.mp member with old | new
      · exact flow.pongs g old
      · unfold echo at new
        split at new
        · rw [List.mem_singleton.mp new]
        · cases new
    · intro connected
      exact flow.fresh connected

include normal in
theorem expire (good : Good env serverKey letters s) :
    Good env serverKey letters { s with keepalive := s.keepalive.step env.chance .expire } := by
  obtain ⟨arrived, inFlight, later, answers, flow⟩ := good.flow
  have valid := Keepalive.step_valid normal.range good.valid .expire
  by_cases armed : s.keepalive.armed = true
  · by_cases waiting : s.keepalive.server.phase = 2
    · simp only [Keepalive.step, if_pos armed, writePing_missed env.chance waiting] at valid ⊢
      have quiet : Keepalive.newPings s.keepalive.server
          { s.keepalive.server with disconnecting := true } = [] := Keepalive.newPings_same rfl
      refine ⟨valid, good.unfailed, good.accepted, ?_, arrived, inFlight, later, answers, ?_⟩
      · intro silent
        obtain ⟨more, queue⟩ := good.greeting silent
        exact ⟨more ++ _, by simp [Keepalive.serverTo, queue]; rfl⟩
      · exact { flow with served := flow.served.congr rfl rfl }
    · simp only [Keepalive.step, if_pos armed, writePing_idle env.chance waiting] at valid ⊢
      refine ⟨valid, good.unfailed, good.accepted, ?_, arrived, inFlight, later, answers, ?_⟩
      · intro silent
        obtain ⟨more, queue⟩ := good.greeting silent
        exact ⟨more ++ _, by simp [Keepalive.serverTo, queue]; rfl⟩
      · refine { flow with served := flow.served.congr rfl rfl, calls := ?_ }
        show sessionCalls (s.keepalive.server.effects ++ [.ping _]) = _
        rw [sessionCalls_append, flow.calls]
        exact List.append_nil _
  · simp only [Keepalive.step, if_neg armed]
    exact good

theorem filled (good : Good env serverKey letters s) {f : Frame} {rest : List Frame}
    (queue : s.keepalive.toServer = f :: rest) : f.body ≠ [] := by
  obtain ⟨arrived, inFlight, later, answers, flow⟩ := good.flow
  cases inFlight with
  | nil =>
    have pong : f.msgId = Pong.msgId := by
      apply flow.pongs
      rw [← show f :: rest = answers from queue.symm.trans flow.toServer]
      exact List.mem_cons_self
    obtain ⟨nonce, -, body, -⟩ := good.valid.agreed.pong queue pong
    rw [body]
    exact List.cons_ne_nil _ _
  | cons item inFlight =>
    have same := queue.symm.trans flow.toServer
    rw [List.map_cons, List.cons_append, List.cons.injEq] at same
    rw [same.1]
    exact item.frame_filled serverKey

/-- The keepalive changes in what the flow does not look at. -/
theorem quietly (good : Good env serverKey letters s) {k : Keepalive} (valid : k.Valid)
    (server : k.server = s.keepalive.server) (toServer : k.toServer = s.keepalive.toServer)
    (toClient : k.toClient = s.keepalive.toClient) (sessions : List CollectionSession)
    (same : sessions = s.sessions) :
    Good env serverKey letters ({ s with keepalive := k }.withSessions sessions) := by
  obtain ⟨arrived, inFlight, later, answers, flow⟩ := good.flow
  have changed : Good env serverKey letters { s with keepalive := k } := by
    refine ⟨valid, ?_, good.accepted, ?_, arrived, inFlight, later, answers, ?_⟩
    · show k.server.failed = none
      rw [server]
      exact good.unfailed
    · intro silent
      obtain ⟨more, queue⟩ := good.greeting silent
      exact ⟨more, toClient.trans queue⟩
    · refine ⟨flow.split, flow.todo, toServer.trans flow.toServer, flow.pongs, flow.last,
        flow.fresh, ?_, ?_⟩
      · show Served env arrived k.server s.sessions
        rw [server]
        exact flow.served
      · show sessionCalls k.server.effects = _
        rw [server]
        exact flow.calls
  apply changed.withSessions
  intro arrived served
  rw [same]
  exact served

/-- What the arrival of a body changes besides the receiver. -/
structure Arrival (s : Link) (f : Frame) (rest : List Frame) (k : Keepalive) : Prop where
  disconnecting : k.server.disconnecting = s.keepalive.server.disconnecting
  toServer : k.toServer = rest
  toClient : ∃ pings, k.toClient = s.keepalive.toClient ++ pings.map pingFrame ∧
    pings.length ≤ 1 ∧ (f.msgId = Pong.msgId → pings = [])
  expecting : k.server.alive = true → k.expecting = getInitialState

/-- What is known of the connection when a body has arrived, whatever it says. -/
structure BodyRead (env : Surroundings) (s : Link) (f : Frame) (rest : List Frame) (k : Keepalive) :
    Prop where
  valid : k.Valid
  server : k.server = (afterFrame env.chance s.keepalive.server f).2
  toServer : k.toServer = rest
  toClient : k.toClient = s.keepalive.toClient ++
    (Keepalive.newPings s.keepalive.server k.server).map pingFrame
  expecting : k.server.alive = true → k.expecting = getInitialState

include normal in
theorem bodyRead (good : Good env serverKey letters s) (alive : s.keepalive.server.alive = true)
    {f : Frame} {rest : List Frame} (queue : s.keepalive.toServer = f :: rest)
    (expected : announced f = some s.keepalive.expecting) :
    BodyRead env s f rest (s.keepalive.arrive env.chance) := by
  have whole := @Keepalive.arrive_body env.chance s.keepalive f rest queue expected
  have server : (s.keepalive.arrive env.chance).server =
      (afterFrame env.chance s.keepalive.server f).2 := by
    simp only [whole, Keepalive.serverTo]
  refine ⟨Keepalive.arrive_valid normal.range good.valid alive, server, by simp only [whole],
    ?_, ?_⟩
  · rw [server]
    simp only [whole, Keepalive.serverTo]
  · rw [server]
    simp only [whole]
    exact afterFrame_header env.chance s.keepalive.server f

/-- The greeting stays in front of what the server sends. -/
theorem BodyRead.greeting {f : Frame} {rest : List Frame} {k : Keepalive}
    (read : BodyRead env s f rest k) (good : Good env serverKey letters s)
    (silent : s.phase ≠ .talking) : ∃ more, k.toClient = greetingFrame :: more := by
  obtain ⟨more, first⟩ := good.greeting silent
  exact ⟨_, by rw [read.toClient, first]; rfl⟩

/-- With no message of the script on the way, the body answers a ping. -/
theorem arrivePong (good : Good env serverKey letters s) {f : Frame} {rest : List Frame}
    (queue : s.keepalive.toServer = f :: rest) {k : Keepalive} (read : BodyRead env s f rest k)
    (ponged : k.server = { s.keepalive.server with phase := 1 }) {arrived later : List Item}
    {answers : List Frame} (flow : Flow env serverKey letters s arrived [] later answers)
    (clock : Clock) :
    let news := k.server.effects.drop s.keepalive.server.effects.length
    Arrival s f rest k ∧ Good env serverKey letters
      { s with keepalive := k, sessions := news.foldl (Connection.apply env clock) s.sessions } := by
  intro news
  have answered : f :: rest = answers := queue.symm.trans flow.toServer
  have nothing : news = [] := by simp only [news, ponged, List.drop_length]
  have quiet : Keepalive.newPings s.keepalive.server k.server = [] := by
    rw [ponged]
    exact Keepalive.newPings_same rfl
  have arrival : Arrival s f rest k :=
    ⟨by rw [ponged], read.toServer, ⟨_, read.toClient, by simp [quiet], fun _ => quiet⟩,
      read.expecting⟩
  refine ⟨arrival, read.valid, by rw [ponged]; exact good.unfailed, good.accepted,
    read.greeting good, arrived, [], later, rest, ?_⟩
  refine ⟨flow.split, flow.todo, read.toServer, ?_, ?_, flow.fresh, ?_, ?_⟩
  · intro g member
    apply flow.pongs
    rw [← answered]
    exact List.mem_cons_of_mem f member
  · intro _
    apply flow.last
    rw [← answered]
    exact List.cons_ne_nil f rest
  · rw [nothing]
    exact flow.served.congr (by rw [ponged]) (by rw [ponged])
  · rw [ponged]
    exact flow.calls

include normal in
/-- The body is that of the next message of the script. -/
theorem arriveItem (good : Good env serverKey letters s) {f : Frame} {rest : List Frame}
    (queue : s.keepalive.toServer = f :: rest) {k : Keepalive} (read : BodyRead env s f rest k)
    {arrived later inFlight : List Item} {item : Item} {answers : List Frame}
    (flow : Flow env serverKey letters s arrived (item :: inFlight) later answers)
    (clock : Clock) :
    let news := k.server.effects.drop s.keepalive.server.effects.length
    Arrival s f rest k ∧ Good env serverKey letters
      { s with keepalive := k, sessions := news.foldl (Connection.apply env clock) s.sessions } := by
  intro news
  have heads := queue.symm.trans flow.toServer
  rw [List.map_cons, List.cons_append, List.cons.injEq] at heads
  obtain ⟨same, others⟩ := heads
  obtain ⟨news', passes⟩ := @served_item env serverKey letters arrived _ _ _ normal.passes item
    flow.split flow.served clock
  rw [← same, ← read.server] at passes
  have these : news = news' := by simp only [news, passes.effects, List.drop_left]
  have few : (Keepalive.newPings s.keepalive.server k.server).length ≤ 1 := by
    rw [Keepalive.newPings_of passes.effects rfl]
    exact passes.pings
  have arrival : Arrival s f rest k := by
    refine ⟨passes.disconnecting, read.toServer, ⟨_, read.toClient, few, fun pong => ?_⟩,
      read.expecting⟩
    rw [same] at pong
    exact absurd pong (item.frame_noPong serverKey)
  refine ⟨arrival, read.valid, passes.failed.trans good.unfailed, good.accepted,
    read.greeting good, arrived ++ [item], inFlight, later, answers, ?_⟩
  refine ⟨by simp [flow.split], flow.todo, read.toServer.trans others, flow.pongs, flow.last, ?_,
    by rw [these]; exact passes.served, ?_⟩
  · intro connected
    have nothing := (flow.fresh connected).2
    exact absurd nothing (List.cons_ne_nil _ _)
  · rw [passes.effects, sessionCalls_append, flow.calls, passes.calls]
    simp

include normal in
/-- The body of the next message arrives. -/
theorem arriveBody (good : Good env serverKey letters s) (alive : s.keepalive.server.alive = true)
    {f : Frame} {rest : List Frame} (queue : s.keepalive.toServer = f :: rest)
    (expected : announced f = some s.keepalive.expecting) (clock : Clock) :
    let keepalive := s.keepalive.arrive env.chance
    let news := keepalive.server.effects.drop s.keepalive.server.effects.length
    Arrival s f rest keepalive ∧
      Good env serverKey letters ({ s with keepalive }.withSessions
        (news.foldl (Connection.apply env clock) s.sessions)) := by
  intro keepalive news
  have read := bodyRead normal good alive queue expected
  obtain ⟨arrived, inFlight, later, answers, flow⟩ := good.flow
  have changed : Arrival s f rest keepalive ∧
      Good env serverKey letters
        { s with keepalive, sessions := news.foldl (Connection.apply env clock) s.sessions } := by
    cases inFlight with
    | nil =>
      have answered : f :: rest = answers := queue.symm.trans flow.toServer
      have pong : f.msgId = Pong.msgId := by
        apply flow.pongs
        rw [← answered]
        exact List.mem_cons_self
      obtain ⟨-, -, -, ponged⟩ := Keepalive.arrive_pong good.valid queue expected pong
      exact good.arrivePong queue read ponged flow clock
    | cons item inFlight => exact arriveItem normal good queue read flow clock
  exact ⟨changed.1, changed.2.withSessions fun _ served => served⟩

include normal in
/-- The next header or body arrives. It does not close the connection. -/
theorem arrive (good : Good env serverKey letters s) (clock : Clock) :
    (s.keepalive.step env.chance .arrive).server.disconnecting =
        s.keepalive.server.disconnecting ∧
      Good env serverKey letters (s.step env (.arrive clock)) := by
  have unchanged : s.keepalive.step env.chance .arrive = s.keepalive →
      (s.keepalive.step env.chance .arrive).server.disconnecting =
          s.keepalive.server.disconnecting ∧
        Good env serverKey letters (s.step env (.arrive clock)) := by
    intro same
    refine ⟨by rw [same], ?_⟩
    simp only [Link.step, same, List.drop_length]
    exact good.withSessions fun _ served => served
  by_cases alive : s.keepalive.server.alive = true
  · have arrives : s.keepalive.step env.chance .arrive = s.keepalive.arrive env.chance :=
      if_pos alive
    cases queue : s.keepalive.toServer with
    | nil =>
      apply unchanged
      rw [arrives]
      simp only [Keepalive.arrive, queue]
    | cons f rest =>
      simp only [Link.step, arrives]
      rcases good.valid.parsing alive with header | ⟨f', rest', queue', expected⟩
      · have valid := Keepalive.arrive_valid normal.range good.valid alive
        rw [Keepalive.arrive_header queue header, if_neg (good.filled queue)] at valid ⊢
        exact ⟨rfl, good.quietly valid rfl queue.symm rfl _ (by simp only [List.drop_length]; rfl)⟩
      · have body := good.arriveBody normal alive queue' expected clock
        exact ⟨body.1.disconnecting, body.2⟩
  · exact unchanged (if_neg alive)

include normal in
theorem step (good : Good env serverKey letters s) (e : LinkEvent) :
    Good env serverKey letters (s.step env e) := by
  cases e with
  | send =>
    cases phase : s.phase with
    | connected =>
      simp only [Link.step, phase]
      exact good.sendNext normal (Or.inl ⟨phase, rfl⟩)
    | talking =>
      simp only [Link.step, phase]
      exact good.sendNext normal (Or.inr ⟨phase, rfl⟩)
    | waiting => simpa only [Link.step, phase] using good
    | refused => simpa only [Link.step, phase] using good
  | read =>
    cases phase : s.phase with
    | waiting =>
      simp only [Link.step, phase]
      exact good.readGreeting phase
    | talking =>
      simp only [Link.step, phase]
      split
      · next sent => simpa only [phase] using good.readNext normal phase (List.isEmpty_iff.mp sent)
      · exact good
    | connected => simpa only [Link.step, phase] using good
    | refused => simpa only [Link.step, phase] using good
  | arrive clock => exact (good.arrive normal clock).2
  | expire => exact good.expire normal
  | fires number outcome =>
    exact good.withSessions fun _ served => served.fire number outcome

include normal in
theorem run (good : Good env serverKey letters s) (events : List LinkEvent) :
    Good env serverKey letters (s.run env events) := by
  induction events generalizing s with
  | nil => exact good
  | cons e events ih => exact ih (good.step normal e)

theorem sessions_length (good : Good env serverKey letters s) : s.sessions.length ≤ 1 := by
  obtain ⟨arrived, inFlight, later, answers, flow⟩ := good.flow
  have served := flow.served
  cases arrived with
  | nil => simp [served.2.2]
  | cons first before =>
    obtain ⟨-, events, -, -, sessions⟩ := served
    simp [sessions]

theorem calls_begun (good : Good env serverKey letters s) :
    sessionCalls s.keepalive.server.effects <+: letters.map Letter.call ++ [.done] := by
  obtain ⟨arrived, inFlight, later, answers, flow⟩ := good.flow
  rw [← script_calls, flow.split, List.flatMap_append, flow.calls]
  exact List.prefix_append _ _

/-- All messages of the script have arrived. -/
def Delivered (s : Link) : Prop :=
  s.todo = [] ∧ ∀ f ∈ s.keepalive.toServer, f.msgId = Pong.msgId

theorem flow_delivered (good : Good env serverKey letters s) (delivered : Delivered s) :
    Served env (script letters) s.keepalive.server s.sessions ∧
      sessionCalls s.keepalive.server.effects = letters.map Letter.call ++ [.done] := by
  obtain ⟨arrived, inFlight, later, answers, flow⟩ := good.flow
  have sent : later = [] := by
    have nothing := delivered.1
    rw [flow.todo] at nothing
    exact List.map_eq_nil_iff.mp nothing
  have received : inFlight = [] := by
    cases inFlight with
    | nil => rfl
    | cons item others =>
      have pong := delivered.2 (item.frame serverKey) (by simp [flow.toServer])
      exact absurd pong (item.frame_noPong serverKey)
  have all : arrived = script letters := by simp [flow.split, sent, received]
  subst all
  exact ⟨flow.served, flow.calls.trans (script_calls letters)⟩

theorem keepalive_server (chance : Chance) (k : Keepalive) {e : KeepaliveEvent}
    (client : e = .read ∨ ∃ f, e = .send f) : (k.step chance e).server = k.server := by
  rcases client with rfl | ⟨f, rfl⟩
  · simp only [Keepalive.step]
    split <;> rfl
  · simp only [Keepalive.step]
    split <;> rfl

theorem step_client (env : Surroundings) (s : Link) {e : LinkEvent}
    (client : e = .send ∨ e = .read) :
    (s.step env e).keepalive.server = s.keepalive.server ∧ (s.step env e).sessions =
      s.sessions := by
  have next (phase : ClientPhase) : (s.sendNext env phase).keepalive.server = s.keepalive.server ∧
      (s.sendNext env phase).sessions = s.sessions := by
    rw [Link.sendNext]
    split
    · exact ⟨rfl, rfl⟩
    · exact ⟨keepalive_server env.chance s.keepalive (Or.inr ⟨_, rfl⟩), rfl⟩
  rcases client with rfl | rfl
  · simp only [Link.step]
    split
    · exact next .waiting
    · exact next .talking
    · exact ⟨rfl, rfl⟩
  · simp only [Link.step]
    split
    · rw [Link.readGreeting]
      split <;> exact ⟨rfl, rfl⟩
    · split
      · exact ⟨keepalive_server env.chance s.keepalive (Or.inl rfl), rfl⟩
      · exact ⟨rfl, rfl⟩
    · exact ⟨rfl, rfl⟩

include normal in
/-- What closes the connection: the timer when a ping is unanswered, or a commit that failed. -/
theorem step_closes (good : Good env serverKey letters s) (e : LinkEvent)
    (opened : s.keepalive.server.disconnecting = false)
    (closed : (s.step env e).keepalive.server.disconnecting = true) :
    e = .expire ∧ s.keepalive.server.phase = 2 ∧ s.keepalive.outstanding ≠ [] ∨
      Connection.lost (s.step env e).sessions = true := by
  have kept : ¬ (e = .send ∨ e = .read) := by
    intro client
    rw [(step_client env s client).1, opened] at closed
    cases closed
  cases e with
  | send => exact absurd (Or.inl rfl) kept
  | read => exact absurd (Or.inr rfl) kept
  | arrive clock =>
    have silent := (good.arrive normal clock).1.trans opened
    have either : ((s.keepalive.step env.chance .arrive).server.disconnecting ||
        Connection.lost (s.step env (.arrive clock)).sessions) = true := closed
    rw [silent, Bool.false_or] at either
    exact Or.inr either
  | expire =>
    rcases Keepalive.step_closes good.valid .expire opened closed with missed | ⟨never, -⟩
    · exact Or.inl ⟨rfl, missed.2⟩
    · cases never
  | fires number outcome =>
    have either : (s.keepalive.server.disconnecting ||
        Connection.lost (s.step env (.fires number outcome)).sessions) = true := closed
    rw [opened, Bool.false_or] at either
    exact Or.inr either

end Good

/-- In every run of a client and a server, with any timing of the messages, the timer and the
commits: the server raises nothing and the client does not refuse it, one session is opened at most,
it has got the calls of the first messages of the upload in order and no others, and all of them
when all messages have arrived; and only an unanswered ping or a failed commit closes the
connection. -/
theorem link_in_step {env : Surroundings} (normal : Normal env) (serverKey : Nat)
    (letters : List Letter) (events : List LinkEvent) :
    let s := (Link.start serverKey letters).run env events
    s.keepalive.server.failed = none ∧ s.phase ≠ .refused ∧ s.sessions.length ≤ 1 ∧
      sessionCalls s.keepalive.server.effects <+: letters.map Letter.call ++ [.done] ∧
      (Good.Delivered s →
        sessionCalls s.keepalive.server.effects = letters.map Letter.call ++ [.done]) ∧
      ∀ e, s.keepalive.server.disconnecting = false →
        (s.step env e).keepalive.server.disconnecting = true →
          e = .expire ∧ s.keepalive.server.phase = 2 ∧ s.keepalive.outstanding ≠ [] ∨
            Connection.lost (s.step env e).sessions = true := by
  intro s
  have good : Good env serverKey letters s :=
    (Good.start normal serverKey letters).run normal events
  exact ⟨good.unfailed, good.accepted, good.sessions_length, good.calls_begun,
    fun delivered => (good.flow_delivered delivered).2, fun e => good.step_closes normal e⟩

theorem ai_noNul : 0 ∉ Bytes.encode "ai" := by decide +kernel

theorem pv_noNul : 0 ∉ Bytes.encode "pv" := by decide +kernel

def pvCall : Upload.Call := .sendRecord ⟨"ai", ai_noNul⟩ ⟨"pv", pv_noNul⟩

theorem pvCall_valid : Upload.ValidFrom 1 [pvCall] := ⟨by decide +kernel, trivial⟩

theorem pvCall_fits : ∀ c ∈ [pvCall], c.Fits = true := by decide +kernel

def pvLetters : List Letter := lettersFrom 1 [pvCall] pvCall_valid pvCall_fits

/-- A server whose commits take their time. -/
def quietServer : Surroundings where
  host := "10.0.0.7"
  port := 40001
  srcid := id
  factory _ _ := none

theorem quietServer_normal : Normal quietServer := ⟨fun _ => Nat.two_pow_pos 32, fun _ => rfl⟩

/-- The server sends a ping while the record is on its way, and the client answers it in the end. -/
def pingedUpload : List LinkEvent :=
  [.send, .arrive {}, .read, .send, .arrive {}, .arrive {}, .expire, .arrive {}, .send, .read,
    .arrive {}, .arrive {}, .arrive {}, .arrive {}]

theorem link_in_step_pinged :
    sessionCalls ((Link.start 5 pvLetters).run quietServer pingedUpload).keepalive.server.effects =
      [.addRecord 1 "ai" "pv", .done] := by
  have delivered : Good.Delivered ((Link.start 5 pvLetters).run quietServer pingedUpload) := by
    have all : ((Link.start 5 pvLetters).run quietServer pingedUpload).todo.isEmpty = true ∧
        ((Link.start 5 pvLetters).run quietServer pingedUpload).keepalive.toServer.isEmpty =
          true := by decide +kernel
    refine ⟨List.isEmpty_iff.mp all.1, ?_⟩
    rw [List.isEmpty_iff.mp all.2]
    simp
  exact (link_in_step quietServer_normal 5 pvLetters pingedUpload).2.2.2.2.1 delivered

end Recsync.System
