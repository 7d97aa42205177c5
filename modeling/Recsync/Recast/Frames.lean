import Recsync.Recast.Receiver

set_option autoImplicit false

/- The receiver, one frame at a time. -/
namespace Recsync.Recast

open Protocol Bytes

/-- A message with its header. -/
structure Frame where
  msgId : Nat
  body : List UInt8
  small : msgId < 2 ^ 16
  short : body.length < 2 ^ 32

namespace Frame

def header (f : Frame) : List UInt8 :=
  ofUInt 2 protoId ++ (ofUInt 2 f.msgId ++ ofUInt 4 f.body.length)

def bytes (f : Frame) : List UInt8 := f.header ++ f.body

def stream (frames : List Frame) : List UInt8 := frames.flatMap bytes

theorem stream_append (first second : List Frame) :
    stream (first ++ second) = stream first ++ stream second := List.flatMap_append

theorem length_header (f : Frame) : f.header.length = Header.payloadSize := by
  simp [header, Header.payloadSize]

theorem decode_header (f : Frame) : Header.decode f.header = .ok ⟨f.msgId, f.body.length⟩ :=
  Header.decode_packed f.small f.short

end Frame

namespace CastReceiver

variable (chance : Chance)

def alive (r : CastReceiver) : Bool := !r.disconnecting && r.failed.isNone

theorem closed_eq (s : Expecting × CastReceiver) : (receiver chance).closed s = !s.2.alive := by
  obtain ⟨expecting, r⟩ := s
  cases h : r.disconnecting <;> cases g : r.failed <;> simp [receiver, alive, h, g]

/-- What the header of a frame lets the receiver expect. -/
def announced (f : Frame) : Option Expecting :=
  if empty : f.body.length = 0 then none
  else if 0 ≤ (rxfn f.msgId).2 ∧ f.body.length < (rxfn f.msgId).2 then
    some ⟨.ignoreBody, f.body.length, Nat.pos_of_ne_zero empty⟩
  else some ⟨(rxfn f.msgId).1, f.body.length, Nat.pos_of_ne_zero empty⟩

theorem recvHeader_frame (f : Frame) (r : CastReceiver) :
    recvHeader f.header r = .ok (some ((announced f).getD getInitialState)) r := by
  unfold recvHeader announced
  rw [f.decode_header]
  by_cases empty : f.body.length = 0
  · simp only [empty, dite_true]
    rfl
  · simp only [empty, dite_false]
    by_cases brief : 0 ≤ (rxfn f.msgId).2 ∧ f.body.length < (rxfn f.msgId).2
    · simp only [brief, and_self, if_true]
      rfl
    · simp only [brief, if_false]
      rfl

theorem handle_ok {e next : Expecting} {r r' : CastReceiver} {data : List UInt8}
    (ran : run chance data e.fn r = .ok (some next) r') :
    (receiver chance).handle (e, r) data = (next, r') := by
  simp only [receiver, ran]

theorem handle_none {e : Expecting} {r r' : CastReceiver} {data : List UInt8}
    (ran : run chance data e.fn r = .ok none r') :
    (receiver chance).handle (e, r) data = (e, r') := by
  simp only [receiver, ran]

theorem handle_error {e : Expecting} {r r' : CastReceiver} {data : List UInt8} {failure : Failure}
    (ran : run chance data e.fn r = .error failure r') :
    (receiver chance).handle (e, r) data = (e, { r' with failed := some failure }) := by
  simp only [receiver, ran]

theorem handle_header (f : Frame) (r : CastReceiver) :
    (receiver chance).handle (getInitialState, r) f.header =
      ((announced f).getD getInitialState, r) := by
  apply handle_ok
  exact recvHeader_frame f r

def afterFrame (r : CastReceiver) (f : Frame) : Expecting × CastReceiver :=
  match announced f with
  | none => (getInitialState, r)
  | some expecting => (receiver chance).handle (expecting, r) f.body

theorem final_frame {r : CastReceiver} (opened : r.alive = true) (f : Frame) (rest : List UInt8) :
    Stateful.final (receiver chance) (getInitialState, r) (f.bytes ++ rest) =
      Stateful.final (receiver chance) (afterFrame chance r f) rest := by
  have there (e : Expecting) : (receiver chance).closed (e, r) = false := by
    rw [closed_eq]
    simp [opened]
  rw [Frame.bytes, List.append_assoc,
    Stateful.final_deliver (there _) (f.length_header), handle_header, afterFrame]
  cases expected : announced f with
  | none =>
    have empty : f.body = [] := by
      unfold announced at expected
      split at expected
      · exact List.length_eq_zero_iff.mp ‹_›
      · split at expected <;> cases expected
    rw [empty]
    rfl
  | some expecting =>
    have wanted : f.body.length = (receiver chance).wants (expecting, r) := by
      unfold announced at expected
      split at expected
      · cases expected
      · split at expected <;>
        · cases expected
          rfl
    exact Stateful.final_deliver (there _) wanted rest

/-- The receiver after `writePing` in phase 1. -/
def pinged (r : CastReceiver) : CastReceiver :=
  { r with
    phase := 2
    nonce := some (chance.randint r.effects.length)
    effects := r.effects ++ [.ping (chance.randint r.effects.length)] }

/-- The receiver after `recvDone` of the session `number`. -/
def finished (r : CastReceiver) (number : Nat) : CastReceiver :=
  let r' := { r with
    active := false
    effects := r.effects ++ [.isDone r.active, .session number .done] }
  if r.phase = 1 then pinged chance r' else r'

/-- The receiver after `recvClientGreeting`. -/
def greeted (r : CastReceiver) (g : ClientGreeting) : CastReceiver :=
  { r with
    version := min r.version g.version
    clientKey := some g.serverKey
    sess := some r.sessions
    sessions := r.sessions + 1
    effects := r.effects ++ [.addClient] }

/-- All that a function can do with the body that it is handed. -/
inductive Reaction (body : List UInt8) (r : CastReceiver) :
    RxFn → EStateM.Result Failure CastReceiver (Option Expecting) → Prop where
  | ignored {fn : RxFn} : fn ≠ .recvClientGreeting → fn ≠ .recvPong → fn ≠ .unboundIgnoreBody →
      Reaction body r fn (.ok (some getInitialState) r)
  | refused {fn : RxFn} : fn = .recvClientGreeting ∨ fn = .recvPong ∧ body.length ≠ 4 →
      (∀ g, ClientGreeting.decode body = .ok g → fn = .recvClientGreeting → g.clientType ≠ 0) →
      Reaction body r fn (.ok none { r with disconnecting := true })
  | greeted (g : ClientGreeting) : ClientGreeting.decode body = .ok g → g.clientType = 0 →
      Reaction body r .recvClientGreeting (.ok (some getInitialState) (r.greeted g))
  | ponged (p : Pong) : Pong.decode body = .ok p → r.nonce = some p.nonce →
      Reaction body r .recvPong (.ok (some getInitialState) { r with phase := 1 })
  | mismatched (p : Pong) (nonce : Nat) : Pong.decode body = .ok p → r.nonce = some nonce →
      p.nonce ≠ nonce →
      Reaction body r .recvPong (.ok (some getInitialState) { r with disconnecting := true })
  | called {fn : RxFn} (number : Nat) (call : SessionCall) : r.sess = some number → call ≠ .done →
      fn = .recvAddRec ∨ fn = .recvDelRec ∨ fn = .recvInfo →
      Reaction body r fn (.ok (some getInitialState)
        { r with effects := r.effects ++ [.session number call] })
  | failed {fn : RxFn} (failure : Failure) : fn ≠ .recvClientGreeting → fn ≠ .ignoreBody →
      (fn = .recvPong → r.nonce = none) → Reaction body r fn (.error failure r)
  | orphaned : r.sess = none →
      Reaction body r .recvDone (.error .attributeError
        { r with active := false, effects := r.effects ++ [.isDone r.active] })
  | done (number : Nat) : r.sess = some number →
      Reaction body r .recvDone (.ok (some getInitialState) (finished chance r number))
  | doneAtOnce (number : Nat) : r.sess = some number →
      Reaction body r .recvDone (.error .zeroDivisionError (finished chance r number))

theorem fixed_decode_cases {α : Type} (body : List UInt8) (size : Nat) (name : String) (value : α) :
    (do requireLength body size name true; return value : Decoded α) = .ok value ∧
        body.length = size ∨
      ∃ message, (do requireLength body size name true; return value : Decoded α) =
        .error (.protocolError message) ∧ body.length ≠ size := by
  by_cases exactly : body.length = size
  · exact Or.inl ⟨by rw [requireLength_exact exactly]; rfl, exactly⟩
  · obtain ⟨message, wrong⟩ := requireLength_wrong exactly name
    exact Or.inr ⟨message, by rw [wrong]; rfl, exactly⟩

theorem callSession_cases (call : SessionCall) (r : CastReceiver) :
    (∃ number, r.sess = some number ∧ callSession call r =
        .ok () { r with effects := r.effects ++ [.session number call] }) ∨
      r.sess = none ∧ callSession call r = .error .attributeError r := by
  cases session : r.sess with
  | none =>
    cases r
    cases session
    exact Or.inr ⟨rfl, rfl⟩
  | some number =>
    have done := callSession_opened session call
    rw [session] at done
    exact Or.inl ⟨number, rfl, done⟩

theorem recvClientGreeting_reacts (body : List UInt8) (r : CastReceiver) :
    Reaction chance body r .recvClientGreeting (recvClientGreeting body r) := by
  unfold recvClientGreeting
  rcases fixed_decode_cases body ClientGreeting.payloadSize "ClientGreeting"
    (⟨uintAt 0 1 body, uintAt 1 1 body, uintAt 4 4 body⟩ : ClientGreeting)
    with ⟨decoded, -⟩ | ⟨message, refused, -⟩
  · have decoded : ClientGreeting.decode body = _ := decoded
    rw [decoded]
    by_cases plain : uintAt 1 1 body = 0
    · simp only [plain, ne_eq, not_true_eq_false, if_false]
      exact .greeted ⟨uintAt 0 1 body, 0, uintAt 4 4 body⟩ (by rw [decoded, plain]) rfl
    · simp only [plain, ne_eq, not_false_eq_true, if_true]
      refine .refused (.inl rfl) ?_
      intro g same _
      rw [decoded] at same
      cases same
      exact plain
  · have refused : ClientGreeting.decode body = _ := refused
    rw [refused]
    refine .refused (.inl rfl) ?_
    intro g same
    rw [refused] at same
    cases same

theorem recvPong_decoded {body : List UInt8} {p : Pong} (decoded : Pong.decode body = .ok p)
    (r : CastReceiver) : recvPong body r =
      match r.nonce with
      | none => .error .attributeError r
      | some nonce =>
        if p.nonce ≠ nonce then .ok (some getInitialState) { r with disconnecting := true }
        else .ok (some getInitialState) { r with phase := 1 } := by
  obtain ⟨active, sess, sessions, version, clientKey, phase, nonce, effects, disconnecting, failed⟩ := r
  unfold recvPong
  rw [decoded]
  cases nonce with
  | none => rfl
  | some nonce =>
    show (if p.nonce ≠ nonce then _ else _ : Rx) _ = if p.nonce ≠ nonce then _ else _
    split <;> rfl

theorem recvPong_reacts (body : List UInt8) (r : CastReceiver) :
    Reaction chance body r .recvPong (recvPong body r) := by
  rcases fixed_decode_cases body Pong.payloadSize "Pong" (⟨uintAt 0 4 body⟩ : Pong)
    with ⟨decoded, -⟩ | ⟨message, refused, other⟩
  · have decoded : Pong.decode body = .ok ⟨uintAt 0 4 body⟩ := decoded
    rw [recvPong_decoded decoded]
    cases known : r.nonce with
    | none => exact .failed _ (by simp) (by simp) fun _ => known
    | some nonce =>
      by_cases other : uintAt 0 4 body ≠ nonce
      · simp only [other, if_true, ne_eq, not_false_eq_true]
        rw [← known]
        exact .mismatched _ nonce decoded known other
      · have same : uintAt 0 4 body = nonce := by simpa using other
        simp only [same, ne_eq, not_true_eq_false, if_false]
        rw [← known]
        exact .ponged ⟨nonce⟩ (by rw [decoded, same]) known
  · have refused : Pong.decode body = .error (.protocolError message) := refused
    unfold recvPong
    rw [refused]
    exact .refused (.inr ⟨rfl, other⟩) (fun _ _ impossible => by cases impossible)

theorem callSession_reacts {fn : RxFn} (body : List UInt8) (r : CastReceiver) {call : SessionCall}
    (kind : fn = .recvAddRec ∨ fn = .recvDelRec ∨ fn = .recvInfo) (notDone : call ≠ .done) :
    Reaction chance body r fn
      ((do callSession call; return some getInitialState : Rx) r) := by
  have others : fn ≠ .recvClientGreeting ∧ fn ≠ .ignoreBody ∧ fn ≠ .recvPong := by
    rcases kind with rfl | rfl | rfl <;> simp
  rcases callSession_cases call r with ⟨number, session, ran⟩ | ⟨-, ran⟩
  · simp only [bind, EStateM.bind, ran]
    exact .called number call session notDone kind
  · simp only [bind, EStateM.bind, ran]
    exact .failed _ others.1 others.2.1 fun same => absurd same others.2.2

/-- The messages of a session: dropped when they are refused, else one call of the session. -/
theorem session_reacts {α : Type} {fn : RxFn} (body : List UInt8) (r : CastReceiver)
    (kind : fn = .recvAddRec ∨ fn = .recvDelRec ∨ fn = .recvInfo) {rx : Rx} (decoded : Decoded α)
    (refused : ∀ message, decoded = .error (.protocolError message) →
      rx r = .ok (some getInitialState) r)
    (invalid : decoded = .error .unicodeDecodeError → rx r = .error .unicodeDecodeError r)
    (accepted : ∀ m, decoded = .ok m → ∃ call, call ≠ .done ∧
      rx r = (do callSession call; return some getInitialState : Rx) r) :
    Reaction chance body r fn (rx r) := by
  have others : fn ≠ .recvClientGreeting ∧ fn ≠ .recvPong ∧ fn ≠ .unboundIgnoreBody ∧
      fn ≠ .ignoreBody := by
    rcases kind with rfl | rfl | rfl <;> simp
  match decoded with
  | .error (.protocolError message) =>
    rw [refused message rfl]
    exact .ignored others.1 others.2.1 others.2.2.1
  | .error .unicodeDecodeError =>
    rw [invalid rfl]
    exact .failed _ others.1 others.2.2.2 fun pong => absurd pong others.2.1
  | .ok m =>
    obtain ⟨call, notDone, ran⟩ := accepted m rfl
    rw [ran]
    exact callSession_reacts chance body r kind notDone

theorem recvAddRec_reacts (body : List UInt8) (r : CastReceiver) :
    Reaction chance body r .recvAddRec (recvAddRec body r) := by
  apply session_reacts chance body r (.inl rfl) (AddRecord.decode body)
  · intro message refused
    rw [recvAddRec, refused]
    rfl
  · intro invalid
    rw [recvAddRec, invalid]
    rfl
  · intro m accepted
    rw [recvAddRec, accepted]
    by_cases kind : m.isAlias = true
    · exact ⟨.addAlias m.recordId m.recordName, by simp, by simp only [kind, if_true]⟩
    · exact ⟨.addRecord m.recordId m.recordType m.recordName, by simp, by
        simp only [kind, if_false, Bool.false_eq_true]⟩

theorem recvInfo_reacts (body : List UInt8) (r : CastReceiver) :
    Reaction chance body r .recvInfo (recvInfo body r) := by
  apply session_reacts chance body r (.inr (.inr rfl)) (AddInfo.decode body)
  · intro message refused
    rw [recvInfo, refused]
    rfl
  · intro invalid
    rw [recvInfo, invalid]
    rfl
  · intro m accepted
    rw [recvInfo, accepted]
    by_cases target : m.recordId = 0
    · exact ⟨.iocInfo m.key m.value, by simp, by simp only [target, ne_eq, not_true_eq_false, if_false]⟩
    · exact ⟨.recInfo m.recordId m.key m.value, by simp, by
        simp only [target, ne_eq, not_false_eq_true, if_true]⟩

theorem recvDelRec_reacts (body : List UInt8) (r : CastReceiver) :
    Reaction chance body r .recvDelRec (recvDelRec body r) := by
  apply session_reacts chance body r (.inr (.inl rfl)) (DelRecord.decode body)
  · intro message refused
    rw [recvDelRec, refused]
    rfl
  · intro invalid
    rw [recvDelRec, invalid]
    rfl
  · intro m accepted
    rw [recvDelRec, accepted]
    exact ⟨.delRecord m.recordId, by simp, rfl⟩

theorem writePing_missed {r : CastReceiver} (waiting : r.phase = 2) :
    writePing chance r = .ok () { r with disconnecting := true } := by
  show (if r.phase = 2 then loseConnection else _ : EStateM Failure CastReceiver Unit) r = _
  rw [if_pos waiting]
  rfl

theorem writePing_idle {r : CastReceiver} (idle : r.phase ≠ 2) :
    writePing chance r = .ok () (pinged chance r) := by
  show (if r.phase = 2 then loseConnection else _ : EStateM Failure CastReceiver Unit) r = _
  rw [if_neg idle]
  rfl

/-- The end of `recvDone`, where the rate is computed. -/
def logRate : Rx := do
  unless chance.timePasses (← get).effects.length do throw .zeroDivisionError
  return some getInitialState

theorem logRate_eq (r : CastReceiver) : logRate chance r =
    if chance.timePasses r.effects.length then .ok (some getInitialState) r
    else .error .zeroDivisionError r := by
  show (if chance.timePasses r.effects.length then (pure (some getInitialState) : Rx)
    else (throw .zeroDivisionError : EStateM Failure CastReceiver Unit) >>=
      fun _ => pure (some getInitialState)) r = _
  split <;> rfl

theorem recvDone_decoded {body : List UInt8} (decoded : UploadDone.decode body = .ok ())
    (r : CastReceiver) : recvDone chance body r =
      match r.sess with
      | none => .error .attributeError
        { r with active := false, effects := r.effects ++ [.isDone r.active] }
      | some number => logRate chance (finished chance r number) := by
  obtain ⟨active, sess, sessions, version, clientKey, phase, nonce, effects, disconnecting, failed⟩ := r
  rw [recvDone, decoded]
  cases sess with
  | none => rfl
  | some number =>
    let called : CastReceiver := ⟨false, some number, sessions, version, clientKey, phase, nonce,
      effects ++ [.isDone active] ++ [.session number .done], disconnecting, failed⟩
    have same : called.effects = effects ++ [.isDone active, .session number .done] := by
      simp [called]
    show (if phase = 1 then writePing chance >>= fun _ => logRate chance else logRate chance : Rx)
      called = logRate chance (finished chance _ number)
    unfold finished
    rw [← same]
    by_cases first : phase = 1
    · simp only [first, if_true]
      show EStateM.bind (writePing chance) _ called = _
      rw [EStateM.bind, writePing_idle chance (show called.phase ≠ 2 by simp [called, first])]
      simp only [called, first]
    · simp only [first, if_false]
      rfl

theorem recvDone_reacts (body : List UInt8) (r : CastReceiver) :
    Reaction chance body r .recvDone (recvDone chance body r) := by
  by_cases exactly : body.length = UploadDone.payloadSize
  · rw [recvDone_decoded chance (requireLength_exact exactly _)]
    cases session : r.sess with
    | none =>
      have after : Reaction chance body r .recvDone _ := .orphaned session
      rw [session] at after
      exact after
    | some number =>
      show Reaction chance body r .recvDone (logRate chance (finished chance r number))
      rw [logRate_eq]
      split
      · exact .done number session
      · exact .doneAtOnce number session
  · obtain ⟨message, wrong⟩ := requireLength_wrong exactly "UploadDone"
    have refused : UploadDone.decode body = .error (.protocolError message) := wrong
    rw [recvDone, refused]
    exact .ignored (by simp) (by simp) (by simp)

theorem run_reacts {fn : RxFn} (other : fn ≠ .recvHeader) (body : List UInt8) (r : CastReceiver) :
    Reaction chance body r fn (run chance body fn r) := by
  cases fn with
  | recvHeader => exact absurd rfl other
  | recvClientGreeting => exact recvClientGreeting_reacts chance body r
  | recvPong => exact recvPong_reacts chance body r
  | recvAddRec => exact recvAddRec_reacts chance body r
  | recvDelRec => exact recvDelRec_reacts chance body r
  | recvDone => exact recvDone_reacts chance body r
  | recvInfo => exact recvInfo_reacts chance body r
  | ignoreBody => exact .ignored (by simp) (by simp) (by simp)
  | unboundIgnoreBody => exact .failed _ (by simp) (by simp) (by simp)

theorem announced_fn {f : Frame} {e : Expecting} (expected : announced f = some e) :
    e.fn ≠ .recvHeader := by
  have never : (rxfn f.msgId).1 ≠ .recvHeader := by
    unfold rxfn
    repeat' split
    all_goals simp
  unfold announced at expected
  split at expected
  · cases expected
  · split at expected
    · cases expected
      simp
    · cases expected
      exact never

theorem Reaction.header {body : List UInt8} {r r' : CastReceiver} {fn : RxFn} {next : Expecting}
    (reaction : Reaction chance body r fn (.ok (some next) r')) : next = getInitialState := by
  cases reaction <;> rfl

theorem Reaction.disconnecting {body : List UInt8} {r r' : CastReceiver} {fn : RxFn}
    (reaction : Reaction chance body r fn (.ok none r')) : r'.disconnecting = true := by
  cases reaction
  rfl

/-- After a frame the receiver waits for a header, or the connection is over. -/
theorem afterFrame_header (r : CastReceiver) (f : Frame)
    (opened : (afterFrame chance r f).2.alive = true) :
    (afterFrame chance r f).1 = getInitialState := by
  unfold afterFrame at opened ⊢
  cases expected : announced f with
  | none => rfl
  | some e =>
    simp only [expected] at opened ⊢
    have reaction := run_reacts chance (announced_fn expected) f.body r
    generalize ran : run chance f.body e.fn r = result at reaction
    match result with
    | .ok (some next) r' =>
      rw [handle_ok chance ran]
      exact reaction.header
    | .ok none r' =>
      rw [handle_none chance ran] at opened
      simp [alive, reaction.disconnecting] at opened
    | .error failure r' =>
      rw [handle_error chance ran] at opened
      simp [alive] at opened

/-- A stream of frames is consumed whole, unless the connection ends before. -/
theorem final_stream (frames : List Frame) (rest : List UInt8) (r : CastReceiver) :
    Stateful.final (receiver chance) (getInitialState, r) (Frame.stream frames ++ rest) =
        Stateful.final (receiver chance)
          (Stateful.final (receiver chance) (getInitialState, r) (Frame.stream frames)) rest ∧
      ((Stateful.final (receiver chance) (getInitialState, r) (Frame.stream frames)).2.alive = true →
        (Stateful.final (receiver chance) (getInitialState, r) (Frame.stream frames)).1 =
          getInitialState) := by
  have ended {s : Expecting × CastReceiver} (dead : ¬ s.2.alive = true) (bytes : List UInt8) :
      Stateful.final (receiver chance) s bytes = s := by
    apply Stateful.final_closed
    rw [closed_eq]
    simpa using dead
  induction frames generalizing r with
  | nil =>
    rw [show Frame.stream [] = [] from rfl, Stateful.final_nil]
    exact ⟨rfl, fun _ => rfl⟩
  | cons f frames ih =>
    by_cases opened : r.alive = true
    · rw [show Frame.stream (f :: frames) = f.bytes ++ Frame.stream frames from rfl,
        List.append_assoc, final_frame chance opened, final_frame chance opened]
      by_cases still : (afterFrame chance r f).2.alive = true
      · have back := afterFrame_header chance r f still
        have next := ih (afterFrame chance r f).2
        rw [← back] at next
        exact ⟨next.1, fun alive => (next.2 alive).trans back⟩
      · rw [ended still, ended still, ended still]
        exact ⟨rfl, fun alive => absurd alive still⟩
    · have stays (bytes : List UInt8) := @ended (getInitialState, r) opened bytes
      rw [stays, stays, stays]
      exact ⟨rfl, fun alive => absurd alive opened⟩

end CastReceiver

end Recsync.Recast
