import Recsync.Lib.Stateful
import Recsync.Protocol.Messages

set_option autoImplicit false

/- The parser of a client connection, `CastReceiver`. -/
namespace Recsync.Recast

open Protocol

/-- A call of a `CollectionSession`. -/
inductive SessionCall where
  | addRecord (recordId : Nat) (recordType recordName : String)
  | addAlias (recordId : Nat) (recordName : String)
  | delRecord (recordId : Nat)
  | recInfo (recordId : Nat) (key value : String)
  | iocInfo (key value : String)
  | done
  deriving DecidableEq, Repr

/-- What a receiver does to its factory, its sessions and its transport. -/
inductive Effect where
  | addClient
  | session (number : Nat) (call : SessionCall)
  | isDone (active : Bool)
  | ping (nonce : Nat)
  deriving DecidableEq, Repr

/-- The exceptions that leave a state function; the connection is dropped then. -/
inductive Failure where
  | attributeError
  | typeError
  | unicodeDecodeError
  | zeroDivisionError
  deriving DecidableEq, Repr

/-- `CastReceiver` after `connectionMade` of an active connection. -/
structure CastReceiver where
  active : Bool := true
  /-- the sessions are numbered in the order in which `addClient` makes them -/
  sess : Option Nat := none
  sessions : Nat := 0
  version : Nat := 0
  clientKey : Option Nat := none
  /-- 1: send ping, 2: receive pong -/
  phase : Nat := 1
  nonce : Option Nat := none
  effects : List Effect := []
  /-- `transport.disconnecting` -/
  disconnecting : Bool := false
  failed : Option Failure := none
  deriving DecidableEq, Repr

/-- The functions that `StatefulProtocol` calls. For an unknown message `dfact` returns the
function of the class, which cannot be called with the body alone. -/
inductive RxFn where
  | recvHeader
  | recvClientGreeting
  | recvPong
  | recvAddRec
  | recvDelRec
  | recvDone
  | recvInfo
  | ignoreBody
  | unboundIgnoreBody
  deriving DecidableEq, Repr

/-- A state function with the number of bytes that it asks for. -/
structure Expecting where
  fn : RxFn
  length : Nat
  positive : 0 < length
  deriving DecidableEq, Repr

def getInitialState : Expecting := ⟨.recvHeader, Header.payloadSize, by decide⟩

/-- The dictionary `rxfn` with its default. -/
def rxfn (msgId : Nat) : RxFn × Int :=
  if msgId = ClientGreeting.msgId then (.recvClientGreeting, ClientGreeting.payloadSize)
  else if msgId = Pong.msgId then (.recvPong, Pong.payloadSize)
  else if msgId = AddRecord.msgId then (.recvAddRec, AddRecord.payloadSize)
  else if msgId = DelRecord.msgId then (.recvDelRec, DelRecord.payloadSize)
  else if msgId = UploadDone.msgId then (.recvDone, UploadDone.payloadSize)
  else if msgId = AddInfo.msgId then (.recvInfo, AddInfo.payloadSize)
  else (.unboundIgnoreBody, -1)

/-- A state function: it returns the next state, `none` for the same one, or raises. -/
abbrev Rx := EStateM Failure CastReceiver (Option Expecting)

/-- The random numbers and the clock, by the number of effects so far. -/
structure Chance where
  randint : Nat → Nat := fun _ => 0
  timePasses : Nat → Bool := fun _ => true

namespace CastReceiver

def emit (e : Effect) : EStateM Failure CastReceiver Unit :=
  modify fun r => { r with effects := r.effects ++ [e] }

def loseConnection : EStateM Failure CastReceiver Unit :=
  modify fun r => { r with disconnecting := true }

/-- A method call on `self.sess`, which is `None` before the greeting. -/
def callSession (call : SessionCall) : EStateM Failure CastReceiver Unit := do
  match (← get).sess with
  | none => throw .attributeError
  | some number => emit (.session number call)

def writePing (chance : Chance) : EStateM Failure CastReceiver Unit := do
  let r ← get
  if r.phase = 2 then loseConnection
  else
    let nonce := chance.randint r.effects.length
    set { r with phase := 2, nonce := some nonce }
    emit (.ping nonce)

def recvHeader (data : List UInt8) : Rx :=
  match Header.decode data with
  | .error (.protocolError _) => do
    loseConnection
    return none
  | .error .unicodeDecodeError => throw .unicodeDecodeError
  | .ok header =>
    if empty : header.bodyLength = 0 then return some getInitialState
    else
      let (fn, minlen) := rxfn header.msgId
      if 0 ≤ minlen ∧ header.bodyLength < minlen then
        return some ⟨.ignoreBody, header.bodyLength, Nat.pos_of_ne_zero empty⟩
      else return some ⟨fn, header.bodyLength, Nat.pos_of_ne_zero empty⟩

def recvClientGreeting (body : List UInt8) : Rx :=
  match ClientGreeting.decode body with
  | .error (.protocolError _) => do
    loseConnection
    return none
  | .error .unicodeDecodeError => throw .unicodeDecodeError
  | .ok greeting => do
    if greeting.clientType ≠ 0 then
      loseConnection
      return none
    modify fun r => { r with
      version := min r.version greeting.version
      clientKey := some greeting.serverKey
      sess := some r.sessions
      sessions := r.sessions + 1 }
    emit .addClient
    return some getInitialState

def recvPong (body : List UInt8) : Rx :=
  match Pong.decode body with
  | .error (.protocolError _) => do
    loseConnection
    return none
  | .error .unicodeDecodeError => throw .unicodeDecodeError
  | .ok pong => do
    match (← get).nonce with
    | none => throw .attributeError
    | some nonce =>
      if pong.nonce ≠ nonce then loseConnection
      else modify fun r => { r with phase := 1 }
      return some getInitialState

def recvInfo (body : List UInt8) : Rx :=
  match AddInfo.decode body with
  | .error (.protocolError _) => return some getInitialState
  | .error .unicodeDecodeError => throw .unicodeDecodeError
  | .ok info => do
    if info.recordId ≠ 0 then callSession (.recInfo info.recordId info.key info.value)
    else callSession (.iocInfo info.key info.value)
    return some getInitialState

def recvAddRec (body : List UInt8) : Rx :=
  match AddRecord.decode body with
  | .error (.protocolError _) => return some getInitialState
  | .error .unicodeDecodeError => throw .unicodeDecodeError
  | .ok record => do
    if record.isAlias then callSession (.addAlias record.recordId record.recordName)
    else callSession (.addRecord record.recordId record.recordType record.recordName)
    return some getInitialState

def recvDelRec (body : List UInt8) : Rx :=
  match DelRecord.decode body with
  | .error (.protocolError _) => return some getInitialState
  | .error .unicodeDecodeError => throw .unicodeDecodeError
  | .ok record => do
    callSession (.delRecord record.recordId)
    return some getInitialState

/-- `recvDone`. The rate that it logs is a division by the elapsed time. -/
def recvDone (chance : Chance) (body : List UInt8) : Rx :=
  match UploadDone.decode body with
  | .error (.protocolError _) => return some getInitialState
  | .error .unicodeDecodeError => throw .unicodeDecodeError
  | .ok () => do
    emit (.isDone (← get).active)
    modify fun r => { r with active := false }
    callSession .done
    if (← get).phase = 1 then writePing chance
    unless chance.timePasses (← get).effects.length do throw .zeroDivisionError
    return some getInitialState

def run (chance : Chance) (data : List UInt8) : RxFn → Rx
  | .recvHeader => recvHeader data
  | .recvClientGreeting => recvClientGreeting data
  | .recvPong => recvPong data
  | .recvAddRec => recvAddRec data
  | .recvDelRec => recvDelRec data
  | .recvDone => recvDone chance data
  | .recvInfo => recvInfo data
  | .ignoreBody => return some getInitialState
  | .unboundIgnoreBody => throw .typeError

end CastReceiver

/-- The receiver as `StatefulProtocol` sees it. -/
def receiver (chance : Chance) : Stateful.Machine (Expecting × CastReceiver) where
  wants s := s.1.length
  handle s data :=
    match CastReceiver.run chance data s.1.fn s.2 with
    | .ok (some next) r => (next, r)
    | .ok none r => (s.1, r)
    | .error e r => (s.1, { r with failed := some e })
  closed s := s.2.disconnecting || s.2.failed.isSome
  wants_pos s := s.1.positive

section Handle

variable (chance : Chance) {r : CastReceiver}

theorem receiver_header {header : List UInt8} {msgId bodyLength minlen : Nat} {fn : RxFn}
    (decoded : Header.decode header = .ok ⟨msgId, bodyLength⟩) (known : rxfn msgId = (fn, (minlen : Int)))
    (enough : minlen ≤ bodyLength) (positive : 0 < bodyLength) :
    (receiver chance).handle (getInitialState, r) header = (⟨fn, bodyLength, positive⟩, r) := by
  have nonempty : bodyLength ≠ 0 := by omega
  have notShort : ¬ bodyLength < minlen := by omega
  simp only [receiver, getInitialState, CastReceiver.run, CastReceiver.recvHeader, decoded, known]
  rw [dif_neg nonempty, if_neg (by omega)]
  rfl

/-- A record, an alias or an info that is dropped leaves the receiver as it was. -/
theorem receiver_addRec_ignored {body : List UInt8} {length : Nat} (positive : 0 < length)
    {message : String} (refused : AddRecord.decode body = .error (.protocolError message)) :
    (receiver chance).handle (⟨.recvAddRec, length, positive⟩, r) body = (getInitialState, r) := by
  simp only [receiver, CastReceiver.run, CastReceiver.recvAddRec, refused]
  rfl

theorem receiver_info_ignored {body : List UInt8} {length : Nat} (positive : 0 < length)
    {message : String} (refused : AddInfo.decode body = .error (.protocolError message)) :
    (receiver chance).handle (⟨.recvInfo, length, positive⟩, r) body = (getInitialState, r) := by
  simp only [receiver, CastReceiver.run, CastReceiver.recvInfo, refused]
  rfl

theorem callSession_opened {number : Nat} (opened : r.sess = some number) (call : SessionCall) :
    CastReceiver.callSession call r =
      .ok () { r with effects := r.effects ++ [.session number call] } := by
  cases r
  cases opened
  rfl

theorem receiver_addRec {body : List UInt8} {length : Nat} (positive : 0 < length)
    {number : Nat} (opened : r.sess = some number) {m : AddRecord}
    (decoded : AddRecord.decode body = .ok m) :
    (receiver chance).handle (⟨.recvAddRec, length, positive⟩, r) body =
      (getInitialState, { r with effects := r.effects ++ [.session number
        (if m.isAlias then .addAlias m.recordId m.recordName
          else .addRecord m.recordId m.recordType m.recordName)] }) := by
  simp only [receiver, CastReceiver.run, CastReceiver.recvAddRec, decoded]
  by_cases kind : m.isAlias = true
  all_goals
    simp only [kind, if_true, if_false, Bool.false_eq_true, bind, EStateM.bind,
      callSession_opened opened, pure, EStateM.pure]

theorem receiver_info {body : List UInt8} {length : Nat} (positive : 0 < length)
    {number : Nat} (opened : r.sess = some number) {m : AddInfo}
    (decoded : AddInfo.decode body = .ok m) :
    (receiver chance).handle (⟨.recvInfo, length, positive⟩, r) body =
      (getInitialState, { r with effects := r.effects ++ [.session number
        (if m.recordId ≠ 0 then .recInfo m.recordId m.key m.value
          else .iocInfo m.key m.value)] }) := by
  simp only [receiver, CastReceiver.run, CastReceiver.recvInfo, decoded]
  by_cases target : m.recordId = 0
  all_goals
    simp only [target, ne_eq, not_true_eq_false, not_false_eq_true, if_true, if_false, bind,
      EStateM.bind, callSession_opened opened, pure, EStateM.pure]

end Handle

end Recsync.Recast
