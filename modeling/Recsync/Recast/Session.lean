import Recsync.Cf.Model
import Recsync.Lib.Deferred
import Recsync.Recast.Receiver

set_option autoImplicit false

/- The session of a client, `CollectionSession`. -/
namespace Recsync.Recast

/-- `Transaction`. The session stands for itself as the number of its object. -/
structure Transaction extends Cf.Transaction where
  srcid : Nat

/-- The error of a commit, as far as `abort` looks at it. -/
inductive CommitError where
  | cancelledError
  | other
  deriving DecidableEq, Repr

abbrev Outcome := Except CommitError Unit

/-- What the commit chain does to the factory and to the transport. -/
inductive ChainEvent where
  | commit (t : Transaction)
  /-- the Deferred of the last commit fires -/
  | fired (outcome : Outcome)
  | loseConnection

/-- The functions that `flush` puts on the chain. -/
inductive ChainStep where
  | commit (t : Transaction)
  | abort (t : Transaction)

/-- The Deferreds that `factory.commit` returns, by the number of its calls so far: one that has
fired already, or one that fires later. -/
abbrev Factory := Nat → Option Outcome

structure SessionConfig where
  trlimit : Int := 5000
  timeout : Int := 5

/-- The readings of the clock during a call. -/
structure Clock where
  /-- in `flush_safely` -/
  checked : Int := 0
  /-- in `mark_dirty` -/
  marked : Int := 0

structure CollectionSession where
  host : String
  port : Nat
  srcid : Nat
  transaction : Transaction
  commitChain : Deferred.Chain ChainStep CommitError Unit
  flushDeadline : Option Int
  dirty : Bool
  /-- the transactions that `flush` has taken -/
  flushed : List Transaction
  log : List ChainEvent

namespace CollectionSession

/-- `Transaction(self.ep, id(self))`. -/
def newTransaction (host : String) (port srcid : Nat) : Transaction := { host, port, srcid }

/-- `CollectionSession.__init__`. -/
def opened (host : String) (port srcid : Nat) : CollectionSession where
  host
  port
  srcid
  transaction := { newTransaction host port srcid with initial := true }
  commitChain := Deferred.succeed ()
  flushDeadline := none
  dirty := false
  flushed := []
  log := []

/-- The transactions that were passed to `factory.commit`. -/
def handed (log : List ChainEvent) : List Transaction :=
  log.filterMap fun
    | .commit t => some t
    | _ => none

/-- `commit` and `abort`. -/
def chainCall (factory : Factory) : ChainStep → Outcome → List ChainEvent →
    Deferred.Returned CommitError Unit × List ChainEvent
  | .commit t, _, log =>
    match factory (handed log).length with
    | some outcome => (.deferred (some outcome), log ++ [.commit t, .fired outcome])
    | none => (.deferred none, log ++ [.commit t])
  | .abort _, .error .other, log => (.value (), log ++ [.loseConnection])
  | .abort _, _, log => (.value (), log)

/-- `self._commit_chain.addCallback(commit).addErrback(abort)`. -/
def chainCommit (factory : Factory) (s : CollectionSession) (t : Transaction) : CollectionSession :=
  let (chain, log) :=
    Deferred.addLink (chainCall factory) s.commitChain { callback := some (.commit t) } s.log
  let (chain, log) := Deferred.addLink (chainCall factory) chain { errback := some (.abort t) } log
  { s with commitChain := chain, log }

def flush (factory : Factory) (s : CollectionSession) : CollectionSession :=
  let s := { s with flushDeadline := none }
  if s.dirty then
    let t := s.transaction
    let next := { newTransaction s.host s.port s.srcid with clientInfos := t.clientInfos }
    chainCommit factory { s with transaction := next, dirty := false, flushed := s.flushed ++ [t] } t
  else s

/-- A deadline counts when there is one; Python takes zero for none. -/
def deadline (s : CollectionSession) : Option Int := s.flushDeadline.filter fun t => decide (t ≠ 0)

def flushSafely (cfg : SessionConfig) (factory : Factory) (clock : Clock) (s : CollectionSession) :
    CollectionSession :=
  if s.deadline.any fun t => decide (t ≤ clock.checked) then s.flush factory
  else if cfg.trlimit ≠ 0 ∧ cfg.trlimit ≤
      ((s.transaction.recordsToAdd.entries.length + s.transaction.recordsToDelete.length : Nat) : Int)
    then s.flush factory
  else s

def markDirty (cfg : SessionConfig) (clock : Clock) (s : CollectionSession) : CollectionSession :=
  { s with
    flushDeadline := some (s.deadline.getD (clock.marked + cfg.timeout))
    dirty := true }

end CollectionSession

namespace Transaction

def iocInfo (t : Transaction) (key val : String) : Transaction :=
  { t with clientInfos := t.clientInfos.set key val }

def addRecord (t : Transaction) (recordId : Nat) (recordType recordName : String) : Transaction :=
  { t with recordsToAdd := t.recordsToAdd.set recordId (recordName, recordType) }

def addAlias (t : Transaction) (recordId : Nat) (recordName : String) : Transaction :=
  { t with aliases := t.aliases.set recordId ((t.aliases.get? recordId).getD [] ++ [recordName]) }

def delRecord (t : Transaction) (recordId : Nat) : Transaction :=
  { t with
    recordsToAdd := t.recordsToAdd.erase recordId
    recordsToDelete :=
      if recordId ∈ t.recordsToDelete then t.recordsToDelete else t.recordsToDelete ++ [recordId]
    recordInfosToAdd := t.recordInfosToAdd.erase recordId }

def recInfo (t : Transaction) (recordId : Nat) (key val : String) : Transaction :=
  { t with recordInfosToAdd :=
      t.recordInfosToAdd.set recordId (((t.recordInfosToAdd.get? recordId).getD ∅).set key val) }

def collect (t : Transaction) : SessionCall → Transaction
  | .addRecord recordId recordType recordName => t.addRecord recordId recordType recordName
  | .addAlias recordId recordName => t.addAlias recordId recordName
  | .delRecord recordId => t.delRecord recordId
  | .recInfo recordId key value => t.recInfo recordId key value
  | .iocInfo key value => t.iocInfo key value
  | .done => t

end Transaction

namespace CollectionSession

variable (cfg : SessionConfig) (factory : Factory)

/-- Collect a call and mark the session dirty. -/
def update (clock : Clock) (s : CollectionSession) (c : SessionCall) : CollectionSession :=
  { s with transaction := s.transaction.collect c }.markDirty cfg clock

def call (clock : Clock) (s : CollectionSession) : SessionCall → CollectionSession
  | .addRecord recordId recordType recordName =>
    (s.flushSafely cfg factory clock).update cfg clock (.addRecord recordId recordType recordName)
  | .delRecord recordId => (s.flushSafely cfg factory clock).update cfg clock (.delRecord recordId)
  | .addAlias recordId recordName => s.update cfg clock (.addAlias recordId recordName)
  | .recInfo recordId key value => s.update cfg clock (.recInfo recordId key value)
  | .iocInfo key value => s.update cfg clock (.iocInfo key value)
  | .done => s.flush factory

def close (s : CollectionSession) : CollectionSession :=
  { s with
    transaction := { newTransaction s.host s.port s.srcid with connected := false }
    dirty := true }.flush factory

inductive Event where
  | call (clock : Clock) (c : SessionCall)
  | close
  /-- the Deferred of the commit that is running fires -/
  | fires (outcome : Outcome)

/-- The Deferred of the running commit fires. -/
def fire (s : CollectionSession) (outcome : Outcome) : CollectionSession :=
  match s.commitChain.result with
  | some _ => s
  | none =>
    let (chain, log) := Deferred.resume (chainCall factory) s.commitChain outcome
      (s.log ++ [.fired outcome])
    { s with commitChain := chain, log }

def step (s : CollectionSession) : Event → CollectionSession
  | .call clock c => s.call cfg factory clock c
  | .close => s.close factory
  | .fires outcome => s.fire factory outcome

theorem flush_dirty {s : CollectionSession} (dirty : s.dirty = true) :
    s.flush factory = chainCommit factory { s with
      transaction :=
        { newTransaction s.host s.port s.srcid with clientInfos := s.transaction.clientInfos }
      flushDeadline := none
      dirty := false
      flushed := s.flushed ++ [s.transaction] } s.transaction := if_pos dirty

theorem flush_clean {s : CollectionSession} (clean : ¬ s.dirty = true) :
    s.flush factory = { s with flushDeadline := none } := if_neg clean

/-- A call flushes, or not, and then collects: what both keep, every call keeps. -/
theorem call_maintains {I : CollectionSession → Prop} {s : CollectionSession}
    (flush : ∀ s, I s → I (s.flush factory))
    (update : ∀ s clock c, I s → I (s.update cfg clock c)) (now : I s) (clock : Clock)
    (c : SessionCall) : I (s.call cfg factory clock c) := by
  have safely : I (s.flushSafely cfg factory clock) := by
    unfold flushSafely
    split
    · exact flush s now
    · split
      · exact flush s now
      · exact now
  cases c with
  | addRecord recordId recordType recordName => exact update _ clock _ safely
  | delRecord recordId => exact update _ clock _ safely
  | addAlias recordId recordName => exact update _ clock _ now
  | recInfo recordId key value => exact update _ clock _ now
  | iocInfo key value => exact update _ clock _ now
  | done => exact flush s now

def run (s : CollectionSession) (events : List Event) : CollectionSession :=
  events.foldl (step cfg factory) s

@[simp] theorem run_nil (s : CollectionSession) : s.run cfg factory [] = s := rfl

@[simp] theorem run_cons (s : CollectionSession) (e : Event) (events : List Event) :
    s.run cfg factory (e :: events) = (s.step cfg factory e).run cfg factory events := rfl

theorem run_append (s : CollectionSession) (first second : List Event) :
    s.run cfg factory (first ++ second) = (s.run cfg factory first).run cfg factory second :=
  List.foldl_append

end CollectionSession

end Recsync.Recast
