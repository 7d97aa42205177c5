import Recsync.Recast.Groups

set_option autoImplicit false

/- What a session hands over, from its first call until after its close. -/
namespace Recsync.Recast

open CollectionSession

/-- Commits go on in a thread: the Deferred of a commit has not fired when the factory returns. -/
def inThread : Factory := fun _ => none

/-- The transaction by which a session says that its client is gone. -/
def goodbye (host : String) (port srcid : Nat) : Transaction :=
  { newTransaction host port srcid with connected := false }

/-- `flush_safely` flushes when the deadline is over or the transaction is full. -/
def due (limits : SessionConfig) (clock : Clock) (s : CollectionSession) : Bool :=
  s.deadline.any (fun t => decide (t ≤ clock.checked)) ||
    decide (limits.trlimit ≠ 0 ∧ limits.trlimit ≤
      ((s.transaction.recordsToAdd.entries.length + s.transaction.recordsToDelete.length : Nat) : Int))

def flushesAt (limits : SessionConfig) (clock : Clock) (s : CollectionSession) : SessionCall → Bool
  | .addRecord _ _ _ | .delRecord _ => s.dirty && due limits clock s
  | .done => s.dirty
  | _ => false

/-- A transaction of a connected client, after those in `done`. -/
structure Sent (host : String) (port srcid : Nat) (done : List Transaction) (t : Transaction) :
    Prop where
  host : t.host = host
  port : t.port = port
  srcid : t.srcid = srcid
  connected : t.connected = true
  initial : t.initial = done.isEmpty

/-- A session that is open, and `P` of what it has flushed. -/
structure Sending (P : List Transaction → Transaction → Prop) (host : String) (port srcid : Nat)
    (s : CollectionSession) : Prop where
  ordered : s.Ordered
  source : s.host = host ∧ s.port = port ∧ s.srcid = srcid
  flushed : Runs.EveryStep (fun done t => Sent host port srcid done t ∧ P done t) s.flushed
  pending : Sent host port srcid s.flushed s.transaction

/-- A session that was closed when it had flushed `front`, and `P` of that. -/
structure Closing (P : List Transaction → Transaction → Prop) (host : String) (port srcid : Nat)
    (front : List Transaction) (s : CollectionSession) : Prop where
  ordered : s.Ordered
  source : s.host = host ∧ s.port = port ∧ s.srcid = srcid
  sent : Runs.EveryStep (fun done t => Sent host port srcid done t ∧ P done t) front
  flushed : s.flushed = front ++ [goodbye host port srcid]

section Session

variable {P : List Transaction → Transaction → Prop} {host : String} {port srcid : Nat}
  {front : List Transaction} {s s' : CollectionSession}

theorem sending_opened (P : List Transaction → Transaction → Prop) (host : String)
    (port srcid : Nat) : Sending P host port srcid (opened host port srcid) :=
  ⟨opened_ordered host port srcid, ⟨rfl, rfl, rfl⟩, Runs.EveryStep.nil _, rfl, rfl, rfl, rfl, rfl⟩

theorem Sent.collect {done : List Transaction} {t : Transaction} (sent : Sent host port srcid done t)
    (calls : List SessionCall) : Sent host port srcid done (calls.foldl Transaction.collect t) := by
  induction calls generalizing t with
  | nil => exact sent
  | cons c rest ih =>
    apply ih
    cases c <;> exact ⟨sent.host, sent.port, sent.srcid, sent.connected, sent.initial⟩

theorem Sending.collects (opened : Sending P host port srcid s) {calls : List SessionCall}
    (collects : Collects calls s s') (ordered : s'.Ordered) : Sending P host port srcid s' where
  ordered := ordered
  source := by
    obtain ⟨sameHost, samePort, sameSrcid⟩ := collects.source
    obtain ⟨isHost, isPort, isSrcid⟩ := opened.source
    exact ⟨sameHost.trans isHost, samePort.trans isPort, sameSrcid.trans isSrcid⟩
  flushed := by
    rw [collects.flushed]
    exact opened.flushed
  pending := by
    rw [collects.flushed, collects.transaction]
    exact opened.pending.collect calls

theorem Sending.flushes (opened : Sending P host port srcid s) (flush : Flushes s s')
    (ordered : s'.Ordered) (now : P s.flushed s.transaction) : Sending P host port srcid s' := by
  obtain ⟨isHost, isPort, isSrcid⟩ := opened.source
  obtain ⟨sameHost, samePort, sameSrcid⟩ := flush.source
  refine ⟨ordered, ⟨sameHost.trans isHost, samePort.trans isPort, sameSrcid.trans isSrcid⟩, ?_, ?_⟩
  · rw [flush.flushed]
    exact opened.flushed.append ⟨opened.pending, now⟩
  · rw [flush.transaction, flush.flushed]
    exact ⟨isHost, isPort, isSrcid, rfl, by simp [newTransaction]⟩

theorem flushSafely_due (limits : SessionConfig) (factory : Factory) (clock : Clock)
    (s : CollectionSession) : s.flushSafely limits factory clock =
      if due limits clock s then s.flush factory else s := by
  unfold CollectionSession.flushSafely due
  split
  · next passed => simp [passed]
  · next early => simp [early]

/-- A call only collects, or flushes at first what was collected before it. -/
theorem call_cases (limits : SessionConfig) (factory : Factory) (clock : Clock)
    (s : CollectionSession) (c : SessionCall) :
    (∃ calls, Collects calls s (s.call limits factory clock c)) ∨
      flushesAt limits clock s c = true ∧ ∃ calls,
        Flushes s (s.flush factory) ∧ Collects calls (s.flush factory) (s.call limits factory clock c) := by
  have safely : ∀ c, s.call limits factory clock c =
        (s.flushSafely limits factory clock).update limits clock c →
      flushesAt limits clock s c = (s.dirty && due limits clock s) →
      (∃ calls, Collects calls s (s.call limits factory clock c)) ∨
        flushesAt limits clock s c = true ∧ ∃ calls, Flushes s (s.flush factory) ∧
          Collects calls (s.flush factory) (s.call limits factory clock c) := by
    intro c same when
    rw [same, when, flushSafely_due]
    by_cases now : due limits clock s = true
    · have collects := update_collects limits (s.flush factory) clock c
      rw [if_pos now, now, Bool.and_true]
      rcases flush_cases factory s with ⟨kept, -⟩ | flush
      · exact Or.inl ⟨_, kept.trans collects⟩
      · exact Or.inr ⟨flush.dirty, _, flush, collects⟩
    · rw [if_neg now]
      exact Or.inl ⟨_, update_collects limits s clock c⟩
  cases c with
  | addRecord recordId recordType recordName => exact safely _ rfl rfl
  | delRecord recordId => exact safely _ rfl rfl
  | addAlias recordId recordName => exact Or.inl ⟨_, update_collects limits s clock _⟩
  | recInfo recordId key value => exact Or.inl ⟨_, update_collects limits s clock _⟩
  | iocInfo key value => exact Or.inl ⟨_, update_collects limits s clock _⟩
  | done =>
    rcases flush_cases factory s with ⟨kept, -⟩ | flush
    · exact Or.inl ⟨_, kept⟩
    · exact Or.inr ⟨flush.dirty, [], flush, rfl, rfl, by simp [CollectionSession.call], rfl, rfl, rfl⟩

theorem call_flushed (limits : SessionConfig) (factory : Factory) (clock : Clock)
    (s : CollectionSession) (c : SessionCall) :
    s.flushed <+: (s.call limits factory clock c).flushed := by
  rcases call_cases limits factory clock s c with ⟨calls, collects⟩ | ⟨-, calls, flush, collects⟩
  · exact collects.flushed ▸ List.prefix_rfl
  · rw [collects.flushed, flush.flushed]
    exact List.prefix_append _ _

theorem Sending.call (opened : Sending P host port srcid s) (limits : SessionConfig)
    (factory : Factory) (clock : Clock) (c : SessionCall)
    (now : flushesAt limits clock s c = true → P s.flushed s.transaction) :
    Sending P host port srcid (s.call limits factory clock c) := by
  have ordered : (s.call limits factory clock c).Ordered :=
    step_ordered limits factory opened.ordered (.call clock c)
  rcases call_cases limits factory clock s c with ⟨calls, collects⟩ | ⟨when, calls, flush, collects⟩
  · exact opened.collects collects ordered
  · have between := flush_ordered factory opened.ordered
    exact (opened.flushes flush between (now when)).collects collects ordered

theorem Sending.fire (opened : Sending P host port srcid s) (factory : Factory)
    (outcome : Outcome) : Sending P host port srcid (s.fire factory outcome) :=
  opened.collects (fire_collects factory s outcome) (fire_ordered factory opened.ordered outcome)

theorem close_source (factory : Factory) (s : CollectionSession) :
    (s.close factory).host = s.host ∧ (s.close factory).port = s.port ∧
      (s.close factory).srcid = s.srcid := by
  rcases flush_cases factory { s with
      transaction := { newTransaction s.host s.port s.srcid with connected := false }
      dirty := true } with ⟨kept, -⟩ | flushed
  · exact kept.source
  · exact flushed.source

theorem Sending.close (opened : Sending P host port srcid s) (factory : Factory) :
    Closing P host port srcid s.flushed (s.close factory) := by
  obtain ⟨rfl, rfl, rfl⟩ := opened.source
  exact ⟨flush_ordered factory opened.ordered, close_source factory s, opened.flushed,
    close_flushed factory s⟩

theorem Closing.fire (closed : Closing P host port srcid front s) (factory : Factory)
    (outcome : Outcome) : Closing P host port srcid front (s.fire factory outcome) := by
  have kept := fire_collects factory s outcome
  obtain ⟨sameHost, samePort, sameSrcid⟩ := kept.source
  obtain ⟨isHost, isPort, isSrcid⟩ := closed.source
  exact ⟨fire_ordered factory closed.ordered outcome,
    ⟨sameHost.trans isHost, samePort.trans isPort, sameSrcid.trans isSrcid⟩, closed.sent,
    kept.flushed.trans closed.flushed⟩

end Session

/-- The session stands where the commits in `settled` have ended. -/
def Settled (settled : List (Transaction × Outcome)) (s : CollectionSession) : Prop :=
  ChainState s.flushed settled (s.commitChain, s.log)

section Thread

variable {settled : List (Transaction × Outcome)} {s s' : CollectionSession}

theorem Settled.ordered (state : Settled settled s) : s.Ordered := ⟨settled, state⟩

theorem Settled.handed_cases (state : Settled settled s) :
    handed s.log = settled.map Prod.fst ∧ s.flushed = settled.map Prod.fst ∨
      s.commitChain.result = none ∧ ∃ t queue, handed s.log = settled.map Prod.fst ++ [t] ∧
        s.flushed = settled.map Prod.fst ++ t :: queue := by
  obtain ⟨chain, chainEq⟩ : ∃ chain, s.commitChain = chain := ⟨_, rfl⟩
  obtain ⟨log, logEq⟩ : ∃ log, s.log = log := ⟨_, rfl⟩
  rw [Settled, chainEq, logEq] at state
  rw [chainEq, logEq]
  cases state with
  | idle all => exact Or.inl ⟨by simp, all.symm⟩
  | running t queue all => exact Or.inr ⟨rfl, t, queue, by simp, all.symm⟩

/-- What was handed over stays handed over. -/
theorem Settled.handed_grows {more : List (Transaction × Outcome)} (before : Settled settled s)
    (after : Settled (settled ++ more) s') (grown : s.flushed <+: s'.flushed) :
    handed s.log <+: handed s'.log := by
  have inside : handed s.log <+: s'.flushed := (ChainState.handed_prefix before).trans grown
  have inside' : handed s'.log <+: s'.flushed := ChainState.handed_prefix after
  apply List.prefix_of_prefix_length_le inside inside'
  rcases before.handed_cases with ⟨all, -⟩ | ⟨-, t, queue, all, flushed⟩
  · rcases after.handed_cases with ⟨all', -⟩ | ⟨-, t', queue', all', -⟩
    · simp [all, all']
    · simp [all, all']
  · rcases after.handed_cases with ⟨all', flushed'⟩ | ⟨-, t', queue', all', -⟩
    · have longer := grown.length_le
      rw [flushed, flushed'] at longer
      simp only [List.length_append, List.length_map, List.length_cons] at longer
      simp only [all, all', List.length_append, List.length_map, List.length_cons, List.length_nil]
      omega
    · simp [all, all']

theorem runCallbacks_inThread (queue : List Transaction) (settled : List (Transaction × Outcome)) :
    ChainState (settled.map Prod.fst ++ queue) settled
      (Deferred.runCallbacks (chainCall inThread) (queueLinks queue) (.ok ()) (settledLog settled)) := by
  cases queue with
  | nil =>
    rw [List.append_nil]
    exact .idle rfl
  | cons t queue =>
    rw [show queueLinks (t :: queue) = commitLink t :: abortLink t :: queueLinks queue from rfl,
      runCallbacks_commit]
    exact .running t queue rfl

theorem Settled.flush (state : Settled settled s) : Settled settled (s.flush inThread) := by
  by_cases dirty : s.dirty = true
  · rw [flush_dirty inThread dirty]
    let taken : CollectionSession := { s with
      transaction :=
        { newTransaction s.host s.port s.srcid with clientInfos := s.transaction.clientInfos }
      flushDeadline := none
      dirty := false
      flushed := s.flushed ++ [s.transaction] }
    have before : ChainState s.flushed settled (taken.commitChain, taken.log) := state
    rcases chainCommit_cases inThread before s.transaction with ⟨all, same⟩ | waits
    · have after := runCallbacks_inThread [s.transaction] settled
      rw [all, ← same] at after
      exact after
    · exact waits
  · rw [flush_clean inThread dirty]
    exact state

theorem Settled.call (state : Settled settled s) (limits : SessionConfig) (clock : Clock)
    (c : SessionCall) : Settled settled (s.call limits inThread clock c) :=
  call_maintains (I := Settled settled) limits inThread (fun _ => Settled.flush)
    (fun _ _ _ now => now) state clock c

theorem Settled.close (state : Settled settled s) : Settled settled (s.close inThread) :=
  Settled.flush (s := { s with
    transaction := { newTransaction s.host s.port s.srcid with connected := false }
    dirty := true }) state

theorem Settled.fire (state : Settled settled s) (running : s.commitChain.result = none)
    {t : Transaction} (now : handed s.log = settled.map Prod.fst ++ [t]) (outcome : Outcome) :
    Settled (settled ++ [(t, outcome)]) (s.fire inThread outcome) := by
  obtain ⟨u, queue, all, same⟩ := fire_running inThread state running outcome
  have first : u = t := by
    have inside : handed s.log <+: s.flushed := ChainState.handed_prefix state
    rw [now, ← all, List.prefix_append_right_inj, List.cons_prefix_cons] at inside
    exact inside.1.symm
  subst first
  have after := runCallbacks_inThread queue (settled ++ [(u, outcome)])
  rw [← same] at after
  rw [Settled, fire_flushed, ← all]
  simpa using after

end Thread

end Recsync.Recast
