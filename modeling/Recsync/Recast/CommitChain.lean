import Recsync.Lib.Runs
import Recsync.Recast.Session

set_option autoImplicit false

/- The commits of a session: one at a time, in the order of the flushes. -/
namespace Recsync.Recast.CollectionSession

open Deferred

variable (cfg : SessionConfig) (factory : Factory)

def outcomes (log : List ChainEvent) : List Outcome :=
  log.filterMap fun
    | .fired outcome => some outcome
    | _ => none

def commitLink (t : Transaction) : Link ChainStep := { callback := some (.commit t) }

def abortLink (t : Transaction) : Link ChainStep := { errback := some (.abort t) }

/-- The links of the transactions that wait for their turn. -/
def queueLinks (queue : List Transaction) : List (Link ChainStep) :=
  queue.flatMap fun t => [commitLink t, abortLink t]

/-- What `abort` does to the transport. -/
def aborted : Outcome → List ChainEvent
  | .error .other => [.loseConnection]
  | _ => []

def settledLog (settled : List (Transaction × Outcome)) : List ChainEvent :=
  settled.flatMap fun p => [.commit p.1, .fired p.2] ++ aborted p.2

/-- The chain and its log after the commits in `settled`: all that was flushed is done, or one
more commit is running and the rest of the transactions wait for it. -/
inductive ChainState (flushed : List Transaction) (settled : List (Transaction × Outcome)) :
    Chain ChainStep CommitError Unit × List ChainEvent → Prop where
  | idle : settled.map Prod.fst = flushed →
      ChainState flushed settled (succeed (), settledLog settled)
  | running (t : Transaction) (queue : List Transaction) :
      settled.map Prod.fst ++ t :: queue = flushed →
      ChainState flushed settled
        (⟨none, abortLink t :: queueLinks queue⟩, settledLog settled ++ [.commit t])

section Log

variable (settled : List (Transaction × Outcome))

theorem settledLog_append (t : Transaction) (outcome : Outcome) :
    settledLog (settled ++ [(t, outcome)]) =
      settledLog settled ++ [.commit t, .fired outcome] ++ aborted outcome := by
  simp [settledLog]

@[simp] theorem handed_append (first second : List ChainEvent) :
    handed (first ++ second) = handed first ++ handed second := List.filterMap_append

@[simp] theorem outcomes_append (first second : List ChainEvent) :
    outcomes (first ++ second) = outcomes first ++ outcomes second := List.filterMap_append

@[simp] theorem handed_commit (t : Transaction) (log : List ChainEvent) :
    handed (.commit t :: log) = t :: handed log := rfl

@[simp] theorem handed_fired (outcome : Outcome) (log : List ChainEvent) :
    handed (.fired outcome :: log) = handed log := rfl

@[simp] theorem handed_nil : handed [] = [] := rfl

@[simp] theorem outcomes_commit (t : Transaction) (log : List ChainEvent) :
    outcomes (.commit t :: log) = outcomes log := rfl

@[simp] theorem outcomes_fired (outcome : Outcome) (log : List ChainEvent) :
    outcomes (.fired outcome :: log) = outcome :: outcomes log := rfl

@[simp] theorem outcomes_nil : outcomes [] = [] := rfl

@[simp] theorem handed_aborted (outcome : Outcome) : handed (aborted outcome) = [] := by
  unfold aborted
  split <;> rfl

@[simp] theorem outcomes_aborted (outcome : Outcome) : outcomes (aborted outcome) = [] := by
  unfold aborted
  split <;> rfl

@[simp] theorem handed_settledLog : handed (settledLog settled) = settled.map Prod.fst := by
  induction settled using List.reverseRecOn with
  | nil => rfl
  | append_singleton settled p ih =>
    rw [settledLog_append, handed_append, handed_append, ih, handed_aborted]
    simp

@[simp] theorem outcomes_settledLog : outcomes (settledLog settled) = settled.map Prod.snd := by
  induction settled using List.reverseRecOn with
  | nil => rfl
  | append_singleton settled p ih =>
    rw [settledLog_append, outcomes_append, outcomes_append, ih, outcomes_aborted]
    simp

/-- A commit starts when every commit before it has ended, and only a commit that has started
ends. -/
def InTurn (log : List ChainEvent) : Prop :=
  Runs.EveryStep (fun before e =>
    match e with
    | .commit _ => (handed before).length = (outcomes before).length
    | .fired _ => (handed before).length = (outcomes before).length + 1
    | .loseConnection => True) log

theorem InTurn.aborted {log : List ChainEvent} (turns : InTurn log) (outcome : Outcome) :
    InTurn (log ++ CollectionSession.aborted outcome) := by
  unfold CollectionSession.aborted
  split
  · exact Runs.EveryStep.append turns trivial
  · simpa using turns

theorem settledLog_inTurn_commit (turns : InTurn (settledLog settled)) (t : Transaction) :
    InTurn (settledLog settled ++ [.commit t]) := by
  apply Runs.EveryStep.append turns
  show (handed (settledLog settled)).length = (outcomes (settledLog settled)).length
  simp

theorem settledLog_inTurn : InTurn (settledLog settled) := by
  induction settled using List.reverseRecOn with
  | nil => exact Runs.EveryStep.nil _
  | append_singleton settled p ih =>
    rw [settledLog_append]
    apply InTurn.aborted
    have started := settledLog_inTurn_commit settled ih p.1
    rw [show settledLog settled ++ [.commit p.1, .fired p.2] =
      (settledLog settled ++ [.commit p.1]) ++ [.fired p.2] by simp]
    apply Runs.EveryStep.append started
    show (handed (settledLog settled ++ [.commit p.1])).length =
      (outcomes (settledLog settled ++ [.commit p.1])).length + 1
    simp

theorem loseConnection_mem_settledLog :
    .loseConnection ∈ settledLog settled ↔ .fired (.error .other) ∈ settledLog settled := by
  have lost (outcome : Outcome) :
      .loseConnection ∈ CollectionSession.aborted outcome ↔ outcome = .error .other := by
    unfold CollectionSession.aborted
    split
    · simp
    · rename_i other
      simp only [List.not_mem_nil, false_iff]
      exact other
  have quiet (outcome o : Outcome) : .fired o ∉ CollectionSession.aborted outcome := by
    unfold CollectionSession.aborted
    split <;> simp
  simp only [settledLog, List.mem_flatMap, List.mem_append, List.mem_cons, reduceCtorEq,
    List.not_mem_nil, or_false, false_or, lost, quiet, ChainEvent.fired.injEq]
  simp only [eq_comm]

end Log

namespace ChainState

variable {flushed : List Transaction} {settled : List (Transaction × Outcome)}
  {p : Chain ChainStep CommitError Unit × List ChainEvent}

theorem handed_prefix (state : ChainState flushed settled p) : handed p.2 <+: flushed := by
  cases state with
  | idle all => exact ⟨[], by simpa using all⟩
  | running t queue all => exact ⟨queue, by simp [← all]⟩

theorem outcomes_eq (state : ChainState flushed settled p) :
    outcomes p.2 = settled.map Prod.snd := by
  cases state with
  | idle all => simp
  | running t queue all => simp

theorem inTurn (state : ChainState flushed settled p) : InTurn p.2 := by
  cases state with
  | idle all => exact settledLog_inTurn settled
  | running t queue all => exact settledLog_inTurn_commit settled (settledLog_inTurn settled) t

theorem loseConnection_iff (state : ChainState flushed settled p) :
    .loseConnection ∈ p.2 ↔ .fired (.error .other) ∈ p.2 := by
  have all := loseConnection_mem_settledLog settled
  cases state with
  | idle _ => exact all
  | running t queue _ => simpa using all

theorem handed_of_result (state : ChainState flushed settled p) (quiet : p.1.result ≠ none) :
    handed p.2 = flushed := by
  cases state with
  | idle all => simpa using all
  | running t queue all => exact absurd rfl quiet

/-- When as many commits have ended as were flushed, none is running. -/
theorem result_of_length (state : ChainState flushed settled p)
    (ended : flushed.length ≤ settled.length) : p.1.result ≠ none := by
  cases state with
  | idle all => simp [succeed]
  | running t queue all =>
    have length := congrArg List.length all
    simp only [List.length_append, List.length_map, List.length_cons] at length
    omega

end ChainState

section Run

theorem runCallbacks_abort (t : Transaction) (rest : List (Link ChainStep)) (outcome : Outcome)
    (log : List ChainEvent) :
    runCallbacks (chainCall factory) (abortLink t :: rest) outcome log =
      runCallbacks (chainCall factory) rest (.ok ()) (log ++ aborted outcome) := by
  match outcome with
  | .ok () => simp [runCallbacks, abortLink, Link.select, aborted]
  | .error .cancelledError => simp [runCallbacks, abortLink, Link.select, aborted, chainCall]
  | .error .other => simp [runCallbacks, abortLink, Link.select, aborted, chainCall]

theorem runCallbacks_commit (t : Transaction) (rest : List (Link ChainStep))
    (log : List ChainEvent) :
    runCallbacks (chainCall factory) (commitLink t :: rest) (.ok ()) log =
      match factory (handed log).length with
      | some outcome =>
        runCallbacks (chainCall factory) rest outcome (log ++ [.commit t, .fired outcome])
      | none => (⟨none, rest⟩, log ++ [.commit t]) := by
  simp only [runCallbacks, commitLink, Link.select, chainCall]
  cases factory (handed log).length <;> rfl

/-- With nothing running the waiting transactions are committed one after the other, until one
does not end at once. -/
theorem runCallbacks_queue (queue : List Transaction) (settled : List (Transaction × Outcome)) :
    ∃ more, ChainState (settled.map Prod.fst ++ queue) (settled ++ more)
      (runCallbacks (chainCall factory) (queueLinks queue) (.ok ()) (settledLog settled)) := by
  induction queue generalizing settled with
  | nil =>
    refine ⟨[], ?_⟩
    rw [List.append_nil, List.append_nil]
    exact .idle rfl
  | cons t queue ih =>
    rw [show queueLinks (t :: queue) = commitLink t :: abortLink t :: queueLinks queue from rfl,
      runCallbacks_commit]
    cases now : factory (handed (settledLog settled)).length with
    | none =>
      refine ⟨[], ?_⟩
      rw [List.append_nil]
      exact .running t queue rfl
    | some outcome =>
      have after := ih (settled ++ [(t, outcome)])
      rw [settledLog_append, ← runCallbacks_abort factory t (queueLinks queue)] at after
      obtain ⟨more, state⟩ := after
      refine ⟨(t, outcome) :: more, ?_⟩
      simpa using state

/-- A transaction is committed at once when nothing runs, else it waits. -/
theorem chainCommit_cases {s : CollectionSession} {settled : List (Transaction × Outcome)}
    {flushed : List Transaction} (state : ChainState flushed settled (s.commitChain, s.log))
    (t : Transaction) :
    settled.map Prod.fst = flushed ∧
        ((s.chainCommit factory t).commitChain, (s.chainCommit factory t).log) =
          runCallbacks (chainCall factory) (queueLinks [t]) (.ok ()) (settledLog settled) ∨
      ChainState (flushed ++ [t]) settled
        ((s.chainCommit factory t).commitChain, (s.chainCommit factory t).log) := by
  obtain ⟨chain, chainEq⟩ : ∃ chain, s.commitChain = chain := ⟨_, rfl⟩
  obtain ⟨log, logEq⟩ : ∃ log, s.log = log := ⟨_, rfl⟩
  rw [chainEq, logEq] at state
  cases state with
  | idle all =>
    have both := runCallbacks_concat (chainCall factory) [commitLink t] (abortLink t) (.ok ())
      (settledLog settled)
    refine Or.inl ⟨all, ?_⟩
    simp only [chainCommit, chainEq, logEq]
    exact both.symm
  | running u queue all =>
    have longer : settled.map Prod.fst ++ u :: (queue ++ [t]) = flushed ++ [t] := by
      rw [← all]
      simp
    refine Or.inr ?_
    convert ChainState.running u (queue ++ [t]) longer using 1
    simp [chainCommit, chainEq, logEq, addLink, queueLinks, commitLink, abortLink]

theorem chainCommit_state {s : CollectionSession} {settled : List (Transaction × Outcome)}
    {flushed : List Transaction} (state : ChainState flushed settled (s.commitChain, s.log))
    (t : Transaction) :
    ∃ more, ChainState (flushed ++ [t]) (settled ++ more)
      ((s.chainCommit factory t).commitChain, (s.chainCommit factory t).log) := by
  rcases chainCommit_cases factory state t with ⟨all, same⟩ | waits
  · obtain ⟨more, after⟩ := runCallbacks_queue factory [t] settled
    rw [all, ← same] at after
    exact ⟨more, after⟩
  · exact ⟨[], by rwa [List.append_nil]⟩

theorem fire_eq {s : CollectionSession} (running : s.commitChain.result = none)
    (outcome : Outcome) :
    ((s.fire factory outcome).commitChain, (s.fire factory outcome).log) =
      runCallbacks (chainCall factory) s.commitChain.links outcome (s.log ++ [.fired outcome]) := by
  unfold fire
  split
  · rename_i quiet
    rw [running] at quiet
    cases quiet
  · simp [resume, running]

/-- The Deferred of the running commit fires, and the transactions that wait have their turn. -/
theorem fire_running {s : CollectionSession} {settled : List (Transaction × Outcome)}
    {flushed : List Transaction} (state : ChainState flushed settled (s.commitChain, s.log))
    (running : s.commitChain.result = none) (outcome : Outcome) :
    ∃ t queue, settled.map Prod.fst ++ t :: queue = flushed ∧
      ((s.fire factory outcome).commitChain, (s.fire factory outcome).log) =
        runCallbacks (chainCall factory) (queueLinks queue) (.ok ())
          (settledLog (settled ++ [(t, outcome)])) := by
  obtain ⟨chain, chainEq⟩ : ∃ chain, s.commitChain = chain := ⟨_, rfl⟩
  obtain ⟨log, logEq⟩ : ∃ log, s.log = log := ⟨_, rfl⟩
  rw [chainEq, logEq] at state
  cases state with
  | idle all =>
    rw [chainEq] at running
    cases running
  | running t queue all =>
    refine ⟨t, queue, all, ?_⟩
    rw [settledLog_append, ← runCallbacks_abort factory t (queueLinks queue),
      fire_eq factory running, chainEq, logEq]
    simp

theorem fire_state {s : CollectionSession} {settled : List (Transaction × Outcome)}
    {flushed : List Transaction} (state : ChainState flushed settled (s.commitChain, s.log))
    (running : s.commitChain.result = none) (outcome : Outcome) :
    ∃ t more, ChainState flushed (settled ++ (t, outcome) :: more)
      ((s.fire factory outcome).commitChain, (s.fire factory outcome).log) := by
  obtain ⟨t, queue, all, same⟩ := fire_running factory state running outcome
  obtain ⟨more, after⟩ := runCallbacks_queue factory queue (settled ++ [(t, outcome)])
  refine ⟨t, more, ?_⟩
  rw [same, ← all]
  simpa using after

theorem fire_of_result {s : CollectionSession} (quiet : s.commitChain.result ≠ none)
    (outcome : Outcome) : s.fire factory outcome = s := by
  unfold fire
  split
  · rfl
  · rename_i running
    exact absurd running quiet

end Run

/-- What was flushed is committed in order, one commit at a time. -/
def Ordered (s : CollectionSession) : Prop :=
  ∃ settled, ChainState s.flushed settled (s.commitChain, s.log)

theorem opened_ordered (host : String) (port srcid : Nat) : (opened host port srcid).Ordered :=
  ⟨[], .idle rfl⟩

theorem flush_ordered {s : CollectionSession} (ordered : s.Ordered) :
    (s.flush factory).Ordered := by
  by_cases dirty : s.dirty = true
  · rw [flush_dirty factory dirty]
    obtain ⟨settled, state⟩ := ordered
    let taken : CollectionSession := { s with
      transaction :=
        { newTransaction s.host s.port s.srcid with clientInfos := s.transaction.clientInfos }
      flushDeadline := none
      dirty := false
      flushed := s.flushed ++ [s.transaction] }
    obtain ⟨more, after⟩ := @chainCommit_state factory taken settled s.flushed state s.transaction
    exact ⟨settled ++ more, after⟩
  · rw [flush_clean factory dirty]
    exact ordered

theorem fire_flushed (s : CollectionSession) (outcome : Outcome) :
    (s.fire factory outcome).flushed = s.flushed := by
  unfold fire
  split <;> rfl

theorem fire_ordered {s : CollectionSession} (ordered : s.Ordered) (outcome : Outcome) :
    (s.fire factory outcome).Ordered := by
  by_cases running : s.commitChain.result = none
  · obtain ⟨settled, state⟩ := ordered
    obtain ⟨t, more, after⟩ := fire_state factory state running outcome
    refine ⟨settled ++ (t, outcome) :: more, ?_⟩
    rw [fire_flushed]
    exact after
  · rw [fire_of_result factory running]
    exact ordered

theorem step_ordered {s : CollectionSession} (ordered : s.Ordered) (e : Event) :
    (s.step cfg factory e).Ordered := by
  cases e with
  | call clock c =>
    exact call_maintains (I := Ordered) cfg factory (fun _ => flush_ordered factory) (fun _ _ _ now => now)
      ordered clock c
  | close => exact flush_ordered factory ordered
  | fires outcome => exact fire_ordered factory ordered outcome

theorem run_ordered {s : CollectionSession} (ordered : s.Ordered) (events : List Event) :
    (s.run cfg factory events).Ordered := by
  induction events generalizing s with
  | nil => exact ordered
  | cons e events ih => exact ih (step_ordered cfg factory ordered e)

/-- Once as many Deferreds have fired as transactions were flushed, all are committed. -/
theorem fires_handed {s : CollectionSession} (ordered : s.Ordered) (later : List Outcome)
    (enough : s.flushed.length ≤ (outcomes s.log).length + later.length) :
    handed (later.foldl (fire factory) s).log = s.flushed := by
  obtain ⟨settled, state⟩ := ordered
  have ended : outcomes s.log = settled.map Prod.snd := state.outcomes_eq
  rw [ended, List.length_map] at enough
  clear ended
  induction later generalizing s settled with
  | nil => exact state.handed_of_result (state.result_of_length enough)
  | cons outcome later ih =>
    by_cases running : s.commitChain.result = none
    · obtain ⟨t, more, after⟩ := fire_state factory state running outcome
      rw [← fire_flushed factory s outcome] at after enough ⊢
      refine ih _ ?_ after
      simp only [List.length_append, List.length_cons] at enough ⊢
      omega
    · have same := fire_of_result factory running
      have rest : later.foldl (fire factory) s = s := by
        clear ih enough
        induction later with
        | nil => rfl
        | cons next later again => rw [List.foldl_cons, same, again]
      rw [List.foldl_cons, same, rest]
      exact state.handed_of_result running

/-- Before the client is gone no transaction says that it is. -/
def Connected (s : CollectionSession) : Prop :=
  s.transaction.connected = true ∧ ∀ t ∈ s.flushed, t.connected = true

theorem flush_flushed (s : CollectionSession) :
    (s.flush factory).flushed = s.flushed ++ if s.dirty then [s.transaction] else [] := by
  by_cases dirty : s.dirty = true
  · rw [flush_dirty factory dirty, if_pos dirty]
    rfl
  · rw [flush_clean factory dirty, if_neg dirty, List.append_nil]

theorem close_flushed (s : CollectionSession) :
    (s.close factory).flushed =
      s.flushed ++ [{ newTransaction s.host s.port s.srcid with connected := false }] :=
  flush_flushed factory _

theorem collect_connected (t : Transaction) (c : SessionCall) :
    (t.collect c).connected = t.connected := by cases c <;> rfl

theorem flush_connected {s : CollectionSession} (connected : s.Connected) :
    (s.flush factory).Connected := by
  constructor
  · by_cases dirty : s.dirty = true
    · rw [flush_dirty factory dirty]
      rfl
    · rw [flush_clean factory dirty]
      exact connected.1
  · rw [flush_flushed]
    intro t member
    rcases List.mem_append.mp member with old | new
    · exact connected.2 t old
    · split at new
      · obtain rfl : t = s.transaction := by simpa using new
        exact connected.1
      · cases new

/-- Every transaction carries the id of the session. -/
def SameSource (s : CollectionSession) : Prop :=
  s.transaction.srcid = s.srcid ∧ ∀ t ∈ s.flushed, t.srcid = s.srcid

theorem flush_srcid (s : CollectionSession) : (s.flush factory).srcid = s.srcid := by
  by_cases dirty : s.dirty = true
  · rw [flush_dirty factory dirty]
    rfl
  · rw [flush_clean factory dirty]

theorem flush_sameSource {s : CollectionSession} (same : s.SameSource) :
    (s.flush factory).SameSource := by
  constructor
  · by_cases dirty : s.dirty = true
    · rw [flush_dirty factory dirty]
      rfl
    · rw [flush_clean factory dirty]
      exact same.1
  · rw [flush_flushed, flush_srcid]
    intro t member
    rcases List.mem_append.mp member with old | new
    · exact same.2 t old
    · split at new
      · obtain rfl : t = s.transaction := by simpa using new
        exact same.1
      · cases new

theorem call_sameSource {s : CollectionSession} (same : s.SameSource) (clock : Clock)
    (c : SessionCall) : (s.call cfg factory clock c).SameSource := by
  apply call_maintains (I := SameSource) cfg factory (fun _ => flush_sameSource factory) _ same
  intro s clock c now
  refine ⟨?_, now.2⟩
  have kept : (s.transaction.collect c).srcid = s.transaction.srcid := by cases c <;> rfl
  exact kept.trans now.1

theorem call_connected {s : CollectionSession} (connected : s.Connected) (clock : Clock)
    (c : SessionCall) : (s.call cfg factory clock c).Connected := by
  apply call_maintains (I := Connected) cfg factory (fun _ => flush_connected factory) _ connected
  intro s clock c now
  exact ⟨(collect_connected s.transaction c).trans now.1, now.2⟩

/-- A Deferred that fires touches the chain and the log only. -/
theorem fire_eq_chain (s : CollectionSession) (outcome : Outcome) :
    ∃ commitChain log, s.fire factory outcome = { s with commitChain, log } := by
  unfold fire
  split
  · exact ⟨s.commitChain, s.log, rfl⟩
  · exact ⟨_, _, rfl⟩

theorem run_connected {s : CollectionSession} (connected : s.Connected) (events : List Event)
    (opened : .close ∉ events) : (s.run cfg factory events).Connected := by
  induction events generalizing s with
  | nil => exact connected
  | cons e events ih =>
    apply ih _ (fun later => opened (List.mem_cons_of_mem e later))
    cases e with
    | call clock c => exact call_connected cfg factory connected clock c
    | close => simp at opened
    | fires outcome =>
      obtain ⟨commitChain, log, same⟩ := fire_eq_chain factory s outcome
      show (s.fire factory outcome).Connected
      rw [same]
      exact connected

/-- Calls, then the close, with Deferreds that fire at any time. -/
def EndsByClose (events : List Event) : Prop :=
  ∃ before after, events = before ++ .close :: after ∧ .close ∉ before ∧
    ∀ e ∈ after, ∃ outcome, e = .fires outcome

theorem run_fires_flushed (s : CollectionSession) (events : List Event)
    (fires : ∀ e ∈ events, ∃ outcome, e = .fires outcome) :
    (s.run cfg factory events).flushed = s.flushed := by
  induction events generalizing s with
  | nil => rfl
  | cons e events ih =>
    obtain ⟨outcome, rfl⟩ := fires e List.mem_cons_self
    rw [run_cons, ih _ fun e later => fires e (List.mem_cons_of_mem _ later)]
    exact fire_flushed factory s outcome

theorem flushed_endsByClose {s : CollectionSession} (connected : s.Connected) {events : List Event}
    (ended : EndsByClose events) : ∃ front last,
      (s.run cfg factory events).flushed = front ++ [last] ∧ last.connected = false ∧
        ∀ t ∈ front, t.connected = true := by
  obtain ⟨before, after, rfl, opened, fires⟩ := ended
  rw [run_append, run_cons, run_fires_flushed cfg factory _ after fires]
  exact ⟨_, _, close_flushed factory _, rfl, (run_connected cfg factory connected before opened).2⟩

/-- For every sequence of calls that ends with the close, every outcome of each commit and every
time at which it comes: the transactions reach the factory in the order of the flushes, each one
when the commits before it have ended, the one that says that the client is gone as the last. -/
theorem commits_in_flush_order (host : String) (port srcid : Nat) (events : List Event)
    (ended : EndsByClose events) :
    let s := (opened host port srcid).run cfg factory events
    handed s.log <+: s.flushed ∧
      (s.commitChain.result ≠ none → handed s.log = s.flushed) ∧
      (∀ later : List Outcome, s.flushed.length ≤ (outcomes s.log).length + later.length →
        handed (later.foldl (fire factory) s).log = s.flushed) ∧
      InTurn s.log ∧
      (∃ front last, s.flushed = front ++ [last] ∧ last.connected = false ∧
        ∀ t ∈ front, t.connected = true) ∧
      (.loseConnection ∈ s.log ↔ .fired (.error .other) ∈ s.log) := by
  intro s
  have ordered := run_ordered cfg factory (opened_ordered host port srcid) events
  have ⟨settled, state⟩ := ordered
  have connected : (opened host port srcid).Connected := ⟨rfl, by simp [opened]⟩
  exact ⟨state.handed_prefix, state.handed_of_result, fires_handed factory ordered, state.inTurn,
    flushed_endsByClose cfg factory connected ended, state.loseConnection_iff⟩

/-- Two flushes and the close while the first commit is running, which then fails. -/
theorem commits_in_flush_order_failing :
    let events : List Event := [.call {} (.iocInfo "A" "1"), .call {} .done,
      .call {} (.iocInfo "A" "2"), .call {} .done, .close, .fires (.error .other)]
    let factory : Factory := fun n => if n = 0 then none else some (.ok ())
    EndsByClose events ∧
      handed ((opened "h" 1 7).run {} factory events).log =
        ((opened "h" 1 7).run {} factory events).flushed := by
  intro events factory
  have ended : EndsByClose events := by
    refine ⟨events.take 4, events.drop 5, rfl, by simp [events], ?_⟩
    intro e inside
    exact ⟨.error .other, by simpa [events] using inside⟩
  exact ⟨ended, (commits_in_flush_order {} factory "h" 1 7 events ended).2.1 (by
    simp [events, factory, run, step, call, flush, close, update, markDirty, fire, chainCommit,
      addLink, resume, runCallbacks, Link.select, chainCall, opened, succeed, handed])⟩

end Recsync.Recast.CollectionSession
