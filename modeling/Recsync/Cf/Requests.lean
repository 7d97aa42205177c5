import Recsync.Cf.Commit

set_option autoImplicit false

/- The threads of the processor, one ChannelFinder request at a time. A commit that has the lock to
itself does what `_commit_with_thread` does. -/
namespace Recsync.Cf

open Py (Error RaisesOnly)

/-- `find_active_for_recceiver`, cut off at the size limit of the adapter. -/
def findActiveForRecceiver (cfg : CFConfig) (env : Env) (s : Store) : List CFChannel :=
  let found := env.replyOrder ((storedChannels s).filter fun ch =>
    decide ch.toCFEntry.Active && decide (ch.toCFEntry.has .recceiverId cfg.recceiverId))
  if 0 < cfg.cfQueryLimit then found.take cfg.cfQueryLimit.toNat else found

def CFEntry.setProperty (e : CFEntry) (p : CFProperty) : CFEntry :=
  { e with properties := (e.properties.filter fun q => decide (q.name ≠ p.name)) ++ [p] }

/-- `update_property`: one property of the named channels. -/
def updateProperty (s : Store) (p : CFProperty) (names : List String) : Store :=
  names.foldl (fun s n =>
    match s.get? n with
    | some e => s.set n (e.setProperty p)
    | none => s) s

/-- `clean_service` between two requests. -/
inductive Sweep where
  | querying
  /-- the names that `update_property` is going to be called with -/
  | cleaning (names : List String)
  | finished
  deriving DecidableEq, Repr

/-- What `_commit_with_thread` has computed when it starts to push. -/
structure Job where
  transaction : Transaction
  ioc : IOCInfo
  records : Py.Dict String RecordInfo
  del : List Key
  /-- the attempts that were started -/
  count : Int := 0

/-- A thread between two of its steps. -/
inductive Task where
  /-- `_commit_with_thread` is called -/
  | starting (t : Transaction)
  /-- at the head of the loop of `_push_to_cf` -/
  | attempting (job : Job)
  /-- before `find_by_ioc_id` -/
  | fetching (job : Job)
  /-- before `find_by_names` -/
  | reconciled (job : Job) (old : List CFChannel) (new : List String) (handled : List CFChannel)
  /-- before `set_channels` with the first of the batches -/
  | writing (job : Job) (todo : List (List CFChannel))
  /-- `clean_service`, with the number of its failures -/
  | sweeping (sweep : Sweep) (failures : Nat)
  /-- the function has returned or raised -/
  | ended (result : Except Error Unit)

/-- The request of `clean_channels`. -/
def markInactive (cfg : CFConfig) (names : List String) (s : Store) : Store :=
  updateProperty s (property .pvStatus cfg.username PVStatus.inactive.value) names

namespace Task

variable (client : ChannelFinderAdapter) (cfg : CFConfig) (setup : Setup) (env : Env)

/-- The end of a push that is given up. -/
def giveUp (job : Job) (w : World) : World × Task :=
  if job.transaction.connected then
    match evictIoc env job.transaction.iocid w.proc with
    | .ok _ p => ({ w with proc := p }, .ended (.error .cancelledError))
    | .error e p => ({ w with proc := p }, .ended (.error e))
  else (w, .ended (.error .cancelledError))

/-- The thread goes on; a request that it makes is answered. -/
def proceed (w : World) : Task → World × Task
  | .starting t =>
    let ioc := iocInfoOf cfg env t
    let records := recordsOf cfg setup env t
    if ¬ w.proc.running then (w, .ended (.error .cancelledError))
    else if ¬ iocNameConverts ioc.iocName then (w, .ended (.error .valueError))
    else if t.connected = false ∧ w.proc.iocs ioc.id = none then (w, .ended (.ok ()))
    else
      match updateIocInfos cfg env t ioc records w.proc with
      | .error e p => ({ w with proc := p }, .ended (.error e))
      | .ok del p => ({ w with proc := p }, .attempting { transaction := t, ioc, records, del })
  | .attempting job =>
    if ¬ (cfg.pushAlwaysRetry = true ∨ job.count < cfg.pushMaxRetries) then giveUp env job w
    else if ¬ w.proc.running then giveUp env job w
    else (w, .fetching { job with count := job.count + 1 })
  | .fetching job =>
    if w.proc.cancelled then (w, .ended (.error .cancelledError))
    else
      let old := client.findByIocId env w.store job.ioc.id
      match reconcileOld cfg setup w.proc job.records job.del job.ioc old with
      | .error e => (w, .ended (.error e))
      | .ok (new, handled) => (w, .reconciled job old new handled)
  | .reconciled job old new handled =>
    if w.proc.cancelled then (w, .ended (.error .cancelledError))
    else
      match batches cfg setup env job.records job.ioc old new handled
          (client.getExistingChannels env w.store new) with
      | .error e => (w, .ended (.error e))
      | .ok todo => (w, .writing job todo)
  | .writing job (batch :: rest) =>
    ({ w with store := setChannels w.store batch }, .writing job rest)
  | .writing _ [] =>
    if w.proc.cancelled then (w, .ended (.error .cancelledError)) else (w, .ended (.ok ()))
  | .sweeping .querying failures =>
    let page := (findActiveForRecceiver cfg env w.store).map CFChannel.name
    (w, .sweeping (if page = [] then .finished else .cleaning page) failures)
  | .sweeping (.cleaning names) failures =>
    ({ w with store := markInactive cfg names w.store }, .sweeping .querying failures)
  | .sweeping .finished failures => (w, .sweeping .finished failures)
  | .ended result => (w, .ended result)

/-- The sweep meets one more failure and tries again, unless the service is stopped and the pause
has grown to the limit: one second, half as much again after each failure, five at most. -/
def sweepAgain (running : Bool) (failures : Nat) : Task :=
  if running = false ∧ 5 * 2 ^ (failures + 1) ≤ 3 ^ (failures + 1) then .ended (.ok ())
  else .sweeping .querying (failures + 1)

/-- The request of the thread raises `RequestException`, a write perhaps after some of the
work. -/
def fails (torn : List CFChannel → List CFChannel) (tornNames : List String → List String)
    (w : World) : Task → World × Task
  | .fetching job =>
    if w.proc.cancelled then (w, .ended (.error .cancelledError)) else (w, .attempting job)
  | .reconciled job old new handled =>
    if new = [] then (w, .reconciled job old new handled) else (w, .attempting job)
  | .writing job (batch :: _) =>
    ({ w with store := setChannels w.store (torn batch) }, .attempting job)
  | .sweeping .querying failures => (w, sweepAgain w.proc.running failures)
  | .sweeping (.cleaning names) failures =>
    ({ w with store := markInactive cfg (tornNames names) w.store },
      sweepAgain w.proc.running failures)
  | task => (w, task)

def result? : Task → Option (Except Error Unit)
  | .ended result => some result
  | .sweeping .finished _ => some (.ok ())
  | _ => none

def Sweeps : Task → Prop
  | .sweeping _ _ => True
  | _ => False

def Through : Task → Prop
  | .sweeping .finished _ => True
  | _ => False

instance : DecidablePred Through := fun task =>
  match task with
  | .sweeping .finished _ => .isTrue trivial
  | .starting _ | .attempting _ | .fetching _ | .reconciled _ _ _ _ | .writing _ _
  | .sweeping .querying _ | .sweeping (.cleaning _) _ | .ended _ => .isFalse id

end Task

/-- What becomes of a request: it is answered, or it raises `RequestException`, a write perhaps
after some of the work. -/
inductive Answer where
  | answers (env : Env)
  | raises (torn : List CFChannel → List CFChannel) (part : ∀ l, torn l ⊆ l)
      (tornNames : List String → List String) (partNames : ∀ l, tornNames l ⊆ l)

namespace Answer

variable (client : ChannelFinderAdapter) (cfg : CFConfig) (setup : Setup)

def onRequest (s : World × Task) : Answer → World × Task
  | .answers env => s.2.proceed client cfg setup env s.1
  | .raises torn _ tornNames _ => s.2.fails cfg torn tornNames s.1

def raised : Answer → Bool
  | .answers _ => false
  | .raises _ _ _ _ => true

end Answer

/-- The thread that goes on from the task alone, with what becomes of its requests. -/
def runTask (client : ChannelFinderAdapter) (cfg : CFConfig) (setup : Setup) (requests : List Answer)
    (s : World × Task) : World × Task :=
  requests.foldl (fun s a => a.onRequest client cfg setup s) s

section Alone

variable {client : ChannelFinderAdapter} {cfg : CFConfig} {setup : Setup} {env : Env} {w : World}
  {job : Job}

/-- Some course of the requests takes the thread from one point to the other. -/
def Reaches (client : ChannelFinderAdapter) (cfg : CFConfig) (setup : Setup)
    (s s' : World × Task) : Prop :=
  ∃ requests, runTask client cfg setup requests s = s'

theorem Reaches.refl (s : World × Task) : Reaches client cfg setup s s := ⟨[], rfl⟩

theorem Reaches.trans {s s' s'' : World × Task} (first : Reaches client cfg setup s s')
    (second : Reaches client cfg setup s' s'') : Reaches client cfg setup s s'' := by
  obtain ⟨before, rfl⟩ := first
  obtain ⟨after, rfl⟩ := second
  exact ⟨before ++ after, List.foldl_append⟩

theorem Reaches.answered (env : Env) {task : Task} {s' : World × Task}
    (next : Reaches client cfg setup (task.proceed client cfg setup env w) s') :
    Reaches client cfg setup (w, task) s' :=
  Reaches.trans ⟨[.answers env], rfl⟩ next

theorem Reaches.raised (torn : List CFChannel → List CFChannel) (part : ∀ l, torn l ⊆ l)
    {task : Task} {s' : World × Task}
    (next : Reaches client cfg setup (task.fails cfg torn id w) s') :
    Reaches client cfg setup (w, task) s' :=
  Reaches.trans ⟨[.raises torn part id fun l => List.Subset.refl l], rfl⟩ next

def Task.afterAttempt (job : Job) (p : Processor) : Except Error Unit × Store → World × Task
  | (.ok (), s) => (⟨p, s⟩, .ended (.ok ()))
  | (.error .requestException, s) => (⟨p, s⟩, .attempting job)
  | (.error e, s) => (⟨p, s⟩, .ended (.error e))

theorem writes_reaches (active : w.proc.cancelled = false) (fault : Option Fault)
    (todo : List (List CFChannel)) :
    Reaches client cfg setup (w, .writing job todo)
      (Task.afterAttempt job w.proc (writeBatches todo fault w.store)) := by
  have whole : ∀ (todo : List (List CFChannel)) (s : Store),
      Reaches client cfg setup (⟨w.proc, s⟩, .writing job todo)
        (⟨w.proc, setChannels s todo.flatten⟩, .ended (.ok ())) := by
    intro todo
    induction todo with
    | nil =>
      intro s
      exact .answered {} (by simp [Task.proceed, active, Reaches.refl])
    | cons batch rest ih =>
      intro s
      rw [List.flatten_cons, setChannels_append]
      exact .answered {} (ih _)
  have torn : ∀ (written : Nat) (part : List CFChannel → List CFChannel) (inside : ∀ l, part l ⊆ l)
      (todo : List (List CFChannel)) (batch : List CFChannel), todo[written]? = some batch →
        ∀ s : Store, Reaches client cfg setup (⟨w.proc, s⟩, .writing job todo)
          (⟨w.proc, setChannels (setChannels s (todo.take written).flatten) (part batch)⟩,
            .attempting job) := by
    intro written part inside
    induction written with
    | zero =>
      intro todo batch here s
      cases todo with
      | nil => cases here
      | cons first rest =>
        obtain rfl := Option.some.inj here
        exact .raised part inside (.refl _)
    | succ k ih =>
      intro todo batch here s
      cases todo with
      | nil => cases here
      | cons first rest =>
        rw [List.take_succ_cons, List.flatten_cons, setChannels_append]
        exact .answered {} (ih rest batch here _)
  cases fault with
  | none => exact whole todo w.store
  | some fault =>
    cases fault with
    | findByIocId => exact whole todo w.store
    | findByNames => exact whole todo w.store
    | setChannels written part inside =>
      simp only [writeBatches]
      cases here : todo[written]? with
      | none => exact whole todo w.store
      | some batch => exact torn written part inside todo batch here w.store

abbrev NoRequest (e : Error) : Prop := e ≠ .requestException

section Local

variable {p : Processor} {ioc : IOCInfo} {records : Py.Dict String RecordInfo} {del : List Key}
  {old : List CFChannel}

theorem handleChannelIsOld_local (cf : CFChannel) (last : IOCInfo) :
    RaisesOnly NoRequest (handleChannelIsOld cfg setup p ioc records cf last) := by
  have defaults : RaisesOnly NoRequest (createDefaultProperties cfg p ioc cf.name) := by
    unfold createDefaultProperties
    split
    · exact .error (by simp)
    · split
      · exact .error (by simp)
      · exact .ok _
  have each (properties : List CFProperty) (name : String) :
      RaisesOnly NoRequest (reassignAlias setup p properties name) := by
    unfold reassignAlias
    split
    · exact .ok _
    · split
      · exact .error (by simp)
      · split <;> exact .ok _
  exact defaults.bind fun properties => (RaisesOnly.mapM (each properties) _).bind fun _ => .ok _

theorem removeNew_local (new : List String) (name : String) :
    RaisesOnly NoRequest (removeNew new name) := by
  unfold removeNew
  split
  · exact .ok _
  · exact .error (by simp)

theorem handleAliasesOldAndNew_local (own : CFChannel) (aliases new : List String) :
    RaisesOnly NoRequest (handleAliasesOldAndNew setup ioc old own aliases new) := by
  induction aliases generalizing new with
  | nil => exact .ok _
  | cons name rest ih =>
    apply (removeNew_local new name).bind
    intro new
    exact (ih new).bind fun _ => .ok _

theorem handleChannel_local (cf : CFChannel) (new : List String) :
    RaisesOnly NoRequest (handleChannel cfg setup p ioc records del old cf new) := by
  unfold handleChannel
  split
  · split
    · exact .ok _
    · split
      · exact .error (by simp)
      · split
        · exact .ok _
        · exact (handleChannelIsOld_local cf _).bind fun _ => .ok _
  · split
    · exact (removeNew_local new cf.name).bind fun new =>
        (handleAliasesOldAndNew_local _ _ new).bind fun _ => .ok _
    · exact .ok _

theorem handleChannels_local (l : List CFChannel) (new : List String) :
    RaisesOnly NoRequest (handleChannels cfg setup p ioc records del old l new) := by
  induction l generalizing new with
  | nil => exact .ok _
  | cons cf rest ih =>
    exact (handleChannel_local cf new).bind fun result => (ih result.1).bind fun _ => .ok _

end Local

theorem batches_local {records : Py.Dict String RecordInfo} {ioc : IOCInfo} {old : List CFChannel}
    {new : List String} {handled : List CFChannel} {existing : Py.Dict String CFEntry} :
    RaisesOnly NoRequest (batches cfg setup env records ioc old new handled existing) := by
  unfold batches cfSetChunked
  dsimp only
  split
  · exact .ok _
  · split
    · exact .error (by simp)
    · split <;> exact .ok _

theorem Task.afterAttempt_error {p : Processor} {e : Error} (kind : e ≠ .requestException)
    (s : Store) : Task.afterAttempt job p (.error e, s) = (⟨p, s⟩, .ended (.error e)) := by
  cases e <;> first | rfl | exact absurd rfl kind

/-- An attempt does what `_update_channelfinder` does. -/
theorem attempt_reaches (env : Env) (fault : Option Fault) :
    Reaches client cfg setup (w, .fetching job) (Task.afterAttempt job w.proc
      (client.updateChannelfinder cfg setup env w.proc job.records job.del job.ioc fault
        w.store)) := by
  unfold ChannelFinderAdapter.updateChannelfinder
  cases active : w.proc.cancelled with
  | true =>
    exact .answered env (by simp [Task.proceed, active, Task.afterAttempt, Reaches.refl])
  | false =>
    rw [if_neg (by simp)]
    split
    · exact .raised id (fun l => List.Subset.refl l)
        (by simp [Task.fails, active, Task.afterAttempt, Reaches.refl])
    · dsimp only
      split
      · rename_i e reconciled
        rw [Task.afterAttempt_error (handleChannels_local _ _ e reconciled)]
        exact .answered env (by simp [Task.proceed, active, reconciled, Reaches.refl])
      · rename_i new handled reconciled
        apply Reaches.answered env
        simp only [Task.proceed, active, reconciled, Bool.false_eq_true, if_false]
        split
        · rename_i fails
          exact .raised id (fun l => List.Subset.refl l)
            (by simp [Task.fails, fails.2, Task.afterAttempt, Reaches.refl])
        · apply Reaches.answered env
          simp only [Task.proceed, active, Bool.false_eq_true, if_false]
          cases planned : batches cfg setup env job.records job.ioc
              (client.findByIocId env w.store job.ioc.id) new handled
              (client.getExistingChannels env w.store new) with
          | error e =>
            dsimp only
            rw [Task.afterAttempt_error (batches_local e planned)]
            exact .refl _
          | ok todo => exact writes_reaches active fault todo

def Task.afterPush (env : Env) (job : Job) (p : Processor) (pushed : Except Error Bool × Store) :
    World × Task :=
  let finished := finishCommit env job.transaction p pushed
  (finished.2, .ended finished.1)

theorem giveUp_eq (env : Env) (s : Store) :
    Task.giveUp env job ⟨w.proc, s⟩ = Task.afterPush env job w.proc (.ok false, s) := by
  simp only [Task.giveUp, Task.afterPush, finishCommit]
  split
  · cases evictIoc env job.transaction.iocid w.proc <;> rfl
  · rfl

/-- Without a fault no request of an attempt fails. -/
theorem updateChannelfinder_local (env : Env) (s : Store) :
    RaisesOnly NoRequest
      (client.updateChannelfinder cfg setup env w.proc job.records job.del job.ioc none s).1 := by
  unfold ChannelFinderAdapter.updateChannelfinder
  split
  · exact .error (by simp)
  · simp only [failsFindByIocId, failsFindByNames, Bool.false_eq_true, false_and, if_false]
    split
    · rename_i e reconciled
      exact .error (handleChannels_local _ _ e reconciled)
    · split
      · rename_i e planned
        exact .error (batches_local e planned)
      · exact .ok _

/-- The push is given up, or it makes an attempt. -/
theorem attempting_reaches (env : Env) (fault : Option Fault) {pushed : Except Error Bool × Store}
    (next : Reaches client cfg setup
      (Task.afterAttempt { job with count := job.count + 1 } w.proc
        (client.updateChannelfinder cfg setup env w.proc job.records job.del job.ioc fault w.store))
      (Task.afterPush env job w.proc pushed)) :
    Reaches client cfg setup (w, .attempting job) (Task.afterPush env job w.proc
      (if ¬ (cfg.pushAlwaysRetry = true ∨ job.count < cfg.pushMaxRetries) then (.ok false, w.store)
        else if ¬ w.proc.running then (.ok false, w.store) else pushed)) := by
  apply Reaches.answered env
  simp only [Task.proceed]
  split
  · rw [giveUp_eq]
    exact .refl _
  · split
    · rw [giveUp_eq]
      exact .refl _
    · exact (@attempt_reaches client cfg setup w { job with count := job.count + 1 } env
        fault).trans next

/-- A push does what `_push_to_cf` does, and then it ends as `_commit_with_thread` does. -/
theorem push_reaches (env : Env) (faults : List Fault) (job : Job) (w : World) :
    Reaches client cfg setup (w, .attempting job) (Task.afterPush env job w.proc
      (client.pushToCf cfg setup env w.proc job.records job.del job.ioc faults job.count
        w.store)) := by
  induction faults generalizing job w with
  | nil =>
    rw [ChannelFinderAdapter.pushToCf]
    apply attempting_reaches env none
    cases ran : client.updateChannelfinder cfg setup env w.proc job.records job.del job.ioc none
        w.store with
    | mk result s =>
      cases result with
      | ok u => exact .refl _
      | error e =>
        have kind := @updateChannelfinder_local client cfg setup w job env w.store e (by rw [ran])
        rw [Task.afterAttempt_error kind]
        exact .refl _
  | cons fault rest ih =>
    rw [ChannelFinderAdapter.pushToCf]
    apply attempting_reaches env (some fault)
    cases ran : client.updateChannelfinder cfg setup env w.proc job.records job.del job.ioc
        (some fault) w.store with
    | mk result s =>
      cases result with
      | ok u => exact .refl _
      | error e =>
        by_cases kind : e = .requestException
        · subst kind
          exact ih { job with count := job.count + 1 } ⟨w.proc, s⟩
        · rw [Task.afterAttempt_error kind]
          cases e <;> first | exact .refl _ | exact absurd rfl kind

/-- A commit that nothing comes between does what `_commit_with_thread` does, whatever requests
fail. -/
theorem commit_reaches (env : Env) (faults : List Fault) (t : Transaction) (w : World) :
    Reaches client cfg setup (w, .starting t)
      ((client.commitWithThread cfg setup env faults t w).2,
        .ended (client.commitWithThread cfg setup env faults t w).1) := by
  apply Reaches.answered env
  simp only [Task.proceed, ChannelFinderAdapter.commitWithThread]
  split
  · exact .refl _
  · split
    · exact .refl _
    · split
      · exact .refl _
      · cases updateIocInfos cfg env t (iocInfoOf cfg env t) (recordsOf cfg setup env t) w.proc with
        | error e p => exact .refl _
        | ok del p => exact push_reaches env faults _ _

end Alone

end Recsync.Cf
