import Mathlib.Algebra.Group.Nat.Defs
import Recsync.Cf.UpdateWrites

set_option autoImplicit false

namespace Recsync.Cf

/-- The configuration lets a push make an attempt, and lets an attempt write. -/
structure CFConfig.Usable (cfg : CFConfig) : Prop where
  limit : 0 < cfg.cfQueryLimit
  attempts : cfg.pushAlwaysRetry = true ∨ 0 < cfg.pushMaxRetries

/-- The processor is started and no commit is being cancelled. -/
structure Processor.Up (p : Processor) : Prop where
  running : p.running = true
  notCancelled : p.cancelled = false

namespace Processor.Up

theorem setIoc {p : Processor} (up : p.Up) (i : String) (info : Option IOCInfo) :
    (p.setIoc i info).Up := ⟨up.running, up.notCancelled⟩

theorem registerInitial {p : Processor} (up : p.Up) (cfg : CFConfig) (env : Env)
    (t : Transaction) : (registerInitial cfg env t p).Up := by
  unfold Cf.registerInitial
  split
  · exact up.setIoc _ _
  · exact up

theorem trackAll {p : Processor} (up : p.Up) (i : String) (names : List String) :
    (p.trackAll i names).Up :=
  Processor.trackAll_induction (fun _ _ _ _ before => ⟨before.running, before.notCancelled⟩)
    names up

theorem untrackAll {p : Processor} (up : p.Up) (i : String) (names : List String) :
    (p.untrackAll i names).Up := by
  induction names generalizing p with
  | nil => exact up
  | cons n rest ih => exact ih ⟨up.running, up.notCancelled⟩

theorem lookUpIds {p : Processor} (up : p.Up) (records : List Nat) : (p.lookUpIds records).Up := by
  induction records generalizing p with
  | nil => exact up
  | cons r rest ih => exact ih ⟨up.running, up.notCancelled⟩

end Processor.Up

section Push

variable {client : ChannelFinderAdapter} {cfg : CFConfig} {setup : Setup} {env : Env}
  {p : Processor}
  {records : Py.Dict String RecordInfo} {del : List Key} {ioc : IOCInfo}

theorem cfSetChunked_flatten (positive : 0 < cfg.cfQueryLimit) (channels : List CFChannel) :
    ∃ bs, cfSetChunked cfg channels = .ok bs ∧ bs.flatten = channels := by
  have notZero : ¬ cfg.cfQueryLimit = 0 := by omega
  have notNegative : ¬ cfg.cfQueryLimit < 0 := by omega
  have size : 0 < cfg.cfQueryLimit.toNat := by omega
  refine ⟨_, by rw [cfSetChunked, if_neg notZero, if_neg notNegative], ?_⟩
  exact Py.chunks_flatten size channels

theorem batches_flatten (positive : 0 < cfg.cfQueryLimit) (old : List CFChannel)
    (new : List String) (handled : List CFChannel) (existing : Py.Dict String CFEntry) :
    ∃ bs, batches cfg setup env records ioc old new handled existing = .ok bs ∧
      bs.flatten = handled ++ processNewChannels cfg setup ioc records env new existing := by
  unfold batches
  by_cases nothing : handled ++ processNewChannels cfg setup ioc records env new existing = [] ∧
      old = []
  · exact ⟨[], by simp only [if_pos nothing], nothing.1.symm⟩
  · simp only [if_neg nothing]
    exact cfSetChunked_flatten positive _

theorem batches_stuck (stuck : cfg.cfQueryLimit ≤ 0) {old : List CFChannel} {new : List String}
    {handled : List CFChannel} {existing : Py.Dict String CFEntry} {bs : List (List CFChannel)}
    (planned : batches cfg setup env records ioc old new handled existing = .ok bs) : bs = [] := by
  unfold batches at planned
  dsimp only at planned
  split at planned
  · exact (Except.ok.inj planned).symm
  · unfold cfSetChunked at planned
    split at planned
    · cases planned
    · split at planned
      · exact (Except.ok.inj planned).symm
      · omega

theorem getExistingChannels_stored {s : Store} {new : List String} {n : String} {e : CFEntry}
    (found : (client.getExistingChannels env s new).get? n = some e) : s.get? n = some e := by
  have fill : ∀ (replies : List CFChannel) (d : Py.Dict String CFEntry),
      (∀ ch ∈ replies, s.get? ch.name = some ch.toCFEntry) →
      (∀ m f, d.get? m = some f → s.get? m = some f) →
      ∀ m f, (replies.foldl (fun d ch => d.set ch.name ch.toCFEntry) d).get? m = some f →
        s.get? m = some f := by
    intro replies
    induction replies with
    | nil => exact fun _ _ before => before
    | cons ch rest ih =>
      intro d stored before
      refine ih _ (fun other member => stored other (List.mem_cons_of_mem _ member)) ?_
      intro m f here
      by_cases same : m = ch.name
      · subst same
        rw [Py.Dict.get?_set_self] at here
        exact here ▸ stored ch List.mem_cons_self
      · rw [Py.Dict.get?_set_ne _ _ same] at here
        exact before m f here
  exact fill _ ∅ (client.findByNames_stored env s _) (fun m f here => by cases here) n e found

/-- All that an attempt can do: raise before it writes, or write its batches up to the fault. -/
theorem updateChannelfinder_cases (fault : Option Fault) (s : Store) :
    (∃ e, client.updateChannelfinder cfg setup env p records del ioc fault s = (.error e, s)) ∨
      ∃ new handled bs, p.cancelled = false ∧
        reconcileOld cfg setup p records del ioc (client.findByIocId env s ioc.id) =
          .ok (new, handled) ∧
        batches cfg setup env records ioc (client.findByIocId env s ioc.id) new handled
          (client.getExistingChannels env s new) = .ok bs ∧
        client.updateChannelfinder cfg setup env p records del ioc fault s =
          writeBatches bs fault s := by
  unfold ChannelFinderAdapter.updateChannelfinder
  by_cases cancelled : p.cancelled = true
  · exact Or.inl ⟨_, if_pos cancelled⟩
  rw [if_neg cancelled]
  by_cases early : failsFindByIocId fault = true
  · exact Or.inl ⟨_, if_pos early⟩
  rw [if_neg early]
  dsimp only
  cases reconciled : reconcileOld cfg setup p records del ioc (client.findByIocId env s ioc.id) with
  | error e => exact Or.inl ⟨e, rfl⟩
  | ok result =>
    obtain ⟨new, handled⟩ := result
    dsimp only
    by_cases late : failsFindByNames fault = true ∧ new ≠ []
    · exact Or.inl ⟨_, if_pos late⟩
    rw [if_neg late]
    cases planned : batches cfg setup env records ioc (client.findByIocId env s ioc.id) new handled
        (client.getExistingChannels env s new) with
    | error e => exact Or.inl ⟨e, rfl⟩
    | ok bs =>
      exact Or.inr ⟨new, handled, bs, by simpa using cancelled, rfl, planned, rfl⟩

/-- An attempt without faults writes what the two queries lead to. -/
theorem updateChannelfinder_calm (positive : 0 < cfg.cfQueryLimit)
    (notCancelled : p.cancelled = false) (s : Store) {new : List String}
    {handled : List CFChannel}
    (reconciled : reconcileOld cfg setup p records del ioc (client.findByIocId env s ioc.id) =
      .ok (new, handled)) :
    client.updateChannelfinder cfg setup env p records del ioc none s =
      (.ok (), setChannels s (handled ++
        processNewChannels cfg setup ioc records env new
          (client.getExistingChannels env s new))) := by
  obtain ⟨bs, planned, all⟩ := @batches_flatten cfg setup env records ioc positive
    (client.findByIocId env s ioc.id) new handled (client.getExistingChannels env s new)
  simp [ChannelFinderAdapter.updateChannelfinder, failsFindByIocId, failsFindByNames, notCancelled,
    reconciled, planned, writeBatches, all]

/-- The attempt that returns, in terms of what its two loops write. -/
theorem updateChannelfinder_writes (positive : 0 < cfg.cfQueryLimit) {s s' : Store}
    (ran : client.updateChannelfinder cfg setup env p records del ioc none s = (.ok (), s')) :
    ∃ new handled, reconcileOld cfg setup p records del ioc (client.findByIocId env s ioc.id) =
        .ok (new, handled) ∧
      s' = setChannels (setChannels s handled) (processNewChannels cfg setup ioc records env new
        (client.getExistingChannels env s new)) := by
  rcases @updateChannelfinder_cases client cfg setup env p records del ioc none s with
    ⟨e, raised⟩ | ⟨new, handled, bs, active, reconciled, -, -⟩
  · rw [raised] at ran
    cases ran
  · rw [updateChannelfinder_calm positive active s reconciled] at ran
    refine ⟨new, handled, reconciled, ?_⟩
    rw [← setChannels_append]
    exact (Prod.mk.inj ran).2.symm

theorem pushToCf_calm (usable : cfg.Usable) (up : p.Up) (s : Store) {s' : Store}
    (attempt : client.updateChannelfinder cfg setup env p records del ioc none s = (.ok (), s')) :
    client.pushToCf cfg setup env p records del ioc [] 0 s = (.ok true, s') := by
  simp [ChannelFinderAdapter.pushToCf, usable.attempts, up.running, attempt]

theorem setOrder_nil (env : Env) : env.setOrder [] = [] :=
  List.perm_nil.mp (env.setOrder_perm [])

theorem processNewChannels_nil (existing : Py.Dict String CFEntry) :
    processNewChannels cfg setup ioc records env [] existing = [] := by
  simp [processNewChannels, setOrder_nil]

theorem aliasesOf_empty (name : String) : aliasesOf cfg ∅ name = [] := by
  simp [aliasesOf]

/-- A commit without records releases whatever is listed under its iocid. -/
theorem reconcileOld_release {old : List CFChannel}
    (nonempty : ∀ cf ∈ old, p.channelIocIds (.name cf.name) ≠ some []) :
    reconcileOld cfg setup p ∅ del ioc old = .ok ([], old.map (releaseChannel cfg setup p ioc)) :=
  handleChannels_release cfg setup p ioc ∅ (fun _ _ => aliasesOf_empty _) nonempty

end Push

theorem iocNameConverts_port {port : Nat} (small : port < 2 ^ 16) :
    iocNameConverts (toString port) = true := by
  have digits : (toString port).toList = Nat.toDigits 10 port := Nat.toList_repr
  have short : (Nat.toDigits 10 port).length ≤ 5 :=
    (Nat.length_toDigits_le_iff (by omega) (by omega)).mpr (by omega)
  have converts : (Py.Text.int? (toString port).toList).isSome := by
    rw [digits]
    refine Py.Text.int?_of_digits (by simp only [Py.Text.maxStrDigits]; omega) ?_
    intro c member
    exact Nat.isDigit_of_mem_toDigits (by omega) (by omega) member
  rw [iocNameConverts, converts, Bool.or_true]

/-- The last transaction of a session, as `close` builds it. -/
structure Transaction.IsClose (t : Transaction) : Prop extends t.IsDisconnect where
  noInfos : t.clientInfos.entries = []
  port : t.port < 2 ^ 16

theorem Transaction.IsClose.converts {t : Transaction} (close : t.IsClose) (cfg : CFConfig)
    (env : Env) : iocNameConverts (iocInfoOf cfg env t).iocName = true := by
  have unnamed : t.clientInfos.get? "IOCNAME" = none := by
    simp [Py.Dict.get?, close.noInfos]
  rw [iocInfoOf, unnamed]
  exact iocNameConverts_port close.port

def afterConnected (cfg : CFConfig) (setup : Setup) (env : Env) (t : Transaction)
    (p : Processor) : Processor :=
  ((registerInitial cfg env t p).trackAll t.iocid
    (touched cfg (recordsOf cfg setup env t))).lookUpIds t.recordsToDelete

def afterDisconnect (env : Env) (t : Transaction) (p : Processor) : Processor :=
  p.untrackAll t.iocid (env.setOrder (p.channels t.iocid).elems)

/-- A commit whose bookkeeping returns goes on with the push. -/
theorem commit_of_update {client : ChannelFinderAdapter} {cfg : CFConfig} {setup : Setup}
    {env : Env}
    {faults : List Fault} {t : Transaction} {w : World} {del : List Key} {p : Processor}
    (up : w.proc.Up)
    (converts : iocNameConverts (iocInfoOf cfg env t).iocName = true)
    (known : t.connected = true ∨ (w.proc.iocs t.iocid).isSome)
    (update : updateIocInfos cfg env t (iocInfoOf cfg env t) (recordsOf cfg setup env t) w.proc =
      .ok del p) :
    client.commitWithThread cfg setup env faults t w =
      finishCommit env t p (client.pushToCf cfg setup env p (recordsOf cfg setup env t) del
        (iocInfoOf cfg env t) faults 0 w.store) := by
  have goesOn : ¬ (t.connected = false ∧ w.proc.iocs t.iocid = none) := by
    rintro ⟨gone, unknown⟩
    simp [gone, unknown] at known
  simp only [ChannelFinderAdapter.commitWithThread, up.running, converts, iocInfoOf_id, goesOn,
    update, not_true_eq_false, if_false]

theorem commit_connected {client : ChannelFinderAdapter} {cfg : CFConfig} (usable : cfg.Usable)
    (setup : Setup) (env : Env) {t : Transaction} {w : World} (up : w.proc.Up)
    (converts : iocNameConverts (iocInfoOf cfg env t).iocName = true)
    (connected : t.connected = true)
    (known : t.initial = true ∨ (w.proc.iocs t.iocid).isSome)
    (idle : ∀ r ∈ t.recordsToDelete, w.proc.ids (.id r) = []) {new : List String}
    {handled : List CFChannel}
    (reconciled : reconcileOld cfg setup (afterConnected cfg setup env t w.proc)
      (recordsOf cfg setup env t) (t.recordsToDelete.map Key.id) (iocInfoOf cfg env t)
      (client.findByIocId env w.store t.iocid) = .ok (new, handled)) :
    client.commitWithThread cfg setup env [] t w =
      (.ok (), ⟨afterConnected cfg setup env t w.proc,
        setChannels w.store (handled ++ processNewChannels cfg setup (iocInfoOf cfg env t)
          (recordsOf cfg setup env t) env new (client.getExistingChannels env w.store new))⟩) := by
  have update := updateIocInfos_connected cfg env (recordsOf cfg setup env t) connected known idle
  have upAfter : (afterConnected cfg setup env t w.proc).Up :=
    ((up.registerInitial cfg env t).trackAll _ _).lookUpIds _
  have pushed := pushToCf_calm usable upAfter w.store
    (updateChannelfinder_calm usable.limit upAfter.notCancelled w.store reconciled)
  rw [commit_of_update up converts (Or.inl connected) update]
  exact congrArg (finishCommit env t _) pushed

theorem commit_disconnect {client : ChannelFinderAdapter} {cfg : CFConfig} (usable : cfg.Usable)
    (setup : Setup) (env : Env) {t : Transaction} {w : World} (up : w.proc.Up)
    (disconnect : t.IsDisconnect)
    (converts : iocNameConverts (iocInfoOf cfg env t).iocName = true)
    (known : (w.proc.iocs t.iocid).isSome)
    (tracked : ∀ n ∈ w.proc.channels t.iocid, t.iocid ∈ w.proc.ids (.name n))
    (nonempty : ∀ n, (afterDisconnect env t w.proc).channelIocIds (.name n) ≠ some []) :
    client.commitWithThread cfg setup env [] t w =
      (.ok (), ⟨afterDisconnect env t w.proc,
        setChannels w.store ((client.findByIocId env w.store t.iocid).map
          (releaseChannel cfg setup (afterDisconnect env t w.proc) (iocInfoOf cfg env t)))⟩) := by
  have noRecords := recordsOf_disconnect cfg setup env disconnect
  have update := updateIocInfos_disconnect cfg env (iocInfoOf cfg env t) disconnect tracked
  have upAfter : (afterDisconnect env t w.proc).Up := up.untrackAll _ _
  have reconciled := @reconcileOld_release cfg setup (afterDisconnect env t w.proc)
    ((env.setOrder (w.proc.channels t.iocid).elems).map Key.name) (iocInfoOf cfg env t)
    (client.findByIocId env w.store t.iocid) (fun cf _ => nonempty cf.name)
  have pushed := pushToCf_calm usable upAfter w.store
    (updateChannelfinder_calm usable.limit upAfter.notCancelled w.store reconciled)
  rw [processNewChannels_nil, List.append_nil] at pushed
  rw [← noRecords] at update pushed
  rw [commit_of_update up converts (Or.inr known) update]
  exact congrArg (finishCommit env t _) pushed

/-- A commit as the session hands it over, with the choices and faults it meets. -/
structure Commit where
  env : Env := {}
  faults : List Fault := []
  transaction : Transaction

def Commit.iocid (c : Commit) : String := c.transaction.iocid

def ChannelFinderAdapter.commitStep (client : ChannelFinderAdapter) (cfg : CFConfig) (setup : Setup)
    (w : World) (c : Commit) : World :=
  (client.commitWithThread cfg setup c.env c.faults c.transaction w).2

def ChannelFinderAdapter.runCommits (client : ChannelFinderAdapter) (cfg : CFConfig) (setup : Setup)
    (w : World) (commits : List Commit) : World :=
  commits.foldl (client.commitStep cfg setup) w

/-- Queries and writes in pages of that many channels. -/
def pagesOf (limit : Int) : CFConfig := { recceiverId := "r", cfQueryLimit := limit }

/-- The queries to a service that takes a name as it is. -/
def pagedQueries (limit : Int) : ChannelFinderAdapter := (pagesOf limit).queries (· == ·)

/-- A first commit with two records, whose second chunk fails where a chunk holds one channel. -/
def tornAnnounce : Commit where
  faults := [.setChannels 1 (fun _ => []) (by simp)]
  transaction := { announce "a" 5064 "pv" with
    recordsToAdd := (announce "a" 5064 "pv").recordsToAdd.set 2 ("pv2", "ai") }

end Recsync.Cf
