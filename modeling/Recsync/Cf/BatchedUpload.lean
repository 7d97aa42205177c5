import Recsync.Cf.Batches
import Recsync.Cf.Limits
import Recsync.Cf.Owners

set_option autoImplicit false

/- An upload leads to the same result however it is cut into transactions. -/
namespace Recsync.Cf

open Recast (Upload UploadRecord groupTransaction groupTransactions)
open PyCFClientAdapter (PlainName TakesNames mem_findByNames_plain)

/-- The configuration lets a push make an attempt. -/
def CFConfig.Attempts (cfg : CFConfig) : Prop :=
  cfg.pushAlwaysRetry = true ∨ 0 < cfg.pushMaxRetries

/-- The replies to queries for these names are exact, whatever is stored. -/
def ChannelFinderAdapter.Answers (client : ChannelFinderAdapter) (names : List String) : Prop :=
  ∀ env s, client.LooksUp env s names

section Commit

variable {cfg : CFConfig} (setup : Setup) (env : Env) {t : Transaction} {w : World}

/-- With a limit that lets nothing through, the push is not given up and writes nothing. -/
theorem pushToCf_unwritten {client : ChannelFinderAdapter} (attempts : cfg.Attempts)
    (stuck : cfg.cfQueryLimit ≤ 0) {p : Processor}
    (up : p.Up) (records : Py.Dict String RecordInfo) (del : List Key) (ioc : IOCInfo) (s : Store) :
    ∃ result, client.pushToCf cfg setup env p records del ioc [] 0 s = (result, s) ∧
      result ≠ .ok false := by
  have attempt : ∃ result,
      client.updateChannelfinder cfg setup env p records del ioc none s = (result, s) := by
    rcases @updateChannelfinder_cases client cfg setup env p records del ioc none s with
      ⟨e, raised⟩ | ⟨new, handled, bs, -, -, planned, ran⟩
    · exact ⟨_, raised⟩
    · rw [batches_stuck stuck planned] at ran
      exact ⟨_, ran⟩
  obtain ⟨result, ended⟩ := attempt
  have goes : cfg.pushAlwaysRetry = true ∨ 0 < cfg.pushMaxRetries := attempts
  cases result with
  | ok _ => exact ⟨.ok true, by simp [ChannelFinderAdapter.pushToCf, goes, up.running, ended],
    by simp⟩
  | error e => exact ⟨.error e, by simp [ChannelFinderAdapter.pushToCf, goes, up.running, ended],
    by simp⟩

/-- A commit that adds records and meets none of the channels it finds under its iocid. -/
theorem commit_growing {client : ChannelFinderAdapter} (attempts : cfg.Attempts) (up : w.proc.Up)
    (converts : iocNameConverts (iocInfoOf cfg env t).iocName = true)
    (connected : t.connected = true) (nothingDeleted : t.recordsToDelete = [])
    (known : t.initial = true ∨ (w.proc.iocs t.iocid).isSome)
    (others : ∀ cf ∈ client.findByIocId env w.store t.iocid,
      cf.name ∉ (recordsOf cfg setup env t).keys)
    (busy : client.findByIocId env w.store t.iocid = [] ∨ (recordsOf cfg setup env t).keys ≠ []) :
    (client.commitWithThread cfg setup env [] t w).2 =
      ⟨(registerInitial cfg env t w.proc).trackAll t.iocid
        (touched cfg (recordsOf cfg setup env t)), if 0 < cfg.cfQueryLimit then
          setChannels w.store (processNewChannels cfg setup (iocInfoOf cfg env t)
            (recordsOf cfg setup env t) env (recordsOf cfg setup env t).keys
            (client.getExistingChannels env w.store (recordsOf cfg setup env t).keys))
        else w.store⟩ := by
  have after : afterConnected cfg setup env t w.proc =
      (registerInitial cfg env t w.proc).trackAll t.iocid
        (touched cfg (recordsOf cfg setup env t)) := by
    rw [afterConnected, nothingDeleted]
    rfl
  have idle : ∀ r ∈ t.recordsToDelete, w.proc.ids (.id r) = [] := by simp [nothingDeleted]
  rw [← after]
  split
  · rename_i positive
    have reconciled : reconcileOld cfg setup (afterConnected cfg setup env t w.proc)
        (recordsOf cfg setup env t) (t.recordsToDelete.map Key.id) (iocInfoOf cfg env t)
        (client.findByIocId env w.store t.iocid) = .ok ((recordsOf cfg setup env t).keys, []) := by
      rcases busy with none | some
      · rw [none]
        rfl
      · apply handleChannels_skip cfg setup _ _ _ some
        intro cf member
        exact ⟨others cf member, by simp [nothingDeleted]⟩
    rw [commit_connected ⟨positive, attempts⟩ setup env up converts connected known idle reconciled]
    rfl
  · rename_i stuck
    have update := updateIocInfos_connected cfg env (recordsOf cfg setup env t) connected known idle
    have upAfter : (afterConnected cfg setup env t w.proc).Up :=
      ((up.registerInitial cfg env t).trackAll _ _).lookUpIds _
    obtain ⟨result, pushed, notGivenUp⟩ := pushToCf_unwritten setup env attempts (by omega) upAfter
      (recordsOf cfg setup env t) (t.recordsToDelete.map Key.id) (iocInfoOf cfg env t) w.store
    rw [commit_of_update up converts (Or.inl connected) update]
    refine (congrArg (fun r => (finishCommit env t _ r).2) pushed).trans ?_
    cases result with
    | error e => rfl
    | ok ended =>
      cases ended with
      | true => rfl
      | false => exact absurd rfl notGivenUp

end Commit

namespace Processor

theorem trackAll_of_none {p : Processor} {iocid : String} (unknown : p.iocs iocid = none)
    (names : List String) : p.trackAll iocid names = p := by
  cases names with
  | nil => rfl
  | cons name rest => simp [trackAll, unknown]

theorem trackAll_append (p : Processor) (iocid : String) (first second : List String) :
    p.trackAll iocid (first ++ second) = (p.trackAll iocid first).trackAll iocid second := by
  induction first generalizing p with
  | nil => rfl
  | cons name rest ih =>
    cases known : p.iocs iocid with
    | none => rw [trackAll_of_none known, trackAll_of_none known, trackAll_of_none known]
    | some info =>
      rw [List.cons_append, trackAll_cons known, trackAll_cons known]
      exact ih _

/-- Two processors that agree in `channel_ioc_ids`, `_ioc_channels` and the counters. -/
structure SameBooks (p q : Processor) : Prop where
  channelIocIds : p.channelIocIds = q.channelIocIds
  iocChannels : p.iocChannels = q.iocChannels
  channelcount : ∀ i, (p.iocs i).map IOCInfo.channelcount = (q.iocs i).map IOCInfo.channelcount

theorem SameBooks.track {p q : Processor} (same : SameBooks p q) {iocid : String}
    {info info' : IOCInfo} (count : info.channelcount = info'.channelcount) (name : String) :
    SameBooks (p.track iocid name info) (q.track iocid name info') where
  channelIocIds := by simp only [Processor.track, setIds, setIoc, setChannels, ids,
    same.channelIocIds]
  iocChannels := by
    simp only [Processor.track, setIds, setIoc, setChannels, channels, same.iocChannels]
  channelcount i := by
    have lists : p.ids (.name name) = q.ids (.name name) := by rw [ids, ids, same.channelIocIds]
    rw [iocs_track, iocs_track, lists]
    split
    · simp [count]
    · exact same.channelcount i

theorem SameBooks.trackAll {p q : Processor} (same : SameBooks p q) (iocid : String)
    (names : List String) : SameBooks (p.trackAll iocid names) (q.trackAll iocid names) := by
  induction names generalizing p q with
  | nil => exact same
  | cons name rest ih =>
    have count := same.channelcount iocid
    cases known : p.iocs iocid with
    | none =>
      have unknown : q.iocs iocid = none := by simpa [known] using count.symm
      rw [trackAll_of_none known, trackAll_of_none unknown]
      exact same
    | some info =>
      rw [known] at count
      obtain ⟨info', known', equal⟩ := Option.map_eq_some_iff.mp count.symm
      rw [trackAll_cons known, trackAll_cons known']
      exact ih (same.track equal.symm name)

end Processor

section Run

variable (cfg : CFConfig) (setup : Setup) (u : Upload) (host : String) (port : Nat)

/-- The store in which exactly the records `done` were committed. -/
structure Committed (before : Store) (done : List UploadRecord) (s : Store) : Prop where
  outside : ∀ n, n ∉ done.flatMap (served cfg) → s.get? n = before.get? n
  inside : ∀ r ∈ done, ∀ n ∈ served cfg r,
    ∃ now, s.get? n = some (uploadedEntry cfg setup u host port now r n (before.get? n))

theorem committed_nil (before : Store) : Committed cfg setup u host port before [] before :=
  ⟨fun _ _ => rfl, by simp⟩

variable {cfg setup u host port} in
/-- Committing a group adds its records and leaves the rest. -/
theorem Committed.commit {client : ChannelFinderAdapter} {before s : Store}
    {done group : List UploadRecord} (committed : Committed cfg setup u host port before done s)
    (nodup : ((done ++ group).flatMap (served cfg)).Nodup) {t : Transaction}
    (holds : HoldsRecords cfg setup u host port group t) {env : Env}
    (looked : client.LooksUp env s (recordsOf cfg setup env t).keys) :
    Committed cfg setup u host port before (done ++ group)
      (setChannels s (processNewChannels cfg setup (iocInfoOf cfg env t) (recordsOf cfg setup env t)
        env (recordsOf cfg setup env t).keys
        (client.getExistingChannels env s (recordsOf cfg setup env t).keys))) := by
  rw [List.flatMap_append, List.nodup_append] at nodup
  obtain ⟨-, groupNodup, apart⟩ := nodup
  obtain ⟨all, cover⟩ := holdsRecords_writes cfg setup holds groupNodup looked
  generalize processNewChannels cfg setup (iocInfoOf cfg env t) (recordsOf cfg setup env t)
    env (recordsOf cfg setup env t).keys
    (client.getExistingChannels env s (recordsOf cfg setup env t).keys) = written at all cover ⊢
  have untouched : ∀ n, n ∉ group.flatMap (served cfg) → (setChannels s written).get? n =
    s.get? n := by
    intro n other
    apply get?_setChannels_of_not_mem
    rintro ch member rfl
    obtain ⟨r, inside, name, -⟩ := all ch member
    exact other (List.mem_flatMap.mpr ⟨r, inside, name⟩)
  constructor
  · intro n other
    rw [List.flatMap_append, List.mem_append, not_or] at other
    rw [untouched n other.2]
    exact committed.outside n other.1
  · intro r member n name
    rcases List.mem_append.mp member with old | new
    · have other : n ∉ group.flatMap (served cfg) := by
        intro inside
        exact apart n (List.mem_flatMap.mpr ⟨r, old, name⟩) n inside rfl
      rw [untouched n other]
      exact committed.inside r old n name
    · obtain ⟨ch, inside, rfl, found⟩ := get?_setChannels_of_mem s (cover r new n name)
      obtain ⟨r', member', name', entry⟩ := all ch inside
      obtain rfl := unique_of_served cfg groupNodup new member' name name'
      have fresh : ch.name ∉ done.flatMap (served cfg) := by
        intro old
        exact apart _ old _ (List.mem_flatMap.mpr ⟨r, new, name⟩) rfl
      refine ⟨env.now, ?_⟩
      rw [found, entry, committed.outside _ fresh]

/-- The world after the commits of `done`, the first of them with `ioc`. -/
structure Uploaded (before : World) (ioc : IOCInfo) (done : List UploadRecord) (w : World) :
    Prop where
  proc : w.proc = (before.proc.setIoc (iocidOf host port) (some ioc)).trackAll (iocidOf host port)
    (done.flatMap (served cfg))
  written : 0 < cfg.cfQueryLimit → Committed cfg setup u host port before.store done w.store
  unwritten : ¬ 0 < cfg.cfQueryLimit → w.store = before.store

variable {cfg setup u host port} {before : World}

theorem HoldsRecords.iocid {group : List UploadRecord} {t : Transaction}
    (holds : HoldsRecords cfg setup u host port group t) : t.iocid = iocidOf host port :=
  congrArg IOCInfo.id (holds.ioc {})

theorem map_recordName_sublist (cfg : CFConfig) (group : List UploadRecord) :
    (group.map UploadRecord.recordName).Sublist (group.flatMap (served cfg)) := by
  induction group with
  | nil => exact List.Sublist.refl _
  | cons r rest ih =>
    exact (ih.trans (List.sublist_append_right _ _)).cons_cons r.recordName

theorem part_holdsRecords (first group last : List UploadRecord)
    (whole : first ++ (group ++ last) = u.records) (srcid : Nat) (initial : Bool) :
    HoldsRecords cfg setup u host port group
      (groupTransaction host port srcid u.clientInfos initial group).toTransaction := by
  have part : group.Sublist u.records := by
    rw [← whole]
    exact (List.sublist_append_left _ _).trans (List.sublist_append_right _ _)
  have served := (flatMap_served_sublist cfg u.records).nodup u.names_nodup
  apply groupTransaction_holdsRecords
  · exact (part.map _).nodup u.ids_nodup
  · have names := (map_recordName_sublist cfg u.records).nodup served
    exact (part.map _).nodup names

section Cut

variable {client : ChannelFinderAdapter} (attempts : cfg.Attempts) (up : before.proc.Up)
  (converts : iocNameConverts (uploadIoc cfg u host port "").iocName = true)
  (unlisted : ∀ n e, before.store.get? n = some e → ¬ e.has .iocId (iocidOf host port))
include attempts up converts unlisted

theorem commit_first {group : List UploadRecord} (nodup : (group.flatMap (served cfg)).Nodup)
    (answers : 0 < cfg.cfQueryLimit → client.Answers (group.map UploadRecord.recordName))
    {c : Commit} (holds : HoldsRecords cfg setup u host port group c.transaction)
    (calm : c.faults = []) (initial : c.transaction.initial = true) :
    Uploaded cfg setup u host port before (uploadIoc cfg u host port c.env.now) group
      (client.commitStep cfg setup before c) := by
  have nothing : client.findByIocId c.env before.store c.transaction.iocid = [] := by
    rw [List.eq_nil_iff_forall_not_mem]
    intro cf member
    obtain ⟨stored, listed⟩ := client.findByIocId_listed _ _ _ _ member
    exact unlisted cf.name cf.toCFEntry stored (holds.iocid ▸ listed)
  have named : iocNameConverts (iocInfoOf cfg c.env c.transaction).iocName = true := by
    rw [holds.ioc]
    exact converts
  have world := @commit_growing cfg setup c.env c.transaction before client attempts up named
    holds.connected holds.nothingDeleted (Or.inl initial) (by simp [nothing]) (Or.inl nothing)
  rw [← calm, holds.iocid, holds.touched cfg setup] at world
  change client.commitStep cfg setup before c = _ at world
  rw [world]
  constructor
  · rw [registerInitial, if_pos initial, holds.ioc, holds.iocid]
  · intro positive
    dsimp only
    rw [if_pos positive]
    refine (committed_nil cfg setup u host port before.store).commit (by simpa using nodup) holds ?_
    rw [holds.keys cfg setup]
    exact answers positive c.env before.store
  · intro stuck
    dsimp only
    rw [if_neg stuck]

/-- A later commit of an upload: the channels of the earlier ones are found and skipped. -/
theorem commit_later {ioc : IOCInfo} {done group : List UploadRecord} {w : World}
    (uploaded : Uploaded cfg setup u host port before ioc done w)
    (nodup : ((done ++ group).flatMap (served cfg)).Nodup) (filled : group ≠ [])
    (answers : 0 < cfg.cfQueryLimit → client.Answers (group.map UploadRecord.recordName))
    {c : Commit} (holds : HoldsRecords cfg setup u host port group c.transaction)
    (calm : c.faults = []) (later : c.transaction.initial = false) :
    Uploaded cfg setup u host port before ioc (done ++ group)
      (client.commitStep cfg setup w c) := by
  have upNow : w.proc.Up := by
    rw [uploaded.proc]
    exact (up.setIoc _ _).trackAll _ _
  have registered : (w.proc.iocs c.transaction.iocid).isSome := by
    rw [uploaded.proc, holds.iocid, Processor.iocs_trackAll_isSome]
    simp
  have apart := (List.nodup_append.mp (List.flatMap_append ▸ nodup)).2.2
  have others : ∀ cf ∈ client.findByIocId c.env w.store c.transaction.iocid,
      cf.name ∉ (recordsOf cfg setup c.env c.transaction).keys := by
    intro cf member key
    obtain ⟨stored, listed⟩ := client.findByIocId_listed _ _ _ _ member
    rw [holds.iocid] at listed
    by_cases positive : 0 < cfg.cfQueryLimit
    · by_cases old : cf.name ∈ done.flatMap (served cfg)
      · rw [holds.keys cfg setup] at key
        obtain ⟨r, inside, name⟩ := List.mem_map.mp key
        exact apart _ old _ (List.mem_flatMap.mpr ⟨r, inside, by simp [served, name]⟩) rfl
      · rw [(uploaded.written positive).outside _ old] at stored
        exact unlisted _ _ stored listed
    · rw [uploaded.unwritten positive] at stored
      exact unlisted _ _ stored listed
  have busy : (recordsOf cfg setup c.env c.transaction).keys ≠ [] := by
    rw [holds.keys cfg setup]
    simpa using filled
  have named : iocNameConverts (iocInfoOf cfg c.env c.transaction).iocName = true := by
    rw [holds.ioc]
    exact converts
  have world := @commit_growing cfg setup c.env c.transaction w client attempts upNow named
    holds.connected holds.nothingDeleted (Or.inr registered) others (Or.inr busy)
  rw [← calm, holds.iocid, holds.touched cfg setup] at world
  change client.commitStep cfg setup w c = _ at world
  rw [world]
  constructor
  · dsimp only
    rw [registerInitial, if_neg (by simp [later]), uploaded.proc, List.flatMap_append,
      Processor.trackAll_append]
  · intro positive
    dsimp only
    rw [if_pos positive]
    refine (uploaded.written positive).commit nodup holds ?_
    rw [holds.keys cfg setup]
    exact answers positive c.env w.store
  · intro stuck
    dsimp only
    rw [if_neg stuck]
    exact uploaded.unwritten stuck

theorem run_later {ioc : IOCInfo} {done : List UploadRecord} {groups : List (List UploadRecord)}
    (whole : done ++ groups.flatten = u.records) (filled : ∀ group ∈ groups, group ≠ [])
    (answers : 0 < cfg.cfQueryLimit → ∀ group ∈ groups,
      client.Answers (group.map UploadRecord.recordName))
    {srcid : Nat} {commits : List Commit} (calm : ∀ c ∈ commits, c.faults = [])
    (transactions : commits.map Commit.transaction = groups.map fun group =>
      (groupTransaction host port srcid u.clientInfos false group).toTransaction)
    {w : World} (uploaded : Uploaded cfg setup u host port before ioc done w) :
    Uploaded cfg setup u host port before ioc u.records (client.runCommits cfg setup w commits) :=
      by
  induction groups generalizing done commits w with
  | nil =>
    obtain rfl : commits = [] := by simpa using transactions
    obtain rfl : done = u.records := by simpa using whole
    exact uploaded
  | cons group rest ih =>
    cases commits with
    | nil => simp at transactions
    | cons c commits =>
      obtain ⟨head, tail⟩ := List.cons.inj transactions
      have next : (done ++ group) ++ rest.flatten = u.records := by simpa using whole
      have nodup : ((done ++ group).flatMap (served cfg)).Nodup := by
        have all := (flatMap_served_sublist cfg u.records).nodup u.names_nodup
        rw [← next, List.flatMap_append] at all
        exact (List.nodup_append.mp all).1
      have holds : HoldsRecords cfg setup u host port group c.transaction := by
        rw [head]
        exact part_holdsRecords done group rest.flatten (by simpa using whole) srcid _
      have later : c.transaction.initial = false := by
        rw [head]
        exact (Recast.groupTransaction_sameFrame host port srcid u.clientInfos false group).initial
      exact ih next (fun g member => filled g (List.mem_cons_of_mem group member))
        (fun positive g member => answers positive g (List.mem_cons_of_mem group member))
        (fun d member => calm d (List.mem_cons_of_mem c member)) tail
        (commit_later attempts up converts unlisted uploaded nodup (filled group (by simp))
          (fun positive => answers positive group (by simp)) holds (calm c (by simp)) later)

theorem run_cut {groups : List (List UploadRecord)} (cut : u.Cut groups) (nonempty : groups ≠ [])
    (answers : 0 < cfg.cfQueryLimit → ∀ group ∈ groups,
      client.Answers (group.map UploadRecord.recordName))
    {srcid : Nat} {commits : List Commit} (calm : ∀ c ∈ commits, c.faults = [])
    (transactions : commits.map Commit.transaction =
      (groupTransactions host port srcid u.clientInfos groups).map fun t => t.toTransaction) :
    ∃ now, Uploaded cfg setup u host port before (uploadIoc cfg u host port now) u.records
      (client.runCommits cfg setup before commits) := by
  cases groups with
  | nil => exact absurd rfl nonempty
  | cons group rest =>
    cases commits with
    | nil => simp [groupTransactions] at transactions
    | cons c commits =>
      obtain ⟨head, tail⟩ := List.cons.inj transactions
      have whole : group ++ rest.flatten = u.records := by simpa using cut.whole
      have nodup : (group.flatMap (served cfg)).Nodup := by
        have all := (flatMap_served_sublist cfg u.records).nodup u.names_nodup
        rw [← whole, List.flatMap_append] at all
        exact (List.nodup_append.mp all).1
      have holds : HoldsRecords cfg setup u host port group c.transaction := by
        rw [head]
        exact part_holdsRecords [] group rest.flatten (by simpa using whole) srcid _
      have initial : c.transaction.initial = true := by
        rw [head]
        exact (Recast.groupTransaction_sameFrame host port srcid u.clientInfos true group).initial
      rw [List.map_map] at tail
      exact ⟨c.env.now, run_later attempts up converts unlisted whole cut.filled
        (fun positive g member => answers positive g (List.mem_cons_of_mem group member))
        (fun d member => calm d (List.mem_cons_of_mem c member)) tail
        (commit_first attempts up converts unlisted nodup
          (fun positive => answers positive group (by simp)) holds (calm c (by simp)) initial)⟩

end Cut

theorem run_stopped {client : ChannelFinderAdapter} (up : before.proc.Up)
    (stops : ¬ iocNameConverts (uploadIoc cfg u host port "").iocName = true)
      {commits : List Commit}
    (all : ∀ c ∈ commits, ∀ env, iocInfoOf cfg env c.transaction =
      uploadIoc cfg u host port env.now) :
    client.runCommits cfg setup before commits = before := by
  induction commits with
  | nil => rfl
  | cons c rest ih =>
    have name : ¬ iocNameConverts (iocInfoOf cfg c.env c.transaction).iocName = true := by
      rw [all c (by simp)]
      exact stops
    have head : client.commitStep cfg setup before c = before := by
      simp only [ChannelFinderAdapter.commitStep, ChannelFinderAdapter.commitWithThread,
        up.running, not_true_eq_false, if_false]
      rw [if_pos name]
    change client.runCommits cfg setup (client.commitStep cfg setup before c) rest = before
    rw [head]
    exact ih fun d member => all d (List.mem_cons_of_mem c member)

theorem groupTransactions_ioc {srcid : Nat} {groups : List (List UploadRecord)}
    {t : Recast.Transaction} (member : t ∈ groupTransactions host port srcid u.clientInfos groups)
    (env : Env) : iocInfoOf cfg env t.toTransaction = uploadIoc cfg u host port env.now := by
  obtain ⟨initial, group, rfl⟩ : ∃ initial group,
      t = groupTransaction host port srcid u.clientInfos initial group := by
    cases groups with
    | nil => cases member
    | cons group rest =>
      rcases List.mem_cons.mp member with rfl | later
      · exact ⟨_, _, rfl⟩
      · obtain ⟨other, -, rfl⟩ := List.mem_map.mp later
        exact ⟨_, _, rfl⟩
  exact groupTransaction_ioc cfg u host port srcid initial group env

end Run

section Timeless

/-- A property, with the value of the time property blotted out. -/
def CFProperty.timeless (q : CFProperty) : CFProperty :=
  if q.name = CFPropertyName.time.value then { q with value := "" } else q

def CFEntry.timeless (e : CFEntry) : CFEntry :=
  { e with properties := e.properties.map CFProperty.timeless }

theorem CFProperty.timeless_name (q : CFProperty) : q.timeless.name = q.name := by
  unfold timeless
  split <;> rfl

theorem mergePropertyLists_timeless {new new' : List CFProperty}
    (same : new.map CFProperty.timeless = new'.map CFProperty.timeless) (e : CFEntry)
    (managed : List String) :
    (mergePropertyLists new e managed).map CFProperty.timeless =
      (mergePropertyLists new' e managed).map CFProperty.timeless := by
  have names : new.map CFProperty.name = new'.map CFProperty.name := by
    have mapped := congrArg (List.map CFProperty.name) same
    simpa [Function.comp_def, CFProperty.timeless_name] using mapped
  rw [mergePropertyLists, mergePropertyLists, List.map_append, List.map_append, same, names]

variable (cfg : CFConfig) (setup : Setup) (u : Upload) (host : String) (port : Nat)

theorem newProperties_timeless (now now' : String) (records : Py.Dict String RecordInfo)
    (n : String) :
    (newProperties cfg (uploadIoc cfg u host port now) records n).map CFProperty.timeless =
      (newProperties cfg (uploadIoc cfg u host port now') records n).map CFProperty.timeless := by
  have ioc : (createIocProperties (uploadIoc cfg u host port now).owner now cfg.recceiverId
      (uploadIoc cfg u host port now).hostname (uploadIoc cfg u host port now).iocName
      (uploadIoc cfg u host port now).iocIp (uploadIoc cfg u host port now).id).map
        CFProperty.timeless =
      (createIocProperties (uploadIoc cfg u host port now').owner now' cfg.recceiverId
      (uploadIoc cfg u host port now').hostname (uploadIoc cfg u host port now').iocName
      (uploadIoc cfg u host port now').iocIp (uploadIoc cfg u host port now').id).map
        CFProperty.timeless := rfl
  unfold newProperties
  rw [List.map_append, List.map_append]
  exact congrArg₂ _ ioc rfl

/-- The time of the commit shows in the time property only. -/
theorem uploadedEntry_timeless (now now' : String) (r : UploadRecord) (n : String)
    (stored : Option CFEntry) :
    (uploadedEntry cfg setup u host port now r n stored).timeless =
      (uploadedEntry cfg setup u host port now' r n stored).timeless := by
  have same := newProperties_timeless cfg u host port now now'
    (onlyRecord cfg setup u host port r)
  unfold uploadedEntry CFEntry.timeless
  split
  · cases stored with
    | none => exact congrArg (CFEntry.mk _) (same n)
    | some e => exact congrArg (CFEntry.mk _) (mergePropertyLists_timeless (same n) e _)
  · refine congrArg (CFEntry.mk _) ?_
    exact congrArg (List.cons _) (same r.recordName)

end Timeless

/-- Two worlds that differ in the values of the time property at most. -/
structure SameUpToTime (w w' : World) : Prop where
  store : ∀ n, (w.store.get? n).map CFEntry.timeless = (w'.store.get? n).map CFEntry.timeless
  books : Processor.SameBooks w.proc w'.proc

theorem SameUpToTime.refl (w : World) : SameUpToTime w w := ⟨fun _ => rfl, rfl, rfl, fun _ => rfl⟩

/-- The commits of a session that received the upload, with any limit, at any times and with any
ends of its commits, when every request of them succeeds. -/
def IsBatching (u : Upload) (host : String) (port : Nat) (commits : List Commit) : Prop :=
  (∀ c ∈ commits, c.faults = []) ∧
    ∃ (cfg : Recast.SessionConfig) (factory : Recast.Factory) (srcid : Nat)
      (events : List Recast.CollectionSession.Event),
      .close ∉ events ∧ Recast.received events = u.calls ∧
        commits.map Commit.transaction =
          ((Recast.CollectionSession.opened host port srcid).run cfg factory events).flushed.map
            fun t => t.toTransaction

/-- The result of an upload does not depend on how it was cut. The record names are such that a query
can ask for them. -/
def BatchingIndependent (cfg : CFConfig) (setup : Setup) (nameMatches : String → String → Bool) :
    Prop :=
  ∀ (before : World) (u : Upload) (host : String) (port : Nat) (first second : List Commit),
    before.proc.Up →
    (∀ n e, before.store.get? n = some e → ¬ e.has .iocId (iocidOf host port)) →
    (∀ r ∈ u.records, PlainName r.recordName) →
    IsBatching u host port first → IsBatching u host port second →
    SameUpToTime ((cfg.queries nameMatches).runCommits cfg setup before first)
      ((cfg.queries nameMatches).runCommits cfg setup before second)

theorem IsBatching.cut {u : Upload} {host : String} {port : Nat} {commits : List Commit}
    (batching : IsBatching u host port commits) :
    ∃ srcid groups, u.Cut groups ∧ commits.map Commit.transaction =
      (groupTransactions host port srcid u.clientInfos groups).map fun t => t.toTransaction := by
  obtain ⟨-, cfg, factory, srcid, events, opened, messages, transactions⟩ := batching
  obtain ⟨groups, cut, flushed⟩ := Recast.upload_cut cfg factory opened messages
  exact ⟨srcid, groups, cut, transactions.trans (congrArg _ flushed)⟩

theorem Uploaded.same {cfg : CFConfig} {setup : Setup} {u : Upload} {host : String} {port : Nat}
    {before : World} {now now' : String} {done : List UploadRecord} {w w' : World}
    (first : Uploaded cfg setup u host port before (uploadIoc cfg u host port now) done w)
    (second : Uploaded cfg setup u host port before (uploadIoc cfg u host port now') done w') :
    SameUpToTime w w' := by
  constructor
  · intro n
    by_cases positive : 0 < cfg.cfQueryLimit
    · by_cases inside : n ∈ done.flatMap (served cfg)
      · obtain ⟨r, member, name⟩ := List.mem_flatMap.mp inside
        obtain ⟨time, found⟩ := (first.written positive).inside r member n name
        obtain ⟨time', found'⟩ := (second.written positive).inside r member n name
        rw [found, found']
        exact congrArg some (uploadedEntry_timeless cfg setup u host port time time' r n _)
      · rw [(first.written positive).outside n inside, (second.written positive).outside n inside]
    · rw [first.unwritten positive, second.unwritten positive]
  · rw [first.proc, second.proc]
    apply Processor.SameBooks.trackAll
    refine ⟨rfl, rfl, ?_⟩
    intro i
    rw [Processor.iocs_setIoc, Processor.iocs_setIoc]
    split <;> rfl

/-- A page of 300 channels has room for the reply to any query. -/
theorem answers_of_page {cfg : CFConfig} {nameMatches : String → String → Bool}
    (service : TakesNames nameMatches) (enough : cfg.cfQueryLimit ≤ 0 ∨ 300 ≤ cfg.cfQueryLimit)
    {names : List String} (plain : ∀ name ∈ names, PlainName name) :
    (cfg.queries nameMatches).Answers names := by
  intro env s
  have asked := fun n => (env.setOrder_perm names).mem_iff (a := n)
  apply looksUp_of_reply
  intro ch
  rw [← asked ch.name]
  exact mem_findByNames_plain (fun name member => plain name ((asked name).mp member)) service
    enough env ch

theorem batchingIndependent_of_attempts {cfg : CFConfig} (attempts : cfg.Attempts)
    {nameMatches : String → String → Bool} (service : TakesNames nameMatches)
    (enough : cfg.cfQueryLimit ≤ 0 ∨ 300 ≤ cfg.cfQueryLimit) (setup : Setup) :
    BatchingIndependent cfg setup nameMatches := by
  intro before u host port first second up unlisted plain isFirst isSecond
  obtain ⟨srcid, groups, cut, transactions⟩ := isFirst.cut
  obtain ⟨srcid', groups', cut', transactions'⟩ := isSecond.cut
  have answers : ∀ {groups : List (List UploadRecord)}, u.Cut groups → 0 < cfg.cfQueryLimit →
      ∀ group ∈ groups, (cfg.queries nameMatches).Answers (group.map UploadRecord.recordName) := by
    intro groups cut positive group member
    apply answers_of_page service enough
    intro name named
    obtain ⟨r, inside, rfl⟩ := List.mem_map.mp named
    exact plain r (cut.whole ▸ List.mem_flatten.mpr ⟨group, member, inside⟩)
  by_cases converts : iocNameConverts (uploadIoc cfg u host port "").iocName = true
  · by_cases empty : groups = []
    · have empty' : groups' = [] := cut'.nothing.mpr (cut.nothing.mp empty)
      obtain rfl : first = [] := by simpa [empty, groupTransactions] using transactions
      obtain rfl : second = [] := by simpa [empty', groupTransactions] using transactions'
      exact SameUpToTime.refl _
    · have filled' : groups' ≠ [] := fun empty' => empty (cut.nothing.mpr (cut'.nothing.mp empty'))
      obtain ⟨now, uploaded⟩ :=
        run_cut attempts up converts unlisted cut empty (answers cut) isFirst.1 transactions
      obtain ⟨now', uploaded'⟩ :=
        run_cut attempts up converts unlisted cut' filled' (answers cut') isSecond.1 transactions'
      exact uploaded.same uploaded'
  · have stopped : ∀ {srcid : Nat} {groups : List (List UploadRecord)} {commits : List Commit},
        commits.map Commit.transaction =
          (groupTransactions host port srcid u.clientInfos groups).map (fun t => t.toTransaction) →
        (cfg.queries nameMatches).runCommits cfg setup before commits = before := by
      intro srcid groups commits transactions
      apply run_stopped up converts
      intro c member env
      have listed : c.transaction ∈ commits.map Commit.transaction := List.mem_map_of_mem member
      rw [transactions] at listed
      obtain ⟨t, inside, same⟩ := List.mem_map.mp listed
      rw [← same]
      exact groupTransactions_ioc inside env
    rw [stopped transactions, stopped transactions']
    exact SameUpToTime.refl _

end Recsync.Cf
