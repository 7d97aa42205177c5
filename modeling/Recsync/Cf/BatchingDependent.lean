import Recsync.Cf.BatchedUpload

set_option autoImplicit false

/- Where the result of an upload depends on how it was cut: no attempt may be made, or a page has no
room for the reply to a query. -/
namespace Recsync.Cf

open Recast (Upload UploadRecord groupTransaction groupTransactions)
open PyCFClientAdapter (PlainName TakesNames TakesAlternatives nameGroups nameGroups_letters
  mem_findByNames_single length_findByNames_le exactNames takesNames_exactNames)

section NoAttempt

variable {client : ChannelFinderAdapter} {cfg : CFConfig} {setup : Setup} {env : Env}
  {t : Transaction} {w : World}

/-- A push that may not make an attempt is given up and the IOC is evicted. -/
theorem commit_abandoned (noAttempt : ¬ cfg.Attempts)
    (up : w.proc.Up) (converts : iocNameConverts (iocInfoOf cfg env t).iocName = true)
    (connected : t.connected = true) {del : List Key} {p q : Processor}
    (update : updateIocInfos cfg env t (iocInfoOf cfg env t) (recordsOf cfg setup env t) w.proc =
      .ok del p) (evicted : evictIoc env t.iocid p = .ok ⟨⟩ q) :
    (client.commitWithThread cfg setup env [] t w).2 = ⟨q, w.store⟩ := by
  have givenUp : client.pushToCf cfg setup env p (recordsOf cfg setup env t) del
      (iocInfoOf cfg env t) [] 0 w.store = (.ok false, w.store) := by
    rw [ChannelFinderAdapter.pushToCf]
    exact if_pos noAttempt
  rw [commit_of_update up converts (Or.inl connected) update, givenUp, finishCommit,
    if_pos connected, evicted]

/-- A later commit of an IOC that is gone raises at its first record, which is listed already. -/
theorem commit_orphaned (up : w.proc.Up)
    (converts : iocNameConverts (iocInfoOf cfg env t).iocName = true)
    (connected : t.connected = true)
    (later : t.initial = false) (gone : w.proc.iocs t.iocid = none) {n : String} {info : RecordInfo}
    {rest : List (String × RecordInfo)}
    (entries : (recordsOf cfg setup env t).entries = (n, info) :: rest)
    (unlisted : w.proc.ids (.name n) = []) :
    (client.commitWithThread cfg setup env [] t w).2 =
      ⟨w.proc.setIds (.name n) (some [t.iocid]), w.store⟩ := by
  have raised : registerChannel t.iocid n w.proc =
      .error .keyError (w.proc.setIds (.name n) (some [t.iocid])) := by
    simp [registerChannel, unlisted, gone]
  have loop : registerRecords cfg t.iocid (recordsOf cfg setup env t) w.proc =
      .error .keyError (w.proc.setIds (.name n) (some [t.iocid])) := by
    rw [registerRecords, entries]
    exact Py.Program.bind_of_error (Py.Program.bind_of_error raised _) _
  have update : updateIocInfos cfg env t (iocInfoOf cfg env t) (recordsOf cfg setup env t) w.proc =
      .error .keyError (w.proc.setIds (.name n) (some [t.iocid])) := by
    simp only [updateIocInfos, later, Bool.false_eq_true, if_false, iocInfoOf_id]
    rw [Py.Program.get_bind, Py.Program.bind_of_error loop]
  simp [ChannelFinderAdapter.commitWithThread, up.running, converts, connected, update]

/-- An IOC that nobody shares a name with leaves none behind. -/
theorem ids_untrackAll_own {p : Processor} {i n : String} (consistent : Consistent p)
    (lists : p.ids (.name n) = [i] ∨ p.ids (.name n) = []) :
    (p.untrackAll i (env.setOrder (p.channels i).elems)).ids (.name n) = [] := by
  rw [Processor.ids_untrackAll p _ (setOrder_nodup env _)]
  rcases lists with own | none
  · have member : n ∈ p.channels i := by
      obtain ⟨m, same, inside⟩ := (consistent.linked (.name n) i).mp (by simp [own])
      obtain rfl : n = m := by simpa using same
      exact inside
    rw [if_pos (List.mem_map_of_mem ((mem_setOrder env).mpr member)), own]
    simp
  · rw [none]
    split <;> rfl

/-- Where the first commit of an IOC leads to when no attempt may be made: nothing is left. -/
theorem commit_first_abandoned (noAttempt : ¬ cfg.Attempts)
    {u : Upload} {host : String} {port : Nat}
    (converts : iocNameConverts (uploadIoc cfg u host port "").iocName = true)
    {group : List UploadRecord} (holds : HoldsRecords cfg setup u host port group t)
    (initial : t.initial = true) :
    let after := (client.commitWithThread cfg setup env [] t {}).2
    after.proc.Up ∧ after.proc.iocs (iocidOf host port) = none ∧
      ∀ n, after.proc.channelIocIds (.name n) = none := by
  have named : iocNameConverts (iocInfoOf cfg env t).iocName = true := by
    rw [holds.ioc]
    exact converts
  have up : ({} : Processor).Up := ⟨rfl, rfl⟩
  have update := @updateIocInfos_connected cfg env t {} (recordsOf cfg setup env t) holds.connected
    (Or.inl initial) (by simp [holds.nothingDeleted])
  rw [holds.nothingDeleted, registerInitial, if_pos initial, holds.iocid] at update
  -- the processor between the bookkeeping and the eviction
  generalize middle : (({} : Processor).setIoc (iocidOf host port)
    (some (iocInfoOf cfg env t))).trackAll (iocidOf host port)
      (touched cfg (recordsOf cfg setup env t)) = p at update
  have consistent : Consistent p := by
    rw [← middle]
    exact ((consistent_empty.setIoc rfl rfl).trackAll _ _).1
  have lists : ∀ n, p.ids (.name n) = [iocidOf host port] ∨ p.ids (.name n) = [] := by
    intro n
    rw [← middle, Processor.ids_trackAll (by simp)]
    split
    · exact Or.inl rfl
    · exact Or.inr rfl
  have tracking := ((consistent_iff p).mp consistent).1
  have evicted := evictIoc_eq env (fun n member => consistent.tracked member :
    ∀ n ∈ p.channels (iocidOf host port), iocidOf host port ∈ p.ids (.name n))
  rw [← holds.iocid] at evicted
  intro after
  have world : after = _ := commit_abandoned noAttempt (w := {}) up named holds.connected update
    evicted
  rw [world, holds.iocid]
  refine ⟨?_, by simp, ?_⟩
  · have upMiddle : p.Up := by
      rw [← middle]
      exact (up.setIoc _ _).trackAll _ _
    have upAfter := upMiddle.untrackAll (iocidOf host port)
      (env.setOrder (p.channels (iocidOf host port)).elems)
    exact ⟨upAfter.running, upAfter.notCancelled⟩
  · intro n
    have emptied := @ids_untrackAll_own env p _ n consistent (lists n)
    exact (Processor.ids_eq_nil_iff ((tracking.untrackAll _ _).nonempty n)).mp emptied

end NoAttempt

/-- The commits of an upload without infos that was cut into these groups. -/
def cutCommits (groups : List (List UploadRecord)) : List Commit :=
  (groupTransactions "h" 1 0 ∅ groups).map fun t => { transaction := t.toTransaction }

theorem cutCommits_transactions (groups : List (List UploadRecord)) :
    (cutCommits groups).map Commit.transaction =
      (groupTransactions "h" 1 0 ∅ groups).map fun t => t.toTransaction := by
  rw [cutCommits, List.map_map]
  rfl

section CutCommits

variable {u : Upload} {groups : List (List UploadRecord)}
  (whole : groups.flatten = u.records) (filled : ∀ group ∈ groups, group ≠ [])
  (nonempty : groups ≠ [])
include whole filled nonempty

/-- Any groups are the transactions of some session. -/
theorem cutCommits_isBatching (bare : u.infos = []) : IsBatching u "h" 1 (cutCommits groups) := by
  have infos : u.clientInfos = ∅ := by
    rw [Upload.clientInfos, bare]
    rfl
  obtain ⟨opened, messages, flushed⟩ :=
    @Recast.cut_occurs (fun _ => none) u "h" 1 0 groups whole filled nonempty
  refine ⟨by simp [cutCommits], { trlimit := 0 }, fun _ => none, 0, Recast.cutEvents u groups,
    opened, messages, ?_⟩
  rw [cutCommits_transactions, flushed, infos]

theorem cutCommits_cut : u.Cut groups where
  whole := whole
  filled group member := filled group (List.mem_of_mem_tail member)
  nothing := by
    refine iff_of_false nonempty fun nothing => ?_
    rw [nothing.2] at whole
    obtain ⟨first, later, rfl⟩ := List.exists_cons_of_ne_nil nonempty
    exact filled first (by simp) (List.append_eq_nil_iff.mp whole).1

end CutCommits

/-- The groups when every record gets a transaction of its own. -/
def oneByOne (records : List UploadRecord) : List (List UploadRecord) := records.map fun r => [r]

theorem oneByOne_flatten (records : List UploadRecord) : (oneByOne records).flatten = records := by
  rw [oneByOne, ← List.flatMap_def]
  exact List.flatMap_singleton' records

theorem oneByOne_filled (records : List UploadRecord) : ∀ group ∈ oneByOne records, group ≠ [] := by
  intro group member
  obtain ⟨r, -, rfl⟩ := List.mem_map.mp member
  exact List.cons_ne_nil r []

/-- Both ways of cutting an upload without infos are batchings of it. -/
theorem BatchingIndependent.cuts {cfg : CFConfig} {setup : Setup}
    {nameMatches : String → String → Bool} (independent : BatchingIndependent cfg setup nameMatches)
    (before : World) (up : before.proc.Up)
    (unlisted : ∀ n e, before.store.get? n = some e → ¬ e.has .iocId (iocidOf "h" 1)) {u : Upload}
    (plain : ∀ r ∈ u.records, PlainName r.recordName) (bare : u.infos = [])
    (some : u.records ≠ []) :
    SameUpToTime
      ((cfg.queries nameMatches).runCommits cfg setup before (cutCommits (oneByOne u.records)))
      ((cfg.queries nameMatches).runCommits cfg setup before (cutCommits [u.records])) := by
  apply independent before u "h" 1 _ _ up unlisted plain
  · exact cutCommits_isBatching (oneByOne_flatten u.records) (oneByOne_filled u.records)
      (by simpa [oneByOne] using some) bare
  · exact cutCommits_isBatching (by simp) (by simpa using some) (by simp) bare

section NoAttempt

def twoRecords : Upload where
  infos := []
  records := [⟨1, "ai", "one", []⟩, ⟨2, "ai", "two", []⟩]
  ids_nodup := by decide
  names_nodup := by decide

theorem twoRecords_plain : ∀ r ∈ twoRecords.records, PlainName r.recordName := by
  intro r member
  simp only [twoRecords, List.mem_cons, List.not_mem_nil, or_false] at member
  rcases member with rfl | rfl
  · exact ⟨by decide, by decide, by decide⟩
  · exact ⟨by decide, by decide, by decide⟩

theorem uploadIoc_converts (cfg : CFConfig) {u : Upload} (bare : u.infos = []) :
    iocNameConverts (uploadIoc cfg u "h" 1 "").iocName = true := by
  have infos : u.clientInfos = ∅ := by
    rw [Upload.clientInfos, bare]
    rfl
  rw [uploadIoc, infos]
  exact iocNameConverts_port (by decide)

variable {client : ChannelFinderAdapter} {cfg : CFConfig} (setup : Setup)
  (noAttempt : ¬ cfg.Attempts)
include noAttempt

/-- Without an attempt the second transaction finds its IOC evicted. -/
theorem oneByOne_lists :
    (client.runCommits cfg setup {} (cutCommits (oneByOne twoRecords.records))).proc.channelIocIds
      (.name "two") = some [iocidOf "h" 1] := by
  have first := @part_holdsRecords cfg setup twoRecords "h" 1 [] [⟨1, "ai", "one", []⟩]
    [⟨2, "ai", "two", []⟩] rfl 0 true
  have second := @part_holdsRecords cfg setup twoRecords "h" 1 [⟨1, "ai", "one", []⟩]
    [⟨2, "ai", "two", []⟩] [] rfl 0 false
  have converts := uploadIoc_converts cfg (rfl : twoRecords.infos = [])
  obtain ⟨up, gone, nothing⟩ := @commit_first_abandoned client cfg setup {} _ noAttempt twoRecords
    "h" 1 converts _ first rfl
  have named : iocNameConverts (iocInfoOf cfg {} (groupTransaction "h" 1 0 twoRecords.clientInfos
      false [⟨2, "ai", "two", []⟩]).toTransaction).iocName = true := by
    rw [second.ioc]
    exact converts
  have raises := @commit_orphaned client cfg setup {} _ _ up named second.connected rfl
    (second.iocid ▸ gone) _ _ _ (second.entries {}) (by simp [Processor.ids, nothing])
  change (client.commitWithThread cfg setup {} [] _ _).2.proc.channelIocIds (.name "two") = _
  refine (congrArg (fun w : World => w.proc.channelIocIds (.name "two")) raises).trans ?_
  simp [second.iocid]

theorem allAtOnce_lists :
    (client.runCommits cfg setup {} (cutCommits [twoRecords.records])).proc.channelIocIds
      (.name "two") = none := by
  have only := @part_holdsRecords cfg setup twoRecords "h" 1 [] twoRecords.records [] rfl 0 true
  have converts := uploadIoc_converts cfg (rfl : twoRecords.infos = [])
  exact (commit_first_abandoned noAttempt converts only rfl).2.2 "two"

end NoAttempt

theorem attempts_of_batchingIndependent {cfg : CFConfig} {setup : Setup}
    {nameMatches : String → String → Bool}
    (independent : BatchingIndependent cfg setup nameMatches) : cfg.Attempts := by
  apply Classical.byContradiction
  intro noAttempt
  have same := independent.cuts {} ⟨rfl, rfl⟩ (by simp) twoRecords_plain rfl (by decide)
  have lists := congrFun same.books.channelIocIds (.name "two")
  rw [oneByOne_lists setup noAttempt, allAtOnce_lists setup noAttempt] at lists
  cases lists

section Page

def letter (i : Nat) : String := String.ofList [Char.ofNat (i + 200)]

theorem toNat_letter {i : Nat} (small : i < 300) : (Char.ofNat (i + 200)).toNat = i + 200 := by
  have valid : (i + 200).isValidChar := Or.inl (by omega)
  rw [Char.ofNat, dif_pos valid]
  rfl

theorem letter_inj {i j : Nat} (first : i < 300) (second : j < 300) (same : letter i = letter j) :
    i = j := by
  have chars := List.singleton_inj.mp (String.ofList_injective same)
  have codes := congrArg Char.toNat chars
  rw [toNat_letter first, toNat_letter second] at codes
  omega

theorem letter_plain {i : Nat} (small : i < 300) : PlainName (letter i) := by
  have other : ∀ c : Char, c.toNat < 200 → c ∉ (letter i).toList := by
    intro c low member
    rw [letter, String.toList_ofList, List.mem_singleton] at member
    have code := toNat_letter small
    rw [← member] at code
    omega
  refine ⟨?_, other '|' (by decide), other '*' (by decide), other '?' (by decide)⟩
  intro empty
  have size := congrArg String.length empty
  simp [letter] at size

def letterRecord (i : Nat) : UploadRecord := ⟨i, "ai", letter i, []⟩

/-- Up to 300 records with names of one character. -/
def letters (n : Nat) (few : n ≤ 300) : Upload where
  infos := []
  records := (List.range n).map letterRecord
  ids_nodup := by
    rw [List.map_map]
    exact List.nodup_range.map fun i j same => same
  names_nodup := by
    have names : ((List.range n).map letterRecord).flatMap UploadRecord.names =
        (List.range n).map letter := by
      rw [List.flatMap_map]
      exact List.flatMap_pure_eq_map letter _
    rw [names]
    apply List.Nodup.map_on _ List.nodup_range
    intro i first j second same
    rw [List.mem_range] at first second
    exact letter_inj (by omega) (by omega) same

def heldLetters (owner : String) (n : Nat) : Store :=
  setChannels ∅ ((List.range n).map fun i => ⟨⟨owner, []⟩, letter i⟩)

theorem heldLetters_entry {owner : String} {n : Nat} {x : String} {e : CFEntry}
    (found : (heldLetters owner n).get? x = some e) : e = ⟨owner, []⟩ := by
  rcases get?_setChannels_cases ∅ ((List.range n).map fun i => ⟨⟨owner, []⟩, letter i⟩) x with
    ⟨missing, -⟩ | ⟨ch, member, -, written⟩
  · cases missing.symm.trans found
  · obtain ⟨i, -, rfl⟩ := List.mem_map.mp member
    exact Option.some.inj (found.symm.trans written)

theorem heldLetters_held {owner : String} {n i : Nat} (small : i < n) :
    (heldLetters owner n).get? (letter i) = some ⟨owner, []⟩ := by
  have listed : letter i ∈
      ((List.range n).map fun i => (⟨⟨owner, []⟩, letter i⟩ : CFChannel)).map CFChannel.name := by
    rw [List.map_map]
    exact List.mem_map_of_mem (List.mem_range.mpr small)
  obtain ⟨ch, -, -, written⟩ := get?_setChannels_of_mem ∅ listed
  have found : (heldLetters owner n).get? (letter i) = some ch.toCFEntry := written
  rw [found, heldLetters_entry found]

/-- A reply that is too short leaves one of the names out. -/
theorem exists_missing {client : ChannelFinderAdapter} {env : Env} {s : Store} {new : List String}
    (nodup : new.Nodup)
    (short : (client.findByNames env s (env.setOrder new)).length < new.length) :
    ∃ n ∈ new, (client.getExistingChannels env s new).get? n = none := by
  by_contra none
  have all : ∀ n ∈ new, (client.getExistingChannels env s new).get? n ≠ .none :=
    fun n member missing => none ⟨n, member, missing⟩
  have part : new ⊆ (client.findByNames env s (env.setOrder new)).map CFChannel.name := by
    intro n member
    rcases get?_setChannels_cases ∅ (client.findByNames env s (env.setOrder new)) n with
      ⟨missing, -⟩ | ⟨ch, inside, rfl, -⟩
    · exact absurd missing (all n member)
    · exact List.mem_map_of_mem inside
  have size := (nodup.subperm part).length_le
  rw [List.length_map] at size
  omega

/-- A channel that was not found is created anew, under the owner of the IOC. -/
theorem owner_of_missing (cfg : CFConfig) (setup : Setup) (ioc : IOCInfo)
    {records : Py.Dict String RecordInfo} (env : Env) {new : List String} (nodup : new.Nodup)
    (bare : ∀ n ∈ new, aliasesOf cfg records n = []) {existing : Py.Dict String CFEntry}
    {x : String}
    (asked : x ∈ new) (missing : existing.get? x = none) (s : Store) :
    ((setChannels s (processNewChannels cfg setup ioc records env new existing)).get? x).map
      CFEntry.owner = some ioc.owner := by
  have inOrder : ∀ n, n ∈ env.setOrder new ↔ n ∈ new := fun n => (env.setOrder_perm new).mem_iff
  have loop := @foldl_processNewChannel cfg setup ioc records (env.setOrder new) { existing }
    ((env.setOrder_perm new).nodup_iff.mpr nodup) (by simp)
    (fun n member a listed => by simp [bare n ((inOrder n).mp member)] at listed)
  have written : processNewChannels cfg setup ioc records env new existing =
      (env.setOrder new).flatMap fun n =>
        writtenFor cfg setup ioc records n (existing.get? n) := by
    refine loop.trans ?_
    rw [List.map_nil, List.nil_append]
  rw [written]
  have listed : x ∈ ((env.setOrder new).flatMap fun n =>
      writtenFor cfg setup ioc records n (existing.get? n)).map CFChannel.name := by
    have first : (⟨ownEntry cfg setup ioc records x none, x⟩ : CFChannel) ∈
        writtenFor cfg setup ioc records x (existing.get? x) := by
      rw [missing]
      exact List.mem_cons_self
    exact List.mem_map.mpr ⟨_, List.mem_flatMap.mpr ⟨x, (inOrder x).mpr asked, first⟩, rfl⟩
  obtain ⟨ch, member, rfl, found⟩ := get?_setChannels_of_mem s listed
  obtain ⟨n, inside, here⟩ := List.mem_flatMap.mp member
  rw [writtenFor, bare n ((inOrder n).mp inside), List.map_nil, List.mem_singleton] at here
  have same : ch.name = n := congrArg CFChannel.name here
  rw [found, here, ← same, missing]
  rfl

variable {cfg : CFConfig} (setup : Setup) {nameMatches : String → String → Bool}
  (attempts : cfg.Attempts) (service : TakesNames nameMatches) (positive : 0 < cfg.cfQueryLimit)
  {n : Nat} (few : n ≤ 300)

theorem letters_plain : ∀ r ∈ (letters n few).records, PlainName r.recordName := by
  intro r member
  obtain ⟨i, inside, rfl⟩ := List.mem_map.mp member
  have small := List.mem_range.mp inside
  exact letter_plain (by omega)

theorem letters_names :
    (letters n few).records.map UploadRecord.recordName = (List.range n).map letter := by
  rw [letters, List.map_map]
  rfl

theorem heldLetters_unlisted (owner : String) :
    ∀ x e, (heldLetters owner n).get? x = some e → ¬ e.has .iocId (iocidOf "h" 1) := by
  intro x e found
  rw [heldLetters_entry found]
  simp [CFEntry.has]

/-- None of the records has an alias. -/
theorem letters_bare {t : Transaction}
    (holds : HoldsRecords cfg setup (letters n few) "h" 1 (letters n few).records t) :
    ∀ x ∈ (recordsOf cfg setup {} t).keys, aliasesOf cfg (recordsOf cfg setup {} t) x = [] := by
  intro x named
  rw [holds.keys cfg setup {}, letters_names] at named
  obtain ⟨i, inside, rfl⟩ := List.mem_map.mp named
  have serves := holds.aliasesOf cfg setup {} (List.mem_map_of_mem (f := letterRecord) inside)
  have alone : served cfg (letterRecord i) = [letter i] := by
    rw [served, show (letterRecord i).aliases = [] from rfl, ite_self]
    rfl
  exact List.tail_eq_of_cons_eq (serves.trans alone)

include attempts service positive

/-- One record after the other finds its channel and keeps its owner. -/
theorem oneByOne_keeps (owner : String) {i : Nat} (small : i < n) :
    ((((cfg.queries nameMatches).runCommits cfg setup { store := heldLetters owner n }
      (cutCommits (oneByOne (letters n few).records))).store.get? (letter i)).map
        CFEntry.owner) = some owner := by
  have inside : letterRecord i ∈ (letters n few).records :=
    List.mem_map_of_mem (List.mem_range.mpr small)
  have nonempty : oneByOne (letters n few).records ≠ [] := by
    intro none
    have back := oneByOne_flatten (letters n few).records
    rw [none] at back
    rw [← back] at inside
    cases inside
  have answers : 0 < cfg.cfQueryLimit → ∀ group ∈ oneByOne (letters n few).records,
      (cfg.queries nameMatches).Answers (group.map UploadRecord.recordName) := by
    intro _ group member env s
    obtain ⟨r, listed, rfl⟩ := List.mem_map.mp member
    have alone : env.setOrder [r.recordName] = [r.recordName] :=
      List.perm_singleton.mp (env.setOrder_perm _)
    apply looksUp_of_reply
    intro ch
    rw [List.map_singleton, alone]
    exact mem_findByNames_single service (letters_plain few r listed) positive env ch
  obtain ⟨now, uploaded⟩ := @run_cut cfg setup (letters n few) "h" 1
    { store := heldLetters owner n } (cfg.queries nameMatches) attempts ⟨rfl, rfl⟩
    (uploadIoc_converts cfg rfl) (heldLetters_unlisted owner) _
    (cutCommits_cut (oneByOne_flatten _) (oneByOne_filled _) nonempty) nonempty answers 0
    (cutCommits (oneByOne (letters n few).records)) (by simp [cutCommits])
    (cutCommits_transactions _)
  obtain ⟨time, found⟩ := (uploaded.written positive).inside (letterRecord i) inside (letter i)
    (by simp [served, letterRecord])
  rw [found, uploadedEntry, if_pos (show letter i = (letterRecord i).recordName from rfl)]
  show some (ownEntry _ _ _ _ _ ((heldLetters owner n).get? (letter i))).owner = _
  rw [heldLetters_held small]
  rfl

omit attempts in
include few in
/-- The names are one query, and a page has no room for the channels of all of them. -/
theorem letters_reply (full : cfg.cfQueryLimit < n) (s : Store) :
    ((cfg.queries nameMatches).findByNames {} s ((List.range n).map letter)).length <
      ((List.range n).map letter).length := by
  have size : ((List.range n).map letter).length = n := by
    rw [List.length_map, List.length_range]
  have plain : ∀ x ∈ (List.range n).map letter, PlainName x := by
    intro x asked
    obtain ⟨i, inside, rfl⟩ := List.mem_map.mp asked
    exact letter_plain (Nat.lt_of_lt_of_le (List.mem_range.mp inside) few)
  have one : nameGroups ((List.range n).map letter) = [(List.range n).map letter] := by
    apply nameGroups_letters
    · intro x asked
      obtain ⟨i, -, rfl⟩ := List.mem_map.mp asked
      simp [letter]
    · rwa [size]
    · rw [← List.length_pos_iff, size]
      omega
  have reply : (PyCFClientAdapter.findByNames (cfg.adapter nameMatches) {} s
      ((List.range n).map letter)).length ≤ cfg.cfQueryLimit :=
    length_findByNames_le service.alternatives plain one positive {}
  show (PyCFClientAdapter.findByNames _ _ _ _).length < _
  omega

/-- All at once ask for one channel too many, and one of them is created anew. -/
theorem allAtOnce_takes (full : cfg.cfQueryLimit < n) (owner : String) :
    ∃ i < n, (((cfg.queries nameMatches).runCommits cfg setup { store := heldLetters owner n }
      (cutCommits [(letters n few).records])).store.get? (letter i)).map CFEntry.owner =
        some (uploadIoc cfg (letters n few) "h" 1 "").owner := by
  have holds := @part_holdsRecords cfg setup (letters n few) "h" 1 [] (letters n few).records []
    (by simp) 0 true
  generalize transaction : (groupTransaction "h" 1 0 (letters n few).clientInfos true
    (letters n few).records).toTransaction = t at holds
  have nothing : (cfg.queries nameMatches).findByIocId {} (heldLetters owner n) t.iocid = [] := by
    rw [List.eq_nil_iff_forall_not_mem]
    intro cf member
    obtain ⟨stored, listed⟩ := (cfg.queries nameMatches).findByIocId_listed _ _ _ _ member
    exact heldLetters_unlisted owner cf.name cf.toCFEntry stored (holds.iocid ▸ listed)
  have named : iocNameConverts (iocInfoOf cfg {} t).iocName = true := by
    rw [holds.ioc]
    exact uploadIoc_converts cfg rfl
  have initial : t.initial = true := by
    rw [← transaction]
    exact (Recast.groupTransaction_sameFrame "h" 1 0 _ true _).initial
  have world := @commit_growing cfg setup {} t { store := heldLetters owner n }
    (cfg.queries nameMatches) attempts ⟨rfl, rfl⟩ named holds.connected holds.nothingDeleted
    (Or.inl initial) (by simp [nothing]) (Or.inl nothing)
  have keys := (holds.keys cfg setup {}).trans (letters_names few)
  have short := keys.symm ▸ letters_reply service positive few full (heldLetters owner n)
  obtain ⟨x, asked, missing⟩ := @exists_missing (cfg.queries nameMatches) {}
    (heldLetters owner n) _ (Py.Dict.keys_nodup (recordsOf cfg setup {} t)) short
  have taken := owner_of_missing cfg setup (iocInfoOf cfg {} t) {} (Py.Dict.keys_nodup _)
    (letters_bare setup few holds) asked missing (heldLetters owner n)
  rw [keys] at asked
  obtain ⟨i, inside, rfl⟩ := List.mem_map.mp asked
  refine ⟨i, List.mem_range.mp inside, ?_⟩
  have ran : (cfg.queries nameMatches).runCommits cfg setup { store := heldLetters owner n }
      (cutCommits [(letters n few).records]) = ((cfg.queries nameMatches).commitWithThread cfg
        setup {} [] t { store := heldLetters owner n }).2 := by
    rw [← transaction]
    rfl
  rw [ran, world, if_pos positive, taken, holds.ioc]

end Page

theorem page_of_batchingIndependent {cfg : CFConfig} {setup : Setup}
    {nameMatches : String → String → Bool} (service : TakesNames nameMatches)
    (independent : BatchingIndependent cfg setup nameMatches) :
    cfg.cfQueryLimit ≤ 0 ∨ 300 ≤ cfg.cfQueryLimit := by
  by_contra small
  have positive : 0 < cfg.cfQueryLimit := by omega
  have attempts := attempts_of_batchingIndependent independent
  -- one record more than a page has room for
  have few : cfg.cfQueryLimit.toNat + 1 ≤ 300 := by omega
  have some : (letters _ few).records ≠ [] := by simp [letters]
  generalize other : (uploadIoc cfg (letters _ few) "h" 1 "").owner ++ "!" = owner
  obtain ⟨i, inside, taken⟩ := allAtOnce_takes setup attempts service positive few (by omega) owner
  have same := (independent.cuts { store := heldLetters owner (cfg.cfQueryLimit.toNat + 1) }
    ⟨rfl, rfl⟩ (heldLetters_unlisted owner) (letters_plain few) rfl some).store (letter i)
  have kept := oneByOne_keeps setup attempts service positive few owner inside
  have owners := congrArg (Option.map CFEntry.owner) same
  rw [Option.map_map, Option.map_map] at owners
  have blind : CFEntry.owner ∘ CFEntry.timeless = CFEntry.owner := rfl
  rw [blind, kept, taken, ← other] at owners
  have size := congrArg String.length (Option.some.inj owners)
  rw [String.length_append] at size
  simp at size

/-- The two channels, entered by someone else. -/
def enteredTwo : Store := (Py.Dict.set ∅ "one" ⟨"ops", []⟩).set "two" ⟨"ops", []⟩

end Recsync.Cf
