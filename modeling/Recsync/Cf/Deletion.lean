import Recsync.Cf.Disconnect
import Recsync.Cf.Retry

set_option autoImplicit false

namespace Recsync.Cf

open Ownership (holder leave serve)
open Py (Program)

section Serving

variable {client : ChannelFinderAdapter} {cfg : CFConfig} {setup : Setup} {env : Env}
  {t : Transaction} {p : Processor}

theorem afterEvict_owners (tracking : Tracking p) (i : String) :
    (afterEvict env i p).owners = leave p.owners i :=
  untrackAll_owners tracking env i

theorem afterConnected_noRecords (noRecords : t.recordsToAdd.entries = []) :
    afterConnected cfg setup env t p =
      (registerInitial cfg env t p).lookUpIds t.recordsToDelete := by
  rw [afterConnected, recordsOf_empty noRecords]
  rfl

/-- A connected transaction that finds its IOC makes it serve the touched names. -/
theorem afterConnected_serve (ready : Ready p t) :
    (afterConnected cfg setup env t p).owners =
      serve p.owners t.iocid (touched cfg (recordsOf cfg setup env t)) := by
  rcases or_assoc.mpr ready with known | noRecords
  · exact afterConnected_owners known
  · rw [afterConnected_noRecords noRecords, Processor.owners_lookUpIds, registerInitial_owners,
      recordsOf_empty noRecords]
    rfl

/-- A connected transaction takes nobody off a name. -/
theorem mem_owners_afterConnected (ready : Ready p t) {n i : String} (serving : i ∈ p.owners n) :
    i ∈ (afterConnected cfg setup env t p).owners n := by
  rw [afterConnected_serve ready, serve]
  split
  · exact Ownership.mem_arrive.mpr (Or.inr serving)
  · exact serving

/-- The IOC serves the name, or it was evicted and is no longer known. -/
def ServesOrUnknown (i n : String) (p : Processor) : Prop := i ∈ p.owners n ∨ Unknown i p

/-- Until its connection ends, an IOC stops serving a name only by an eviction. -/
theorem ServesOrUnknown.commitStep {i n : String} {w : World} (sound : Sound w.proc) {c : Commit}
    (regular : Regular w.proc c.transaction)
    (stillOpen : c.iocid = i → c.transaction.connected = true ∧ c.transaction.initial = false)
    (before : ServesOrUnknown i n w.proc) :
    ServesOrUnknown i n (client.commitStep cfg setup w c).proc := by
  rcases before with serving | unknown
  swap
  · exact Or.inr (commitStep_unknown (fun own => (stillOpen own).2) unknown)
  have updated : i ∈ ((updateIocInfos cfg c.env c.transaction
      (iocInfoOf cfg c.env c.transaction) (recordsOf cfg setup c.env c.transaction)).after
        w.proc).owners n ∧
      Tracking ((updateIocInfos cfg c.env c.transaction
      (iocInfoOf cfg c.env c.transaction) (recordsOf cfg setup c.env c.transaction)).after
        w.proc) := by
    rcases regular with ⟨connected, ready⟩ | disconnect
    · rw [Program.after, updateIocInfos_regular sound.tracking connected ready]
      exact ⟨mem_owners_afterConnected ready serving, sound.tracking.afterConnected⟩
    · have other : i ≠ c.transaction.iocid := by
        intro own
        rw [disconnect.gone] at stillOpen
        cases (stillOpen own.symm).1
      rw [recordsOf_disconnect cfg setup c.env disconnect, Program.after,
        updateIocInfos_disconnect cfg c.env _ disconnect
          fun m member => (sound.tracking.linked m _).mpr member]
      refine ⟨?_, sound.tracking.afterDisconnect⟩
      rw [iocInfoOf_id, untrackAll_owners sound.tracking, leave]
      exact (List.mem_erase_of_ne other).mpr serving
  rcases commit_proc_cases cfg setup c.env c.faults c.transaction w with same | same | ⟨-, same⟩
  · rw [ChannelFinderAdapter.commitStep, same]
    exact Or.inl serving
  · rw [ChannelFinderAdapter.commitStep, same]
    exact Or.inl updated.1
  · rw [ChannelFinderAdapter.commitStep, same, Program.after,
      evictIoc_eq_afterEvict c.env updated.2]
    by_cases own : i = c.transaction.iocid
    · refine Or.inr ?_
      simp [Unknown, afterEvict, own]
    · refine Or.inl ?_
      rw [afterEvict_owners updated.2, leave]
      exact (List.mem_erase_of_ne own).mpr updated.1

theorem ServesOrUnknown.run {i n : String} {w : World} {run : List Commit}
    (regular : RegularRun client cfg setup w run) (sound : Sound w.proc)
    (stillOpen : ∀ c ∈ run, c.iocid = i →
      c.transaction.connected = true ∧ c.transaction.initial = false)
    (before : ServesOrUnknown i n w.proc) :
    ServesOrUnknown i n (client.runCommits cfg setup w run).proc := by
  refine @RegularRun.maintains client cfg setup w run (fun w => ServesOrUnknown i n w.proc) regular
    ?_ sound
    before
  intro c member w sound regular before
  exact before.commitStep sound regular (stillOpen c member)

theorem commit_ok_connected {faults : List Fault} {w : World} (sound : Sound w.proc)
    (connected : t.connected = true) (ready : Ready w.proc t)
    (returned : (client.commitWithThread cfg setup env faults t w).1 = .ok ()) :
    ∃ s, client.pushToCf cfg setup env (afterConnected cfg setup env t w.proc)
        (recordsOf cfg setup env t) (t.recordsToDelete.map Key.id) (iocInfoOf cfg env t) faults 0
          w.store = (.ok true, s) ∧
      (client.commitWithThread cfg setup env faults t w).2 =
        ⟨afterConnected cfg setup env t w.proc, s⟩ := by
  by_cases converts : iocNameConverts (iocInfoOf cfg env t).iocName = true
  · have update := @updateIocInfos_regular cfg setup env t w.proc sound.tracking connected ready
    have ran := @commit_of_update client cfg setup env faults t w _ _ sound.up converts
      (Or.inl connected)
      update
    rw [ran] at returned ⊢
    rcases pushed : client.pushToCf cfg setup env (afterConnected cfg setup env t w.proc)
        (recordsOf cfg setup env t) (t.recordsToDelete.map Key.id) (iocInfoOf cfg env t) faults 0
          w.store with ⟨e | done, s⟩
    · rw [pushed] at returned
      cases returned
    · cases done with
      | true => exact ⟨s, rfl, rfl⟩
      | false =>
        have evicted := evictIoc_eq_afterEvict env
          (@Sound.afterConnected cfg setup env t w.proc sound).tracking t.iocid
        rw [pushed] at returned
        simp [finishCommit, connected, evicted] at returned
  · simp [ChannelFinderAdapter.commitWithThread, sound.up.running, converts] at returned

end Serving

/-- ChannelFinder shows the entry of `n` as Inactive, or listed under another registered IOC
that serves `n`. -/
def Released (i n : String) (p : Processor) (e : CFEntry) : Prop :=
  e.has .pvStatus PVStatus.inactive.value ∨
    ∃ j, j ≠ i ∧ j ∈ p.ids (.name n) ∧ (p.iocs j).isSome ∧ Live j e

/-- What deleting the record `n` with these aliases is to do: `n` and its aliases are no longer
tracked, `n` is released in ChannelFinder, no key appears but those of the names that the
transaction adds, and the other channels of the IOC keep their properties except the time. -/
structure DeletedExactly (t : Transaction) (n : String) (aliases : List String) (w w' : World) :
    Prop where
  untracked : ∀ m ∈ n :: aliases, t.iocid ∉ w'.proc.ids (.name m) ∧ m ∉ w'.proc.channels t.iocid
  shown : ∃ e, w'.store.get? n = some e ∧ Released t.iocid n w'.proc e
  noNewKey : ∀ k, w'.proc.channelIocIds k ≠ none →
    w.proc.channelIocIds k ≠ none ∨ k ∈ t.names.map Key.name
  others : ∀ m ∈ w.proc.channels t.iocid, m ∉ n :: aliases → m ∉ t.names →
    ∀ e, w.store.get? m = some e → ∃ e', w'.store.get? m = some e' ∧
      ∀ name, name ≠ CFPropertyName.time.value → e'.valueOf name = e.valueOf name

/-- What ChannelFinder holds when the attempt starts that is the last of a push. -/
def ChannelFinderAdapter.atLastAttempt (client : ChannelFinderAdapter) (cfg : CFConfig)
    (setup : Setup) (env : Env) (p : Processor) (records : Py.Dict String RecordInfo)
    (del : List Key) (ioc : IOCInfo) : List Fault → Store → Store
  | [], s => s
  | fault :: rest, s =>
    match client.updateChannelfinder cfg setup env p records del ioc (some fault) s with
    | (.error .requestException, s') =>
      client.atLastAttempt cfg setup env p records del ioc rest s'
    | _ => s

/-- ChannelFinder as the last attempt finds it that a transaction of an IOC makes which is not
registered. -/
def Commit.found (client : ChannelFinderAdapter) (cfg : CFConfig) (setup : Setup) (c : Commit)
    (w : World) : Store :=
  client.atLastAttempt cfg setup c.env (w.proc.lookUpIds c.transaction.recordsToDelete) ∅
    (c.transaction.recordsToDelete.map Key.id) (iocInfoOf cfg c.env c.transaction) c.faults w.store

/-- The states in which a deletion happens to come out right: the IOC was evicted, every id of
the transaction has been looked up before, and the last attempt finds `n` on its page of the
channels of the IOC, or shown as released already. -/
structure DeletedByEviction (client : ChannelFinderAdapter) (cfg : CFConfig) (setup : Setup)
    (c : Commit) (n : String) (w : World) : Prop where
  evicted : Unknown c.iocid w.proc
  seen : ∀ r ∈ c.transaction.recordsToDelete, w.proc.channelIocIds (.id r) ≠ none
  entry : ∃ e, (c.found client cfg setup w).get? n = some e ∧
    (0 < cfg.cfQueryLimit ∧
        { e with name := n } ∈ client.findByIocId c.env (c.found client cfg setup w) c.iocid ∨
      Released c.iocid n w.proc e)

section Delete

variable {client : ChannelFinderAdapter} {cfg : CFConfig} {setup : Setup} {env : Env}
  {t : Transaction} {p : Processor} {w : World} {c : Commit}

theorem Sound.idle_of_unknown (sound : Sound p) {i : String} (unknown : Unknown i p) (n : String) :
    n ∉ p.channels i ∧ i ∉ p.ids (.name n) := by
  have empty : n ∉ p.channels i := by
    intro member
    have known := sound.registered i n member
    rw [unknown] at known
    cases known
  exact ⟨empty, fun serving => empty ((sound.tracking.linked n i).mp serving)⟩

theorem channelIocIds_lookUpIds_id (p : Processor) {records : List Nat} {r : Nat}
    (member : r ∈ records) : (p.lookUpIds records).channelIocIds (.id r) ≠ none := by
  have stays : ∀ (l : List Nat) (q : Processor), q.channelIocIds (.id r) ≠ none →
      (q.lookUpIds l).channelIocIds (.id r) ≠ none := by
    intro l
    induction l with
    | nil => exact fun q present => present
    | cons s rest ih =>
      intro q present
      refine ih _ ?_
      rw [Processor.channelIocIds_setIds]
      split
      · simp
      · exact present
  induction records generalizing p with
  | nil => cases member
  | cons s rest ih =>
    rcases List.mem_cons.mp member with rfl | later
    · exact stays rest _ (by simp)
    · exact ih _ later

theorem channelIocIds_lookUpIds_new (p : Processor) {records : List Nat} {k : Key}
    (present : (p.lookUpIds records).channelIocIds k ≠ none) :
    p.channelIocIds k ≠ none ∨ ∃ r ∈ records, k = .id r := by
  induction records generalizing p with
  | nil => exact Or.inl present
  | cons s rest ih =>
    rcases ih _ present with before | ⟨r, member, same⟩
    · rw [Processor.channelIocIds_setIds] at before
      split at before
      · rename_i same
        exact Or.inr ⟨s, by simp, same⟩
      · exact Or.inl before
    · exact Or.inr ⟨r, by simp [member], same⟩

/-- A later transaction that an evicted IOC gets through has no records. -/
theorem Ready.noRecords (ready : Ready p t) (notInitial : t.initial = false)
    (unknown : Unknown t.iocid p) : t.recordsToAdd.entries = [] := by
  rcases ready with initial | known | none
  · rw [notInitial] at initial
    cases initial
  · rw [unknown] at known
    cases known
  · exact none

theorem pushToCf_last {records : Py.Dict String RecordInfo} {del : List Key} {ioc : IOCInfo}
    {faults : List Fault} {count : Int} {s s' : Store}
    (pushed : client.pushToCf cfg setup env p records del ioc faults count s = (.ok true, s')) :
    client.updateChannelfinder cfg setup env p records del ioc none
      (client.atLastAttempt cfg setup env p records del ioc faults s) = (.ok (), s') := by
  induction faults generalizing count s with
  | nil =>
    rcases pushToCf_ok_cases pushed with ⟨_, ran⟩ | ⟨_, _, _, impossible, _⟩
    · exact updateChannelfinder_ok ran
    · cases impossible
  | cons fault rest ih =>
    unfold ChannelFinderAdapter.pushToCf at pushed
    rw [ChannelFinderAdapter.atLastAttempt]
    split at pushed
    · cases pushed
    split at pushed
    · cases pushed
    dsimp only at pushed
    generalize attempt : client.updateChannelfinder cfg setup env p records del ioc (some fault) s =
      ran at pushed ⊢
    rcases ran with ⟨e | _, next⟩
    · cases e with
      | requestException => exact ih pushed
      | _ => cases pushed
    · obtain rfl := (Prod.mk.inj pushed).2
      exact updateChannelfinder_ok attempt

/-- The commit of an evicted IOC that brings no records releases the page that its last attempt
gets. -/
theorem commit_evicted (sound : Sound w.proc) (connected : c.transaction.connected = true)
    (notInitial : c.transaction.initial = false)
    (noRecords : c.transaction.recordsToAdd.entries = [])
    (returned : (client.commitWithThread cfg setup c.env c.faults c.transaction w).1 = .ok ()) :
    (client.commitStep cfg setup w c).proc = w.proc.lookUpIds c.transaction.recordsToDelete ∧
      ∀ n, (client.commitStep cfg setup w c).store.get? n =
        if 0 < cfg.cfQueryLimit ∧ n ∈ (client.findByIocId c.env (c.found client cfg setup w)
            c.iocid).map CFChannel.name then
          ((c.found client cfg setup w).get? n).map (releaseEntry cfg setup
            (w.proc.lookUpIds c.transaction.recordsToDelete) (iocInfoOf cfg c.env c.transaction) n)
        else (c.found client cfg setup w).get? n := by
  obtain ⟨s, pushed, ran⟩ :=
    commit_ok_connected sound connected (Or.inr (Or.inr noRecords)) returned
  have maps : afterConnected cfg setup c.env c.transaction w.proc =
      w.proc.lookUpIds c.transaction.recordsToDelete := by
    rw [afterConnected_noRecords noRecords, registerInitial, if_neg (by simp [notInitial])]
  rw [maps, recordsOf_empty noRecords] at pushed
  rw [ChannelFinderAdapter.commitStep, ran, maps]
  refine ⟨rfl, ?_⟩
  have last := pushToCf_last pushed
  change client.updateChannelfinder _ _ _ _ _ _ _ _ (c.found client cfg setup w) = _ at last
  generalize c.found client cfg setup w = now at last ⊢
  intro n
  by_cases positive : 0 < cfg.cfQueryLimit
  · simp only [positive, true_and]
    rcases @updateChannelfinder_noRecords client cfg setup c.env _ _ _ positive none now with
      ⟨e, raised⟩ | ⟨-, -, bs, flat, wrote⟩
    · rw [raised] at last
      cases last
    · rw [wrote] at last
      rw [writeBatches_ok last, flat, get?_setChannels_allReleased]
      rfl
  · have unchanged := @updateChannelfinder_stuck client cfg setup c.env
      (w.proc.lookUpIds c.transaction.recordsToDelete) ∅
      (c.transaction.recordsToDelete.map Key.id) (iocInfoOf cfg c.env c.transaction) (by omega) now
    rw [last] at unchanged
    simp only [positive, false_and, if_false]
    exact congrArg (Py.Dict.get? · n) unchanged

/-- An entry of an evicted IOC that is released goes to another IOC or is marked Inactive. -/
theorem releaseEntry_released (sound : Sound w.proc) (unknown : Unknown t.iocid w.proc)
    {n : String} {e : CFEntry} (listed : e.has .iocId t.iocid) :
    Released t.iocid n w.proc
      (releaseEntry cfg setup (w.proc.lookUpIds t.recordsToDelete) (iocInfoOf cfg env t) n e) := by
  have owners := Processor.owners_lookUpIds w.proc t.recordsToDelete
  have iocs := Processor.iocs_lookUpIds w.proc t.recordsToDelete
  rw [releaseEntry, iocInfoOf_id, if_pos listed]
  cases last : (holder (w.proc.lookUpIds t.recordsToDelete).owners n).bind
      (w.proc.lookUpIds t.recordsToDelete).iocs with
  | none => exact Or.inl (releaseChannel_inactive cfg setup _ last)
  | some info =>
    obtain ⟨j, holds, registered⟩ := Option.bind_eq_some_iff.mp last
    have serving : j ∈ w.proc.ids (.name n) := by
      rw [owners] at holds
      exact Ownership.holder_mem holds
    rw [iocs] at registered
    refine Or.inr ⟨j, ?_, serving, by rw [registered]; rfl, ?_⟩
    · rintro rfl
      exact (sound.idle_of_unknown unknown n).2 serving
    · exact releaseChannel_live cfg setup _ holds (iocs ▸ registered)
        (sound.keyed j info registered)

end Delete

theorem released_lookUpIds (i n : String) (p : Processor) (records : List Nat) (e : CFEntry) :
    Released i n (p.lookUpIds records) e ↔ Released i n p e := by
  have ids : (p.lookUpIds records).ids (.name n) = p.ids (.name n) := by
    simp [Processor.ids]
  simp only [Released, ids, Processor.iocs_lookUpIds]

/-- From its commit on, a record is served by its IOC until that is evicted. -/
theorem served_since {client : ChannelFinderAdapter} {cfg : CFConfig} {setup : Setup} {s : Store}
    {before between : List Commit}
    {first : Commit} {r : Nat} {n ty : String}
    (regular : RegularRun client cfg setup ⟨{}, s⟩ (before ++ first :: between))
    (connected : first.transaction.connected = true)
    (added : first.transaction.recordsToAdd.get? r = some (n, ty))
    (committed : (client.commitWithThread cfg setup first.env first.faults first.transaction
      (client.runCommits cfg setup ⟨{}, s⟩ before)).1 = .ok ())
    (stillOpen : ∀ c ∈ between, c.iocid = first.iocid →
      c.transaction.connected = true ∧ c.transaction.initial = false) :
    ServesOrUnknown first.iocid n
      (client.runCommits cfg setup ⟨{}, s⟩ (before ++ first :: between)).proc := by
  have sound := regular.take.sound sound_empty
  have head := regular before first between rfl
  have ready : Ready (client.runCommits cfg setup ⟨{}, s⟩ before).proc first.transaction := by
    rcases head with ⟨-, ready⟩ | disconnect
    · exact ready
    · rw [disconnect.gone] at connected
      cases connected
  have known : first.transaction.initial = true ∨
      ((client.runCommits cfg setup ⟨{}, s⟩ before).proc.iocs first.transaction.iocid).isSome := by
    refine (or_assoc.mpr ready).resolve_right fun none => ?_
    rw [Py.Dict.get?_eq_some_iff, none] at added
    cases added
  obtain ⟨s', -, ran⟩ := commit_ok_connected sound connected ready committed
  have serving :
    first.iocid ∈ (client.commitStep cfg setup (client.runCommits cfg setup ⟨{}, s⟩ before)
      first).proc.owners n := by
    have touch : n ∈ touched cfg (recordsOf cfg setup first.env first.transaction) :=
      mem_touched.mpr ⟨n, (mem_keys_recordsOf _ _ _ _ n).mpr ⟨r, ty, added⟩, Or.inl rfl⟩
    rw [ChannelFinderAdapter.commitStep, ran, afterConnected_owners known, serve, if_pos touch]
    exact Ownership.mem_arrive.mpr (Or.inl rfl)
  have tail : RegularRun client cfg setup
    (client.commitStep cfg setup (client.runCommits cfg setup ⟨{}, s⟩ before)
      first) between := @RegularRun.drop _ _ _ _ [first] _ regular.drop
  have whole : client.runCommits cfg setup ⟨{}, s⟩ (before ++ first :: between) =
      client.runCommits cfg setup (client.commitStep cfg setup (client.runCommits cfg setup ⟨{},
        s⟩ before) first)
        between := by
    simp [ChannelFinderAdapter.runCommits]
  rw [whole]
  exact ServesOrUnknown.run tail (sound.commitStep head) stillOpen (Or.inl serving)

section Exact

variable {client : ChannelFinderAdapter} {cfg : CFConfig} {setup : Setup} {w : World}
  {last : Commit} {n : String} {aliases : List String}

/-- A deletion whose outcome is right finds the IOC evicted: while it is registered, the record
stays tracked. -/
theorem DeletedExactly.unknown (sound : Sound w.proc)
    (connected : last.transaction.connected = true)
    (ready : Ready w.proc last.transaction) (serves : ServesOrUnknown last.iocid n w.proc)
    (returned : (client.commitWithThread cfg setup last.env last.faults last.transaction w).1 =
      .ok ())
    (exact : DeletedExactly last.transaction n aliases w (client.commitStep cfg setup w last)) :
    Unknown last.iocid w.proc := by
  refine serves.resolve_left fun serving => ?_
  obtain ⟨s', -, ran⟩ := commit_ok_connected sound connected ready returned
  apply (exact.untracked n (by simp)).1
  rw [ChannelFinderAdapter.commitStep, ran]
  exact mem_owners_afterConnected ready serving

theorem DeletedExactly.byEviction (sound : Sound w.proc)
    (connected : last.transaction.connected = true) (notInitial : last.transaction.initial = false)
    (ready : Ready w.proc last.transaction) (unknown : Unknown last.iocid w.proc)
    (returned : (client.commitWithThread cfg setup last.env last.faults last.transaction w).1 =
      .ok ())
    (exact : DeletedExactly last.transaction n aliases w (client.commitStep cfg setup w last)) :
    DeletedByEviction client cfg setup last n w := by
  have noRecords := ready.noRecords notInitial unknown
  obtain ⟨proc, store⟩ := commit_evicted sound connected notInitial noRecords returned
  refine ⟨unknown, ?_, ?_⟩
  · intro q member
    have present := channelIocIds_lookUpIds_id w.proc member
    rw [← proc] at present
    rcases exact.noNewKey _ present with before | name
    · exact before
    · simp at name
  · obtain ⟨e', stored, released⟩ := exact.shown
    rw [proc, released_lookUpIds] at released
    rw [store] at stored
    split at stored
    · rename_i returned
      obtain ⟨e, found, rfl⟩ := Option.map_eq_some_iff.mp stored
      obtain ⟨cf, member, rfl⟩ := List.mem_map.mp returned.2
      have here := (client.findByIocId_listed _ _ _ cf member).1
      rw [found] at here
      obtain rfl := Option.some.inj here
      exact ⟨_, found, Or.inl ⟨returned.1, member⟩⟩
    · exact ⟨e', stored, Or.inr released⟩

theorem DeletedByEviction.exact (sound : Sound w.proc)
    (connected : last.transaction.connected = true) (notInitial : last.transaction.initial = false)
    (ready : Ready w.proc last.transaction)
    (returned : (client.commitWithThread cfg setup last.env last.faults last.transaction w).1 =
      .ok ())
    (evicted : DeletedByEviction client cfg setup last n w) :
    DeletedExactly last.transaction n aliases w (client.commitStep cfg setup w last) := by
  obtain ⟨unknown, seen, e, found, entry⟩ := evicted
  have noRecords := ready.noRecords notInitial unknown
  obtain ⟨proc, store⟩ := commit_evicted sound connected notInitial noRecords returned
  refine ⟨?_, ?_, ?_, ?_⟩
  · intro m _
    rw [proc]
    have idle := sound.idle_of_unknown (show Unknown last.transaction.iocid w.proc from unknown) m
    exact ⟨by simpa [Processor.ids] using idle.2, by simpa using idle.1⟩
  · rw [proc]
    simp only [released_lookUpIds, store, found]
    split
    · rename_i returned
      refine ⟨_, rfl, releaseEntry_released sound unknown ?_⟩
      obtain ⟨cf, member, name⟩ := List.mem_map.mp returned.2
      obtain ⟨here, listed⟩ := client.findByIocId_listed _ _ _ cf member
      rw [name, found] at here
      exact Option.some.inj here ▸ listed
    · rename_i missed
      refine ⟨e, rfl, entry.resolve_left fun both => missed ⟨both.1, ?_⟩⟩
      exact List.mem_map.mpr ⟨_, both.2, rfl⟩
  · intro k present
    rw [proc] at present
    refine Or.inl ?_
    rcases channelIocIds_lookUpIds_new w.proc present with before | ⟨q, member, rfl⟩
    · exact before
    · exact seen q member
  · intro m member
    exact absurd member (sound.idle_of_unknown unknown m).1

end Exact

def addsOne : Commit := ⟨{}, [], announce "a" 5064 "pv"⟩

def deletesOne : Commit := ⟨{}, [], { host := "a", port := 5064, recordsToDelete := [1] }⟩

theorem addThenDelete_regular (client : ChannelFinderAdapter) (cfg : CFConfig) (setup : Setup) :
    RegularRun client cfg setup {} [addsOne, deletesOne] := by
  have first : RegularRun client cfg setup {} [addsOne] :=
    (RegularRun.nil _ _ _).append (Or.inl ⟨rfl, Or.inl rfl⟩)
  exact first.append (Or.inl ⟨rfl, Or.inr (Or.inr rfl)⟩)

/-- The world after some commits, over pages of a thousand channels. -/
def ranAll (setup : Setup) (commits : List Commit) : World :=
  ((pagesOf 1000).queries (· == ·)).runCommits (pagesOf 1000) setup {} commits

end Recsync.Cf
