import Recsync.Cf.Agreement
import Recsync.Cf.BatchedUpload
import Recsync.System.InStep
import Recsync.System.Sent

set_option autoImplicit false

/- From the record database of a client to ChannelFinder. -/
namespace Recsync.System

open Cf Client Recast
open PyCFClientAdapter (PlainName TakesNames exactNames takesNames_exactNames)
open Recast (UploadRecord SessionCall)

section Entry

variable {cfg : CFConfig} {setup : Setup} (u : Recast.Upload) (host : String) (port : Nat)
  (now : String) (r : UploadRecord)

theorem onlyRecord_apart (apart : setup.Apart) :
    InfosApart (onlyRecord cfg setup u host port r) := by
  intro n info found q member
  rw [onlyRecord, Py.Dict.get?_set] at found
  split at found
  · obtain rfl := Option.some.inj found
    rcases List.mem_append.mp member with tagged | mapped
    · obtain ⟨tag, listed, value⟩ := List.mem_filterMap.mp tagged
      obtain ⟨v, -, rfl⟩ := Option.map_eq_some_iff.mp value
      exact apart.tags tag listed
    · rw [applyEnvVars, List.mem_filterMap] at mapped
      obtain ⟨var, listed, value⟩ := mapped
      obtain ⟨v, -, rfl⟩ := Option.map_eq_some_iff.mp value
      exact apart.vars var listed
  · simp at found

/-- The entry of a record or alias is Active and listed under the IOC of the upload. -/
theorem uploadedEntry_live (apart : setup.Apart) (n : String) (stored : Option CFEntry) :
    Live (iocidOf host port) (uploadedEntry cfg setup u host port now r n stored) := by
  have infos := @onlyRecord_apart cfg setup u host port r apart
  have id : (uploadIoc cfg u host port now).id = iocidOf host port := rfl
  unfold uploadedEntry
  split
  · have sets := newProperties_sets cfg (uploadIoc cfg u host port now) infos n
    rw [id] at sets
    cases stored with
    | none => exact sets.live
    | some e => exact (sets.merge e _).live
  · have sets := aliasProperties_sets cfg (uploadIoc cfg u host port now) infos r.recordName
    rw [id] at sets
    exact sets.live

theorem uploadedEntry_properties (n : String) (stored : Option CFEntry) :
    ∀ q ∈ newProperties cfg (uploadIoc cfg u host port now) (onlyRecord cfg setup u host port r)
      r.recordName, q ∈ (uploadedEntry cfg setup u host port now r n stored).properties := by
  intro q member
  unfold uploadedEntry
  split
  · next same =>
    rw [← same] at member
    cases stored with
    | none => exact member
    | some e => exact List.mem_append_left _ member
  · exact List.mem_cons_of_mem _ member

end Entry

def registeredNames (cfg : CFConfig) (ioc : Ioc) (record : DbRecordType × DbRecordNode) :
    List CString :=
  (ioc.pdbbase.deref record.2.precord).name ::
    if cfg.aliasEnabled then aliasesIn record.1 record.2 else []

/-- What an entry says about a record of the database, under its name or that of an alias. -/
structure Shows (cfg : CFConfig) (setup : Setup) (iocid : String) (ioc : Ioc)
    (record : DbRecordType × DbRecordNode) (name : CString) (e : CFEntry) : Prop where
  live : Live iocid e
  recceiver : e.has .recceiverId cfg.recceiverId
  recordType : cfg.recordTypeEnabled = true →
    e.has .recordType (text (ioc.pdbbase.deref record.2.precord).rdes)
  tags : ∀ tag ∈ setup.recordPropertyNamesList, ∀ value, tagIn ioc record tag = some value →
    ∃ q ∈ e.properties, q.name = tag ∧ q.value = value
  aliasFor : text name ≠ text (ioc.pdbbase.deref record.2.precord).name →
    e.has .aliasFor (text (ioc.pdbbase.deref record.2.precord).name)

section Shows

variable {cfg : CFConfig} {setup : Setup} (d : Database)

theorem served_uploadRecord (recordId : Nat) (record : DbRecordType × DbRecordNode) :
    served cfg (uploadRecord d.ioc recordId record) =
      (registeredNames cfg d.ioc record).map text := by
  rw [served, uploadRecord_aliases, registeredNames, List.map_cons]
  split <;> rfl

theorem recordType_ne {record : DbRecordType × DbRecordNode} (known : record ∈ d.records) :
    text (d.ioc.pdbbase.deref record.2.precord).rdes ≠ "" := by
  obtain ⟨rid, legible⟩ := d.record_legible known
  obtain ⟨isText, -, ⟨filled, -⟩, -⟩ := legible _ List.mem_cons_self
  intro empty
  have bytes : Bytes.encode "" = (d.ioc.pdbbase.deref record.2.precord).rdes.bytes := by
    rw [← empty]
    exact isText
  have nothing : Bytes.encode "" = [] := by decide
  rw [strlen, ← bytes, nothing] at filled
  exact Nat.lt_irrefl 0 filled

theorem uploadedEntry_shows (apart : setup.Apart) (host : String) (port : Nat) (now : String)
    (recordId : Nat) {record : DbRecordType × DbRecordNode} (known : record ∈ d.records)
    (name : CString) (stored : Option CFEntry) :
    Shows cfg setup (iocidOf host port) d.ioc record name
      (uploadedEntry cfg setup d.upload host port now (uploadRecord d.ioc recordId record)
        (text name) stored) := by
  let r := uploadRecord d.ioc recordId record
  let ioc := uploadIoc cfg d.upload host port now
  have live := @uploadedEntry_live cfg setup d.upload host port now r apart (text name) stored
  have all := @uploadedEntry_properties cfg setup d.upload host port now r (text name) stored
  have found : (onlyRecord cfg setup d.upload host port r).get? r.recordName =
      some (uploadRecordInfo cfg setup ioc.owner d.upload.clientInfos r) := by
    rw [onlyRecord, Py.Dict.get?_set, if_pos rfl]
    rfl
  constructor
  · exact live
  · have mine : property .recceiverId ioc.owner cfg.recceiverId ∈ newProperties cfg ioc
        (onlyRecord cfg setup d.upload host port r) r.recordName :=
      List.mem_append_left _ (by simp [createIocProperties])
    exact ⟨_, all _ mine, rfl, rfl⟩
  · intro enabled
    have typed : r.recordType ≠ "" := recordType_ne d known
    have mine : property .recordType ioc.owner r.recordType ∈ newProperties cfg ioc
        (onlyRecord cfg setup d.upload host port r) r.recordName := by
      rw [newProperties, found]
      refine List.mem_append_right _ (List.mem_append_left _ ?_)
      simp only [uploadRecordInfo, if_pos enabled]
      rw [if_neg typed]
      exact List.mem_singleton_self _
    exact ⟨_, all _ mine, rfl, rfl⟩
  · intro tag listed value given
    have mine : ⟨tag, ioc.owner, value⟩ ∈ newProperties cfg ioc
        (onlyRecord cfg setup d.upload host port r) r.recordName := by
      rw [newProperties, found]
      refine List.mem_append_right _ (List.mem_append_right _ (List.mem_append_left _ ?_))
      refine List.mem_filterMap.mpr ⟨tag, listed, ?_⟩
      rw [uploadRecord_info, given]
      rfl
    exact ⟨_, all _ mine, rfl, rfl⟩
  · intro other
    have other : text name ≠ (uploadRecord d.ioc recordId record).recordName := other
    rw [uploadedEntry, if_neg other]
    exact ⟨_, List.mem_cons_self, rfl, rfl⟩

end Shows

/-- However the upload of a database travels, and however the session cuts it into transactions:
when all messages have arrived and the commits are through, ChannelFinder has every record and
every alias that it should register, Active under the address of the client and with the type and
the tags of the database, and nothing else has changed. Nothing was listed under the address before,
and a page has room for the reply to any query. -/
theorem database_registered {env : Surroundings} (normal : Normal env) (d : Database)
    (serverKey : Nat) (events : List LinkEvent)
    (delivered : Good.Delivered ((Link.start serverKey d.letters).run env events))
    {cfg : CFConfig} {startEnv : Env} {cfProperties : List String} {setup : Setup}
    {registered : List String}
    (started : setupCfProperties cfg startEnv cfProperties = .ok (setup, registered))
    (apart : cfg.NamesApart) (usable : cfg.Usable) {before : World} (up : before.proc.Up)
    (converts : iocNameConverts (uploadIoc cfg d.upload env.host env.port "").iocName = true)
    (unlisted : ∀ n e, before.store.get? n = some e →
      ¬ e.has .iocId (iocidOf env.host env.port)) {nameMatches : String → String → Bool}
    (service : TakesNames nameMatches) (plain : ∀ r ∈ d.upload.records, PlainName r.recordName)
    (enough : 300 ≤ cfg.cfQueryLimit) :
    ∃ t, ((Link.start serverKey d.letters).run env events).sessions = [t] ∧
      ∀ commits : List Commit, (∀ c ∈ commits, c.faults = []) → t.commitChain.result ≠ none →
        commits.map Commit.transaction =
          (CollectionSession.handed t.log).map (fun t => t.toTransaction) →
        let w := (cfg.queries nameMatches).runCommits cfg setup before commits
        (∀ record ∈ d.records, ∀ name ∈ registeredNames cfg d.ioc record,
          ∃ e, w.store.get? (text name) = some e ∧
            Shows cfg setup (iocidOf env.host env.port) d.ioc record name e) ∧
        ∀ n, (∀ record ∈ d.records, ∀ name ∈ registeredNames cfg d.ioc record, text name ≠ n) →
          w.store.get? n = before.store.get? n := by
  have good := (Good.start normal serverKey d.letters).run normal events
  obtain ⟨opened, events', unclosed, messages, sessions⟩ := (good.flow_delivered delivered).1
  refine ⟨_, sessions, ?_⟩
  intro commits calm idle transactions w
  have asked : received events' = d.upload.calls := by
    rw [messages, ← d.letters_calls, ← script_calls]
    rfl
  obtain ⟨groups, cut, flushed⟩ := upload_cut env.cfg (env.factory 0) unclosed asked
  obtain ⟨settled, state⟩ := CollectionSession.run_ordered env.cfg (env.factory 0)
    (CollectionSession.opened_ordered env.host env.port (env.srcid 0)) events'
  rw [state.handed_of_result idle, flushed] at transactions
  have nonempty : groups ≠ [] := by
    intro none
    have nothing := (cut.nothing.mp none).1
    exact List.cons_ne_nil _ _ nothing
  have answers : 0 < cfg.cfQueryLimit → ∀ group ∈ groups,
      (cfg.queries nameMatches).Answers (group.map Recast.UploadRecord.recordName) := by
    intro _ group member
    apply answers_of_page service (Or.inr enough)
    intro name named
    obtain ⟨r, inside, rfl⟩ := List.mem_map.mp named
    exact plain r (cut.whole ▸ List.mem_flatten.mpr ⟨group, member, inside⟩)
  obtain ⟨now, uploaded⟩ := @run_cut cfg setup d.upload env.host env.port before
    (cfg.queries nameMatches) usable.attempts up converts unlisted groups cut nonempty answers
    (env.srcid 0) commits calm transactions
  have committed := uploaded.written usable.limit
  constructor
  · intro record known name listed
    obtain ⟨id, member⟩ := uploadRecords_mem known d.firstId
    have mine : text name ∈ served cfg (uploadRecord d.ioc id record) := by
      rw [served_uploadRecord]
      exact List.mem_map_of_mem listed
    obtain ⟨now, stored⟩ := committed.inside _ member _ mine
    exact ⟨_, stored, uploadedEntry_shows d (setupCfProperties_apart apart started) _ _ _ _
      known _ _⟩
  · intro n other
    apply committed.outside
    intro mine
    obtain ⟨r, member, listed⟩ := List.mem_flatMap.mp mine
    obtain ⟨id, record, known, rfl⟩ := mem_uploadRecords member
    rw [served_uploadRecord] at listed
    obtain ⟨name, named, rfl⟩ := List.mem_map.mp listed
    exact other record known name named rfl

/-- The greetings, the upload, and the end of its commit. -/
def pumpUpload : List LinkEvent :=
  [.send, .read] ++ List.replicate 6 .send ++ List.replicate 14 (.arrive {}) ++ [.fires 0 (.ok ())]

theorem pumpRecords_plain : ∀ r ∈ pumpDatabase.upload.records, PlainName r.recordName := by
  have names : ∀ r ∈ pumpDatabase.upload.records, r.recordName ≠ "" ∧ '|' ∉ r.recordName.toList ∧
      '*' ∉ r.recordName.toList ∧ '?' ∉ r.recordName.toList := by decide +kernel
  intro r member
  obtain ⟨some, noBar, noWildcard⟩ := names r member
  exact ⟨some, noBar, noWildcard⟩

theorem database_registered_pump :
    ∃ setup registered, setupCfProperties (pagesOf 10000) {} [] = .ok (setup, registered) ∧
      ∃ t, ((Link.start 5 pumpDatabase.letters).run quietServer pumpUpload).sessions = [t] ∧
        let commits : List Commit :=
          (CollectionSession.handed t.log).map fun t => ⟨{}, [], t.toTransaction⟩
        ∃ e, (((pagesOf 10000).queries exactNames).runCommits (pagesOf 10000) setup {}
            commits).store.get? "TEST:pump" = some e ∧ Live "10.0.0.7:40001" e := by
  have started : setupCfProperties (pagesOf 10000) {} [] = .ok (_, _) := rfl
  refine ⟨_, _, started, ?_⟩
  have delivered :
      Good.Delivered ((Link.start 5 pumpDatabase.letters).run quietServer pumpUpload) := by
    have all : ((Link.start 5 pumpDatabase.letters).run quietServer pumpUpload).todo.isEmpty =
          true ∧ ((Link.start 5 pumpDatabase.letters).run quietServer
            pumpUpload).keepalive.toServer.isEmpty = true := by decide +kernel
    refine ⟨List.isEmpty_iff.mp all.1, ?_⟩
    rw [List.isEmpty_iff.mp all.2]
    simp
  obtain ⟨t, sessions, outcome⟩ :=
    @database_registered quietServer quietServer_normal pumpDatabase 5
    pumpUpload delivered (pagesOf 10000) {} [] _ _ started (namesApart_of_plain rfl rfl)
    ⟨by decide, by decide⟩ {} ⟨rfl, rfl⟩ (by decide +kernel) (by simp) exactNames
    takesNames_exactNames pumpRecords_plain (by decide)
  refine ⟨t, sessions, ?_⟩
  intro commits
  have idle : (((Link.start 5 pumpDatabase.letters).run quietServer pumpUpload).sessions.map
      fun t => t.commitChain.result.isSome) = [true] := by decide +kernel
  rw [sessions] at idle
  have ended : t.commitChain.result ≠ none := by
    intro running
    simp [running] at idle
  have shown := (outcome commits (by simp [commits]) ended (by simp [commits])).1
  have known : (⟨pumpNodes, by decide⟩, pumpNodes.head (by decide)) ∈ pumpDatabase.records :=
    List.mem_cons_self
  obtain ⟨e, stored, shows⟩ := shown _ known _ List.mem_cons_self
  exact ⟨e, stored, shows.live⟩

end Recsync.System
