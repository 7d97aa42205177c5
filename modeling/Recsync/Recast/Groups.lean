import Recsync.Recast.Batching

set_option autoImplicit false

/- The transactions that a session makes of an upload, record by record. -/
namespace Recsync.Recast

open CollectionSession

/-- What a client says about a record after it has added it. -/
inductive RecordItem where
  | addAlias (recordName : String)
  | recInfo (key value : String)

def RecordItem.call (recordId : Nat) : RecordItem → SessionCall
  | .addAlias recordName => .addAlias recordId recordName
  | .recInfo key value => .recInfo recordId key value

structure UploadRecord where
  recordId : Nat
  recordType : String
  recordName : String
  items : List RecordItem

namespace UploadRecord

def itemCalls (r : UploadRecord) : List SessionCall := r.items.map (RecordItem.call r.recordId)

def calls (r : UploadRecord) : List SessionCall :=
  .addRecord r.recordId r.recordType r.recordName :: r.itemCalls

def aliases (r : UploadRecord) : List String := aliasesOf r.recordId r.calls

def info (r : UploadRecord) (key : String) : Option String := infoOf r.recordId key r.calls

def names (r : UploadRecord) : List String := r.recordName :: r.aliases

end UploadRecord

/-- What a client uploads: its own infos, then its records, with ids and names of their own. -/
structure Upload where
  infos : List (String × String)
  records : List UploadRecord
  ids_nodup : (records.map UploadRecord.recordId).Nodup
  names_nodup : (records.flatMap UploadRecord.names).Nodup

namespace Upload

def infoCalls (u : Upload) : List SessionCall := u.infos.map fun i => .iocInfo i.1 i.2

def calls (u : Upload) : List SessionCall :=
  u.infoCalls ++ (u.records.flatMap UploadRecord.calls ++ [.done])

def clientInfos (u : Upload) : Py.Dict String String :=
  u.infos.foldl (fun d i => d.set i.1 i.2) ∅

end Upload

def groupTransaction (host : String) (port srcid : Nat) (infos : Py.Dict String String)
    (initial : Bool) (group : List UploadRecord) : Transaction :=
  (group.flatMap UploadRecord.calls).foldl Transaction.collect
    { newTransaction host port srcid with initial, clientInfos := infos }

def groupTransactions (host : String) (port srcid : Nat) (infos : Py.Dict String String) :
    List (List UploadRecord) → List Transaction
  | [] => []
  | group :: rest =>
    groupTransaction host port srcid infos true group ::
      rest.map (groupTransaction host port srcid infos false)

/-- The groups that an upload can be cut into: only the first one may be without records. -/
structure Upload.Cut (u : Upload) (groups : List (List UploadRecord)) : Prop where
  whole : groups.flatten = u.records
  filled : ∀ group ∈ groups.tail, group ≠ []
  nothing : groups = [] ↔ u.infos = [] ∧ u.records = []

section Receive

variable {events : List CollectionSession.Event} {calls more : List SessionCall}

theorem received_eq_append (split : received events = calls ++ more) :
    ∃ first second, events = first ++ second ∧ received first = calls ∧ received second = more :=
  List.filterMap_eq_append_iff.mp split

variable (cfg : SessionConfig) (factory : Factory)

/-- The call is collected and nothing else happens to the transactions. -/
def Plain : SessionCall → Bool
  | .addAlias _ _ | .recInfo _ _ _ | .iocInfo _ _ => true
  | _ => false

/-- From `s` to `s'` the calls were collected, without a flush. -/
structure Collects (calls : List SessionCall) (s s' : CollectionSession) : Prop where
  transaction : s'.transaction = calls.foldl Transaction.collect s.transaction
  flushed : s'.flushed = s.flushed
  dirty : s'.dirty = (s.dirty || !calls.isEmpty)
  source : s'.host = s.host ∧ s'.port = s.port ∧ s'.srcid = s.srcid

theorem Collects.trans {s s' s'' : CollectionSession} (first : Collects calls s s')
    (second : Collects more s' s'') : Collects (calls ++ more) s s'' where
  transaction := by rw [second.transaction, first.transaction, List.foldl_append]
  flushed := second.flushed.trans first.flushed
  dirty := by
    rw [second.dirty, first.dirty]
    cases calls <;> simp
  source := by
    obtain ⟨host, port, srcid⟩ := first.source
    obtain ⟨host', port', srcid'⟩ := second.source
    exact ⟨host'.trans host, port'.trans port, srcid'.trans srcid⟩

theorem fire_collects (s : CollectionSession) (outcome : Outcome) :
    Collects [] s (s.fire factory outcome) := by
  unfold fire
  split
  · exact ⟨rfl, rfl, by simp, rfl, rfl, rfl⟩
  · exact ⟨rfl, rfl, by simp, rfl, rfl, rfl⟩

theorem update_collects (s : CollectionSession) (clock : Clock) (c : SessionCall) :
    Collects [c] s (s.update cfg clock c) :=
  ⟨rfl, rfl, by simp [update, markDirty], rfl, rfl, rfl⟩

theorem call_plain_collects (s : CollectionSession) (clock : Clock) {c : SessionCall}
    (plain : Plain c = true) : Collects [c] s (s.call cfg factory clock c) := by
  cases c with
  | addAlias recordId recordName => exact update_collects cfg s clock _
  | recInfo recordId key value => exact update_collects cfg s clock _
  | iocInfo key value => exact update_collects cfg s clock _
  | addRecord recordId recordType recordName => cases plain
  | delRecord recordId => cases plain
  | done => cases plain

/-- Plain calls are collected, whatever the commits do meanwhile. -/
theorem run_plain_collects (opened : .close ∉ events) (plain : ∀ c ∈ received events, Plain c = true)
    (s : CollectionSession) : Collects (received events) s (s.run cfg factory events) := by
  induction events generalizing s with
  | nil => exact ⟨rfl, rfl, by simp [received], rfl, rfl, rfl⟩
  | cons e rest ih =>
    have later : .close ∉ rest := fun inside => opened (List.mem_cons_of_mem _ inside)
    cases e with
    | call clock c =>
      have head : Plain c = true := plain c (by simp [received])
      have tail := ih later (fun d member => plain d (List.mem_cons_of_mem _ member))
        (s.call cfg factory clock c)
      exact (call_plain_collects cfg factory s clock head).trans tail
    | close => simp at opened
    | fires outcome =>
      exact (fire_collects factory s outcome).trans (ih later plain (s.fire factory outcome))

/-- One call, with commits that end before and after it. -/
theorem received_eq_singleton {c : SessionCall} (one : received events = [c]) :
    ∃ first clock last, events = first ++ .call clock c :: last ∧ received first = [] ∧
      received last = [] := by
  induction events with
  | nil => cases one
  | cons e rest ih =>
    cases e with
    | call clock d =>
      obtain ⟨rfl, nothing⟩ := List.cons.inj one
      exact ⟨[], clock, rest, rfl, rfl, nothing⟩
    | close =>
      obtain ⟨first, clock, last, rfl, before, after⟩ := ih one
      exact ⟨.close :: first, clock, last, rfl, before, after⟩
    | fires outcome =>
      obtain ⟨first, clock, last, rfl, before, after⟩ := ih one
      exact ⟨.fires outcome :: first, clock, last, rfl, before, after⟩

/-- From `s` to `s'` the transaction of the session was flushed. -/
structure Flushes (s s' : CollectionSession) : Prop where
  transaction : s'.transaction =
    { newTransaction s.host s.port s.srcid with clientInfos := s.transaction.clientInfos }
  flushed : s'.flushed = s.flushed ++ [s.transaction]
  source : s'.host = s.host ∧ s'.port = s.port ∧ s'.srcid = s.srcid
  dirty : s.dirty = true
  clean : s'.dirty = false

theorem flush_cases (s : CollectionSession) :
    Collects [] s (s.flush factory) ∧ s.dirty = false ∨ Flushes s (s.flush factory) := by
  by_cases dirty : s.dirty = true
  · rw [flush_dirty factory dirty]
    exact Or.inr ⟨rfl, rfl, ⟨rfl, rfl, rfl⟩, dirty, rfl⟩
  · rw [flush_clean factory dirty]
    exact Or.inl ⟨⟨rfl, rfl, by simp, rfl, rfl, rfl⟩, by simpa using dirty⟩

theorem flushSafely_cases (clock : Clock) (s : CollectionSession) :
    Collects [] s (s.flushSafely cfg factory clock) ∨
      Flushes s (s.flushSafely cfg factory clock) := by
  have flushed : Collects [] s (s.flush factory) ∨ Flushes s (s.flush factory) :=
    (flush_cases factory s).imp And.left id
  unfold flushSafely
  split
  · exact flushed
  · split
    · exact flushed
    · exact Or.inl ⟨rfl, rfl, by simp, rfl, rfl, rfl⟩

end Receive

section Groups

variable (host : String) (port srcid : Nat) (infos : Py.Dict String String)

theorem groupTransaction_concat (initial : Bool) (group : List UploadRecord) (r : UploadRecord) :
    groupTransaction host port srcid infos initial (group ++ [r]) =
      r.calls.foldl Transaction.collect (groupTransaction host port srcid infos initial group) := by
  simp [groupTransaction]

/-- What the messages about a record leave alone. -/
structure SameFrame (t t' : Transaction) : Prop where
  host : t'.host = t.host
  port : t'.port = t.port
  connected : t'.connected = t.connected
  initial : t'.initial = t.initial
  clientInfos : t'.clientInfos = t.clientInfos
  recordsToDelete : t'.recordsToDelete = t.recordsToDelete

theorem SameFrame.trans {t t' t'' : Transaction} (first : SameFrame t t')
    (second : SameFrame t' t'') : SameFrame t t'' :=
  ⟨second.host.trans first.host, second.port.trans first.port,
    second.connected.trans first.connected, second.initial.trans first.initial,
    second.clientInfos.trans first.clientInfos,
    second.recordsToDelete.trans first.recordsToDelete⟩

theorem foldl_collect_sameFrame (r : UploadRecord) (t : Transaction) :
    SameFrame t (r.calls.foldl Transaction.collect t) := by
  have items : ∀ (items : List RecordItem) (t : Transaction),
      SameFrame t ((items.map (RecordItem.call r.recordId)).foldl Transaction.collect t) := by
    intro items
    induction items with
    | nil => exact fun _ => ⟨rfl, rfl, rfl, rfl, rfl, rfl⟩
    | cons item rest ih =>
      intro t
      have head : SameFrame t (t.collect (item.call r.recordId)) := by
        cases item <;> exact ⟨rfl, rfl, rfl, rfl, rfl, rfl⟩
      exact head.trans (ih _)
  have adding : SameFrame t (t.addRecord r.recordId r.recordType r.recordName) :=
    ⟨rfl, rfl, rfl, rfl, rfl, rfl⟩
  exact adding.trans (items r.items _)

theorem groupTransaction_sameFrame (initial : Bool) (group : List UploadRecord) :
    SameFrame { newTransaction host port srcid with initial, clientInfos := infos }
      (groupTransaction host port srcid infos initial group) := by
  induction group using List.reverseRecOn with
  | nil => exact ⟨rfl, rfl, rfl, rfl, rfl, rfl⟩
  | append_singleton group r ih =>
    rw [groupTransaction_concat]
    exact ih.trans (foldl_collect_sameFrame r _)

/-- A transaction that holds exactly what the calls say about the records. -/
structure HoldsGroup (group : List UploadRecord) (calls : List SessionCall) (t : Transaction) :
    Prop where
  records : t.recordsToAdd.entries = group.map fun r => (r.recordId, r.recordName, r.recordType)
  complete : Complete calls t

theorem HoldsGroup.items {group : List UploadRecord} {recordId : Nat}
    (known : recordId ∈ group.map UploadRecord.recordId) (items : List RecordItem)
    {calls : List SessionCall} {t : Transaction} (holds : HoldsGroup group calls t) :
    HoldsGroup group (calls ++ items.map (RecordItem.call recordId))
      ((items.map (RecordItem.call recordId)).foldl Transaction.collect t) := by
  induction items generalizing calls t with
  | nil => simpa using holds
  | cons item rest ih =>
    have listed : recordId ∈ t.recordsToAdd.keys := by
      rw [Py.Dict.keys, holds.records, List.map_map]
      exact known
    have next : HoldsGroup group (calls ++ [item.call recordId])
        (t.collect (item.call recordId)) := by
      cases item with
      | addAlias recordName => exact ⟨holds.records, holds.complete.addAlias recordName listed⟩
      | recInfo key value => exact ⟨holds.records, holds.complete.recInfo key value listed⟩
    simpa using ih next

theorem aliasesOf_other {r : UploadRecord} {recordId : Nat} (other : r.recordId ≠ recordId) :
    aliasesOf recordId r.calls = [] := by
  unfold aliasesOf UploadRecord.calls UploadRecord.itemCalls
  rw [List.filterMap_eq_nil_iff]
  intro c member
  rcases List.mem_cons.mp member with rfl | later
  · rfl
  · obtain ⟨item, -, rfl⟩ := List.mem_map.mp later
    cases item <;> simp [RecordItem.call, other]

theorem infoOf_other {r : UploadRecord} {recordId : Nat} (other : r.recordId ≠ recordId)
    (key : String) : infoOf recordId key r.calls = none := by
  unfold infoOf UploadRecord.calls UploadRecord.itemCalls
  rw [List.getLast?_eq_none_iff, List.filterMap_eq_nil_iff]
  intro c member
  rcases List.mem_cons.mp member with rfl | later
  · rfl
  · obtain ⟨item, -, rfl⟩ := List.mem_map.mp later
    cases item <;> simp [RecordItem.call, other]

/-- The calls of a group say nothing about records outside of it. -/
theorem group_silent {group : List UploadRecord} {recordId : Nat}
    (outside : recordId ∉ group.map UploadRecord.recordId) :
    aliasesOf recordId (group.flatMap UploadRecord.calls) = [] ∧
      ∀ key, infoOf recordId key (group.flatMap UploadRecord.calls) = none := by
  induction group with
  | nil => exact ⟨rfl, fun _ => rfl⟩
  | cons r rest ih =>
    simp only [List.map_cons, List.mem_cons, not_or] at outside
    obtain ⟨noAliases, noInfos⟩ := ih outside.2
    have other : r.recordId ≠ recordId := fun same => outside.1 same.symm
    constructor
    · rw [List.flatMap_cons, aliasesOf_append, aliasesOf_other other, noAliases]
      rfl
    · intro key
      rw [List.flatMap_cons, infoOf_append, infoOf_other other, noInfos key]
      rfl

/-- What the calls of a group say about one of its records is what its own calls say. -/
theorem group_speaks {group : List UploadRecord} (nodup : (group.map UploadRecord.recordId).Nodup)
    {r : UploadRecord} (member : r ∈ group) :
    aliasesOf r.recordId (group.flatMap UploadRecord.calls) = r.aliases ∧
      ∀ key, infoOf r.recordId key (group.flatMap UploadRecord.calls) = r.info key := by
  induction group with
  | nil => cases member
  | cons first rest ih =>
    obtain ⟨fresh, restNodup⟩ := List.nodup_cons.mp nodup
    rcases List.mem_cons.mp member with rfl | later
    · obtain ⟨noAliases, noInfos⟩ := group_silent fresh
      constructor
      · rw [List.flatMap_cons, aliasesOf_append, noAliases, List.append_nil]
        rfl
      · intro key
        rw [List.flatMap_cons, infoOf_append, noInfos key, Option.none_or]
        rfl
    · have other : first.recordId ≠ r.recordId := by
        intro same
        apply fresh
        rw [same]
        exact List.mem_map_of_mem later
      obtain ⟨aliases, info⟩ := ih restNodup later
      constructor
      · rw [List.flatMap_cons, aliasesOf_append, aliasesOf_other other, List.nil_append, aliases]
      · intro key
        rw [List.flatMap_cons, infoOf_append, infoOf_other other, Option.or_none, info key]

theorem groupTransaction_holds (initial : Bool) {group : List UploadRecord}
    (nodup : (group.map UploadRecord.recordId).Nodup) :
    HoldsGroup group (group.flatMap UploadRecord.calls)
      (groupTransaction host port srcid infos initial group) := by
  induction group using List.reverseRecOn with
  | nil => exact ⟨rfl, Complete.empty _ rfl rfl rfl⟩
  | append_singleton group r ih =>
    rw [List.map_append, List.nodup_append] at nodup
    obtain ⟨groupNodup, -, apart⟩ := nodup
    have holds := ih groupNodup
    rw [groupTransaction_concat]
    generalize groupTransaction host port srcid infos initial group = t at holds
    have outside : r.recordId ∉ group.map UploadRecord.recordId :=
      fun inside => apart _ inside r.recordId (by simp) rfl
    have fresh : r.recordId ∉ t.recordsToAdd.keys := by
      rw [Py.Dict.keys, holds.records, List.map_map]
      exact outside
    obtain ⟨noAliases, noInfos⟩ := group_silent outside
    have added : HoldsGroup (group ++ [r])
        (group.flatMap UploadRecord.calls ++ [.addRecord r.recordId r.recordType r.recordName])
        (t.addRecord r.recordId r.recordType r.recordName) := by
      constructor
      · rw [Transaction.addRecord, Py.Dict.entries_set_of_not_mem _ _ fresh, holds.records]
        simp
      · exact holds.complete.addRecord r.recordType r.recordName fresh noAliases noInfos
    have listed : r.recordId ∈ (group ++ [r]).map UploadRecord.recordId := by simp
    have all := added.items listed r.items
    simpa [UploadRecord.calls, UploadRecord.itemCalls, Transaction.collect] using all

theorem groupTransactions_concat (groups : List (List UploadRecord)) (group : List UploadRecord) :
    groupTransactions host port srcid infos (groups ++ [group]) =
      groupTransactions host port srcid infos groups ++
        [groupTransaction host port srcid infos groups.isEmpty group] := by
  cases groups with
  | nil => rfl
  | cons first rest => simp [groupTransactions]

end Groups

/-- A session that has flushed the groups and is collecting one more. -/
structure Gathering (u : Upload) (host : String) (port srcid : Nat)
    (groups : List (List UploadRecord)) (current : List UploadRecord) (s : CollectionSession) :
    Prop where
  transaction : s.transaction =
    groupTransaction host port srcid u.clientInfos groups.isEmpty current
  flushed : s.flushed = groupTransactions host port srcid u.clientInfos groups
  source : s.host = host ∧ s.port = port ∧ s.srcid = srcid
  clean : s.dirty = false ↔ groups = [] ∧ current = [] ∧ u.infos = []
  started : groups = [] ∨ current ≠ []
  filled : ∀ group ∈ groups.tail, group ≠ []

namespace Gathering

variable {u : Upload} {host : String} {port srcid : Nat} {groups : List (List UploadRecord)}
  {current : List UploadRecord} {s s' : CollectionSession}

theorem tail_concat_filled {group : List UploadRecord} (filled : ∀ g ∈ groups.tail, g ≠ [])
    (started : groups = [] ∨ group ≠ []) : ∀ g ∈ (groups ++ [group]).tail, g ≠ [] := by
  cases groups with
  | nil => simp
  | cons first rest =>
    intro g member
    rcases List.mem_append.mp member with old | last
    · exact filled g old
    · rw [List.mem_singleton.mp last]
      exact started.resolve_left (by simp)

theorem congr (gathering : Gathering u host port srcid groups current s)
    (collects : Collects [] s s') : Gathering u host port srcid groups current s' where
  transaction := collects.transaction.trans gathering.transaction
  flushed := collects.flushed.trans gathering.flushed
  source := by
    obtain ⟨sameHost, samePort, sameSrcid⟩ := collects.source
    obtain ⟨isHost, isPort, isSrcid⟩ := gathering.source
    exact ⟨sameHost.trans isHost, samePort.trans isPort, sameSrcid.trans isSrcid⟩
  clean := by
    rw [collects.dirty]
    simpa using gathering.clean
  started := gathering.started
  filled := gathering.filled

theorem join (gathering : Gathering u host port srcid groups current s)
    {group : List UploadRecord} (collects : Collects (group.flatMap UploadRecord.calls) s s') :
    Gathering u host port srcid groups (current ++ group) s' := by
  cases group with
  | nil => simpa using gathering.congr collects
  | cons r rest =>
    constructor
    · rw [collects.transaction, gathering.transaction]
      simp [groupTransaction]
    · exact collects.flushed.trans gathering.flushed
    · obtain ⟨sameHost, samePort, sameSrcid⟩ := collects.source
      obtain ⟨isHost, isPort, isSrcid⟩ := gathering.source
      exact ⟨sameHost.trans isHost, samePort.trans isPort, sameSrcid.trans isSrcid⟩
    · rw [collects.dirty]
      simp [UploadRecord.calls]
    · exact Or.inr (by simp)
    · exact gathering.filled

theorem start (gathering : Gathering u host port srcid groups current s)
    {group : List UploadRecord} (nonempty : group ≠ []) {flushed : CollectionSession}
    (flush : Flushes s flushed) (collects : Collects (group.flatMap UploadRecord.calls) flushed s') :
    Gathering u host port srcid (groups ++ [current]) group s' where
  transaction := by
    obtain ⟨rfl, rfl, rfl⟩ := gathering.source
    have later : (groups ++ [current]).isEmpty = false := by simp
    rw [collects.transaction, flush.transaction, gathering.transaction,
      (groupTransaction_sameFrame _ _ _ _ _ _).clientInfos, later]
    simp [groupTransaction, newTransaction]
  flushed := by
    rw [collects.flushed, flush.flushed, gathering.flushed, gathering.transaction,
      groupTransactions_concat]
  source := by
    obtain ⟨hostStays, portStays, srcidStays⟩ := flush.source
    obtain ⟨sameHost, samePort, sameSrcid⟩ := collects.source
    obtain ⟨isHost, isPort, isSrcid⟩ := gathering.source
    exact ⟨(sameHost.trans hostStays).trans isHost, (samePort.trans portStays).trans isPort,
      (sameSrcid.trans srcidStays).trans isSrcid⟩
  clean := by
    obtain ⟨r, rest, rfl⟩ := List.exists_cons_of_ne_nil nonempty
    rw [collects.dirty]
    simp [UploadRecord.calls]
  started := Or.inr nonempty
  filled := tail_concat_filled gathering.filled gathering.started

end Gathering

section Upload

variable (cfg : SessionConfig) (factory : Factory) {u : Upload} {host : String} {port srcid : Nat}

theorem itemCalls_plain (r : UploadRecord) : ∀ c ∈ r.itemCalls, Plain c = true := by
  intro c member
  obtain ⟨item, -, rfl⟩ := List.mem_map.mp member
  cases item <;> rfl

theorem run_silent_collects {events : List CollectionSession.Event} (opened : .close ∉ events)
    (silent : received events = []) (s : CollectionSession) :
    Collects [] s (s.run cfg factory events) := by
  have all := run_plain_collects cfg factory opened (by simp [silent]) s
  rwa [silent] at all

/-- The messages about one record: it joins the group or starts the next one. -/
theorem run_record {events : List CollectionSession.Event} (opened : .close ∉ events)
    {r : UploadRecord} (messages : received events = r.calls) {s : CollectionSession}
    {groups : List (List UploadRecord)} {current : List UploadRecord}
    (gathering : Gathering u host port srcid groups current s) :
    ∃ groups' current', groups'.flatten ++ current' = groups.flatten ++ (current ++ [r]) ∧
      Gathering u host port srcid groups' current' (s.run cfg factory events) := by
  obtain ⟨adds, tells, rfl, add, items⟩ := received_eq_append (show received events =
    [.addRecord r.recordId r.recordType r.recordName] ++ r.itemCalls from messages)
  obtain ⟨before, clock, after, rfl, silentBefore, silentAfter⟩ := received_eq_singleton add
  simp only [List.mem_append, List.mem_cons, not_or] at opened
  obtain ⟨⟨openedBefore, -, openedAfter⟩, openedTells⟩ := opened
  rw [run_append, run_append, run_cons]
  have early := run_silent_collects cfg factory openedBefore silentBefore s
  generalize s.run cfg factory before = s₁ at early ⊢
  have ready := gathering.congr early
  -- the rest of the messages is collected after `flush_safely`
  have rest : Collects r.calls (s₁.flushSafely cfg factory clock)
      (((s₁.step cfg factory (.call clock (.addRecord r.recordId r.recordType r.recordName))).run
        cfg factory after).run cfg factory tells) := by
    have adding := update_collects cfg (s₁.flushSafely cfg factory clock) clock
      (.addRecord r.recordId r.recordType r.recordName)
    have silent := run_silent_collects cfg factory openedAfter silentAfter
      ((s₁.flushSafely cfg factory clock).update cfg clock
        (.addRecord r.recordId r.recordType r.recordName))
    have telling := run_plain_collects cfg factory openedTells
      (by rw [items]; exact itemCalls_plain r) (((s₁.flushSafely cfg factory clock).update cfg clock
        (.addRecord r.recordId r.recordType r.recordName)).run cfg factory after)
    rw [items] at telling
    exact (adding.trans silent).trans telling
  have only : [r].flatMap UploadRecord.calls = r.calls := by simp
  rw [← only] at rest
  rcases flushSafely_cases cfg factory clock s₁ with kept | flushed
  · exact ⟨groups, current ++ [r], rfl, (ready.congr kept).join rest⟩
  · exact ⟨groups ++ [current], [r], by simp, ready.start (by simp) flushed rest⟩

theorem run_records {records : List UploadRecord} {events : List CollectionSession.Event}
    (opened : .close ∉ events) (messages : received events = records.flatMap UploadRecord.calls)
    {s : CollectionSession} {groups : List (List UploadRecord)} {current : List UploadRecord}
    (gathering : Gathering u host port srcid groups current s) :
    ∃ groups' current', groups'.flatten ++ current' = groups.flatten ++ (current ++ records) ∧
      Gathering u host port srcid groups' current' (s.run cfg factory events) := by
  induction records generalizing events s groups current with
  | nil =>
    have silent := run_silent_collects cfg factory opened messages s
    exact ⟨groups, current, by simp, gathering.congr silent⟩
  | cons r rest ih =>
    obtain ⟨first, second, rfl, head, tail⟩ := received_eq_append
      (show received events = r.calls ++ rest.flatMap UploadRecord.calls from messages)
    simp only [List.mem_append, not_or] at opened
    obtain ⟨groups', current', same, next⟩ := run_record cfg factory opened.1 head gathering
    obtain ⟨groups'', current'', all, last⟩ := ih opened.2 tail next
    rw [run_append]
    refine ⟨groups'', current'', ?_, last⟩
    rw [all, ← List.append_assoc, same]
    simp

theorem run_infos {events : List CollectionSession.Event} (opened : .close ∉ events)
    (messages : received events = u.infoCalls) :
    Gathering u host port srcid [] []
      ((CollectionSession.opened host port srcid).run cfg factory events) := by
  have plain : ∀ c ∈ received events, Plain c = true := by
    intro c member
    rw [messages] at member
    obtain ⟨i, -, rfl⟩ := List.mem_map.mp member
    rfl
  have collects := run_plain_collects cfg factory opened plain
    (CollectionSession.opened host port srcid)
  rw [messages] at collects
  have collected : ∀ (l : List (String × String)) (t : Transaction),
      (l.map fun i => SessionCall.iocInfo i.1 i.2).foldl Transaction.collect t =
        { t with clientInfos := l.foldl (fun d i => d.set i.1 i.2) t.clientInfos } := by
    intro l
    induction l with
    | nil => exact fun _ => rfl
    | cons i rest ih => exact fun t => ih (t.iocInfo i.1 i.2)
  constructor
  · rw [collects.transaction, Upload.infoCalls, collected]
    rfl
  · exact collects.flushed
  · exact collects.source
  · rw [collects.dirty]
    simp [CollectionSession.opened, Upload.infoCalls]
  · exact Or.inl rfl
  · simp

/-- However a session cuts an upload, its transactions hold consecutive groups of records, each
with all that the client said about it, and all of them hold the infos of the client. -/
theorem upload_cut {events : List CollectionSession.Event} (opened : .close ∉ events)
    (messages : received events = u.calls) :
    ∃ groups, u.Cut groups ∧
      ((CollectionSession.opened host port srcid).run cfg factory events).flushed =
        groupTransactions host port srcid u.clientInfos groups := by
  obtain ⟨tells, others, rfl, infos, later⟩ := received_eq_append messages
  obtain ⟨adds, ends, rfl, records, done⟩ := received_eq_append later
  obtain ⟨before, clock, after, rfl, silentBefore, silentAfter⟩ := received_eq_singleton done
  simp only [List.mem_append, List.mem_cons, not_or] at opened
  obtain ⟨openedTells, openedAdds, openedBefore, -, openedAfter⟩ := opened
  rw [run_append, run_append, run_append, run_cons]
  have started := @run_infos cfg factory u host port srcid tells openedTells infos
  obtain ⟨groups, current, whole, gathering⟩ := run_records cfg factory openedAdds records started
  have ready := gathering.congr (run_silent_collects cfg factory openedBefore silentBefore _)
  generalize CollectionSession.run cfg factory _ before = s at ready ⊢
  have quiet := run_silent_collects cfg factory openedAfter silentAfter
    (s.step cfg factory (.call clock .done))
  rw [quiet.flushed]
  show ∃ groups, u.Cut groups ∧ (s.flush factory).flushed = _
  rcases flush_cases factory s with ⟨kept, clean⟩ | flushed
  · obtain ⟨rfl, rfl, noInfos⟩ := ready.clean.mp clean
    have noRecords : u.records = [] := by simpa using whole.symm
    refine ⟨[], ⟨by simp [noRecords], by simp, by simp [noInfos, noRecords]⟩, ?_⟩
    exact kept.flushed.trans ready.flushed
  · refine ⟨groups ++ [current], ⟨?_, ?_, ?_⟩, ?_⟩
    · simpa using whole
    · exact Gathering.tail_concat_filled ready.filled ready.started
    · refine ⟨by simp, ?_⟩
      rintro ⟨noInfos, noRecords⟩
      obtain ⟨-, rfl⟩ : groups.flatten = [] ∧ current = [] := by simpa [noRecords] using whole
      have first : groups = [] := ready.started.resolve_right (by simp)
      have clean := ready.clean.mpr ⟨first, rfl, noInfos⟩
      have dirty := flushed.dirty
      simp [clean] at dirty
    · rw [flushed.flushed, ready.flushed, ready.transaction, groupTransactions_concat]

end Upload

section Occurs

variable (factory : Factory)

def early (calls : List SessionCall) : List CollectionSession.Event := calls.map (.call {})

/-- The calls about a group of records, the first of them at the deadline. -/
def atDeadline : List UploadRecord → List CollectionSession.Event
  | [] => []
  | r :: rest =>
    .call { checked := 5 } (.addRecord r.recordId r.recordType r.recordName) ::
      early (r.itemCalls ++ rest.flatMap UploadRecord.calls)

/-- The events of a session that is to cut an upload into these groups. -/
def cutEvents (u : Upload) : List (List UploadRecord) → List CollectionSession.Event
  | [] => early u.calls
  | first :: rest =>
    early (u.infoCalls ++ first.flatMap UploadRecord.calls) ++
      (rest.flatMap atDeadline ++ [.call {} .done])

/-- Calls that may flush only when the deadline has come. -/
def Collected : SessionCall → Bool
  | .delRecord _ | .done => false
  | _ => true

/-- The deadline is five seconds after the clock's start, from the first call after a flush on. -/
def FlushSet (s : CollectionSession) : Prop := s.flushDeadline = if s.dirty then some 5 else none

theorem received_early (calls : List SessionCall) : received (early calls) = calls := by
  rw [received, early, List.filterMap_map]
  exact List.filterMap_some

theorem received_atDeadline (group : List UploadRecord) :
    received (atDeadline group) = group.flatMap UploadRecord.calls := by
  cases group with
  | nil => rfl
  | cons r rest =>
    show SessionCall.addRecord _ _ _ :: received (early _) = _
    rw [received_early, List.flatMap_cons]
    rfl

theorem close_not_mem_early (calls : List SessionCall) : .close ∉ early calls := by
  simp [early]

variable {s : CollectionSession}

theorem FlushSet.deadline (due : FlushSet s) :
    s.deadline = if s.dirty then some 5 else none := by
  rw [CollectionSession.deadline, due]
  split <;> rfl

theorem FlushSet.update (due : FlushSet s) {clock : Clock} (marked : clock.marked = 0)
    (c : SessionCall) : FlushSet (s.update { trlimit := 0 } clock c) := by
  have deadline : s.deadline.getD (clock.marked + 5) = 5 := by
    rw [due.deadline, marked]
    split <;> rfl
  exact congrArg some deadline

/-- Nothing is flushed before the deadline. -/
theorem FlushSet.flushSafely_early (due : FlushSet s) :
    s.flushSafely { trlimit := 0 } factory {} = s := by
  have waits : ¬ (s.deadline.any fun t => decide (t ≤ (0 : Int))) = true := by
    rw [due.deadline]
    split <;> simp
  simp [flushSafely, waits]

theorem early_collects {calls : List SessionCall} (collected : ∀ c ∈ calls, Collected c = true)
    (due : FlushSet s) :
    Collects calls s (s.run { trlimit := 0 } factory (early calls)) ∧
      FlushSet (s.run { trlimit := 0 } factory (early calls)) := by
  induction calls generalizing s with
  | nil => exact ⟨⟨rfl, rfl, by simp [early], rfl, rfl, rfl⟩, due⟩
  | cons c rest ih =>
    have head : s.call { trlimit := 0 } factory {} c = s.update { trlimit := 0 } {} c := by
      have here := collected c (by simp)
      cases c with
      | addRecord recordId recordType recordName =>
        rw [CollectionSession.call, due.flushSafely_early]
      | addAlias recordId recordName => rfl
      | recInfo recordId key value => rfl
      | iocInfo key value => rfl
      | delRecord recordId => cases here
      | done => cases here
    obtain ⟨collects, after⟩ := ih (fun d member => collected d (by simp [member]))
      (due.update rfl c : FlushSet (s.update { trlimit := 0 } {} c))
    have whole : s.run { trlimit := 0 } factory (early (c :: rest)) =
        (s.update { trlimit := 0 } {} c).run { trlimit := 0 } factory (early rest) :=
      congrArg (fun s => s.run { trlimit := 0 } factory (early rest)) head
    rw [whole]
    exact ⟨(update_collects { trlimit := 0 } s {} c).trans collects, after⟩

theorem calls_collected (group : List UploadRecord) :
    ∀ c ∈ group.flatMap UploadRecord.calls, Collected c = true := by
  intro c member
  obtain ⟨r, -, inside⟩ := List.mem_flatMap.mp member
  have parts : c = .addRecord r.recordId r.recordType r.recordName ∨ c ∈ r.itemCalls :=
    List.mem_cons.mp inside
  cases parts with
  | inl adds => rw [adds]; rfl
  | inr tells =>
    obtain ⟨item, -, rfl⟩ := List.mem_map.mp tells
    cases item <;> rfl

variable {u : Upload} {host : String} {port srcid : Nat} {groups : List (List UploadRecord)}
  {current : List UploadRecord}

theorem Gathering.atDeadline (gathering : Gathering u host port srcid groups current s)
    (due : FlushSet s) (started : current ≠ []) {group : List UploadRecord} (filled : group ≠ []) :
    Gathering u host port srcid (groups ++ [current]) group
        (s.run { trlimit := 0 } factory (atDeadline group)) ∧
      FlushSet (s.run { trlimit := 0 } factory (atDeadline group)) := by
  obtain ⟨r, rest, rfl⟩ := List.exists_cons_of_ne_nil filled
  have dirty : s.dirty = true := by
    by_contra clean
    exact started (gathering.clean.mp (by simpa using clean)).2.1
  have comes : s.flushSafely { trlimit := 0 } factory { checked := 5 } = s.flush factory := by
    have due : (s.deadline.any fun t => decide (t ≤ (5 : Int))) = true := by
      rw [due.deadline, dirty]
      rfl
    simp [flushSafely, due]
  have flush : Flushes s (s.flush factory) := by
    rcases flush_cases factory s with ⟨-, clean⟩ | flushes
    · rw [dirty] at clean
      cases clean
    · exact flushes
  have fresh : FlushSet (s.flush factory) := by
    rw [flush_dirty factory dirty]
    exact rfl
  have adds := update_collects { trlimit := 0 } (s.flush factory) { checked := 5 }
    (.addRecord r.recordId r.recordType r.recordName)
  have collected : ∀ c ∈ r.itemCalls ++ rest.flatMap UploadRecord.calls, Collected c = true := by
    intro c member
    refine calls_collected (r :: rest) c ?_
    rw [List.flatMap_cons, UploadRecord.calls, List.cons_append]
    exact List.mem_cons_of_mem _ member
  obtain ⟨tells, after⟩ := early_collects factory collected (fresh.update rfl
    (.addRecord r.recordId r.recordType r.recordName) :
      FlushSet ((s.flush factory).update { trlimit := 0 } { checked := 5 } _))
  have ran : s.run { trlimit := 0 } factory (Recast.atDeadline (r :: rest)) =
      ((s.flush factory).update { trlimit := 0 } { checked := 5 }
        (.addRecord r.recordId r.recordType r.recordName)).run { trlimit := 0 } factory
          (early (r.itemCalls ++ rest.flatMap UploadRecord.calls)) := by
    rw [Recast.atDeadline, run_cons, CollectionSession.step, CollectionSession.call, comes]
  have whole : Collects ((r :: rest).flatMap UploadRecord.calls) (s.flush factory)
      (((s.flush factory).update { trlimit := 0 } { checked := 5 }
        (.addRecord r.recordId r.recordType r.recordName)).run { trlimit := 0 } factory
          (early (r.itemCalls ++ rest.flatMap UploadRecord.calls))) := by
    simpa [UploadRecord.calls] using adds.trans tells
  rw [ran]
  exact ⟨gathering.start (by simp) flush whole, after⟩

theorem run_atDeadline {later : List (List UploadRecord)} (filled : ∀ group ∈ later, group ≠ [])
    (gathering : Gathering u host port srcid groups current s) (due : FlushSet s)
    (started : current ≠ []) :
    ∃ before last, before ++ [last] = groups ++ current :: later ∧ last ≠ [] ∧
      Gathering u host port srcid before last
        (s.run { trlimit := 0 } factory (later.flatMap atDeadline)) := by
  induction later generalizing groups current s with
  | nil => exact ⟨groups, current, rfl, started, gathering⟩
  | cons group rest ih =>
    have nonempty := filled group (by simp)
    obtain ⟨next, after⟩ := gathering.atDeadline factory due started nonempty
    obtain ⟨before, last, same, some, done⟩ := ih (fun g member => filled g (by simp [member])) next
      after nonempty
    rw [List.flatMap_cons, run_append]
    exact ⟨before, last, by simp [same], some, done⟩

/-- Any groups of the records, in order and none of them empty, are how some session cuts the
upload. -/
theorem cut_occurs {groups : List (List UploadRecord)} (whole : groups.flatten = u.records)
    (filled : ∀ group ∈ groups, group ≠ []) (nonempty : groups ≠ []) :
    .close ∉ cutEvents u groups ∧ received (cutEvents u groups) = u.calls ∧
      ((CollectionSession.opened host port srcid).run { trlimit := 0 } factory
        (cutEvents u groups)).flushed = groupTransactions host port srcid u.clientInfos groups := by
  obtain ⟨first, later, rfl⟩ := List.exists_cons_of_ne_nil nonempty
  refine ⟨?_, ?_, ?_⟩
  · have apart (group : List UploadRecord) : CollectionSession.Event.close ∉ atDeadline group := by
      cases group with
      | nil => simp [atDeadline]
      | cons r rest => simp [atDeadline, early]
    simp [cutEvents, close_not_mem_early, apart]
  · have calls : later.flatMap (fun group => group.flatMap UploadRecord.calls) =
        later.flatten.flatMap UploadRecord.calls := by
      rw [List.flatten_eq_flatMap, List.flatMap_assoc]
      rfl
    have told : received (later.flatMap atDeadline) = later.flatten.flatMap UploadRecord.calls := by
      rw [← calls, received, List.filterMap_flatMap]
      exact List.flatMap_congr fun group _ => received_atDeadline group
    rw [cutEvents, received_append, received_append, received_early, told, Upload.calls, ← whole,
      List.flatten_cons, List.flatMap_append]
    simp [received]
  · have started := @run_infos { trlimit := 0 } factory u host port srcid (early u.infoCalls)
      (close_not_mem_early _) (received_early _)
    have told : ∀ c ∈ u.infoCalls, Collected c = true := by
      intro c member
      obtain ⟨i, -, rfl⟩ := List.mem_map.mp member
      rfl
    obtain ⟨-, due⟩ := early_collects factory told
      (rfl : FlushSet (CollectionSession.opened host port srcid))
    obtain ⟨collects, after⟩ := early_collects factory (calls_collected first) due
    have rest : ∀ group ∈ later, group ≠ [] := fun g member => filled g (List.mem_cons_of_mem _ member)
    obtain ⟨before, last, same, some, gathering⟩ := run_atDeadline factory rest
      (started.join collects) after (filled first (by simp))
    have split : early (u.infoCalls ++ first.flatMap UploadRecord.calls) =
        early u.infoCalls ++ early (first.flatMap UploadRecord.calls) := List.map_append
    rw [cutEvents, split, run_append, run_append, run_append]
    generalize CollectionSession.run { trlimit := 0 } factory _ (later.flatMap atDeadline) = s
      at gathering ⊢
    show (s.flush factory).flushed = _
    have all : groupTransactions host port srcid u.clientInfos (first :: later) =
        groupTransactions host port srcid u.clientInfos (before ++ [last]) := by
      rw [same]
      rfl
    rcases flush_cases factory s with ⟨-, clean⟩ | flushes
    · exact absurd (gathering.clean.mp clean).2.1 some
    · rw [flushes.flushed, gathering.flushed, gathering.transaction, all, groupTransactions_concat]

end Occurs

end Recsync.Recast
