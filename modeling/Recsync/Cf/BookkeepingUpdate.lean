import Recsync.Cf.BookkeepingInvariant

set_option autoImplicit false

namespace Recsync.Cf

open Py (Program)
open Ownership (arrive arrive_idem)

namespace Processor

/-- Track a list of names under an IOC that is registered. -/
def trackAll (p : Processor) (iocid : String) : List String → Processor
  | [] => p
  | name :: rest =>
    match p.iocs iocid with
    | none => p
    | some info => (p.track iocid name info).trackAll iocid rest

def untrackAll (p : Processor) (iocid : String) (names : List String) : Processor :=
  names.foldl (fun q name => q.untrack iocid name) p

/-- What a deletion list of record ids leaves behind: an empty entry under each id. -/
def lookUpIds (p : Processor) (records : List Nat) : Processor :=
  records.foldl (fun q r => q.setIds (.id r) (some (q.ids (.id r)))) p

theorem trackAll_cons {p : Processor} {iocid : String} {info : IOCInfo}
    (known : p.iocs iocid = some info) (name : String) (rest : List String) :
    p.trackAll iocid (name :: rest) = (p.track iocid name info).trackAll iocid rest := by
  simp only [trackAll, known]

/-- Induction over the registration loop of an IOC that is registered. -/
theorem trackAll_induction {motive : Processor → Prop} {iocid : String}
    (step : ∀ (p : Processor) (info : IOCInfo) (name : String), p.iocs iocid = some info →
      motive p → motive (p.track iocid name info))
    (names : List String) {p : Processor} (start : motive p) : motive (p.trackAll iocid names) := by
  induction names generalizing p with
  | nil => exact start
  | cons name rest ih =>
    unfold trackAll
    cases known : p.iocs iocid with
    | none => exact start
    | some info => exact ih (step p info name known start)

theorem ids_trackAll {p : Processor} {iocid : String} (known : (p.iocs iocid).isSome)
    (names : List String) (k : Key) :
    (p.trackAll iocid names).ids k =
      if k ∈ names.map Key.name then arrive iocid (p.ids k) else p.ids k := by
  induction names generalizing p with
  | nil => rfl
  | cons name rest ih =>
    obtain ⟨info, found⟩ := Option.isSome_iff_exists.mp known
    have still : ((p.track iocid name info).iocs iocid).isSome := by simp [iocs_track]
    rw [trackAll_cons found, ih still, ids_track]
    by_cases same : k = .name name <;> by_cases later : k ∈ rest.map Key.name <;>
      simp [same, later, arrive_idem]

end Processor

/-- The names that `update_ioc_infos` registers, in its order. -/
def touched (cfg : CFConfig) (records : Py.Dict String RecordInfo) : List String :=
  records.entries.flatMap fun e => e.1 :: if cfg.aliasEnabled then e.2.aliases else []

theorem forM_registerChannel {p : Processor} {iocid : String} (known : (p.iocs iocid).isSome)
    (names : List String) :
    names.forM (registerChannel iocid) p = .ok ⟨⟩ (p.trackAll iocid names) := by
  induction names generalizing p with
  | nil => rfl
  | cons name rest ih =>
    obtain ⟨info, found⟩ := Option.isSome_iff_exists.mp known
    have still : ((p.track iocid name info).iocs iocid).isSome := by
      simp [Processor.iocs_track]
    rw [Program.forM_cons_of_ok (registerChannel_eq found name)]
    simp only [Processor.trackAll, found]
    exact ih still

theorem registerRecords_flat (cfg : CFConfig) (iocid : String)
    (entries : List (String × RecordInfo)) :
    (entries.forM fun e => do
        registerChannel iocid e.1
        if cfg.aliasEnabled then registerAliases e.2.aliases iocid) =
      (entries.flatMap fun e => e.1 :: if cfg.aliasEnabled then e.2.aliases else []).forM
        (registerChannel iocid) := by
  induction entries with
  | nil => rfl
  | cons e rest ih =>
    simp only [List.forM_eq_forM] at ih ⊢
    rw [List.forM_cons, ih, List.flatMap_cons, List.forM_append, List.forM_cons, bind_assoc]
    cases cfg.aliasEnabled <;> simp [registerAliases]

/-- The record loop registers exactly the touched names. -/
theorem registerRecords_eq (cfg : CFConfig) {p : Processor} {iocid : String}
    (known : (p.iocs iocid).isSome) (records : Py.Dict String RecordInfo) :
    registerRecords cfg iocid records p = .ok ⟨⟩ (p.trackAll iocid (touched cfg records)) := by
  unfold registerRecords touched
  rw [registerRecords_flat]
  exact forM_registerChannel known _

theorem deleteRecord_id (cfg : CFConfig) {p : Processor} (iocid : String)
    (records : Py.Dict String RecordInfo) {r : Nat} (idle : p.ids (.id r) = []) :
    deleteRecord cfg iocid records (.id r) p =
      .ok ⟨⟩ (p.setIds (.id r) (some (p.ids (.id r)))) := by
  have absent : iocid ∉ (p.setIds (.id r) (some (p.ids (.id r)))).ids (.id r) := by simp [idle]
  rw [deleteRecord, Program.modify_bind, Program.get_bind, if_neg absent]
  rfl

theorem forM_deleteRecord_id (cfg : CFConfig) {p : Processor} (iocid : String)
    (records : Py.Dict String RecordInfo) {ids : List Nat} (idle : ∀ r ∈ ids, p.ids (.id r) = []) :
    (ids.map Key.id).forM (deleteRecord cfg iocid records) p = .ok ⟨⟩ (p.lookUpIds ids) := by
  induction ids generalizing p with
  | nil => rfl
  | cons r rest ih =>
    have still : ∀ s ∈ rest, (p.setIds (.id r) (some (p.ids (.id r)))).ids (.id s) = [] := by
      intro s member
      by_cases same : (Key.id s) = .id r <;> simp [same, idle, member]
    rw [List.map_cons,
      Program.forM_cons_of_ok (deleteRecord_id cfg iocid records (idle r (by simp)))]
    exact ih still

theorem deleteRecord_name (cfg : CFConfig) {p : Processor} {iocid n : String}
    (tracked : iocid ∈ p.ids (.name n)) :
    deleteRecord cfg iocid ∅ (.name n) p = .ok ⟨⟩ (p.untrack iocid n) := by
  rw [deleteRecord, Program.modify_bind, Processor.setIds_self tracked, Program.get_bind,
    if_pos tracked, Program.bind_of_ok (removeChannel_eq tracked)]
  cases cfg.aliasEnabled <;> rfl

theorem removal_loop {body : String → Program Processor PUnit} {iocid : String}
    (step : ∀ (p : Processor) (n : String), iocid ∈ p.ids (.name n) →
      body n p = .ok ⟨⟩ (p.untrack iocid n))
    {p : Processor} {names : List String} (nodup : names.Nodup)
    (tracked : ∀ n ∈ names, iocid ∈ p.ids (.name n)) :
    names.forM body p = .ok ⟨⟩ (p.untrackAll iocid names) := by
  induction names generalizing p with
  | nil => rfl
  | cons n rest ih =>
    have head := step p n (tracked n (by simp))
    rw [Program.forM_cons_of_ok head]
    apply ih (List.nodup_cons.mp nodup).2
    intro other member
    have different : other ≠ n := fun same => (List.nodup_cons.mp nodup).1 (same ▸ member)
    rw [Processor.ids_untrack, if_neg (by simpa using different)]
    exact tracked other (by simp [member])

theorem setOrder_nodup (env : Env) (s : Py.Set String) : (env.setOrder s.elems).Nodup :=
  (env.setOrder_perm s.elems).nodup_iff.mpr s.nodup

theorem mem_setOrder (env : Env) {s : Py.Set String} {n : String} :
    n ∈ env.setOrder s.elems ↔ n ∈ s :=
  (env.setOrder_perm s.elems).mem_iff

theorem setOrder_tracked (env : Env) {p : Processor} {iocid : String}
    (tracked : ∀ n ∈ p.channels iocid, iocid ∈ p.ids (.name n)) :
    ∀ n ∈ env.setOrder (p.channels iocid).elems, iocid ∈ p.ids (.name n) :=
  fun n member => tracked n ((mem_setOrder env).mp member)

/-- The disconnect transaction of a session: nothing but the news that it is gone. -/
structure Transaction.IsDisconnect (t : Transaction) : Prop where
  gone : t.connected = false
  notInitial : t.initial = false
  noRecords : t.recordsToAdd.entries = []
  noDeletions : t.recordsToDelete = []

theorem recordsOf_disconnect (cfg : CFConfig) (setup : Setup) (env : Env) {t : Transaction}
    (disconnect : t.IsDisconnect) : recordsOf cfg setup env t = ∅ := by
  simp [recordsOf, transactionToRecordInfos, disconnect.noRecords, recordInfoByName]

/-- The processor in which the record loop of a connected transaction starts. -/
def registerInitial (cfg : CFConfig) (env : Env) (t : Transaction) (p : Processor) : Processor :=
  if t.initial then p.setIoc t.iocid (some (iocInfoOf cfg env t)) else p

theorem updateIocInfos_of_loop (cfg : CFConfig) (env : Env) {t : Transaction} {p q : Processor}
    {records : Py.Dict String RecordInfo} (connected : t.connected = true)
    (loop : registerRecords cfg t.iocid records (registerInitial cfg env t p) = .ok ⟨⟩ q)
    (quiet : ∀ r ∈ t.recordsToDelete, q.ids (.id r) = []) :
    updateIocInfos cfg env t (iocInfoOf cfg env t) records p =
      .ok (t.recordsToDelete.map Key.id) (q.lookUpIds t.recordsToDelete) := by
  have deletions := forM_deleteRecord_id cfg t.iocid records quiet
  have keys : keysToDelete env t t.iocid (registerInitial cfg env t p) =
      t.recordsToDelete.map Key.id := by
    simp [keysToDelete, connected]
  by_cases first : t.initial = true
  · simp only [registerInitial, first, if_true] at loop keys ⊢
    simp only [updateIocInfos, first, if_true, iocInfoOf_id]
    rw [Program.modify_bind, Program.get_bind, Program.bind_of_ok loop, keys,
      Program.bind_of_ok deletions]
    rfl
  · simp only [registerInitial, first, Bool.false_eq_true, if_false] at loop keys ⊢
    simp only [updateIocInfos, first, Bool.false_eq_true, if_false, iocInfoOf_id]
    rw [Program.get_bind, Program.bind_of_ok loop, keys, Program.bind_of_ok deletions]
    rfl

theorem updateIocInfos_connected (cfg : CFConfig) (env : Env) {t : Transaction} {p : Processor}
    (records : Py.Dict String RecordInfo) (connected : t.connected = true)
    (known : t.initial = true ∨ (p.iocs t.iocid).isSome)
    (idle : ∀ r ∈ t.recordsToDelete, p.ids (.id r) = []) :
    updateIocInfos cfg env t (iocInfoOf cfg env t) records p =
      .ok (t.recordsToDelete.map Key.id)
        (((registerInitial cfg env t p).trackAll t.iocid (touched cfg records)).lookUpIds
          t.recordsToDelete) := by
  have registered : ((registerInitial cfg env t p).iocs t.iocid).isSome := by
    unfold registerInitial
    split
    · simp
    · rename_i later
      exact known.resolve_left later
  refine updateIocInfos_of_loop cfg env connected (registerRecords_eq cfg registered records) ?_
  intro r member
  rw [Processor.ids_trackAll registered, if_neg (by simp)]
  unfold registerInitial
  split <;> simpa using idle r member

/-- Without records a connected transaction touches no name, registered or not. -/
theorem updateIocInfos_empty (cfg : CFConfig) (env : Env) {t : Transaction} {p : Processor}
    (connected : t.connected = true) (idle : ∀ r ∈ t.recordsToDelete, p.ids (.id r) = []) :
    updateIocInfos cfg env t (iocInfoOf cfg env t) ∅ p =
      .ok (t.recordsToDelete.map Key.id)
        ((registerInitial cfg env t p).lookUpIds t.recordsToDelete) := by
  refine updateIocInfos_of_loop cfg env connected rfl ?_
  intro r member
  unfold registerInitial
  split <;> simpa using idle r member

theorem updateIocInfos_disconnect (cfg : CFConfig) (env : Env) {t : Transaction} {p : Processor}
    (ioc : IOCInfo) (disconnect : t.IsDisconnect)
    (tracked : ∀ n ∈ p.channels ioc.id, ioc.id ∈ p.ids (.name n)) :
    updateIocInfos cfg env t ioc ∅ p =
      .ok ((env.setOrder (p.channels ioc.id).elems).map Key.name)
        (p.untrackAll ioc.id (env.setOrder (p.channels ioc.id).elems)) := by
  have keys : keysToDelete env t ioc.id p =
      (env.setOrder (p.channels ioc.id).elems).map Key.name := by
    simp [keysToDelete, disconnect.gone, disconnect.noDeletions]
  have records : registerRecords cfg ioc.id ∅ p = .ok ⟨⟩ p := rfl
  have loop : ((env.setOrder (p.channels ioc.id).elems).map Key.name).forM
      (deleteRecord cfg ioc.id ∅) p =
        .ok ⟨⟩ (p.untrackAll ioc.id (env.setOrder (p.channels ioc.id).elems)) := by
    rw [List.forM_eq_forM, List.forM_map, ← List.forM_eq_forM]
    exact removal_loop (fun q n member => deleteRecord_name cfg member)
      (setOrder_nodup env _) (setOrder_tracked env tracked)
  simp only [updateIocInfos, disconnect.notInitial, Bool.false_eq_true, if_false]
  rw [Program.get_bind, Program.bind_of_ok records, keys, Program.bind_of_ok loop]
  rfl

theorem evictIoc_eq (env : Env) {p : Processor} {iocid : String}
    (tracked : ∀ n ∈ p.channels iocid, iocid ∈ p.ids (.name n)) :
    evictIoc env iocid p =
      .ok ⟨⟩ (((p.untrackAll iocid (env.setOrder (p.channels iocid).elems)).setIoc iocid
        none).setChannels iocid none) := by
  have loop := removal_loop (fun q n member => (removeChannel_eq member :
    (fun ch => removeChannel (.name ch) iocid) n q = _)) (setOrder_nodup env _)
    (setOrder_tracked env tracked)
  rw [evictIoc, Program.get_bind, Program.bind_of_ok loop]
  rfl

theorem Tracking.setIoc {p : Processor} (tracking : Tracking p) (i : String)
    (info : Option IOCInfo) : Tracking (p.setIoc i info) :=
  ⟨tracking.nonempty, tracking.nodup, tracking.linked, tracking.idle⟩

theorem Tracking.trackAll {p : Processor} (tracking : Tracking p) (i : String)
    (names : List String) : Tracking (p.trackAll i names) :=
  Processor.trackAll_induction (fun _ info name _ ok => ok.track i name info) names tracking

theorem Tracking.untrackAll {p : Processor} (tracking : Tracking p) (i : String)
    (names : List String) : Tracking (p.untrackAll i names) := by
  induction names generalizing p with
  | nil => exact tracking
  | cons name rest ih => exact ih (tracking.untrack i name)

theorem Tracking.lookUpIds {p : Processor} (tracking : Tracking p) (records : List Nat) :
    Tracking (p.lookUpIds records) := by
  induction records generalizing p with
  | nil => exact tracking
  | cons r rest ih =>
    apply ih
    refine ⟨?_, ?_, ?_, ?_⟩
    · intro n
      simpa using tracking.nonempty n
    · intro n
      simpa using tracking.nodup n
    · intro n i
      simpa using tracking.linked n i
    · intro s
      by_cases same : (Key.id s) = .id r <;> simp [same, tracking.idle]

namespace Processor

theorem ids_untrackAll (p : Processor) (iocid : String) {names : List String}
    (nodup : names.Nodup) (k : Key) :
    (p.untrackAll iocid names).ids k =
      if k ∈ names.map Key.name then (p.ids k).erase iocid else p.ids k := by
  induction names generalizing p with
  | nil => rfl
  | cons name rest ih =>
    have fresh := (List.nodup_cons.mp nodup).1
    have step := ih (p.untrack iocid name) (List.nodup_cons.mp nodup).2
    change ((p.untrack iocid name).untrackAll iocid rest).ids k = _
    rw [step, ids_untrack]
    by_cases same : k = .name name
    · subst same
      simp [fresh]
    · by_cases later : k ∈ rest.map Key.name <;> simp [same, later]

theorem mem_channels_untrackAll (p : Processor) (iocid j : String) (names : List String)
    (n : String) :
    n ∈ (p.untrackAll iocid names).channels j ↔ n ∈ p.channels j ∧ (j = iocid → n ∉ names) := by
  induction names generalizing p with
  | nil => simp [untrackAll]
  | cons name rest ih =>
    change n ∈ ((p.untrack iocid name).untrackAll iocid rest).channels j ↔ _
    rw [ih, channels_untrack]
    by_cases same : j = iocid
    · subst same
      simp only [if_true, Py.Set.mem_discard, true_implies, List.mem_cons, not_or]
      tauto
    · simp [same]

theorem channels_untrackAll_self (env : Env) (p : Processor) (iocid : String) :
    (p.untrackAll iocid (env.setOrder (p.channels iocid).elems)).channels iocid = ∅ := by
  apply Py.Set.eq_empty_of_forall
  intro n member
  obtain ⟨inside, outside⟩ := (mem_channels_untrackAll p iocid iocid _ n).mp member
  exact outside rfl ((mem_setOrder env).mpr inside)

end Processor

/-- Removing every channel of an IOC keeps the maps and the counters right, and never
drives its counter below zero. -/
theorem Consistent.untrackAll {p : Processor} (ok : Consistent p) (iocid : String)
    {names : List String} (nodup : names.Nodup)
    (tracked : ∀ n ∈ names, iocid ∈ p.ids (.name n)) :
    Consistent (p.untrackAll iocid names) ∧ (p.untrackAll iocid names).errorLog = p.errorLog := by
  induction names generalizing p with
  | nil => exact ⟨ok, rfl⟩
  | cons name rest ih =>
    obtain ⟨tracking, counted, absent⟩ := (consistent_iff p).mp ok
    have head := tracked name (by simp)
    have next : Consistent (p.untrack iocid name) := by
      refine (consistent_iff _).mpr
        ⟨tracking.untrack iocid name, counted.untrack tracking head, ?_⟩
      intro r
      rw [Processor.channelIocIds_untrack, if_neg (by simp)]
      exact absent r
    have rest_tracked : ∀ n ∈ rest, iocid ∈ (p.untrack iocid name).ids (.name n) := by
      intro n member
      have different : n ≠ name := fun same => (List.nodup_cons.mp nodup).1 (same ▸ member)
      rw [Processor.ids_untrack, if_neg (by simpa using different)]
      exact tracked n (by simp [member])
    obtain ⟨done, quiet⟩ := ih next (List.nodup_cons.mp nodup).2 rest_tracked
    exact ⟨done, quiet.trans (counted.errorLog_untrack tracking head)⟩

theorem Consistent.trackAll {p : Processor} (ok : Consistent p) (iocid : String)
    (names : List String) :
    Consistent (p.trackAll iocid names) ∧ (p.trackAll iocid names).errorLog = p.errorLog := by
  refine Processor.trackAll_induction
    (motive := fun q => Consistent q ∧ q.errorLog = p.errorLog) ?_ names ⟨ok, rfl⟩
  rintro q info name known ⟨consistent, quiet⟩
  obtain ⟨tracking, counted, absent⟩ := (consistent_iff q).mp consistent
  refine ⟨(consistent_iff _).mpr ⟨tracking.track iocid name info, counted.track tracking known name,
    ?_⟩, quiet⟩
  intro r
  rw [Processor.channelIocIds_track, if_neg (by simp)]
  exact absent r

/-- A new entry for an IOC without channels has the right counter: zero. -/
theorem Consistent.setIoc {p : Processor} (ok : Consistent p) {iocid : String} {info : IOCInfo}
    (fresh : p.channels iocid = ∅) (zero : info.channelcount = 0) :
    Consistent (p.setIoc iocid (some info)) := by
  refine ⟨ok.lists, ok.linked, ?_, ?_⟩
  · intro j present
    rw [Processor.iocs_setIoc]
    split
    · rfl
    · exact ok.registered j present
  · intro j entry found
    rw [Processor.iocs_setIoc] at found
    split at found
    · rename_i same
      rw [← Option.some.inj found, zero, Processor.channels_setIoc, same, fresh]
      rfl
    · exact ok.counted j entry found

theorem Consistent.tracked {p : Processor} (ok : Consistent p) {iocid n : String}
    (member : n ∈ p.channels iocid) : iocid ∈ p.ids (.name n) :=
  (ok.linked _ _).mpr ⟨n, rfl, member⟩

theorem Consistent.serving_registered {p : Processor} (ok : Consistent p) {iocid n : String}
    (serving : iocid ∈ p.ids (.name n)) : (p.iocs iocid).isSome := by
  obtain ⟨m, -, member⟩ := (ok.linked _ _).mp serving
  apply ok.registered iocid
  intro empty
  rw [empty] at member
  exact Py.Set.not_mem_empty m member

theorem Consistent.channelcount_nonneg {p : Processor} (ok : Consistent p) {iocid : String}
    {info : IOCInfo} (known : p.iocs iocid = some info) : 0 ≤ info.channelcount := by
  rw [ok.counted iocid info known]
  exact Int.natCast_nonneg _

/-- The transactions of a session that the bookkeeping is ready for: a first transaction
of an IOC without tracked channels, a later one of a registered IOC, or a disconnect. -/
def Accepts (p : Processor) (t : Transaction) : Prop :=
  (t.connected = true ∧ t.recordsToDelete = [] ∧
    (t.initial = true ∧ p.channels t.iocid = ∅ ∨
      t.initial = false ∧ (p.iocs t.iocid).isSome)) ∨
  t.IsDisconnect

theorem updateIocInfos_consistent (cfg : CFConfig) (setup : Setup) (env : Env) (t : Transaction)
    {p : Processor} (ok : Consistent p) (accepted : Accepts p t) :
    ∃ keys q, updateIocInfos cfg env t (iocInfoOf cfg env t) (recordsOf cfg setup env t) p =
        .ok keys q ∧ Consistent q ∧ q.errorLog = p.errorLog := by
  obtain ⟨tracking, counted, absent⟩ := (consistent_iff p).mp ok
  rcases accepted with ⟨connected, noDeletions, ready⟩ | disconnect
  · have known : t.initial = true ∨ (p.iocs t.iocid).isSome :=
      ready.imp (fun first => first.1) (fun later => later.2)
    have started : Consistent (registerInitial cfg env t p) := by
      unfold registerInitial
      rcases ready with ⟨initial, fresh⟩ | ⟨later, _⟩
      · rw [if_pos initial]
        exact ok.setIoc fresh rfl
      · simpa [later] using ok
    have logged : (registerInitial cfg env t p).errorLog = p.errorLog := by
      unfold registerInitial
      split <;> rfl
    obtain ⟨done, quiet⟩ := started.trackAll t.iocid (touched cfg (recordsOf cfg setup env t))
    refine ⟨_, _, updateIocInfos_connected cfg env _ connected known
      (fun r _ => tracking.idle r), ?_⟩
    rw [noDeletions]
    exact ⟨done, quiet.trans logged⟩
  · rw [recordsOf_disconnect cfg setup env disconnect]
    have tracked : ∀ n ∈ p.channels (iocInfoOf cfg env t).id,
        (iocInfoOf cfg env t).id ∈ p.ids (.name n) := fun n member => ok.tracked member
    refine ⟨_, _, updateIocInfos_disconnect cfg env _ disconnect tracked, ?_⟩
    exact ok.untrackAll _ (setOrder_nodup env _) (setOrder_tracked env tracked)

theorem evictIoc_consistent (env : Env) (iocid : String) {p : Processor} (ok : Consistent p) :
    ∃ q, evictIoc env iocid p = .ok ⟨⟩ q ∧ Consistent q ∧ q.errorLog = p.errorLog := by
  have tracked : ∀ n ∈ p.channels iocid, iocid ∈ p.ids (.name n) :=
    fun n member => ok.tracked member
  obtain ⟨done, quiet⟩ := ok.untrackAll iocid (setOrder_nodup env (p.channels iocid))
    (setOrder_tracked env tracked)
  refine ⟨_, evictIoc_eq env tracked, ?_, quiet⟩
  have empty := Processor.channels_untrackAll_self env p iocid
  refine ⟨done.lists, ?_, ?_, ?_⟩
  · intro k j
    rw [Processor.ids_setChannels, Processor.ids_setIoc, done.linked,
      Processor.channels_setChannels]
    by_cases same : j = iocid <;> simp [same, empty]
  · intro j present
    rw [Processor.channels_setChannels] at present
    split at present
    · simp at present
    · rename_i other
      simpa [other] using done.registered j present
  · intro j info found
    rw [Processor.iocs_setChannels, Processor.iocs_setIoc] at found
    split at found
    · cases found
    · rename_i other
      simpa [other] using done.counted j info found

/-- From every consistent state the bookkeeping of a session's transaction without
deletions and the eviction of an IOC return, leave a consistent state, and log no
negative counter on the way. -/
theorem bookkeeping_consistent (cfg : CFConfig) (setup : Setup) (env : Env) {p : Processor}
    (ok : Consistent p) :
    (∀ t, Accepts p t →
      ∃ keys q, updateIocInfos cfg env t (iocInfoOf cfg env t) (recordsOf cfg setup env t) p =
          .ok keys q ∧ Consistent q ∧ q.errorLog = p.errorLog ∧
        ∀ iocid info, q.iocs iocid = some info → 0 ≤ info.channelcount) ∧
    (∀ iocid, ∃ q, evictIoc env iocid p = .ok ⟨⟩ q ∧ Consistent q ∧ q.errorLog = p.errorLog ∧
        ∀ j info, q.iocs j = some info → 0 ≤ info.channelcount) := by
  constructor
  · intro t accepted
    obtain ⟨keys, q, ran, done, quiet⟩ := updateIocInfos_consistent cfg setup env t ok accepted
    exact ⟨keys, q, ran, done, quiet, fun _ _ known => done.channelcount_nonneg known⟩
  · intro iocid
    obtain ⟨q, ran, done, quiet⟩ := evictIoc_consistent env iocid ok
    exact ⟨q, ran, done, quiet, fun _ _ known => done.channelcount_nonneg known⟩

theorem consistent_empty : Consistent {} where
  lists := by simp
  linked := by intro k i; cases k <;> simp [Processor.ids, Processor.channels]
  registered := fun _ present => absurd rfl present
  counted := by simp

/-- The first transaction of an IOC that serves the record `name`. -/
def announce (host : String) (port : Nat) (name : String) : Transaction :=
  { host, port, initial := true, recordsToAdd := (∅ : Py.Dict Nat (String × String)).set 1 (name,
    "ai") }

def goodbye (host : String) (port : Nat) : Transaction := { host, port, connected := false }

theorem goodbye_isDisconnect (host : String) (port : Nat) : (goodbye host port).IsDisconnect :=
  ⟨rfl, rfl, rfl, rfl⟩

/-- Two records of one name, with aliases that overlap with each other and with the name. -/
def sharing (host : String) : Transaction where
  host
  port := 5064
  initial := true
  recordsToAdd := (Py.Dict.set ∅ 1 ("pv", "ai")).set 2 ("pv", "bi")
  aliases := (Py.Dict.set ∅ 1 ["nick", "pv"]).set 2 ["nick"]

def bookkeep (t : Transaction) : Py.Program Processor (List Key) :=
  let cfg : CFConfig := { recceiverId := "r", aliasEnabled := true }
  updateIocInfos cfg {} t (iocInfoOf cfg {} t) (recordsOf cfg {} {} t)

/-- Two IOCs serve the same names. -/
def sharedNames : Processor := (bookkeep (sharing "b")).after ((bookkeep (sharing "a")).after {})

/-- The IOCs come one after the other; then one of them disconnects, or one is evicted. -/
theorem bookkeeping_consistent_shared :
    Consistent sharedNames ∧ sharedNames.ids (.name "pv") = ["a:5064", "b:5064"] ∧
      (∃ keys q, bookkeep (goodbye "a" 5064) sharedNames = .ok keys q ∧ Consistent q ∧
        ∀ iocid info, q.iocs iocid = some info → 0 ≤ info.channelcount) ∧
      ∃ q, evictIoc {} "b:5064" sharedNames = .ok ⟨⟩ q ∧ Consistent q ∧
        ∀ iocid info, q.iocs iocid = some info → 0 ≤ info.channelcount := by
  have first := (bookkeeping_consistent { recceiverId := "r", aliasEnabled := true } {} {}
    consistent_empty).1 (sharing "a") (Or.inl ⟨rfl, rfl, Or.inl ⟨rfl, rfl⟩⟩)
  obtain ⟨_, one, ran, consistent, -⟩ := first
  have after : (bookkeep (sharing "a")).after {} = one := by rw [Py.Program.after, bookkeep, ran]
  have second := (bookkeeping_consistent { recceiverId := "r", aliasEnabled := true } {} {}
    consistent).1 (sharing "b") (Or.inl ⟨rfl, rfl, Or.inl ⟨rfl, by rw [← after]; rfl⟩⟩)
  obtain ⟨_, two, ran, consistent, -⟩ := second
  have both : sharedNames = two := by rw [sharedNames, after, Py.Program.after, bookkeep, ran]
  rw [← both] at consistent
  obtain ⟨commits, evicts⟩ := bookkeeping_consistent { recceiverId := "r", aliasEnabled := true } {}
    {} consistent
  obtain ⟨keys, q, ran, consistent', -, counts⟩ := commits (goodbye "a" 5064)
    (Or.inr (goodbye_isDisconnect _ _))
  obtain ⟨q', ran', consistent'', -, counts'⟩ := evicts "b:5064"
  exact ⟨consistent, by decide, ⟨keys, q, ran, consistent', counts⟩, q', ran', consistent'',
    counts'⟩

end Recsync.Cf
