import Recsync.Recast.CommitChain

set_option autoImplicit false

/- How an upload is cut into transactions. -/
namespace Recsync.Recast

open CollectionSession

section Calls

/-- The records that the calls add: id, name and type. -/
def added (calls : List SessionCall) : List (Nat × String × String) :=
  calls.filterMap fun
    | .addRecord recordId recordType recordName => some (recordId, recordName, recordType)
    | _ => none

def aliasesOf (recordId : Nat) (calls : List SessionCall) : List String :=
  calls.filterMap fun
    | .addAlias target recordName => if target = recordId then some recordName else none
    | _ => none

/-- The last value that the calls give to an info of a record. -/
def infoOf (recordId : Nat) (key : String) (calls : List SessionCall) : Option String :=
  (calls.filterMap fun
    | .recInfo target name value => if target = recordId ∧ name = key then some value else none
    | _ => none).getLast?

/-- The last value that the calls give to an info of the client. -/
def clientInfoOf (key : String) (calls : List SessionCall) : Option String :=
  (calls.filterMap fun
    | .iocInfo name value => if name = key then some value else none
    | _ => none).getLast?

/-- How far a client is: the record whose aliases and infos may follow, and the ids that were
used. -/
structure Progress where
  current : Option Nat := none
  used : List Nat := []

/-- The order in which a client calls: an alias or an info belongs to the record before it. -/
def Progress.next (p : Progress) : SessionCall → Option Progress
  | .iocInfo _ _ => some p
  | .addRecord recordId _ _ =>
    if recordId ∈ p.used then none
    else some { current := some recordId, used := p.used ++ [recordId] }
  | .addAlias recordId _ => if p.current = some recordId then some p else none
  | .recInfo recordId _ _ => if p.current = some recordId then some p else none
  | .delRecord _ => none
  | .done => some { p with current := none }

def ClientOrder (calls : List SessionCall) : Prop :=
  (calls.foldlM Progress.next {}).isSome = true

def received (events : List CollectionSession.Event) : List SessionCall :=
  events.filterMap fun
    | .call _ c => some c
    | _ => none

variable (calls : List SessionCall) (c : SessionCall)

theorem added_append (more : List SessionCall) :
    added (calls ++ more) = added calls ++ added more := List.filterMap_append

theorem aliasesOf_append (recordId : Nat) (more : List SessionCall) :
    aliasesOf recordId (calls ++ more) = aliasesOf recordId calls ++ aliasesOf recordId more :=
  List.filterMap_append

theorem infoOf_append (recordId : Nat) (key : String) (more : List SessionCall) :
    infoOf recordId key (calls ++ more) =
      (infoOf recordId key more).or (infoOf recordId key calls) := by
  rw [infoOf, List.filterMap_append, List.getLast?_append]
  rfl

theorem clientInfoOf_append (key : String) (more : List SessionCall) :
    clientInfoOf key (calls ++ more) = (clientInfoOf key more).or (clientInfoOf key calls) := by
  rw [clientInfoOf, List.filterMap_append, List.getLast?_append]
  rfl

theorem received_append (first second : List CollectionSession.Event) :
    received (first ++ second) = received first ++ received second := List.filterMap_append

theorem foldlM_progress {p : Progress}
    (reached : (calls ++ [c]).foldlM Progress.next {} = some p) :
    ∃ before, calls.foldlM Progress.next {} = some before ∧ before.next c = some p := by
  rw [List.foldlM_append] at reached
  obtain ⟨before, first, last⟩ := Option.bind_eq_some_iff.mp reached
  exact ⟨before, first, by simpa using last⟩

end Calls

/-- All that the calls say about the records of a transaction is in it, and nothing about other
records. -/
structure Complete (calls : List SessionCall) (t : Transaction) : Prop where
  aliases : ∀ recordId ∈ t.recordsToAdd.keys,
    (t.aliases.get? recordId).getD [] = aliasesOf recordId calls
  infos : ∀ recordId ∈ t.recordsToAdd.keys, ∀ key,
    ((t.recordInfosToAdd.get? recordId).getD ∅).get? key = infoOf recordId key calls
  noAliases : ∀ recordId ∉ t.recordsToAdd.keys, t.aliases.get? recordId = none
  noInfos : ∀ recordId ∉ t.recordsToAdd.keys, t.recordInfosToAdd.get? recordId = none

/-- A transaction `b.2` with the calls `b.1` that it stands for, after the batches `before`. -/
structure Batch (trlimit : Int) (calls : List SessionCall)
    (before : List (List SessionCall × Transaction)) (b : List SessionCall × Transaction) :
    Prop where
  initial : b.2.initial = before.isEmpty
  clientInfos : ∀ key, b.2.clientInfos.get? key =
    clientInfoOf key (before.flatMap Prod.fst ++ b.1)
  records : b.2.recordsToAdd.entries = added b.1
  size : (b.2.recordsToAdd.entries.length : Int) ≤ trlimit
  complete : Complete calls b.2
  nothingDeleted : b.2.recordsToDelete = []

/-- A session that has received the calls and is at the record `current`. -/
structure Collecting (trlimit : Int) (calls : List SessionCall) (current : Option Nat)
    (s : CollectionSession) (batches : List (List SessionCall × Transaction))
    (rest : List SessionCall) : Prop where
  split : batches.flatMap Prod.fst ++ rest = calls
  flushed : s.flushed = batches.map Prod.snd
  taken : Runs.EveryStep (Batch trlimit calls) batches
  pending : Batch trlimit calls batches (rest, s.transaction)
  clean : ¬ s.dirty = true → ∀ c ∈ rest, c = .done
  current : ∀ recordId, current = some recordId → recordId ∈ s.transaction.recordsToAdd.keys

namespace Complete

variable {calls : List SessionCall} {t : Transaction}

theorem append (complete : Complete calls t) (c : SessionCall)
    (aliases : ∀ recordId ∈ t.recordsToAdd.keys, aliasesOf recordId [c] = [])
    (infos : ∀ recordId ∈ t.recordsToAdd.keys, ∀ key, infoOf recordId key [c] = none) :
    Complete (calls ++ [c]) t where
  aliases recordId member := by
    rw [aliasesOf_append, aliases recordId member, List.append_nil]
    exact complete.aliases recordId member
  infos recordId member key := by
    rw [infoOf_append, infos recordId member key, Option.none_or]
    exact complete.infos recordId member key
  noAliases := complete.noAliases
  noInfos := complete.noInfos

theorem empty (calls : List SessionCall) {t : Transaction} (records : t.recordsToAdd = ∅)
    (aliases : t.aliases = ∅) (infos : t.recordInfosToAdd = ∅) : Complete calls t where
  aliases recordId member := by simp [records] at member
  infos recordId member := by simp [records] at member
  noAliases recordId _ := by simp [aliases]
  noInfos recordId _ := by simp [infos]

theorem addRecord (complete : Complete calls t) {recordId : Nat} (recordType recordName : String)
    (fresh : recordId ∉ t.recordsToAdd.keys) (aliases : aliasesOf recordId calls = [])
    (infos : ∀ key, infoOf recordId key calls = none) :
    Complete (calls ++ [.addRecord recordId recordType recordName])
      (t.addRecord recordId recordType recordName) := by
  have same := complete.append (.addRecord recordId recordType recordName)
    (fun _ _ => rfl) (fun _ _ _ => rfl)
  have keys (id : Nat) : id ∈ (t.addRecord recordId recordType recordName).recordsToAdd.keys ↔
      id ∈ t.recordsToAdd.keys ∨ id = recordId := by
    simp [Transaction.addRecord, Py.Dict.keys_set, fresh]
  constructor
  · intro id member
    rcases (keys id).mp member with old | rfl
    · exact same.aliases id old
    · rw [show (t.addRecord id recordType recordName).aliases.get? id = none from
        complete.noAliases id fresh, aliasesOf_append, aliases]
      rfl
  · intro id member key
    rcases (keys id).mp member with old | rfl
    · exact same.infos id old key
    · rw [show (t.addRecord id recordType recordName).recordInfosToAdd.get? id = none from
        complete.noInfos id fresh, infoOf_append, infos key]
      rfl
  · intro id other
    exact complete.noAliases id fun old => other ((keys id).mpr (Or.inl old))
  · intro id other
    exact complete.noInfos id fun old => other ((keys id).mpr (Or.inl old))

theorem addAlias (complete : Complete calls t) {recordId : Nat} (recordName : String)
    (known : recordId ∈ t.recordsToAdd.keys) :
    Complete (calls ++ [.addAlias recordId recordName]) (t.addAlias recordId recordName) where
  aliases id member := by
    have before := complete.aliases id member
    by_cases same : id = recordId
    · subst same
      simp only [Transaction.addAlias, Py.Dict.get?_set_self, Option.getD_some, before,
        aliasesOf_append]
      simp [aliasesOf]
    · have other : ¬ recordId = id := fun equal => same equal.symm
      simp only [Transaction.addAlias, Py.Dict.get?_set_ne _ _ same, before, aliasesOf_append]
      simp [aliasesOf, other]
  infos id member key := by
    rw [infoOf_append]
    exact complete.infos id member key
  noAliases id other := by
    have different : id ≠ recordId := fun same => other (same ▸ known)
    exact (Py.Dict.get?_set_ne _ _ different).trans (complete.noAliases id other)
  noInfos := complete.noInfos

theorem recInfo (complete : Complete calls t) {recordId : Nat} (key value : String)
    (known : recordId ∈ t.recordsToAdd.keys) :
    Complete (calls ++ [.recInfo recordId key value]) (t.recInfo recordId key value) where
  aliases id member := by
    rw [aliasesOf_append]
    exact (complete.aliases id member).trans (List.append_nil _).symm
  infos id member name := by
    have before := complete.infos id member name
    by_cases same : id = recordId
    · subst same
      simp only [Transaction.recInfo, Py.Dict.get?_set_self, Option.getD_some, Py.Dict.get?_set,
        before, infoOf_append]
      by_cases target : name = key
      · simp [infoOf, target]
      · have other : ¬ key = name := fun equal => target equal.symm
        simp [infoOf, target, other]
    · have other : ¬ recordId = id := fun equal => same equal.symm
      simp only [Transaction.recInfo, Py.Dict.get?_set_ne _ _ same, before, infoOf_append]
      simp [infoOf, other]
  noAliases := complete.noAliases
  noInfos id other := by
    have different : id ≠ recordId := fun same => other (same ▸ known)
    exact (Py.Dict.get?_set_ne _ _ different).trans (complete.noInfos id other)

end Complete

/-- What the progress of a client says about its calls. -/
structure Progress.Follows (calls : List SessionCall) (p : Progress) : Prop where
  used : p.used = (added calls).map Prod.fst
  nodup : p.used.Nodup
  aliases : ∀ recordId ∉ p.used, aliasesOf recordId calls = []
  infos : ∀ recordId ∉ p.used, ∀ key, infoOf recordId key calls = none
  current : ∀ recordId, p.current = some recordId → recordId ∈ p.used

/-- A call that adds no record and says nothing about a record that was not added. -/
theorem Progress.Follows.keep {calls : List SessionCall} {p : Progress} (follows : p.Follows calls)
    {c : SessionCall} (noRecord : added [c] = [])
    (aliases : ∀ recordId ∉ p.used, aliasesOf recordId [c] = [])
    (infos : ∀ recordId ∉ p.used, ∀ key, infoOf recordId key [c] = none) {next : Option Nat}
    (current : ∀ recordId, next = some recordId → recordId ∈ p.used) :
    Progress.Follows (calls ++ [c]) { p with current := next } where
  used := by
    rw [added_append, noRecord, List.append_nil]
    exact follows.used
  nodup := follows.nodup
  aliases recordId unused := by
    rw [aliasesOf_append, follows.aliases recordId unused, aliases recordId unused, List.append_nil]
  infos recordId unused key := by
    rw [infoOf_append, follows.infos recordId unused key, infos recordId unused key, Option.none_or]
  current := current

theorem Progress.next_follows {calls : List SessionCall} {p q : Progress} (follows : p.Follows calls)
    {c : SessionCall} (allowed : p.next c = some q) : q.Follows (calls ++ [c]) := by
  cases c with
  | iocInfo key value =>
    obtain rfl : p = q := by simpa [Progress.next] using allowed
    exact follows.keep rfl (fun _ _ => rfl) (fun _ _ _ => rfl) follows.current
  | addRecord id recordType recordName =>
    obtain ⟨fresh, rfl⟩ : id ∉ p.used ∧ { current := some id, used := p.used ++ [id] } = q := by
      simpa [Progress.next] using allowed
    refine ⟨?_, ?_, ?_, ?_, ?_⟩
    · rw [added_append, follows.used]
      simp [added]
    · rw [List.nodup_append]
      refine ⟨follows.nodup, List.nodup_singleton id, ?_⟩
      intro a member b last same
      obtain rfl : b = id := by simpa using last
      exact fresh (same ▸ member)
    · intro recordId unused
      simp only [List.mem_append, not_or] at unused
      rw [aliasesOf_append, follows.aliases recordId unused.1]
      rfl
    · intro recordId unused name
      simp only [List.mem_append, not_or] at unused
      rw [infoOf_append, follows.infos recordId unused.1 name]
      rfl
    · intro recordId now
      obtain rfl : id = recordId := by simpa using now
      simp
  | addAlias id recordName =>
    obtain ⟨here, rfl⟩ : p.current = some id ∧ p = q := by simpa [Progress.next] using allowed
    apply follows.keep rfl _ (fun _ _ _ => rfl) follows.current
    intro recordId unused
    have other : ¬ id = recordId := fun same => unused (same ▸ follows.current id here)
    simp [aliasesOf, other]
  | recInfo id key value =>
    obtain ⟨here, rfl⟩ : p.current = some id ∧ p = q := by simpa [Progress.next] using allowed
    apply follows.keep rfl (fun _ _ => rfl) _ follows.current
    intro recordId unused name
    have other : ¬ id = recordId := fun same => unused (same ▸ follows.current id here)
    simp [infoOf, other]
  | delRecord id => cases allowed
  | done =>
    obtain rfl : { p with current := none } = q := by simpa [Progress.next] using allowed
    exact follows.keep rfl (fun _ _ => rfl) (fun _ _ _ => rfl) (by simp)

theorem Progress.follows_of_reached (calls : List SessionCall) {p : Progress}
    (reached : calls.foldlM Progress.next {} = some p) : p.Follows calls := by
  induction calls using List.reverseRecOn generalizing p with
  | nil =>
    obtain rfl : {} = p := by simpa using reached
    exact ⟨rfl, List.nodup_nil, fun _ _ => rfl, fun _ _ _ => rfl, by simp⟩
  | append_singleton calls c ih =>
    obtain ⟨before, first, allowed⟩ := foldlM_progress calls c reached
    exact Progress.next_follows (ih first) allowed

section Collect

variable {trlimit : Int} {calls rest : List SessionCall} {current : Option Nat}
  {s : CollectionSession} {batches : List (List SessionCall × Transaction)}

/-- The call `c` is about no record of the transaction. -/
def NotAbout (c : SessionCall) (t : Transaction) : Prop :=
  ∀ recordId ∈ t.recordsToAdd.keys,
    aliasesOf recordId [c] = [] ∧ ∀ key, infoOf recordId key [c] = none

theorem Batch.append {before : List (List SessionCall × Transaction)}
    {b : List SessionCall × Transaction} (batch : Batch trlimit calls before b) {c : SessionCall}
    (elsewhere : NotAbout c b.2) : Batch trlimit (calls ++ [c]) before b where
  initial := batch.initial
  clientInfos := batch.clientInfos
  records := batch.records
  size := batch.size
  complete := batch.complete.append c (fun id member => (elsewhere id member).1)
    fun id member => (elsewhere id member).2
  nothingDeleted := batch.nothingDeleted

namespace Collecting

theorem added_eq (collecting : Collecting trlimit calls current s batches rest) :
    added calls = s.flushed.flatMap (fun t => t.recordsToAdd.entries) ++
      s.transaction.recordsToAdd.entries := by
  have parts : (batches.flatMap fun b => added b.1) =
      batches.flatMap fun b => b.2.recordsToAdd.entries := by
    apply List.flatMap_congr
    intro b member
    obtain ⟨before, after, split⟩ := List.append_of_mem member
    exact (collecting.taken before b after split).records.symm
  have all : added (batches.flatMap Prod.fst) = batches.flatMap fun b => added b.1 := by
    simp only [added, List.filterMap_flatMap]
  rw [← collecting.split, added_append, all, parts, collecting.pending.records,
    collecting.flushed, List.flatMap_map]

theorem apart (collecting : Collecting trlimit calls current s batches rest)
    (nodup : ((added calls).map Prod.fst).Nodup) {recordId : Nat}
    (pending : recordId ∈ s.transaction.recordsToAdd.keys) :
    ∀ b ∈ batches, recordId ∉ b.2.recordsToAdd.keys := by
  intro b member inside
  rw [collecting.added_eq, List.map_append] at nodup
  apply (List.nodup_append.mp nodup).2.2 recordId _ recordId pending rfl
  rw [List.map_flatMap, List.mem_flatMap]
  refine ⟨b.2, ?_, inside⟩
  rw [collecting.flushed]
  exact List.mem_map_of_mem member

/-- The flush takes the calls so far as a batch of their own. -/
theorem flush (collecting : Collecting trlimit calls current s batches rest)
    (positive : 1 ≤ trlimit) (factory : Factory) :
    ∃ batches rest, Collecting trlimit calls none (s.flush factory) batches rest ∧
      (∀ c ∈ rest, c = .done) := by
  by_cases dirty : s.dirty = true
  · refine ⟨batches ++ [(rest, s.transaction)], [], ?_, by simp⟩
    rw [flush_dirty factory dirty]
    constructor
    · simpa using collecting.split
    · rw [List.map_append, ← collecting.flushed]
      rfl
    · exact Runs.EveryStep.append collecting.taken collecting.pending
    · constructor
      · simp [chainCommit, newTransaction]
      · intro key
        have same := collecting.pending.clientInfos key
        simpa [chainCommit, newTransaction] using same
      · rfl
      · show (0 : Int) ≤ trlimit
        omega
      · exact Complete.empty calls rfl rfl rfl
      · rfl
    · simp
    · simp
  · refine ⟨batches, rest, ?_, collecting.clean dirty⟩
    rw [flush_clean factory dirty]
    exact ⟨collecting.split, collecting.flushed, collecting.taken, collecting.pending,
      collecting.clean, by simp⟩

theorem update (collecting : Collecting trlimit calls current s batches rest)
    {c : SessionCall} (elsewhere : ∀ b ∈ batches, NotAbout c b.2)
    (pending : Batch trlimit (calls ++ [c]) batches (rest ++ [c], s.transaction.collect c))
    {next : Option Nat} (here : ∀ recordId, next = some recordId →
      recordId ∈ (s.transaction.collect c).recordsToAdd.keys)
    (cfg : SessionConfig) (clock : Clock) :
    Collecting trlimit (calls ++ [c]) next (s.update cfg clock c) batches (rest ++ [c]) where
  split := by rw [← List.append_assoc, collecting.split]
  flushed := collecting.flushed
  taken before b after split :=
    (collecting.taken before b after split).append (elsewhere b (by simp [split]))
  pending := pending
  clean clean := absurd rfl clean
  current := here

theorem forget (collecting : Collecting trlimit calls current s batches rest) :
    Collecting trlimit calls none s batches rest :=
  ⟨collecting.split, collecting.flushed, collecting.taken, collecting.pending, collecting.clean,
    by simp⟩

theorem records_nil (collecting : Collecting trlimit calls current s batches rest)
    (only : ∀ c ∈ rest, c = .done) : s.transaction.recordsToAdd.entries = [] := by
  have same : s.transaction.recordsToAdd.entries = added rest := collecting.pending.records
  rw [same, added, List.filterMap_eq_nil_iff]
  intro c member
  rw [only c member]

/-- After `flush_safely` there is room for one more record. -/
theorem flushSafely {cfg : SessionConfig}
    (collecting : Collecting cfg.trlimit calls current s batches rest) (positive : 1 ≤ cfg.trlimit)
    (factory : Factory) (clock : Clock) :
    ∃ batches rest, Collecting cfg.trlimit calls none (s.flushSafely cfg factory clock) batches rest ∧
      ((s.flushSafely cfg factory clock).transaction.recordsToAdd.entries.length : Int) <
        cfg.trlimit := by
  have flushed : ∃ batches rest, Collecting cfg.trlimit calls none (s.flush factory) batches rest ∧
      ((s.flush factory).transaction.recordsToAdd.entries.length : Int) < cfg.trlimit := by
    obtain ⟨batches, rest, after, only⟩ := collecting.flush positive factory
    refine ⟨batches, rest, after, ?_⟩
    rw [after.records_nil only]
    show (0 : Int) < cfg.trlimit
    omega
  unfold CollectionSession.flushSafely
  split
  · exact flushed
  · split
    · exact flushed
    · rename_i below
      refine ⟨batches, rest, collecting.forget, ?_⟩
      have nothing : s.transaction.recordsToDelete = [] := collecting.pending.nothingDeleted
      rw [nothing] at below
      simp only [List.length_nil, Nat.add_zero, not_and, Int.not_le] at below
      exact below (by omega)

end Collecting

/-- A call that only extends what the pending transaction says about one of its records. -/
theorem notAbout_of_id {recordId : Nat} {c : SessionCall} {t : Transaction}
    (target : ∀ id, id ≠ recordId → aliasesOf id [c] = [] ∧ ∀ key, infoOf id key [c] = none)
    (elsewhere : recordId ∉ t.recordsToAdd.keys) : NotAbout c t := by
  intro id member
  apply target
  rintro rfl
  exact elsewhere member

theorem pending_append {c : SessionCall} {t : Transaction}
    (pending : Batch trlimit calls batches (rest, t))
    (noInfo : ∀ key, clientInfoOf key [c] = none) (key : String) :
    t.clientInfos.get? key =
      clientInfoOf key (batches.flatMap Prod.fst ++ (rest ++ [c])) := by
  rw [← List.append_assoc, clientInfoOf_append, noInfo key, Option.none_or]
  exact pending.clientInfos key

theorem Batch.extend {c : SessionCall} {t t' : Transaction}
    (pending : Batch trlimit calls batches (rest, t)) (noRecord : added [c] = [])
    (noInfo : ∀ key, clientInfoOf key [c] = none) (complete : Complete (calls ++ [c]) t')
    (initial : t'.initial = t.initial) (clientInfos : t'.clientInfos = t.clientInfos)
    (records : t'.recordsToAdd = t.recordsToAdd)
    (deleted : t'.recordsToDelete = t.recordsToDelete) :
    Batch trlimit (calls ++ [c]) batches (rest ++ [c], t') where
  initial := initial.trans pending.initial
  clientInfos key := by
    rw [clientInfos]
    exact pending_append pending noInfo key
  records := by
    rw [records, added_append, noRecord, List.append_nil]
    exact pending.records
  size := by
    rw [records]
    exact pending.size
  complete := complete
  nothingDeleted := deleted.trans pending.nothingDeleted

/-- An info of the client is overwritten by a later one with the same key. -/
theorem Batch.iocInfo {t : Transaction} (pending : Batch trlimit calls batches (rest, t))
    (key value : String) :
    Batch trlimit (calls ++ [.iocInfo key value]) batches
      (rest ++ [.iocInfo key value], t.collect (.iocInfo key value)) where
  initial := pending.initial
  clientInfos name := by
    rw [← List.append_assoc, clientInfoOf_append]
    have before := pending.clientInfos name
    by_cases same : name = key
    · subst same
      simp [Transaction.collect, Transaction.iocInfo, clientInfoOf]
    · have other : ¬ key = name := fun equal => same equal.symm
      simp only [Transaction.collect, Transaction.iocInfo, Py.Dict.get?_set_ne _ _ same, before]
      simp [clientInfoOf, other]
  records := by
    rw [added_append]
    exact pending.records.trans (List.append_nil _).symm
  size := pending.size
  complete := by
    have same := pending.complete.append (.iocInfo key value) (fun _ _ => rfl) (fun _ _ _ => rfl)
    exact ⟨same.aliases, same.infos, same.noAliases, same.noInfos⟩
  nothingDeleted := pending.nothingDeleted

theorem Batch.addRecord {t : Transaction} (pending : Batch trlimit calls batches (rest, t))
    {id : Nat} (recordType recordName : String) (unknown : id ∉ t.recordsToAdd.keys)
    (room : (t.recordsToAdd.entries.length : Int) < trlimit) (noAliases : aliasesOf id calls = [])
    (noInfos : ∀ key, infoOf id key calls = none) :
    Batch trlimit (calls ++ [.addRecord id recordType recordName]) batches
      (rest ++ [.addRecord id recordType recordName],
        t.collect (.addRecord id recordType recordName)) where
  initial := pending.initial
  clientInfos key := pending_append pending (fun _ => rfl) key
  records := by
    have before : t.recordsToAdd.entries = added rest := pending.records
    rw [added_append, ← before]
    exact Py.Dict.entries_set_of_not_mem _ _ unknown
  size := by
    have entries : (t.addRecord id recordType recordName).recordsToAdd.entries =
        t.recordsToAdd.entries ++ [(id, recordName, recordType)] :=
      Py.Dict.entries_set_of_not_mem _ _ unknown
    rw [Transaction.collect, entries, List.length_append, List.length_singleton]
    omega
  complete := pending.complete.addRecord recordType recordName unknown noAliases noInfos
  nothingDeleted := pending.nothingDeleted

theorem Collecting.notAbout (collecting : Collecting trlimit calls current s batches rest)
    (nodup : ((added calls).map Prod.fst).Nodup) {id : Nat} (here : current = some id)
    {c : SessionCall}
    (target : ∀ other, ¬ id = other → aliasesOf other [c] = [] ∧ ∀ key, infoOf other key [c] = none) :
    ∀ b ∈ batches, NotAbout c b.2 := by
  intro b member
  apply notAbout_of_id _ (collecting.apart nodup (collecting.current id here) b member)
  intro other different
  exact target other different.symm

/-- `done` says nothing that the transaction collects. -/
theorem Collecting.done (collecting : Collecting trlimit calls current s batches rest) :
    Collecting trlimit (calls ++ [.done]) none s batches (rest ++ [.done]) where
  split := by rw [← List.append_assoc, collecting.split]
  flushed := collecting.flushed
  taken before b later split :=
    (collecting.taken before b later split).append fun _ _ => ⟨rfl, fun _ => rfl⟩
  pending := collecting.pending.extend rfl (fun _ => rfl)
    (collecting.pending.complete.append .done (fun _ _ => rfl) (fun _ _ _ => rfl)) rfl rfl rfl rfl
  clean := by
    intro clean c member
    rcases List.mem_append.mp member with old | last
    · exact collecting.clean clean c old
    · simpa using last
  current := by simp

theorem call_collecting {cfg : SessionConfig} {p q : Progress}
    (collecting : Collecting cfg.trlimit calls p.current s batches rest)
    (follows : p.Follows calls) (positive : 1 ≤ cfg.trlimit) (factory : Factory) (clock : Clock)
    {c : SessionCall} (allowed : p.next c = some q) :
    ∃ batches rest, Collecting cfg.trlimit (calls ++ [c]) q.current
      (s.call cfg factory clock c) batches rest ∧ (c = .done → ∀ c ∈ rest, c = .done) := by
  have nodup : ((added calls).map Prod.fst).Nodup := follows.used ▸ follows.nodup
  have pending := collecting.pending
  cases c with
  | iocInfo key value =>
    obtain rfl : p = q := by simpa [Progress.next] using allowed
    have after := collecting.update (fun b _ id _ => ⟨rfl, fun _ => rfl⟩) (pending.iocInfo key value)
      collecting.current cfg clock
    exact ⟨batches, _, after, by simp⟩
  | addRecord id recordType recordName =>
    obtain ⟨fresh, rfl⟩ : id ∉ p.used ∧ { current := some id, used := p.used ++ [id] } = q := by
      simpa [Progress.next] using allowed
    obtain ⟨batches, rest, collecting, room⟩ := collecting.flushSafely positive factory clock
    have unknown : id ∉ (s.flushSafely cfg factory clock).transaction.recordsToAdd.keys := by
      intro known
      apply fresh
      rw [follows.used, collecting.added_eq, List.map_append]
      exact List.mem_append_right _ known
    have pending := collecting.pending.addRecord recordType recordName unknown room
      (follows.aliases id fresh) (follows.infos id fresh)
    refine ⟨batches, rest ++ [.addRecord id recordType recordName],
      collecting.update (fun b _ id _ => ⟨rfl, fun _ => rfl⟩) pending ?_ cfg clock, by simp⟩
    intro recordId now
    obtain rfl : id = recordId := by simpa using now
    simp [Transaction.collect, Transaction.addRecord, Py.Dict.keys_set, unknown]
  | addAlias id recordName =>
    obtain ⟨here, rfl⟩ : p.current = some id ∧ p = q := by simpa [Progress.next] using allowed
    have elsewhere : ∀ b ∈ batches, NotAbout (.addAlias id recordName) b.2 := by
      apply collecting.notAbout nodup here
      intro other target
      exact ⟨by simp [aliasesOf, target], fun _ => rfl⟩
    have complete := pending.complete.addAlias recordName (collecting.current id here)
    have after := collecting.update elsewhere
      (pending.extend rfl (fun _ => rfl) complete rfl rfl rfl rfl) collecting.current cfg clock
    exact ⟨batches, _, after, by simp⟩
  | recInfo id key value =>
    obtain ⟨here, rfl⟩ : p.current = some id ∧ p = q := by simpa [Progress.next] using allowed
    have elsewhere : ∀ b ∈ batches, NotAbout (.recInfo id key value) b.2 := by
      apply collecting.notAbout nodup here
      intro other target
      exact ⟨rfl, by simp [infoOf, target]⟩
    have complete := pending.complete.recInfo key value (collecting.current id here)
    have after := collecting.update elsewhere
      (pending.extend rfl (fun _ => rfl) complete rfl rfl rfl rfl) collecting.current cfg clock
    exact ⟨batches, _, after, by simp⟩
  | delRecord id => cases allowed
  | done =>
    obtain rfl : { p with current := none } = q := by simpa [Progress.next] using allowed
    obtain ⟨batches, rest, flushed, only⟩ := collecting.done.flush positive factory
    exact ⟨batches, rest, flushed, fun _ => only⟩

end Collect

/-- A client in order keeps its session collecting, whatever the commits do. -/
theorem run_collecting (cfg : SessionConfig) (factory : Factory) (positive : 1 ≤ cfg.trlimit)
    (host : String) (port srcid : Nat) (events : List CollectionSession.Event) (opened : .close ∉ events)
    {p : Progress} (reached : (received events).foldlM Progress.next {} = some p) :
    ∃ batches rest, Collecting cfg.trlimit (received events) p.current
      ((CollectionSession.opened host port srcid).run cfg factory events) batches rest ∧
        ((received events).getLast? = some .done → ∀ c ∈ rest, c = .done) := by
  induction events using List.reverseRecOn generalizing p with
  | nil =>
    obtain rfl : {} = p := by simpa [received] using reached
    refine ⟨[], [], ?_, by simp⟩
    constructor
    · rfl
    · rfl
    · exact Runs.EveryStep.nil _
    · refine ⟨rfl, fun _ => rfl, rfl, ?_, Complete.empty _ rfl rfl rfl, rfl⟩
      show (0 : Int) ≤ cfg.trlimit
      omega
    · simp
    · simp
  | append_singleton events e ih =>
    have before : .close ∉ events := fun inside => opened (List.mem_append_left _ inside)
    rw [run_append, run_cons, run_nil]
    cases e with
    | call clock c =>
      have more : received (events ++ [.call clock c]) = received events ++ [c] :=
        received_append events [.call clock c]
      rw [more] at reached ⊢
      obtain ⟨old, first, allowed⟩ := foldlM_progress _ _ reached
      obtain ⟨batches, rest, collecting, -⟩ := ih before first
      obtain ⟨batches, rest, after, only⟩ := call_collecting collecting
        (Progress.follows_of_reached _ first) positive factory clock allowed
      exact ⟨batches, rest, after, by simpa using only⟩
    | close => simp at opened
    | fires outcome =>
      have same : received (events ++ [.fires outcome]) = received events := by
        rw [received_append]
        exact List.append_nil _
      rw [same] at reached ⊢
      obtain ⟨batches, rest, collecting, only⟩ := ih before reached
      refine ⟨batches, rest, ?_, only⟩
      generalize (CollectionSession.opened host port srcid).run cfg factory events = s at collecting ⊢
      show Collecting cfg.trlimit (received events) p.current (s.fire factory outcome) batches rest
      unfold fire
      split
      · exact collecting
      · exact ⟨collecting.split, collecting.flushed, collecting.taken, collecting.pending,
          collecting.clean, collecting.current⟩

/-- Cutting an upload into transactions loses, duplicates and tears nothing, whatever the clock
says and whenever the commits end: the calls fall into batches, each transaction holds what one
batch says, and all of them reach the factory. -/
theorem upload_batched (cfg : SessionConfig) (factory : Factory) (host : String)
    (port srcid : Nat) (events : List CollectionSession.Event) (positive : 1 ≤ cfg.trlimit)
    (opened : .close ∉ events) (inOrder : ClientOrder (received events))
    (ended : (received events).getLast? = some .done) :
    let s := (CollectionSession.opened host port srcid).run cfg factory events
    ∃ batches rest, received events = batches.flatMap Prod.fst ++ rest ∧ (∀ c ∈ rest, c = .done) ∧
      s.flushed = batches.map Prod.snd ∧
      s.flushed.flatMap (fun t => t.recordsToAdd.entries) = added (received events) ∧
      Runs.EveryStep (Batch cfg.trlimit (received events)) batches ∧
      handed s.log <+: s.flushed ∧
      ∀ later : List Outcome, s.flushed.length ≤ (outcomes s.log).length + later.length →
        handed (later.foldl (fire factory) s).log = s.flushed := by
  intro s
  obtain ⟨p, reached⟩ := Option.isSome_iff_exists.mp inOrder
  obtain ⟨batches, rest, collecting, only⟩ :=
    run_collecting cfg factory positive host port srcid events opened reached
  have ordered := run_ordered cfg factory (opened_ordered host port srcid) events
  have ⟨settled, state⟩ := ordered
  refine ⟨batches, rest, collecting.split.symm, only ended, collecting.flushed, ?_,
    collecting.taken, state.handed_prefix, fires_handed factory ordered⟩
  have all := collecting.added_eq
  rw [collecting.records_nil (only ended), List.append_nil] at all
  exact all.symm

/-- Two records with a limit of one: the second one finds the transaction full. -/
theorem upload_batched_two :
    let events : List CollectionSession.Event := [.call {} (.iocInfo "A" "1"), .call {} (.addRecord 1 "ai" "one"),
      .call {} (.recInfo 1 "k" "v"), .call {} (.addRecord 2 "ao" "two"),
      .call {} (.addAlias 2 "also"), .call {} .done]
    let s := (CollectionSession.opened "h" 1 7).run { trlimit := 1 } (fun _ => some (.ok ())) events
    s.flushed.flatMap (fun t => t.recordsToAdd.entries) =
      [(1, "one", "ai"), (2, "two", "ao")] := by
  intro events s
  obtain ⟨batches, rest, -, -, -, all, -⟩ := upload_batched { trlimit := 1 }
    (fun _ => some (.ok ())) "h" 1 7 events (by decide) (by simp [events])
    (by simp [events, received, ClientOrder, Progress.next]) rfl
  exact all

end Recsync.Recast
