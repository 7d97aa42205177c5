import Recsync.Db.Clients

set_option autoImplicit false

/- The rows of a server say what the messages of its client say, one after the other. -/
namespace Recsync.Db

open Recast (CollectionSession SessionCall SessionConfig Clock Outcome Transaction Collects
  flushSafely_due)
open Tables

def View.receive (v : View) : SessionCall → View
  | .iocInfo key value => v.setInfo (.text key) (.text value)
  | .addRecord id rtype name =>
    v.setRecord id (some { rtype := .text rtype, names := [(.text name, true)] })
  | .addAlias id name => v.insertName id (.text name) false
  | .recInfo id key value => v.setRecinfo id (.text key) (.text value)
  | .delRecord id => v.setRecord id none
  | .done => v

/-- What the messages mean, one after the other. -/
def history (calls : List SessionCall) : View := calls.foldl View.receive {}

theorem history_concat (calls : List SessionCall) (c : SessionCall) :
    history (calls ++ [c]) = (history calls).receive c := by
  simp [history]

/-- When a message may come: aliases and infos are for an id that was added and not deleted
before, an id is added only after its deletion, the names of a record are distinct, and a record is
not deleted in a transaction that has an alias for it. -/
def OrderlyCall (v : View) (t : Transaction) : SessionCall → Prop
  | .addRecord id _ _ => v.records id = none
  | .addAlias id name => ∃ r, v.records id = some r ∧ .text name ∉ r.names.map Prod.fst
  | .recInfo id _ _ => (v.records id).isSome
  | .delRecord id => (t.aliases.get? id).getD [] = []
  | _ => True

/-- The columns keep the texts of the message as they are. -/
def KeptCall (cfg : DbConfig) : SessionCall → Prop
  | .iocInfo key value => cfg.stored key = .text key ∧ cfg.stored value = .text value
  | .addRecord _ rtype name => cfg.stored rtype = .text rtype ∧ cfg.stored name = .text name
  | .addAlias _ name => cfg.stored name = .text name
  | .recInfo _ key value => cfg.stored key = .text key ∧ cfg.stored value = .text value
  | _ => True

section Infos

variable {stored : String → Value}

theorem putInfos_apply (infos : Value → Option Value) (entries : List (String × String)) (key : Value) :
    View.putInfos stored infos entries key =
      ((entries.filter fun e => decide (stored e.1 = key)).getLast?.map fun e => stored e.2).or
        (infos key) := by
  induction entries generalizing infos with
  | nil => rfl
  | cons e rest ih =>
    have tail := ih (Function.update infos (stored e.1) (some (stored e.2)))
    refine tail.trans ?_
    rw [List.filter_cons]
    by_cases here : stored e.1 = key
    · subst here
      simp only [decide_true, if_true, Function.update_self, List.getLast?_cons, Option.map_some]
      cases (rest.filter fun x => decide (stored x.1 = stored e.1)).getLast? <;> rfl
    · have other : ¬ key = stored e.1 := fun same => here same.symm
      simp [here, other]

/-- To put the same infos again changes nothing. -/
theorem putInfos_again (infos : Value → Option Value) (entries : List (String × String)) :
    View.putInfos stored (View.putInfos stored infos entries) entries =
      View.putInfos stored infos entries := by
  funext key
  rw [putInfos_apply, putInfos_apply]
  cases (entries.filter fun e => decide (stored e.1 = key)).getLast? <;> rfl

/-- Where the keys are kept, a dictionary is written key by key. -/
theorem putInfos_dict {d : Py.Dict String String} (kept : ∀ e ∈ d.entries, stored e.1 = .text e.1)
    (infos : Value → Option Value) (k : String) :
    View.putInfos stored infos d.entries (.text k) = ((d.get? k).map stored).or (infos (.text k)) := by
  have same : (d.entries.filter fun e => decide (stored e.1 = .text k)) =
      d.entries.filter fun e => decide (e.1 = k) := by
    apply List.filter_congr
    intro e member
    simp [kept e member]
  rw [putInfos_apply, same, Py.Dict.filter_entries]
  cases d.get? k <;> rfl

theorem putInfos_other {d : Py.Dict String String} (kept : ∀ e ∈ d.entries, stored e.1 = .text e.1)
    (infos : Value → Option Value) {key : Value} (other : ∀ k, key ≠ .text k) :
    View.putInfos stored infos d.entries key = infos key := by
  have none : (d.entries.filter fun e => decide (stored e.1 = key)) = [] := by
    rw [List.filter_eq_nil_iff]
    intro e member same
    exact other e.1 ((of_decide_eq_true same).symm.trans (kept e member))
  rw [putInfos_apply, none]
  rfl

theorem kept_set {d : Py.Dict String String} (kept : ∀ e ∈ d.entries, stored e.1 = .text e.1)
    {k : String} (keptKey : stored k = .text k) (v : String) :
    ∀ e ∈ (d.set k v).entries, stored e.1 = .text e.1 := by
  intro e member
  rcases (Py.Dict.mem_entries_set d k v e).mp member with rfl | ⟨-, old⟩
  · exact keptKey
  · exact kept e old

theorem putInfos_set {d : Py.Dict String String} (kept : ∀ e ∈ d.entries, stored e.1 = .text e.1)
    {k : String} (keptKey : stored k = .text k) (v : String) (infos : Value → Option Value) :
    View.putInfos stored infos (d.set k v).entries =
      Function.update (View.putInfos stored infos d.entries) (.text k) (some (stored v)) := by
  funext key
  cases key with
  | text l =>
    rw [putInfos_dict (kept_set kept keptKey v)]
    by_cases here : l = k
    · subst here
      simp
    · rw [Py.Dict.get?_set_ne d v here, Function.update_of_ne (by simpa using here), putInfos_dict kept]
  | integer n =>
    rw [putInfos_other (kept_set kept keptKey v) infos (by simp), Function.update_of_ne (by simp),
      putInfos_other kept infos (by simp)]
  | real bits =>
    rw [putInfos_other (kept_set kept keptKey v) infos (by simp), Function.update_of_ne (by simp),
      putInfos_other kept infos (by simp)]

end Infos

/-- The transaction that is being collected on top of `base`, when the messages mean `v`. -/
structure Pending (cfg : DbConfig) (base : View) (t : Transaction) (v : View) : Prop where
  whole : base.commit cfg t = v
  aliases : ∀ id, v.records id = none → (t.aliases.get? id).getD [] = []
  infos : ∀ id, v.records id = none →
    ((t.recordInfosToAdd.get? id).map Py.Dict.entries).getD [] = []
  names : ∀ id r, v.records id = some r → (r.names.map Prod.fst).Nodup
  keys : ∀ e ∈ t.clientInfos.entries, cfg.stored e.1 = .text e.1
  infoKeys : ∀ id infos, t.recordInfosToAdd.get? id = some infos →
    ∀ e ∈ infos.entries, cfg.stored e.1 = .text e.1

namespace Pending

variable {cfg : DbConfig} {base v : View} {t : Transaction}

theorem records (pending : Pending cfg base t v) (id : Nat) :
    v.records id = (base.renewed cfg t id).map fun r => { r with
      names := r.names ++ ((t.aliases.get? id).getD []).map fun name => (cfg.stored name, false)
      infos := View.putInfos cfg.stored r.infos
        (((t.recordInfosToAdd.get? id).map Py.Dict.entries).getD []) } := by
  rw [← pending.whole]
  rfl

theorem renewed_none (pending : Pending cfg base t v) {id : Nat} :
    base.renewed cfg t id = none ↔ v.records id = none := by
  rw [pending.records, Option.map_eq_none_iff]

theorem fits (pending : Pending cfg base t v) : base.Fits cfg t where
  aliases id names found some := by
    cases here : base.renewed cfg t id with
    | none =>
      have empty := pending.aliases id (pending.renewed_none.mp here)
      rw [found] at empty
      exact absurd empty some
    | some r =>
      have known := pending.records id
      rw [here, Option.map_some] at known
      have nodup := pending.names id _ known
      refine ⟨r, rfl, ?_⟩
      simpa [found, Function.comp_def] using nodup
  infos id infos found some := by
    cases here : base.renewed cfg t id with
    | none =>
      have empty := pending.infos id (pending.renewed_none.mp here)
      rw [found] at empty
      exact absurd empty some
    | some r => rfl

/-- After a flush the session collects on top of what the flushed transaction has left. -/
theorem flush (pending : Pending cfg base t v) (host : String) (port srcid : Nat) :
    Pending cfg v
      { CollectionSession.newTransaction host port srcid with clientInfos := t.clientInfos } v where
  whole := by
    apply View.ext
    · rw [← pending.whole]
      exact putInfos_again base.infos t.clientInfos.entries
    · funext id
      have same : View.renewed cfg
          { CollectionSession.newTransaction host port srcid with clientInfos := t.clientInfos } v id =
            v.records id := by
        simp [View.renewed, CollectionSession.newTransaction]
      simp only [View.commit, same]
      cases v.records id with
      | none => rfl
      | some r => simp [CollectionSession.newTransaction, View.putInfos]
  aliases _ _ := rfl
  infos _ _ := rfl
  names := pending.names
  keys := pending.keys
  infoKeys _ _ found := by cases found

theorem iocInfo (pending : Pending cfg base t v) {key value : String}
    (kept : KeptCall cfg (.iocInfo key value)) :
    Pending cfg base (t.iocInfo key value) (v.receive (.iocInfo key value)) where
  whole := by
    rw [← pending.whole]
    apply View.ext
    · have put := putInfos_set pending.keys kept.1 value base.infos
      rw [kept.2] at put
      exact put
    · rfl
  aliases := pending.aliases
  infos := pending.infos
  names := pending.names
  keys := kept_set pending.keys kept.1 value
  infoKeys := pending.infoKeys

/-- A call about the record `id` keeps the others, and what is pending about that one is shown for
it alone. -/
theorem change (pending : Pending cfg base t v) (id : Nat) {t' : Transaction} {v' : View}
    (client : t'.clientInfos = t.clientInfos) (same : v'.infos = v.infos)
    (others : ∀ other, other ≠ id → base.renewed cfg t' other = base.renewed cfg t other ∧
      t'.aliases.get? other = t.aliases.get? other ∧
      t'.recordInfosToAdd.get? other = t.recordInfosToAdd.get? other ∧
      v'.records other = v.records other)
    (record : (base.commit cfg t').records id = v'.records id)
    (aliases : v'.records id = none → (t'.aliases.get? id).getD [] = [])
    (infos : v'.records id = none →
      ((t'.recordInfosToAdd.get? id).map Py.Dict.entries).getD [] = [])
    (names : ∀ r, v'.records id = some r → (r.names.map Prod.fst).Nodup)
    (infoKeys : ∀ d, t'.recordInfosToAdd.get? id = some d →
      ∀ e ∈ d.entries, cfg.stored e.1 = .text e.1) : Pending cfg base t' v' where
  whole := by
    apply View.ext
    · rw [same, ← pending.whole]
      simp only [View.commit, client]
    · funext other
      by_cases here : other = id
      · subst here
        exact record
      · obtain ⟨renewed, sameAliases, sameInfos, sameRecord⟩ := others other here
        rw [sameRecord, pending.records other]
        simp only [View.commit, renewed, sameAliases, sameInfos]
  aliases other none := by
    by_cases here : other = id
    · subst here
      exact aliases none
    · obtain ⟨-, sameAliases, -, sameRecord⟩ := others other here
      rw [sameAliases]
      exact pending.aliases other (sameRecord ▸ none)
  infos other none := by
    by_cases here : other = id
    · subst here
      exact infos none
    · obtain ⟨-, -, sameInfos, sameRecord⟩ := others other here
      rw [sameInfos]
      exact pending.infos other (sameRecord ▸ none)
  names other r known := by
    by_cases here : other = id
    · subst here
      exact names r known
    · obtain ⟨-, -, -, sameRecord⟩ := others other here
      exact pending.names other r (sameRecord ▸ known)
  keys := client ▸ pending.keys
  infoKeys other d found := by
    by_cases here : other = id
    · subst here
      exact infoKeys d found
    · obtain ⟨-, -, sameInfos, -⟩ := others other here
      exact pending.infoKeys other d (sameInfos ▸ found)

theorem addRecord (pending : Pending cfg base t v) {id : Nat} {rtype name : String}
    (fresh : v.records id = none) (kept : KeptCall cfg (.addRecord id rtype name)) :
    Pending cfg base (t.addRecord id rtype name) (v.receive (.addRecord id rtype name)) := by
  have noAliases := pending.aliases id fresh
  have noInfos := pending.infos id fresh
  have new : (v.receive (.addRecord id rtype name)).records id =
      some { rtype := .text rtype, names := [(.text name, true)] } := by
    simp [View.receive, View.setRecord]
  have renewed : base.renewed cfg (t.addRecord id rtype name) id =
      some { rtype := .text rtype, names := [(.text name, true)] } := by
    simp [View.renewed, Transaction.addRecord, kept.1, kept.2]
  refine pending.change id rfl rfl ?_ ?_ ?_ ?_ ?_ ?_
  · intro other apart
    refine ⟨?_, rfl, rfl, by simp [View.receive, View.setRecord, apart]⟩
    simp only [View.renewed, Transaction.addRecord, Py.Dict.get?_set_ne t.recordsToAdd _ apart]
    rfl
  · have unnamed : ((t.addRecord id rtype name).aliases.get? id).getD [] = [] := noAliases
    have untold : (((t.addRecord id rtype name).recordInfosToAdd.get? id).map
        Py.Dict.entries).getD [] = [] := noInfos
    rw [new]
    simp [View.commit, renewed, unnamed, untold, View.putInfos]
  · exact fun _ => noAliases
  · exact fun _ => noInfos
  · intro r known
    obtain rfl : _ = r := Option.some.inj (new.symm.trans known)
    simp
  · exact pending.infoKeys id

theorem addAlias (pending : Pending cfg base t v) {id : Nat} {name : String} {r : RecordView}
    (known : v.records id = some r) (fresh : .text name ∉ r.names.map Prod.fst)
    (kept : KeptCall cfg (.addAlias id name)) :
    Pending cfg base (t.addAlias id name) (v.receive (.addAlias id name)) := by
  have new : (v.receive (.addAlias id name)).records id =
      some { r with names := r.names ++ [(.text name, false)] } := by
    simp [View.receive, View.insertName, View.setRecord, known]
  have stored : cfg.stored name = .text name := kept
  have renewed : base.renewed cfg (t.addAlias id name) id = base.renewed cfg t id := rfl
  have aliases : (t.addAlias id name).aliases.get? id =
      some ((t.aliases.get? id).getD [] ++ [name]) := Py.Dict.get?_set_self _ _ _
  refine pending.change id rfl ?_ ?_ ?_ ?_ ?_ ?_ ?_
  · simp [View.receive, View.insertName, View.setRecord, known]
  · intro other apart
    refine ⟨rfl, Py.Dict.get?_set_ne t.aliases _ apart, rfl, ?_⟩
    simp [View.receive, View.insertName, View.setRecord, apart, known]
  · rw [new]
    obtain ⟨r', old, same⟩ := Option.map_eq_some_iff.mp ((pending.records id).symm.trans known)
    simp only [View.commit, renewed, aliases, old, Option.map_some, ← same, Option.getD_some,
      List.map_append, List.append_assoc, List.map_cons, List.map_nil, stored]
    rfl
  · intro none
    rw [new] at none
    cases none
  · intro none
    rw [new] at none
    cases none
  · intro r' now
    obtain rfl : _ = r' := Option.some.inj (new.symm.trans now)
    rw [List.map_append, List.nodup_append]
    refine ⟨pending.names id r known, by simp, ?_⟩
    intro a inside b last same
    obtain rfl : b = .text name := by simpa using last
    exact fresh (same ▸ inside)
  · exact pending.infoKeys id

theorem recInfo (pending : Pending cfg base t v) {id : Nat} {key value : String}
    (known : (v.records id).isSome) (kept : KeptCall cfg (.recInfo id key value)) :
    Pending cfg base (t.recInfo id key value) (v.receive (.recInfo id key value)) := by
  obtain ⟨r, here⟩ := Option.isSome_iff_exists.mp known
  have new : (v.receive (.recInfo id key value)).records id =
      some { r with infos := Function.update r.infos (.text key) (some (.text value)) } := by
    simp [View.receive, View.setRecinfo, View.setRecord, here]
  have renewed : base.renewed cfg (t.recInfo id key value) id = base.renewed cfg t id := rfl
  have infos : (t.recInfo id key value).recordInfosToAdd.get? id =
      some (((t.recordInfosToAdd.get? id).getD ∅).set key value) := Py.Dict.get?_set_self _ _ _
  have oldKeys : ∀ e ∈ ((t.recordInfosToAdd.get? id).getD ∅).entries, cfg.stored e.1 = .text e.1 := by
    cases found : t.recordInfosToAdd.get? id with
    | none => exact fun e member => by cases member
    | some d => exact pending.infoKeys id d found
  refine pending.change id rfl ?_ ?_ ?_ ?_ ?_ ?_ ?_
  · simp [View.receive, View.setRecinfo, View.setRecord, here]
  · intro other apart
    refine ⟨rfl, rfl, Py.Dict.get?_set_ne t.recordInfosToAdd _ apart, ?_⟩
    simp [View.receive, View.setRecinfo, View.setRecord, apart, here]
  · rw [new]
    obtain ⟨r', old, equal⟩ := Option.map_eq_some_iff.mp ((pending.records id).symm.trans here)
    have put := putInfos_set oldKeys kept.1 value r'.infos
    rw [kept.2] at put
    have entries : ((t.recordInfosToAdd.get? id).getD ∅).entries =
        ((t.recordInfosToAdd.get? id).map Py.Dict.entries).getD [] := by
      cases t.recordInfosToAdd.get? id <;> rfl
    rw [entries] at put
    simp only [View.commit, renewed, infos, old, Option.map_some, ← equal, Option.getD_some, put]
    rfl
  · intro none
    rw [new] at none
    cases none
  · intro none
    rw [new] at none
    cases none
  · intro r' now
    obtain rfl : _ = r' := Option.some.inj (new.symm.trans now)
    exact pending.names id r here
  · intro d found
    obtain rfl : _ = d := Option.some.inj (infos.symm.trans found)
    exact kept_set oldKeys kept.1 value

theorem delRecord (pending : Pending cfg base t v) {id : Nat}
    (unnamed : (t.aliases.get? id).getD [] = []) :
    Pending cfg base (t.delRecord id) (v.receive (.delRecord id)) := by
  have new : (v.receive (.delRecord id)).records id = none := by
    simp [View.receive, View.setRecord]
  have infos (other : Nat) : (t.delRecord id).recordInfosToAdd.get? other =
      if other = id then none else t.recordInfosToAdd.get? other :=
    Py.Dict.get?_erase t.recordInfosToAdd id other
  have added (other : Nat) : (t.delRecord id).recordsToAdd.get? other =
      if other = id then none else t.recordsToAdd.get? other :=
    Py.Dict.get?_erase t.recordsToAdd id other
  have deleted (other : Nat) : other ∈ (t.delRecord id).recordsToDelete ↔
      other = id ∨ other ∈ t.recordsToDelete := by
    simp only [Transaction.delRecord]
    split
    · next listed =>
      constructor
      · exact Or.inr
      · rintro (rfl | old)
        · exact listed
        · exact old
    · simp [or_comm]
  refine pending.change id rfl rfl ?_ ?_ ?_ ?_ ?_ ?_
  · intro other apart
    refine ⟨?_, rfl, by rw [infos, if_neg apart], by simp [View.receive, View.setRecord, apart]⟩
    rw [View.renewed, added, if_neg apart]
    simp only [deleted, apart, false_or]
    rfl
  · have renewed : base.renewed cfg (t.delRecord id) id = none := by
      rw [View.renewed, added, if_pos rfl]
      exact if_pos ((deleted id).mpr (Or.inl rfl))
    simp only [View.commit, renewed, new, Option.map_none]
  · exact fun _ => unnamed
  · intro _
    rw [infos, if_pos rfl]
    rfl
  · intro r known
    rw [new] at known
    cases known
  · intro d found
    rw [infos, if_pos rfl] at found
    cases found

theorem collect (pending : Pending cfg base t v) {c : SessionCall} (orderly : OrderlyCall v t c)
    (kept : KeptCall cfg c) : Pending cfg base (t.collect c) (v.receive c) := by
  cases c with
  | addRecord id rtype name => exact pending.addRecord orderly kept
  | addAlias id name =>
    obtain ⟨r, known, fresh⟩ := orderly
    exact pending.addAlias known fresh kept
  | delRecord id => exact pending.delRecord orderly
  | recInfo id key value => exact pending.recInfo orderly kept
  | iocInfo key value => exact pending.iocInfo kept
  | done => exact pending

end Pending

/-- A session whose transactions say what its messages mean. -/
structure Recorded (cfg : DbConfig) (v : View) (s : CollectionSession) : Prop where
  pending : Pending cfg (meaning cfg s.flushed) s.transaction v
  clean : s.dirty = false → meaning cfg s.flushed = v

namespace Recorded

variable {cfg : DbConfig} {v : View} {s s' : CollectionSession}

theorem opened (cfg : DbConfig) (host : String) (port srcid : Nat) :
    Recorded cfg {} (CollectionSession.opened host port srcid) := by
  refine ⟨⟨?_, fun _ _ => rfl, fun _ _ => rfl, ?_, ?_, ?_⟩, fun _ => rfl⟩
  · apply View.ext
    · rfl
    · funext id
      simp [View.commit, View.renewed, CollectionSession.opened, CollectionSession.newTransaction, meaning]
  · exact fun _ _ known => by cases known
  · exact fun _ member => by cases member
  · exact fun _ _ found => by cases found

/-- Nothing was collected and nothing flushed. -/
theorem idle (recorded : Recorded cfg v s) (same : Collects [] s s') : Recorded cfg v s' := by
  refine ⟨?_, ?_⟩
  · rw [same.flushed, same.transaction]
    exact recorded.pending
  · intro clean
    rw [same.flushed]
    exact recorded.clean (by simpa using same.dirty.symm.trans clean)

theorem flush (recorded : Recorded cfg v s) (factory : Recast.Factory) :
    Recorded cfg v (s.flush factory) := by
  rcases Recast.flush_cases factory s with ⟨kept, -⟩ | flushed
  · exact recorded.idle kept
  · have whole : meaning cfg (s.flush factory).flushed = v := by
      rw [flushed.flushed, meaning_concat, recorded.pending.whole]
    refine ⟨?_, fun _ => whole⟩
    rw [whole, flushed.transaction]
    exact recorded.pending.flush s.host s.port s.srcid

theorem flushSafely (recorded : Recorded cfg v s) (limits : SessionConfig) (factory : Recast.Factory)
    (clock : Clock) : Recorded cfg v (s.flushSafely limits factory clock) := by
  rw [flushSafely_due]
  split
  · exact recorded.flush factory
  · exact recorded

theorem update (recorded : Recorded cfg v s) (limits : SessionConfig) (clock : Clock) {c : SessionCall}
    (orderly : OrderlyCall v s.transaction c) (kept : KeptCall cfg c) :
    Recorded cfg (v.receive c) (s.update limits clock c) :=
  ⟨recorded.pending.collect orderly kept, fun clean => by cases clean⟩

theorem call (recorded : Recorded cfg v s) (limits : SessionConfig) (factory : Recast.Factory)
    (clock : Clock) {c : SessionCall}
    (orderly : OrderlyCall v (s.flushSafely limits factory clock).transaction c)
    (kept : KeptCall cfg c) : Recorded cfg (v.receive c) (s.call limits factory clock c) := by
  have safely := recorded.flushSafely limits factory clock
  cases c with
  | addRecord id rtype name => exact safely.update limits clock orderly kept
  | delRecord id => exact safely.update limits clock orderly kept
  | addAlias id name => exact recorded.update limits clock orderly kept
  | recInfo id key value => exact recorded.update limits clock orderly kept
  | iocInfo key value => exact recorded.update limits clock orderly kept
  | done => exact recorded.flush factory

end Recorded

end Recsync.Db
