import Recsync.Recast.Sources

set_option autoImplicit false

/- What deleting and adding again leave of a record in the transaction. -/
namespace Recsync.Recast

open Runs (EveryStep)
open CollectionSession

section Live

/-- A record exists once it is added and until it is deleted. -/
def live (recordId : Nat) (calls : List SessionCall) : Bool :=
  calls.foldl (fun alive => fun
    | .addRecord target _ _ => alive || decide (target = recordId)
    | .delRecord target => alive && decide (target ≠ recordId)
    | _ => alive) false

def sinceAdded (recordId : Nat) (calls : List SessionCall) : List SessionCall :=
  calls.foldl (fun since c =>
    match c with
    | .addRecord target _ _ => if target = recordId then [] else since ++ [c]
    | _ => since ++ [c]) []

variable (recordId : Nat) (calls : List SessionCall)

theorem live_append_addRecord (target : Nat) (recordType recordName : String) :
    live recordId (calls ++ [.addRecord target recordType recordName]) =
      (live recordId calls || decide (target = recordId)) := List.foldl_append

theorem live_append_delRecord (target : Nat) :
    live recordId (calls ++ [.delRecord target]) =
      (live recordId calls && decide (target ≠ recordId)) := List.foldl_append

/-- A record lives on unless it is deleted. -/
theorem live_append {c : SessionCall} (alive : live recordId calls = true)
    (kept : c ≠ .delRecord recordId) : live recordId (calls ++ [c]) = true := by
  cases c with
  | addRecord target recordType recordName =>
    rw [live_append_addRecord, alive, Bool.true_or]
  | delRecord target =>
    have other : target ≠ recordId := fun same => kept (congrArg SessionCall.delRecord same)
    rw [live_append_delRecord, alive, Bool.true_and]
    exact decide_eq_true other
  | addAlias target recordName => exact List.foldl_append.trans alive
  | recInfo target key value => exact List.foldl_append.trans alive
  | iocInfo key value => exact List.foldl_append.trans alive
  | done => exact List.foldl_append.trans alive

theorem sinceAdded_append {c : SessionCall}
    (other : ∀ recordType recordName, c ≠ .addRecord recordId recordType recordName) :
    sinceAdded recordId (calls ++ [c]) = sinceAdded recordId calls ++ [c] := by
  rw [sinceAdded, List.foldl_append]
  cases c with
  | addRecord target recordType recordName =>
    apply if_neg
    rintro rfl
    exact other recordType recordName rfl
  | delRecord target => rfl
  | addAlias target recordName => rfl
  | recInfo target key value => rfl
  | iocInfo key value => rfl
  | done => rfl

end Live

/-- The record exists, and the aliases are the last ones that it was given since it was added. -/
def AliasesSince (calls : List SessionCall) (recordId : Nat) (names : List String) : Prop :=
  live recordId calls = true ∧ names <:+ aliasesOf recordId (sinceAdded recordId calls)

/-- The record exists, and each info is the last one with its key since the record was added. -/
def InfosSince (calls : List SessionCall) (recordId : Nat) (infos : Py.Dict String String) : Prop :=
  live recordId calls = true ∧ ∀ key value, infos.get? key = some value →
    infoOf recordId key (sinceAdded recordId calls) = some value

/-- A transaction speaks of records that exist, and of each one only as it was said since the
record was last added. -/
structure Erased (calls : List SessionCall) (t : Transaction) : Prop where
  aliases : ∀ recordId names, t.aliases.get? recordId = some names →
    AliasesSince calls recordId names
  infos : ∀ recordId infos, t.recordInfosToAdd.get? recordId = some infos →
    InfosSince calls recordId infos

def Refers (calls : List SessionCall) : SessionCall → Prop
  | .addAlias recordId _ => live recordId calls = true
  | .recInfo recordId _ _ => live recordId calls = true
  | _ => True

/-- A record that is deleted has no alias in the transaction, and one that is added has neither
an alias nor an info in it. -/
def Clears (t : Transaction) : SessionCall → Prop
  | .addRecord recordId _ _ =>
    t.aliases.get? recordId = none ∧ t.recordInfosToAdd.get? recordId = none
  | .delRecord recordId => t.aliases.get? recordId = none
  | _ => True

/-- The call neither adds nor deletes the record. -/
def Spares (recordId : Nat) (c : SessionCall) : Prop :=
  c ≠ .delRecord recordId ∧
    ∀ recordType recordName, c ≠ .addRecord recordId recordType recordName

section Since

variable {calls : List SessionCall} {recordId : Nat} {c : SessionCall}

theorem AliasesSince.append {names more : List String} (since : AliasesSince calls recordId names)
    (spares : Spares recordId c) (said : aliasesOf recordId [c] = more) :
    AliasesSince (calls ++ [c]) recordId (names ++ more) := by
  obtain ⟨alive, suffix⟩ := since
  refine ⟨live_append recordId calls alive spares.1, ?_⟩
  rw [sinceAdded_append recordId calls spares.2, aliasesOf_append, said]
  exact List.suffix_append_self_iff.mpr suffix

theorem InfosSince.append {infos : Py.Dict String String} (since : InfosSince calls recordId infos)
    (spares : Spares recordId c) (nothing : ∀ key, infoOf recordId key [c] = none) :
    InfosSince (calls ++ [c]) recordId infos := by
  obtain ⟨alive, said⟩ := since
  refine ⟨live_append recordId calls alive spares.1, ?_⟩
  intro key value held
  rw [sinceAdded_append recordId calls spares.2, infoOf_append, nothing key, Option.none_or]
  exact said key value held

theorem InfosSince.set {infos : Py.Dict String String} (since : InfosSince calls recordId infos)
    (key value : String) :
    InfosSince (calls ++ [.recInfo recordId key value]) recordId (infos.set key value) := by
  obtain ⟨alive, said⟩ := since
  refine ⟨live_append recordId calls alive (by simp), ?_⟩
  intro name other held
  rw [sinceAdded_append recordId calls (by simp), infoOf_append]
  by_cases same : name = key
  · subst same
    rw [Py.Dict.get?_set_self] at held
    simpa [infoOf] using held
  · rw [Py.Dict.get?_set_ne _ _ same] at held
    have different : ¬ key = name := fun equal => same equal.symm
    simpa [infoOf, different] using said name other held

end Since

namespace Erased

variable {calls : List SessionCall} {t : Transaction}

theorem empty (calls : List SessionCall) {t : Transaction} (aliases : t.aliases = ∅)
    (infos : t.recordInfosToAdd = ∅) : Erased calls t where
  aliases recordId names listed := by simp [aliases] at listed
  infos recordId found listed := by simp [infos] at listed

/-- A call that keeps the entries it is not about, and continues or starts the one it is about. -/
theorem keep (erased : Erased calls t) {c : SessionCall} {t' : Transaction}
    (aliases : ∀ recordId names, t'.aliases.get? recordId = some names →
      AliasesSince (calls ++ [c]) recordId names ∨ t.aliases.get? recordId = some names ∧
        Spares recordId c ∧ aliasesOf recordId [c] = [])
    (infos : ∀ recordId infos, t'.recordInfosToAdd.get? recordId = some infos →
      InfosSince (calls ++ [c]) recordId infos ∨ t.recordInfosToAdd.get? recordId = some infos ∧
        Spares recordId c ∧ ∀ key, infoOf recordId key [c] = none) :
    Erased (calls ++ [c]) t' where
  aliases recordId names listed := by
    rcases aliases recordId names listed with now | ⟨before, spares, nothing⟩
    · exact now
    · have since := (erased.aliases recordId names before).append spares nothing
      rwa [List.append_nil] at since
  infos recordId found listed := by
    rcases infos recordId found listed with now | ⟨before, spares, nothing⟩
    · exact now
    · exact (erased.infos recordId found before).append spares nothing

theorem unchanged (erased : Erased calls t) {c : SessionCall} {t' : Transaction}
    (spares : ∀ recordId, Spares recordId c) (noAlias : ∀ recordId, aliasesOf recordId [c] = [])
    (noInfo : ∀ recordId key, infoOf recordId key [c] = none) (aliases : t'.aliases = t.aliases)
    (infos : t'.recordInfosToAdd = t.recordInfosToAdd) : Erased (calls ++ [c]) t' := by
  apply erased.keep
  · intro id names listed
    exact Or.inr ⟨aliases ▸ listed, spares id, noAlias id⟩
  · intro id found listed
    exact Or.inr ⟨infos ▸ listed, spares id, noInfo id⟩

theorem addAlias (erased : Erased calls t) {recordId : Nat} (recordName : String)
    (alive : live recordId calls = true) :
    Erased (calls ++ [.addAlias recordId recordName]) (t.addAlias recordId recordName) := by
  have before : AliasesSince calls recordId ((t.aliases.get? recordId).getD []) := by
    cases listed : t.aliases.get? recordId with
    | none => exact ⟨alive, List.nil_suffix⟩
    | some names => exact erased.aliases recordId names listed
  apply erased.keep
  · intro id names listed
    by_cases same : id = recordId
    · subst same
      left
      have now : (t.aliases.get? id).getD [] ++ [recordName] = names := by
        simpa [Transaction.addAlias] using listed
      rw [← now]
      exact before.append ⟨by simp, by simp⟩ (by simp [aliasesOf])
    · right
      have other : ¬ recordId = id := fun equal => same equal.symm
      refine ⟨?_, ⟨by simp, by simp⟩, by simp [aliasesOf, other]⟩
      simpa only [Transaction.addAlias, Py.Dict.get?_set_ne _ _ same] using listed
  · intro id found listed
    exact Or.inr ⟨listed, ⟨by simp, by simp⟩, fun _ => rfl⟩

theorem recInfo (erased : Erased calls t) {recordId : Nat} (key value : String)
    (alive : live recordId calls = true) :
    Erased (calls ++ [.recInfo recordId key value]) (t.recInfo recordId key value) := by
  have before : InfosSince calls recordId ((t.recordInfosToAdd.get? recordId).getD ∅) := by
    cases listed : t.recordInfosToAdd.get? recordId with
    | none => exact ⟨alive, by simp⟩
    | some found => exact erased.infos recordId found listed
  apply erased.keep
  · intro id names listed
    exact Or.inr ⟨listed, ⟨by simp, by simp⟩, rfl⟩
  · intro id found listed
    by_cases same : id = recordId
    · subst same
      left
      have now : ((t.recordInfosToAdd.get? id).getD ∅).set key value = found := by
        simpa [Transaction.recInfo] using listed
      rw [← now]
      exact before.set key value
    · right
      have other : ¬ recordId = id := fun equal => same equal.symm
      refine ⟨?_, ⟨by simp, by simp⟩, by simp [infoOf, other]⟩
      simpa only [Transaction.recInfo, Py.Dict.get?_set_ne _ _ same] using listed

/-- What a record leaves in the transaction when it is deleted is its aliases, and what it finds
there when it is added is everything. -/
theorem collect (erased : Erased calls t) {c : SessionCall} (refers : Refers calls c)
    (clears : Clears t c) : Erased (calls ++ [c]) (t.collect c) := by
  cases c with
  | addAlias recordId recordName => exact erased.addAlias recordName refers
  | recInfo recordId key value => exact erased.recInfo key value refers
  | addRecord recordId recordType recordName =>
    apply erased.keep
    · intro id names listed
      refine Or.inr ⟨listed, ⟨by simp, ?_⟩, rfl⟩
      rintro _ _ ⟨⟩
      exact absurd (clears.1.symm.trans listed) (by simp)
    · intro id found listed
      refine Or.inr ⟨listed, ⟨by simp, ?_⟩, fun _ => rfl⟩
      rintro _ _ ⟨⟩
      exact absurd (clears.2.symm.trans listed) (by simp)
  | delRecord recordId =>
    apply erased.keep
    · intro id names listed
      refine Or.inr ⟨listed, ⟨?_, by simp⟩, rfl⟩
      rintro ⟨⟩
      exact absurd (Eq.trans clears.symm listed) (by simp)
    · intro id found listed
      simp only [Transaction.collect, Transaction.delRecord, Py.Dict.get?_erase] at listed
      split at listed
      · cases listed
      · rename_i other
        refine Or.inr ⟨listed, ⟨?_, by simp⟩, fun _ => rfl⟩
        rintro ⟨⟩
        exact other rfl
  | iocInfo key value =>
    exact erased.unchanged (fun _ => ⟨by simp, by simp⟩) (fun _ => rfl) (fun _ _ => rfl) rfl rfl
  | done =>
    exact erased.unchanged (fun _ => ⟨by simp, by simp⟩) (fun _ => rfl) (fun _ _ => rfl) rfl rfl

end Erased

/-- What the calls are about, and what the transaction holds of it when a record is added or
deleted and nothing is flushed first. -/
def Replaces (cfg : SessionConfig) (calls : List SessionCall) (s : CollectionSession) :
    CollectionSession.Event → Prop
  | .call clock c => Refers calls c ∧ (due cfg clock s = false → Clears s.transaction c)
  | _ => True

/-- The step takes the transaction out of the session, for the chain of commits. -/
def Takes (cfg : SessionConfig) (factory : Factory) (s : CollectionSession)
    (e : CollectionSession.Event) (t : Transaction) : Prop :=
  (s.step cfg factory e).flushed = s.flushed ++ [t]

/-- A transaction that says nothing about aliases and infos. -/
def Transaction.Blank (t : Transaction) : Prop := t.aliases = ∅ ∧ t.recordInfosToAdd = ∅

theorem Transaction.Blank.clears {t : Transaction} (blank : t.Blank) (c : SessionCall) :
    Clears t c := by
  obtain ⟨aliases, infos⟩ := blank
  cases c <;> simp [Clears, aliases, infos]

/-- The transaction of the session is clean with respect to the calls so far. -/
structure Tidy (calls : List SessionCall) (s : CollectionSession) : Prop where
  erased : Erased calls s.transaction
  blank : s.dirty = false → s.transaction.Blank

section Steps

variable (cfg : SessionConfig) (factory : Factory) {calls : List SessionCall}
  {s : CollectionSession}

theorem Tidy.flush_blank (tidy : Tidy calls s) : (s.flush factory).transaction.Blank := by
  rcases flush_cases factory s with ⟨kept, clean⟩ | flush
  · rw [kept.transaction]
    exact tidy.blank clean
  · rw [flush.transaction]
    exact ⟨rfl, rfl⟩

theorem Tidy.flush (tidy : Tidy calls s) : Tidy calls (s.flush factory) where
  erased := Erased.empty calls (tidy.flush_blank factory).1 (tidy.flush_blank factory).2
  blank _ := tidy.flush_blank factory

/-- After `flush_safely` the transaction holds nothing of what is added or deleted. -/
theorem Tidy.flushSafely (tidy : Tidy calls s) {clock : Clock} {c : SessionCall}
    (clears : due cfg clock s = false → Clears s.transaction c) :
    Tidy calls (s.flushSafely cfg factory clock) ∧
      Clears (s.flushSafely cfg factory clock).transaction c := by
  rw [flushSafely_due]
  split
  · exact ⟨tidy.flush factory, (tidy.flush_blank factory).clears c⟩
  · rename_i early
    exact ⟨tidy, clears (Bool.eq_false_iff.mpr early)⟩

theorem Tidy.update (tidy : Tidy calls s) (clock : Clock) {c : SessionCall}
    (refers : Refers calls c) (clears : Clears s.transaction c) :
    Tidy (calls ++ [c]) (s.update cfg clock c) where
  erased := tidy.erased.collect refers clears
  blank clean := by cases clean

theorem Tidy.call (tidy : Tidy calls s) {clock : Clock} {c : SessionCall}
    (refers : Refers calls c) (clears : due cfg clock s = false → Clears s.transaction c) :
    Tidy (calls ++ [c]) (s.call cfg factory clock c) := by
  cases c with
  | addRecord recordId recordType recordName =>
    have ⟨flushed, cleared⟩ := tidy.flushSafely cfg factory clears
    exact flushed.update cfg clock trivial cleared
  | delRecord recordId =>
    have ⟨flushed, cleared⟩ := tidy.flushSafely cfg factory clears
    exact flushed.update cfg clock trivial cleared
  | addAlias recordId recordName => exact tidy.update cfg clock refers trivial
  | recInfo recordId key value => exact tidy.update cfg clock refers trivial
  | iocInfo key value => exact tidy.update cfg clock trivial trivial
  | done =>
    have flushed := tidy.flush factory
    exact ⟨flushed.erased.collect trivial trivial, flushed.blank⟩

theorem Tidy.step (tidy : Tidy calls s) {e : CollectionSession.Event}
    (replaces : Replaces cfg calls s e) :
    Tidy (calls ++ received [e]) (s.step cfg factory e) := by
  cases e with
  | call clock c => exact tidy.call cfg factory replaces.1 replaces.2
  | close =>
    have blank : (s.close factory).transaction.Blank := by
      unfold close
      rw [flush_dirty factory rfl]
      exact ⟨rfl, rfl⟩
    rw [show received [CollectionSession.Event.close] = [] from rfl, List.append_nil]
    exact ⟨Erased.empty calls blank.1 blank.2, fun _ => blank⟩
  | fires outcome =>
    have same := fire_collects factory s outcome
    rw [show received [CollectionSession.Event.fires outcome] = [] from rfl, List.append_nil]
    constructor
    · exact same.transaction ▸ tidy.erased
    · intro clean
      have before : s.dirty = false := by simpa using same.dirty.symm.trans clean
      exact same.transaction ▸ tidy.blank before

/-- A step takes the transaction that was pending, the one that says that the client is gone, or
none. -/
theorem step_flushed (s : CollectionSession) (e : CollectionSession.Event) :
    (s.step cfg factory e).flushed = s.flushed ∨
      ∃ t, Takes cfg factory s e t ∧ (t = s.transaction ∨ t.Blank) := by
  cases e with
  | call clock c =>
    rcases call_cases cfg factory clock s c with ⟨later, collects⟩ | ⟨-, later, flush, collects⟩
    · exact Or.inl collects.flushed
    · exact Or.inr ⟨s.transaction, collects.flushed.trans flush.flushed, Or.inl rfl⟩
  | close => exact Or.inr ⟨_, close_flushed factory s, Or.inr ⟨rfl, rfl⟩⟩
  | fires outcome => exact Or.inl (fire_flushed factory s outcome)

theorem Tidy.takes (tidy : Tidy calls s) {e : CollectionSession.Event} {t : Transaction}
    (takes : Takes cfg factory s e t) : Erased calls t := by
  rcases step_flushed cfg factory s e with same | ⟨taken, flushed, which⟩
  · have longer := congrArg List.length (takes.symm.trans same)
    simp at longer
  · obtain rfl : taken = t := by
      have same := List.append_cancel_left (flushed.symm.trans takes)
      simpa using same
    rcases which with rfl | blank
    · exact tidy.erased
    · exact Erased.empty calls blank.1 blank.2

theorem flushed_by_step {start : CollectionSession} (fresh : start.flushed = [])
    (events : List CollectionSession.Event) :
    ∀ t ∈ (start.run cfg factory events).flushed, ∃ done e rest, events = done ++ e :: rest ∧
      Takes cfg factory (start.run cfg factory done) e t := by
  induction events using List.reverseRecOn with
  | nil => simp [fresh]
  | append_singleton events e ih =>
    intro t member
    have later (inside : t ∈ (start.run cfg factory events).flushed) :
        ∃ done e' rest, events ++ [e] = done ++ e' :: rest ∧
          Takes cfg factory (start.run cfg factory done) e' t := by
      obtain ⟨done, e', rest, split, takes⟩ := ih t inside
      exact ⟨done, e', rest ++ [e], by simp [split], takes⟩
    rw [run_append, run_cons, run_nil] at member
    rcases step_flushed cfg factory (start.run cfg factory events) e with
      same | ⟨taken, takes, -⟩
    · exact later (same ▸ member)
    · rw [takes, List.mem_append, List.mem_singleton] at member
      rcases member with old | rfl
      · exact later old
      · exact ⟨events, e, [], rfl, takes⟩

end Steps

/-- Whatever flushes when, a transaction says nothing about a record that was deleted, and about
one that was added again only what was said since, if no alias of a record is pending when it is
deleted and neither an alias nor an info when it is added. -/
theorem flushed_erased (cfg : SessionConfig) (factory : Factory) (host : String)
    (port srcid : Nat) (events : List CollectionSession.Event)
    (replaces : EveryStep (fun done e => Replaces cfg (received done)
      ((opened host port srcid).run cfg factory done) e) events) :
    (∀ t ∈ handed ((opened host port srcid).run cfg factory events).log,
      ∃ done e rest, events = done ++ e :: rest ∧
        Takes cfg factory ((opened host port srcid).run cfg factory done) e t) ∧
    ∀ done e rest t, events = done ++ e :: rest →
      Takes cfg factory ((opened host port srcid).run cfg factory done) e t →
        Erased (received done) t := by
  constructor
  · intro t member
    have ⟨settled, state⟩ := run_ordered cfg factory (opened_ordered host port srcid) events
    exact flushed_by_step cfg factory rfl events t (state.handed_prefix.subset member)
  · intro done e rest t split takes
    have tidy : Tidy (received done) ((opened host port srcid).run cfg factory done) := by
      apply replaces.maintains
        (I := fun done => Tidy (received done) ((opened host port srcid).run cfg factory done))
      · exact ⟨Erased.empty [] rfl rfl, fun _ => ⟨rfl, rfl⟩⟩
      · intro done e _ tidy allowed
        rw [received_append, run_append, run_cons, run_nil]
        exact tidy.step cfg factory allowed
      · exact ⟨e :: rest, split.symm⟩
    exact tidy.takes cfg factory takes

/-- A record with an info and no alias is deleted and added again. -/
theorem flushed_erased_info :
    let done : List CollectionSession.Event := [.call {} (.addRecord 1 "ai" "one"),
      .call {} (.recInfo 1 "k" "old"), .call {} (.delRecord 1), .call {} (.addRecord 1 "ai" "one"),
      .call {} (.recInfo 1 "l" "new")]
    let s := (opened "h" 1 7).run {} (fun _ => some (.ok ())) done
    Erased (received done) s.transaction := by
  intro done s
  apply (flushed_erased {} (fun _ => some (.ok ())) "h" 1 7 (done ++ [.call {} .done]) ?_).2 done
    (.call {} .done) [] s.transaction rfl rfl
  refine .cons ⟨trivial, fun _ => ⟨rfl, rfl⟩⟩ ?_
  refine .cons ⟨rfl, fun _ => trivial⟩ ?_
  refine .cons ⟨trivial, fun _ => rfl⟩ ?_
  refine .cons ⟨trivial, fun _ => ⟨rfl, rfl⟩⟩ ?_
  refine .cons ⟨rfl, fun _ => trivial⟩ ?_
  exact .cons ⟨trivial, fun _ => trivial⟩ (.nil _)

/-- `del_record` leaves the aliases of the record in the transaction. -/
theorem alias_outlives_record :
    let events : List CollectionSession.Event := [.call {} (.addRecord 1 "ai" "one"),
      .call {} (.addAlias 1 "also"), .call {} (.delRecord 1), .call {} .done]
    let s := (opened "h" 1 7).run {} (fun _ => some (.ok ())) events
    EveryStep Refers (received events) ∧ live 1 (received events) = false ∧
      ∃ t ∈ handed s.log, t.aliases.get? 1 = some ["also"] := by
  refine ⟨?_, rfl, ⟨_, List.mem_singleton.mpr rfl, rfl⟩⟩
  refine .cons trivial ?_
  refine .cons rfl ?_
  refine .cons trivial ?_
  exact .cons trivial (.nil _)

end Recsync.Recast
