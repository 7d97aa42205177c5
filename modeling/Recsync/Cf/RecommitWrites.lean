import Recsync.Cf.Commit

set_option autoImplicit false

namespace Recsync.Cf

open Py (Error)

def valueIn (l : List CFProperty) (name : String) : Option String :=
  (l.find? fun q => q.name == name).map CFProperty.value

theorem valueOf_eq (e : CFEntry) (name : String) : e.valueOf name = valueIn e.properties name := rfl

theorem valueIn_append (first second : List CFProperty) (name : String) :
    valueIn (first ++ second) name =
      if name ∈ first.map CFProperty.name then valueIn first name else valueIn second name := by
  unfold valueIn
  rw [List.find?_append]
  cases found : first.find? fun q => q.name == name with
  | some q =>
    have member : name ∈ first.map CFProperty.name :=
      List.mem_map.mpr ⟨q, List.mem_of_find?_eq_some found, by simpa using List.find?_some found⟩
    simp [member]
  | none =>
    have absent : name ∉ first.map CFProperty.name := by
      intro member
      obtain ⟨q, inside, named⟩ := List.mem_map.mp member
      exact List.find?_eq_none.mp found q inside (by simpa using named)
    simp [absent]

theorem valueIn_cons (q : CFProperty) (l : List CFProperty) (name : String) :
    valueIn (q :: l) name = if q.name = name then some q.value else valueIn l name := by
  unfold valueIn
  by_cases same : q.name = name
  · rw [List.find?_cons_of_pos (by simpa using same), if_pos same, Option.map_some]
  · rw [List.find?_cons_of_neg (by simpa using same), if_neg same]

theorem valueIn_eq_none {l : List CFProperty} {name : String}
    (absent : name ∉ l.map CFProperty.name) : valueIn l name = none := by
  rw [valueIn, Option.map_eq_none_iff, List.find?_eq_none]
  intro q member same
  exact absent (List.mem_map.mpr ⟨q, member, by simpa using same⟩)

theorem valueIn_merge {new : List CFProperty} {name : String}
    (named : name ∈ new.map CFProperty.name) (ch : CFEntry) (managed : List String) :
    valueIn (mergePropertyLists new ch managed) name = valueIn new name := by
  rw [mergePropertyLists, valueIn_append, if_pos named]

theorem valueIn_merge_managed {new : List CFProperty} {name : String} {managed : List String}
    (unnamed : name ∉ new.map CFProperty.name) (isManaged : name ∈ managed) (ch : CFEntry) :
    valueIn (mergePropertyLists new ch managed) name = none := by
  rw [mergePropertyLists, valueIn_append, if_neg unnamed]
  apply valueIn_eq_none
  intro member
  obtain ⟨q, kept, rfl⟩ := List.mem_map.mp member
  have outside : q.name ∉ managed :=
    of_decide_eq_true (Bool.and_eq_true_iff.mp (List.mem_filter.mp kept).2).2
  exact outside isManaged

theorem valueIn_newProperties_iocid (cfg : CFConfig) (ioc : IOCInfo)
    (records : Py.Dict String RecordInfo) (name : String) :
    CFPropertyName.iocId.value ∈ (newProperties cfg ioc records name).map CFProperty.name ∧
      valueIn (newProperties cfg ioc records name) CFPropertyName.iocId.value = some ioc.id := by
  constructor
  · simp [newProperties, createIocProperties]
  · rw [newProperties, valueIn_append, if_pos (by simp [createIocProperties])]
    simp [createIocProperties, valueIn_cons]

theorem valueIn_newProperties_status (cfg : CFConfig) (ioc : IOCInfo)
    (records : Py.Dict String RecordInfo) (name : String) :
    valueIn (newProperties cfg ioc records name) CFPropertyName.pvStatus.value =
      some PVStatus.active.value := by
  rw [newProperties, valueIn_append, if_pos (by simp [createIocProperties])]
  simp [createIocProperties, valueIn_cons]

theorem valueIn_aliasProperties_alias (cfg : CFConfig) (ioc : IOCInfo)
    (records : Py.Dict String RecordInfo) (name : String) :
    valueIn (aliasProperties cfg ioc records name) CFPropertyName.aliasFor.value = some name := by
  rw [aliasProperties, valueIn_cons]
  rfl

/-- A written name holds the last channel written under it. -/
theorem get?_setChannels_last (s : Store) (channels : List CFChannel) (n : String) :
    (setChannels s channels).get? n =
      match (channels.filter fun ch => decide (ch.name = n)).getLast? with
      | some ch => some ch.toCFEntry
      | none => s.get? n := by
  induction channels generalizing s with
  | nil => rfl
  | cons ch rest ih =>
    rw [setChannels_cons, ih, List.filter_cons]
    cases later : (rest.filter fun ch => decide (ch.name = n)).getLast? with
    | some last =>
      have more : ∀ first : CFChannel,
          (first :: rest.filter fun ch => decide (ch.name = n)).getLast? = some last := by
        intro first
        rw [List.getLast?_cons, later]
        rfl
      by_cases same : ch.name = n
      · simp [same, more]
      · simp [same, later]
    | none =>
      have none : (rest.filter fun ch => decide (ch.name = n)) = [] :=
        List.getLast?_eq_none_iff.mp later
      rw [none]
      by_cases same : ch.name = n
      · simp [same]
      · simp [same, Py.Dict.get?_set_ne _ _ (Ne.symm same)]

section Queries

variable {client : ChannelFinderAdapter} {env : Env} {s : Store} {new : List String} {n : String}

/-- The reply to the names is all that is stored under them, and nothing else. -/
def ChannelFinderAdapter.LooksUp (client : ChannelFinderAdapter) (env : Env) (s : Store)
    (new : List String) : Prop :=
  ∀ n, (client.getExistingChannels env s new).get? n = if n ∈ new then s.get? n else none

/-- A reply is exact when it has the stored channels among the names and no others. -/
theorem looksUp_of_reply (reply : ∀ ch, ch ∈ client.findByNames env s (env.setOrder new) ↔
    s.get? ch.name = some ch.toCFEntry ∧ ch.name ∈ new) : client.LooksUp env s new := by
  intro n
  rcases get?_setChannels_cases ∅ (client.findByNames env s (env.setOrder new)) n with
    ⟨missing, unwritten⟩ | ⟨ch, member, rfl, found⟩
  · refine missing.trans ?_
    split
    · rename_i looked
      cases stored : s.get? n with
      | none => rfl
      | some e => exact absurd rfl (unwritten { e with name := n } ((reply _).mpr ⟨stored, looked⟩))
    · rfl
  · obtain ⟨stored, looked⟩ := (reply ch).mp member
    rw [if_pos looked]
    exact found.trans stored.symm

theorem documented_looksUp (env : Env) (s : Store) (new : List String) :
    documented.LooksUp env s new := by
  apply looksUp_of_reply
  intro ch
  rw [documented_findByNames, mem_findByNames, (env.setOrder_perm new).mem_iff]

theorem ChannelFinderAdapter.LooksUp.of_mem (looked : client.LooksUp env s new) (asked : n ∈ new) :
    (client.getExistingChannels env s new).get? n = s.get? n := by
  rw [looked, if_pos asked]

theorem ChannelFinderAdapter.LooksUp.of_not_mem (looked : client.LooksUp env s new)
    (other : n ∉ new) : (client.getExistingChannels env s new).get? n = none := by
  rw [looked, if_neg other]

end Queries

section ProcessNewChannels

variable (cfg : CFConfig) (setup : Setup) (ioc : IOCInfo) (records : Py.Dict String RecordInfo)
  (x : String)

/-- The last write that is going to happen under the name `x`. -/
def NewChannels.lastUnder (st : NewChannels) : Option Pending :=
  (st.pending.filter fun y => decide (y.target = x)).getLast?

variable {x}

theorem lastUnder_overwrite_ne {properties : List CFProperty} {name : String} (other : name ≠ x)
    (e : CFEntry) (st : NewChannels) :
    (overwriteExisting setup properties name e st).lastUnder x = st.lastUnder x ∧
      (overwriteExisting setup properties name e st).existing.get? x = st.existing.get? x := by
  constructor
  · simp [NewChannels.lastUnder, overwriteExisting, Pending.target, other]
  · rw [overwriteExisting, Py.Dict.get?_set_ne _ _ other.symm]

theorem lastUnder_createFresh {properties : List CFProperty} (name : String) (st : NewChannels) :
    (createFresh ioc properties name st).lastUnder x =
      if name = x then some (.fresh (channel name ioc.owner properties)) else st.lastUnder x := by
  by_cases same : name = x <;>
    simp [NewChannels.lastUnder, createFresh, Pending.target, channel, same]

/-- The last write under a name stands. -/
theorem get?_setChannels_resolved (s : Store) (st : NewChannels) :
    (setChannels s (st.pending.map st.resolve)).get? x =
      match st.lastUnder x with
      | some y => some (st.resolve y).toCFEntry
      | none => s.get? x := by
  have targets : (fun ch : CFChannel => decide (ch.name = x)) ∘ st.resolve =
      fun y => decide (y.target = x) := by
    funext y
    simp [resolve_name]
  rw [get?_setChannels_last, List.filter_map, List.getLast?_map, targets, NewChannels.lastUnder]
  cases (st.pending.filter fun y => decide (y.target = x)).getLast? <;> rfl

end ProcessNewChannels

section HandleChannels

variable {cfg : CFConfig} {setup : Setup} {p : Processor} {ioc : IOCInfo}
  {records : Py.Dict String RecordInfo} {del : List Key} {old : List CFChannel}

/-- The in-place update of a channel that is old and new drops its iocid. -/
theorem statusUpdate_iocid (managed : CFPropertyName.iocId.value ∈ setup.managedProperties)
    (extra : List CFProperty) (plain : CFPropertyName.iocId.value ∉ extra.map CFProperty.name)
    (status : PVStatus) (e : CFEntry) :
    valueIn (mergePropertyLists (statusProperties ioc status ++ extra) e setup.managedProperties)
      CFPropertyName.iocId.value = none := by
  refine valueIn_merge_managed ?_ managed e
  simpa [statusProperties] using plain

/-- An entry that does not look like an alias that was just created. -/
def Unsettled (e : CFEntry) : Prop :=
  e.valueOf CFPropertyName.iocId.value = none ∨ e.valueOf CFPropertyName.aliasFor.value = none ∨
    e.valueOf CFPropertyName.pvStatus.value ≠ some PVStatus.active.value

/-- The properties that the configuration makes ChannelFinder forget. -/
structure Managed (cfg : CFConfig) (setup : Setup) : Prop where
  iocid : CFPropertyName.iocId.value ∈ setup.managedProperties
  aliasFor : cfg.aliasEnabled = true → CFPropertyName.aliasFor.value ∈ setup.managedProperties

theorem defaults_unsettled (enabled : cfg.aliasEnabled = true) (managed : Managed cfg setup)
    {name : String} {defaults : List CFProperty}
    (ran : createDefaultProperties cfg p ioc name = .ok defaults) (owner : String) (e : CFEntry) :
    Unsettled ⟨owner, mergePropertyLists defaults e setup.managedProperties⟩ := by
  refine Or.inr (Or.inl (valueIn_merge_managed ?_ (managed.aliasFor enabled) e))
  unfold createDefaultProperties at ran
  split at ran
  · cases ran
  · split at ran
    · cases ran
    · rw [← Except.ok.inj ran]
      simp [createIocProperties]

theorem orphan_unsettled (owner : String) (e : CFEntry) :
    Unsettled ⟨owner, mergePropertyLists (statusProperties ioc .inactive) e []⟩ := by
  refine Or.inr (Or.inr ?_)
  rw [valueOf_eq, valueIn_merge (by simp [statusProperties])]
  simp [statusProperties, valueIn_cons, PVStatus.value]

theorem orphanChannel_unsettled {cf : CFChannel} :
    ∀ ch ∈ orphanChannel cfg ioc records cf, Unsettled ch.toCFEntry := by
  intro ch member
  rcases List.mem_cons.mp member with rfl | listed
  · exact orphan_unsettled _ _
  · obtain ⟨a, -, rfl⟩ := List.mem_map.mp listed
    exact orphan_unsettled _ _

theorem reassignAlias_unsettled (enabled : cfg.aliasEnabled = true) (managed : Managed cfg setup)
    {name a : String} {defaults : List CFProperty} {channels : List CFChannel}
    (made : createDefaultProperties cfg p ioc name = .ok defaults)
    (ran : reassignAlias setup p defaults a = .ok channels) :
    ∀ ch ∈ channels, Unsettled ch.toCFEntry := by
  unfold reassignAlias at ran
  split at ran
  · rw [← Except.ok.inj ran]
    simp
  · split at ran
    · cases ran
    · split at ran
      · rw [← Except.ok.inj ran]
        simp
      · rw [← Except.ok.inj ran]
        intro ch member
        rw [List.mem_singleton.mp member]
        exact defaults_unsettled enabled managed made _ _

theorem handleChannelIsOld_unsettled (enabled : cfg.aliasEnabled = true)
    (managed : Managed cfg setup) {cf : CFChannel} {last : IOCInfo} {channels : List CFChannel}
    (ran : handleChannelIsOld cfg setup p ioc records cf last = .ok channels) :
    ∀ ch ∈ channels, Unsettled ch.toCFEntry := by
  obtain ⟨defaults, made, ran⟩ := Py.bind_ok ran
  obtain ⟨aliases, mapped, ran⟩ := Py.bind_ok ran
  rw [← Except.ok.inj ran]
  intro ch member
  rcases List.mem_cons.mp member with rfl | later
  · exact defaults_unsettled enabled managed made _ _
  · obtain ⟨written, listed, inside⟩ := List.mem_flatten.mp later
    obtain ⟨a, -, reassigned⟩ := Py.mem_of_mapM_ok mapped written listed
    exact reassignAlias_unsettled enabled managed made reassigned ch inside

/-- The alias loop takes every alias off the new names and writes it without an iocid. -/
theorem handleAliasesOldAndNew_ok (managed : Managed cfg setup) {own : CFChannel}
    {aliases new new' : List String} {channels : List CFChannel} (nodup : new.Nodup)
    (ran : handleAliasesOldAndNew setup ioc old own aliases new = .ok (new', channels)) :
    new' ⊆ new ∧ new'.Nodup ∧ (∀ a ∈ aliases, a ∉ new') ∧
      (∀ a ∈ aliases, ∃ ch ∈ channels, ch.name = a) ∧
      ∀ ch ∈ channels, ch.toCFEntry.valueOf CFPropertyName.iocId.value = none := by
  induction aliases generalizing new channels with
  | nil =>
    obtain ⟨rfl, rfl⟩ := Prod.mk.inj (Except.ok.inj ran)
    exact ⟨fun _ => id, nodup, by simp, by simp, by simp⟩
  | cons a rest ih =>
    obtain ⟨removed, here, ran⟩ := Py.bind_ok ran
    obtain ⟨⟨after, later⟩, tail, ran⟩ := Py.bind_ok ran
    obtain ⟨rfl, rfl⟩ := Prod.mk.inj (Except.ok.inj ran)
    unfold removeNew at here
    split at here
    · obtain rfl := Except.ok.inj here
      obtain ⟨subset, still, gone, written, plain⟩ := ih (nodup.erase a) tail
      refine ⟨fun n member => List.mem_of_mem_erase (subset member), still, ?_, ?_, ?_⟩
      · intro b member
        rcases List.mem_cons.mp member with rfl | inside
        · intro left
          exact (nodup.mem_erase_iff.mp (subset left)).1 rfl
        · exact gone b inside
      · intro b member
        rcases List.mem_cons.mp member with rfl | inside
        · exact ⟨_, List.mem_cons_self, rfl⟩
        · obtain ⟨ch, found, name⟩ := written b inside
          exact ⟨ch, by simp [found], name⟩
      · intro ch member
        rcases List.mem_cons.mp member with rfl | inside
        · exact statusUpdate_iocid managed.iocid _ (by simp) _ _
        · exact plain ch inside
    · cases here

theorem handleChannels_cons_ok {cf : CFChannel} {rest : List CFChannel} {new new' : List String}
    {channels : List CFChannel}
    (ran : handleChannels cfg setup p ioc records del old (cf :: rest) new = .ok (new', channels)) :
    ∃ next first later, handleChannel cfg setup p ioc records del old cf new = .ok (next, first) ∧
      handleChannels cfg setup p ioc records del old rest next = .ok (new', later) ∧
      channels = first ++ later := by
  obtain ⟨⟨next, first⟩, head, ran⟩ := Py.bind_ok ran
  obtain ⟨⟨after, later⟩, tail, ran⟩ := Py.bind_ok ran
  obtain ⟨rfl, rfl⟩ := Prod.mk.inj (Except.ok.inj ran)
  exact ⟨next, first, later, head, tail, rfl⟩

theorem handleChannelOldAndNew_ok {cf : CFChannel} {new new' : List String}
    {channels : List CFChannel}
    (ran : handleChannelOldAndNew cfg setup ioc records old cf new = .ok (new', channels)) :
    ∃ rest, cf.name ∈ new ∧
      handleAliasesOldAndNew setup ioc old (channel cf.name cf.owner
        (mergePropertyLists (statusProperties ioc .active) cf.toCFEntry setup.managedProperties))
        (aliasesOf cfg records cf.name) (new.erase cf.name) = .ok (new', rest) ∧
      channels = channel cf.name cf.owner (mergePropertyLists (statusProperties ioc .active)
        cf.toCFEntry setup.managedProperties) :: rest := by
  obtain ⟨removed, here, ran⟩ := Py.bind_ok ran
  obtain ⟨⟨after, rest⟩, tail, ran⟩ := Py.bind_ok ran
  obtain ⟨rfl, rfl⟩ := Prod.mk.inj (Except.ok.inj ran)
  unfold removeNew at here
  split at here
  · rename_i present
    obtain rfl := Except.ok.inj here
    exact ⟨rest, present, tail, rfl⟩
  · cases here

/-- All that one turn of the loop over the old channels can do. -/
theorem handleChannel_cases {cf : CFChannel} {new new' : List String} {channels : List CFChannel}
    (ran : handleChannel cfg setup p ioc records del old cf new = .ok (new', channels)) :
    (new = [] ∨ Key.name cf.name ∈ del) ∧ new' = new ∧
        (channels = orphanChannel cfg ioc records cf ∧
          ((p.ids (.name cf.name)).getLast?.bind p.iocs) = none ∨
          ∃ last, (p.ids (.name cf.name)).getLast?.bind p.iocs = some last ∧
            handleChannelIsOld cfg setup p ioc records cf last = .ok channels) ∨
      ¬ (new = [] ∨ Key.name cf.name ∈ del) ∧ cf.name ∈ new ∧
        handleChannelOldAndNew cfg setup ioc records old cf new = .ok (new', channels) ∨
      ¬ (new = [] ∨ Key.name cf.name ∈ del) ∧ cf.name ∉ new ∧ new' = new ∧ channels = [] := by
  unfold handleChannel at ran
  split at ran
  · rename_i released
    refine Or.inl ⟨released, ?_⟩
    split at ran
    · rename_i untracked
      obtain ⟨rfl, rfl⟩ := Prod.mk.inj (Except.ok.inj ran)
      exact ⟨rfl, Or.inl ⟨rfl, by simp [Processor.ids, untracked]⟩⟩
    · rename_i ids tracked
      split at ran
      · cases ran
      · rename_i last ends
        have holder : (p.ids (.name cf.name)).getLast? = some last := by
          simpa [Processor.ids, tracked] using ends
        split at ran
        · rename_i gone
          obtain ⟨rfl, rfl⟩ := Prod.mk.inj (Except.ok.inj ran)
          exact ⟨rfl, Or.inl ⟨rfl, by simp [holder, gone]⟩⟩
        · rename_i info known
          obtain ⟨released, old, ran⟩ := Py.bind_ok ran
          obtain ⟨rfl, rfl⟩ := Prod.mk.inj (Except.ok.inj ran)
          exact ⟨rfl, Or.inr ⟨info, by simp [holder, known], old⟩⟩
  · rename_i kept
    split at ran
    · rename_i named
      exact Or.inr (Or.inl ⟨kept, named, ran⟩)
    · rename_i unnamed
      obtain ⟨rfl, rfl⟩ := Prod.mk.inj (Except.ok.inj ran)
      exact Or.inr (Or.inr ⟨kept, unnamed, rfl, rfl⟩)

/-- What one turn can do when nothing is deleted by name. -/
theorem handleChannel_ok (unnamed : ∀ n, Key.name n ∉ del) {cf : CFChannel}
    {new new' : List String} {channels : List CFChannel}
    (ran : handleChannel cfg setup p ioc records del old cf new = .ok (new', channels)) :
    new = [] ∧ new' = [] ∧ (channels = orphanChannel cfg ioc records cf ∨
        ∃ last, handleChannelIsOld cfg setup p ioc records cf last = .ok channels) ∨
      new ≠ [] ∧ cf.name ∈ new ∧
        handleChannelOldAndNew cfg setup ioc records old cf new = .ok (new', channels) ∨
      new ≠ [] ∧ cf.name ∉ new ∧ new' = new ∧ channels = [] := by
  have kept : ¬ Key.name cf.name ∈ del := unnamed cf.name
  rcases handleChannel_cases ran with
    ⟨released, rfl, written⟩ | ⟨still, named, updated⟩ | ⟨still, away, rfl, rfl⟩
  · obtain rfl := released.resolve_right kept
    apply Or.inl
    refine ⟨rfl, rfl, ?_⟩
    rcases written with ⟨orphan, -⟩ | ⟨last, -, old⟩
    · exact Or.inl orphan
    · exact Or.inr ⟨last, old⟩
  · exact Or.inr (Or.inl ⟨fun empty => still (Or.inl empty), named, updated⟩)
  · exact Or.inr (Or.inr ⟨fun empty => still (Or.inl empty), away, rfl, rfl⟩)

/-- Nothing that the loop over the old channels writes looks like a fresh alias. -/
theorem handleChannels_unsettled (enabled : cfg.aliasEnabled = true) (managed : Managed cfg setup)
    (unnamed : ∀ n, Key.name n ∉ del) {l : List CFChannel} {new new' : List String}
    {channels : List CFChannel} (nodup : new.Nodup)
    (ran : handleChannels cfg setup p ioc records del old l new = .ok (new', channels)) :
    new' ⊆ new ∧ ∀ ch ∈ channels, Unsettled ch.toCFEntry := by
  induction l generalizing new channels with
  | nil =>
    obtain ⟨rfl, rfl⟩ := Prod.mk.inj (Except.ok.inj ran)
    exact ⟨fun _ => id, by simp⟩
  | cons cf rest ih =>
    obtain ⟨next, first, later, head, tail, rfl⟩ := handleChannels_cons_ok ran
    have step : next ⊆ new ∧ next.Nodup ∧ ∀ ch ∈ first, Unsettled ch.toCFEntry := by
      rcases handleChannel_ok unnamed head with
        ⟨rfl, rfl, written⟩ | ⟨-, -, updated⟩ | ⟨-, -, rfl, rfl⟩
      · refine ⟨fun _ => id, nodup, ?_⟩
        rcases written with rfl | ⟨last, released⟩
        · exact orphanChannel_unsettled
        · exact handleChannelIsOld_unsettled enabled managed released
      · obtain ⟨written, -, aliases, rfl⟩ := handleChannelOldAndNew_ok updated
        obtain ⟨subset, still, -, -, plain⟩ :=
          handleAliasesOldAndNew_ok managed (nodup.erase cf.name) aliases
        refine ⟨fun n member => List.mem_of_mem_erase (subset member), still, ?_⟩
        intro ch member
        rcases List.mem_cons.mp member with rfl | inside
        · exact Or.inl (by
            simpa [valueOf_eq, channel] using
              statusUpdate_iocid managed.iocid [] (by simp) .active cf.toCFEntry)
        · exact Or.inl (plain ch inside)
      · exact ⟨fun _ => id, nodup, by simp⟩
    obtain ⟨subset, rest_unsettled⟩ := ih step.2.1 tail
    refine ⟨fun n member => step.1 (subset member), ?_⟩
    intro ch member
    rcases List.mem_append.mp member with here | there
    · exact step.2.2 ch here
    · exact rest_unsettled ch there

theorem aliasesOf_of_not_mem {n : String} (absent : n ∉ records.keys) :
    aliasesOf cfg records n = [] := by
  rw [aliasesOf, (Py.Dict.get?_eq_none_iff _ _).mpr absent]
  simp

theorem mem_keys_of_alias {n a : String} (listed : a ∈ aliasesOf cfg records n) :
    n ∈ records.keys := by
  by_contra absent
  rw [aliasesOf_of_not_mem absent] at listed
  cases listed

theorem enabled_of_alias {n a : String} (listed : a ∈ aliasesOf cfg records n) :
    cfg.aliasEnabled = true := by
  unfold aliasesOf at listed
  split at listed
  · assumption
  · cases listed

/-- Some channel that is old and new has an alias, which is then taken off the new names and
written. -/
def AliasTaken (cfg : CFConfig) (records : Py.Dict String RecordInfo) (l : List CFChannel)
    (new new' : List String) (channels : List CFChannel) : Prop :=
  ∃ cf ∈ l, cf.name ∈ new ∧ cf.name ∉ new' ∧ ∃ a ∈ aliasesOf cfg records cf.name,
    a ∉ new' ∧ a ∈ channels.map CFChannel.name

theorem AliasTaken.cons {l : List CFChannel} {new next new' : List String}
    {first later : List CFChannel} (taken : AliasTaken cfg records l next new' later)
    (subset : next ⊆ new) (cf : CFChannel) :
    AliasTaken cfg records (cf :: l) new new' (first ++ later) := by
  obtain ⟨d, inside, here, away, a, listed, gone, written⟩ := taken
  refine ⟨d, by simp [inside], subset here, away, a, listed, gone, ?_⟩
  rw [List.map_append]
  exact List.mem_append_right _ written

/-- Every channel that is old and new has no aliases and is written without its iocid. -/
structure PlainUpdates (cfg : CFConfig) (records : Py.Dict String RecordInfo) (l : List CFChannel)
    (new new' : List String) (channels : List CFChannel) : Prop where
  left : new' = new.filter fun n => decide (n ∉ l.map CFChannel.name)
  named : ∀ ch ∈ channels, ch.name ∈ l.map CFChannel.name
  plain : ∀ cf ∈ l, cf.name ∈ new → aliasesOf cfg records cf.name = []
  written : ∀ cf ∈ l, cf.name ∈ new → ∃ ch ∈ channels, ch.name = cf.name
  stripped : ∀ cf ∈ l, cf.name ∈ new → ∀ ch ∈ channels, ch.name = cf.name →
    ch.toCFEntry.valueOf CFPropertyName.iocId.value = none

/-- A turn that leaves the new names alone and writes nothing but its own channel. -/
theorem PlainUpdates.skip {cf : CFChannel} {rest first later : List CFChannel}
    {new new' : List String} (updates : PlainUpdates cfg records rest new new' later)
    (other : cf.name ∉ new) (own : ∀ ch ∈ first, ch.name = cf.name) :
    PlainUpdates cfg records (cf :: rest) new new' (first ++ later) where
  left := by
    rw [updates.left]
    apply List.filter_congr
    intro n member
    have different : n ≠ cf.name := fun same => other (same ▸ member)
    simp [different]
  named := by
    intro ch member
    rcases List.mem_append.mp member with here | there
    · simp [own ch here]
    · exact List.mem_cons_of_mem _ (updates.named ch there)
  plain := by
    intro d member named
    rcases List.mem_cons.mp member with rfl | inside
    · exact absurd named other
    · exact updates.plain d inside named
  written := by
    intro d member named
    rcases List.mem_cons.mp member with rfl | inside
    · exact absurd named other
    · obtain ⟨ch, found, name⟩ := updates.written d inside named
      exact ⟨ch, List.mem_append_right _ found, name⟩
  stripped := by
    intro d member named ch found name
    have different : d.name ≠ cf.name := fun same => other (same ▸ named)
    have inside : d ∈ rest := by
      rcases List.mem_cons.mp member with rfl | inside
      · exact absurd rfl different
      · exact inside
    rcases List.mem_append.mp found with here | there
    · exact absurd (name.symm.trans (own ch here)) different
    · exact updates.stripped d inside named ch there name

/-- A turn that takes its own name off the new names and writes it without its iocid. -/
theorem PlainUpdates.update {cf own : CFChannel} {rest later : List CFChannel}
    {new new' : List String} (nodup : new.Nodup) (fresh : cf.name ∉ rest.map CFChannel.name)
    (updates : PlainUpdates cfg records rest (new.erase cf.name) new' later)
    (noAliases : aliasesOf cfg records cf.name = []) (name : own.name = cf.name)
    (noIocid : own.toCFEntry.valueOf CFPropertyName.iocId.value = none) :
    PlainUpdates cfg records (cf :: rest) new new' (own :: later) := by
  have remains : ∀ d ∈ rest, d.name ∈ new → d.name ∈ new.erase cf.name := by
    intro d inside named
    refine nodup.mem_erase_iff.mpr ⟨?_, named⟩
    intro same
    exact fresh (List.mem_map.mpr ⟨d, inside, same⟩)
  refine ⟨?_, ?_, ?_, ?_, ?_⟩
  · rw [updates.left, nodup.erase_eq_filter, List.filter_filter]
    apply List.filter_congr
    intro n _
    by_cases same : n = cf.name <;> simp [same]
  · intro ch member
    rcases List.mem_cons.mp member with rfl | there
    · simp [name]
    · exact List.mem_cons_of_mem _ (updates.named ch there)
  · intro d member named
    rcases List.mem_cons.mp member with rfl | inside
    · exact noAliases
    · exact updates.plain d inside (remains d inside named)
  · intro d member named
    rcases List.mem_cons.mp member with rfl | inside
    · exact ⟨own, by simp, name⟩
    · obtain ⟨ch, found, same⟩ := updates.written d inside (remains d inside named)
      exact ⟨ch, by simp [found], same⟩
  · intro d member named ch found same
    rcases List.mem_cons.mp member with rfl | inside
    · rcases List.mem_cons.mp found with rfl | there
      · exact noIocid
      · exact absurd (same ▸ updates.named ch there) fresh
    · rcases List.mem_cons.mp found with rfl | there
      · exact noIocid
      · exact updates.stripped d inside (remains d inside named) ch there same

/-- The loop over the old channels takes an alias off the new names, or it updates every
channel that is old and new on its own. -/
theorem handleChannels_split (managed : Managed cfg setup) (unnamed : ∀ n, Key.name n ∉ del)
    {l : List CFChannel} {new new' : List String} {channels : List CFChannel} (nodup : new.Nodup)
    (names : (l.map CFChannel.name).Nodup)
    (complete : ∀ cf ∈ l, cf.name ∈ records.keys → cf.name ∈ new)
    (ran : handleChannels cfg setup p ioc records del old l new = .ok (new', channels)) :
    AliasTaken cfg records l new new' channels ∨
      PlainUpdates cfg records l new new' channels := by
  induction l generalizing new channels with
  | nil =>
    obtain ⟨rfl, rfl⟩ := Prod.mk.inj (Except.ok.inj ran)
    exact Or.inr ⟨by simp, by simp, by simp, by simp, by simp⟩
  | cons cf rest ih =>
    obtain ⟨next, first, later, head, tail, rfl⟩ := handleChannels_cons_ok ran
    obtain ⟨fresh, distinct⟩ := List.nodup_cons.mp names
    have completeRest : ∀ d ∈ rest, d.name ∈ records.keys → d.name ∈ new :=
      fun d member => complete d (by simp [member])
    rcases handleChannel_ok unnamed head with
      ⟨rfl, rfl, written⟩ | ⟨-, named, updated⟩ | ⟨-, other, rfl, rfl⟩
    · -- no new name is left: the channel is not one of the commit, so it has no aliases
      have noAliases : aliasesOf cfg records cf.name = [] :=
        aliasesOf_of_not_mem fun key => absurd (complete cf (by simp) key) (by simp)
      have own : ∀ ch ∈ first, ch.name = cf.name := by
        rcases written with rfl | ⟨last, released⟩
        · simp [orphanChannel, noAliases]
        · obtain ⟨defaults, -, released⟩ := Py.bind_ok released
          rw [noAliases] at released
          obtain rfl := Except.ok.inj released
          simp
      exact (ih nodup distinct completeRest tail).imp (fun taken => taken.cons (fun _ => id) cf)
        fun updates => updates.skip (by simp) own
    · obtain ⟨written, -, aliases, rfl⟩ := handleChannelOldAndNew_ok updated
      obtain ⟨subset, still, gone, listed_written, -⟩ :=
        handleAliasesOldAndNew_ok managed (nodup.erase cf.name) aliases
      cases list : aliasesOf cfg records cf.name with
      | cons a more =>
        have listed : a ∈ aliasesOf cfg records cf.name := by simp [list]
        have onward := (handleChannels_unsettled (enabled_of_alias listed) managed unnamed still
          tail).1
        refine Or.inl ⟨cf, by simp, named, ?_, a, listed, fun left =>
          gone a listed (onward left), ?_⟩
        · intro left
          exact (nodup.mem_erase_iff.mp (subset (onward left))).1 rfl
        · obtain ⟨ch, found, name⟩ := listed_written a listed
          exact List.mem_map.mpr ⟨ch, by simp [found], name⟩
      | nil =>
        rw [list] at aliases
        obtain ⟨rfl, rfl⟩ := Prod.mk.inj (Except.ok.inj aliases)
        have stays : ∀ d ∈ rest, d.name ∈ records.keys → d.name ∈ new.erase cf.name := by
          intro d member key
          refine nodup.mem_erase_iff.mpr ⟨?_, completeRest d member key⟩
          intro same
          exact fresh (List.mem_map.mpr ⟨d, member, same⟩)
        rcases ih (nodup.erase cf.name) distinct stays tail with taken | updates
        · exact Or.inl (taken.cons (fun _ => List.mem_of_mem_erase) cf)
        · refine Or.inr (updates.update nodup fresh list rfl ?_)
          simpa [valueOf_eq, channel] using
            statusUpdate_iocid managed.iocid [] (by simp) .active cf.toCFEntry
    · exact (ih nodup distinct completeRest tail).imp (fun taken => taken.cons (fun _ => id) cf)
        fun updates => updates.skip other (by simp)

/-- Channels without aliases are updated one by one, as long as a new name is left. -/
theorem handleChannels_plain (unnamed : ∀ n, Key.name n ∉ del) {l : List CFChannel}
    {new : List String} (nodup : new.Nodup)
    (plain : ∀ cf ∈ l, cf.name ∈ new → aliasesOf cfg records cf.name = [])
    (left : new.filter (fun n => decide (n ∉ l.map CFChannel.name)) ≠ []) :
    ∃ channels, handleChannels cfg setup p ioc records del old l new =
      .ok (new.filter (fun n => decide (n ∉ l.map CFChannel.name)), channels) := by
  induction l generalizing new with
  | nil => exact ⟨[], by simp [handleChannels]⟩
  | cons cf rest ih =>
    have some : new ≠ [] := by
      rintro rfl
      exact left rfl
    by_cases named : cf.name ∈ new
    · have noAliases := plain cf (by simp) named
      have same : new.filter (fun n => decide (n ∉ (cf :: rest).map CFChannel.name)) =
          (new.erase cf.name).filter (fun n => decide (n ∉ rest.map CFChannel.name)) := by
        rw [nodup.erase_eq_filter, List.filter_filter]
        apply List.filter_congr
        intro n _
        by_cases here : n = cf.name <;> simp [here]
      obtain ⟨later, tail⟩ := ih (nodup.erase cf.name)
        (fun d member inside => plain d (by simp [member]) (List.mem_of_mem_erase inside))
        (same ▸ left)
      have head : handleChannel cfg setup p ioc records del old cf new =
          .ok (new.erase cf.name, [channel cf.name cf.owner (mergePropertyLists
            (statusProperties ioc .active) cf.toCFEntry setup.managedProperties)]) := by
        simp [handleChannel, some, unnamed, named, handleChannelOldAndNew, removeNew, noAliases,
          handleAliasesOldAndNew, bind, Except.bind, pure, Except.pure]
      rw [same]
      exact ⟨_, handleChannels_cons cfg setup p ioc records head tail⟩
    · have same : new.filter (fun n => decide (n ∉ (cf :: rest).map CFChannel.name)) =
          new.filter (fun n => decide (n ∉ rest.map CFChannel.name)) := by
        apply List.filter_congr
        intro n member
        have different : n ≠ cf.name := fun here => named (here ▸ member)
        simp [different]
      obtain ⟨later, tail⟩ := ih nodup (fun d member => plain d (by simp [member])) (same ▸ left)
      have head : handleChannel cfg setup p ioc records del old cf new = .ok (new, []) := by
        simp [handleChannel, some, unnamed, named]
      rw [same]
      exact ⟨_, handleChannels_cons cfg setup p ioc records head tail⟩

end HandleChannels

end Recsync.Cf
