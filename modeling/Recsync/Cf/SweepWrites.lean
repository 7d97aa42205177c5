import Recsync.Cf.Disconnect
import Recsync.Cf.RecommitWrites

set_option autoImplicit false

namespace Recsync.Cf

open Ownership (holder)

def ActiveIn (s : Store) (n : String) : Prop := ∃ e, s.get? n = some e ∧ e.Active

/-- No tracked name is marked Inactive. -/
def Spares (p : Processor) (channels : List CFChannel) : Prop :=
  ∀ ch ∈ channels, p.owners ch.name ≠ [] → ch.toCFEntry.Active

section Writes

variable {cfg : CFConfig} {setup : Setup} {p : Processor} {ioc : IOCInfo}
  {records : Py.Dict String RecordInfo} {del : List Key} {old : List CFChannel}

theorem spares_of_active {channels : List CFChannel}
    (active : ∀ ch ∈ channels, ch.toCFEntry.Active) : Spares p channels :=
  fun ch member _ => active ch member

theorem Spares.append {first second : List CFChannel} (head : Spares p first)
    (tail : Spares p second) : Spares p (first ++ second) := by
  intro ch member
  rcases List.mem_append.mp member with here | there
  · exact head ch here
  · exact tail ch there

/-- A name that somebody serves has a registered holder. -/
theorem Sound.holder_known (sound : Sound p) {n : String} {ids : List String} {last : String}
    (found : p.channelIocIds (.name n) = some ids) (ends : ids.getLast? = some last) :
    (p.iocs last).isSome := by
  apply sound.registered last n
  apply (sound.tracking.linked n last).mp
  rw [Processor.ids, found]
  exact List.mem_of_getLast? ends

/-- What a disconnect releases and another IOC serves is given to that one. -/
theorem releaseChannel_spares (sound : Sound p) (ioc : IOCInfo) (old : List CFChannel) :
    Spares p (old.map (releaseChannel cfg setup p ioc)) := by
  intro ch member tracked
  obtain ⟨cf, -, rfl⟩ := List.mem_map.mp member
  rw [releaseChannel_name] at tracked
  cases holds : holder p.owners cf.name with
  | none => exact absurd ((Ownership.holder_eq_none_iff _ _).mp holds) tracked
  | some j =>
    have serving : cf.name ∈ p.channels j :=
      (sound.tracking.linked cf.name j).mp (Ownership.holder_mem holds)
    obtain ⟨info, known⟩ := Option.isSome_iff_exists.mp (sound.registered j cf.name serving)
    exact (releaseChannel_live cfg setup ioc holds known (sound.keyed j info known)).active

theorem createDefaultProperties_active {n : String} {defaults : List CFProperty}
    (ran : createDefaultProperties cfg p ioc n = .ok defaults) :
    HasProperty defaults .pvStatus PVStatus.active.value := by
  unfold createDefaultProperties at ran
  split at ran
  · cases ran
  · split at ran
    · cases ran
    · rw [← Except.ok.inj ran]
      exact (createIocProperties_sets _ _ _ _ _ _ _).active

theorem reassignAlias_active {defaults : List CFProperty} {a : String} {channels : List CFChannel}
    (active : HasProperty defaults .pvStatus PVStatus.active.value)
    (ran : reassignAlias setup p defaults a = .ok channels) :
    ∀ ch ∈ channels, ch.toCFEntry.Active := by
  unfold reassignAlias at ran
  split at ran
  · rw [← Except.ok.inj ran]
    simp
  · split at ran
    · cases ran
    · split at ran
      · rw [← Except.ok.inj ran]
        simp
      · rw [← Except.ok.inj ran]
        intro ch member
        rw [List.mem_singleton.mp member]
        exact (gives_active active).merged _ _ _

theorem handleChannelIsOld_active {cf : CFChannel} {last : IOCInfo} {channels : List CFChannel}
    (ran : handleChannelIsOld cfg setup p ioc records cf last = .ok channels) :
    ∀ ch ∈ channels, ch.toCFEntry.Active := by
  obtain ⟨defaults, made, ran⟩ := Py.bind_ok ran
  obtain ⟨aliases, mapped, ran⟩ := Py.bind_ok ran
  have active := createDefaultProperties_active made
  rw [← Except.ok.inj ran]
  intro ch member
  rcases List.mem_cons.mp member with rfl | later
  · exact (gives_active active).merged _ _ _
  · obtain ⟨written, listed, inside⟩ := List.mem_flatten.mp later
    obtain ⟨a, -, reassigned⟩ := Py.mem_of_mapM_ok mapped written listed
    exact reassignAlias_active active reassigned ch inside

theorem statusProperties_active (extra : List CFProperty) :
    HasProperty (statusProperties ioc .active ++ extra) .pvStatus PVStatus.active.value := by
  simp [statusProperties, hasProperty_cons]

/-- The alias loop writes Active channels only, among them every name that it takes off. -/
theorem handleAliasesOldAndNew_active {own : CFChannel} {aliases new new' : List String}
    {channels : List CFChannel}
    (ran : handleAliasesOldAndNew setup ioc old own aliases new = .ok (new', channels)) :
    (∀ ch ∈ channels, ch.toCFEntry.Active) ∧
      ∀ n ∈ new, n ∈ new' ∨ n ∈ channels.map CFChannel.name := by
  induction aliases generalizing new channels with
  | nil =>
    obtain ⟨rfl, rfl⟩ := Prod.mk.inj (Except.ok.inj ran)
    exact ⟨by simp, fun n member => Or.inl member⟩
  | cons a rest ih =>
    obtain ⟨removed, here, ran⟩ := Py.bind_ok ran
    obtain ⟨⟨after, later⟩, tail, ran⟩ := Py.bind_ok ran
    obtain ⟨rfl, rfl⟩ := Prod.mk.inj (Except.ok.inj ran)
    unfold removeNew at here
    split at here
    · obtain rfl := Except.ok.inj here
      obtain ⟨active, covered⟩ := ih tail
      refine ⟨?_, ?_⟩
      · intro ch member
        rcases List.mem_cons.mp member with rfl | inside
        · exact (gives_active (statusProperties_active _)).merged _ _ _
        · exact active ch inside
      · intro n member
        by_cases same : n = a
        · exact Or.inr (List.mem_cons.mpr (Or.inl same))
        · rcases covered n ((List.mem_erase_of_ne same).mpr member) with left | written
          · exact Or.inl left
          · exact Or.inr (List.mem_cons_of_mem _ written)
    · cases here

/-- One turn of the loop over the old channels never marks a tracked name Inactive, and it
writes every name that it takes off the new ones. -/
theorem handleChannel_spares (sound : Sound p) (unnamed : ∀ n, Key.name n ∉ del)
    (tracked : ∀ n ∈ records.keys, p.owners n ≠ []) {cf : CFChannel} {new new' : List String}
    {channels : List CFChannel}
    (ran : handleChannel cfg setup p ioc records del old cf new = .ok (new', channels)) :
    Spares p channels ∧ ∀ n ∈ new, n ∈ new' ∨ n ∈ channels.map CFChannel.name := by
  rcases handleChannel_ok unnamed ran with
    ⟨rfl, rfl, -⟩ | ⟨-, -, updated⟩ | ⟨-, -, rfl, rfl⟩
  · refine ⟨?_, by simp⟩
    unfold handleChannel at ran
    rw [if_pos (Or.inl rfl)] at ran
    split at ran
    · -- a name that nobody tracks is no record of this commit and has no aliases here
      rename_i untracked
      obtain ⟨-, rfl⟩ := Prod.mk.inj (Except.ok.inj ran)
      have nobody : p.owners cf.name = [] := by simp [Processor.owners, Processor.ids, untracked]
      have plain : aliasesOf cfg records cf.name = [] :=
        aliasesOf_of_not_mem fun key => tracked cf.name key nobody
      intro ch member served
      rw [orphanChannel, plain, List.map_nil] at member
      rw [List.mem_singleton.mp member] at served
      exact absurd nobody served
    · rename_i ids found
      split at ran
      · cases ran
      · rename_i last ends
        have known := sound.holder_known found ends
        split at ran
        · rename_i gone
          rw [gone] at known
          cases known
        · obtain ⟨released, handled, ran⟩ := Py.bind_ok ran
          obtain ⟨-, rfl⟩ := Prod.mk.inj (Except.ok.inj ran)
          exact spares_of_active (handleChannelIsOld_active handled)
  · obtain ⟨rest, -, aliases, rfl⟩ := handleChannelOldAndNew_ok updated
    obtain ⟨active, covered⟩ := handleAliasesOldAndNew_active aliases
    refine ⟨spares_of_active ?_, ?_⟩
    · intro ch member
      rcases List.mem_cons.mp member with rfl | inside
      · exact (gives_active (List.append_nil (statusProperties ioc .active) ▸
          statusProperties_active [])).merged _ _ _
      · exact active ch inside
    · intro n member
      by_cases same : n = cf.name
      · exact Or.inr (by simp [same])
      · rcases covered n ((List.mem_erase_of_ne same).mpr member) with left | written
        · exact Or.inl left
        · exact Or.inr (List.mem_cons_of_mem _ written)
  · exact ⟨spares_of_active (by simp), fun n member => Or.inl member⟩

theorem handleChannels_spares (sound : Sound p) (unnamed : ∀ n, Key.name n ∉ del)
    (tracked : ∀ n ∈ records.keys, p.owners n ≠ []) {l : List CFChannel} {new new' : List String}
    {channels : List CFChannel}
    (ran : handleChannels cfg setup p ioc records del old l new = .ok (new', channels)) :
    Spares p channels ∧ ∀ n ∈ new, n ∈ new' ∨ n ∈ channels.map CFChannel.name := by
  induction l generalizing new channels with
  | nil =>
    obtain ⟨rfl, rfl⟩ := Prod.mk.inj (Except.ok.inj ran)
    exact ⟨spares_of_active (by simp), fun n member => Or.inl member⟩
  | cons cf rest ih =>
    obtain ⟨next, first, later, head, tail, rfl⟩ := handleChannels_cons_ok ran
    obtain ⟨here, taken⟩ := handleChannel_spares sound unnamed tracked head
    obtain ⟨there, left⟩ := ih tail
    refine ⟨here.append there, ?_⟩
    intro n member
    rw [List.map_append, List.mem_append]
    rcases taken n member with still | written
    · exact (left n still).imp id Or.inr
    · exact Or.inr (Or.inl written)

theorem newProperties_active (n : String) :
    HasProperty (newProperties cfg ioc records n) .pvStatus PVStatus.active.value :=
  (hasProperty_append _ _ _ _).mpr (Or.inl (createIocProperties_sets _ _ _ _ _ _ _).active)

/-- The create and move paths write every new name, and everything Active. -/
theorem processNewChannels_active (env : Env) (new : List String)
    (existing : Py.Dict String CFEntry) :
    (∀ ch ∈ processNewChannels cfg setup ioc records env new existing, ch.toCFEntry.Active) ∧
      ∀ n ∈ new, n ∈ (processNewChannels cfg setup ioc records env new existing).map
        CFChannel.name := by
  obtain ⟨active, names⟩ := processNewChannels_writes cfg setup ioc
    (fun n => gives_active (newProperties_active n))
    (fun n => gives_active ((hasProperty_cons _ _ _ _).mpr (Or.inr (newProperties_active n))))
    env new existing
  refine ⟨active, ?_⟩
  intro n member
  rw [names, List.mem_flatMap]
  exact ⟨n, (env.setOrder_perm new).mem_iff.mpr member, by simp⟩

/-- With a size limit that is not negative, the batches hold all that is to be written. -/
theorem batches_ok (nonneg : 0 ≤ cfg.cfQueryLimit) {env : Env} {new : List String}
    {handled : List CFChannel} {existing : Py.Dict String CFEntry} {bs : List (List CFChannel)}
    (planned : batches cfg setup env records ioc old new handled existing = .ok bs) :
    bs.flatten = handled ++ processNewChannels cfg setup ioc records env new existing := by
  by_cases positive : 0 < cfg.cfQueryLimit
  · obtain ⟨all, same, flat⟩ := @batches_flatten cfg setup env records ioc positive old new handled
      existing
    rw [planned] at same
    rw [Except.ok.inj same, flat]
  · have zero : cfg.cfQueryLimit = 0 := by omega
    unfold batches at planned
    dsimp only at planned
    split at planned
    · rename_i nothing
      rw [← Except.ok.inj planned, nothing.1]
      rfl
    · rw [cfSetChunked, if_pos zero] at planned
      cases planned

/-- A write that spares the tracked names leaves them Active. -/
theorem Spares.activeIn {channels : List CFChannel} (spares : Spares p channels) {s : Store}
    {n : String} (tracked : p.owners n ≠ []) (active : ActiveIn s n) :
    ActiveIn (setChannels s channels) n := by
  rcases get?_setChannels_cases s channels n with ⟨kept, -⟩ | ⟨ch, member, name, written⟩
  · rw [ActiveIn, kept]
    exact active
  · exact ⟨_, written, spares ch member (name ▸ tracked)⟩

end Writes

end Recsync.Cf
