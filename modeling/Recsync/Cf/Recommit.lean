import Recsync.Cf.LastWrite

set_option autoImplicit false

namespace Recsync.Cf

section Recommit

variable (client : ChannelFinderAdapter) (cfg : CFConfig) (setup : Setup) (env : Env)
  (t : Transaction) (s : Store)

/-- What the move path of `_process_new_channels` writes for a record that exists. -/
def movedProperties (x : String) (e : CFEntry) : List CFProperty :=
  mergePropertyLists (newProperties cfg (iocInfoOf cfg env t) (recordsOf cfg setup env t) x) e
    setup.managedProperties

/-- The properties of a record that describe its IOC, its type, its info tags and the
environment. -/
def comparedNames : List String :=
  [CFPropertyName.hostname, .iocName, .iocId, .iocIp, .recceiverId, .recordType].map
    CFPropertyName.value ++ setup.recordPropertyNamesList ++ setup.envVars.values

/-- After the commit the record is as good as moved: it is Active with the values of the move
path, and its aliases are Active, listed under the IOC and name the record. -/
structure LikeNew (s' : Store) (x : String) (e : CFEntry) : Prop where
  own : ∃ e', s'.get? x = some e' ∧
    e'.valueOf CFPropertyName.pvStatus.value = some PVStatus.active.value ∧
    ∀ name ∈ comparedNames setup, e'.valueOf name =
      valueIn (movedProperties cfg setup env t x e) name
  aliases : ∀ a ∈ aliasesOf cfg (recordsOf cfg setup env t) x, ∃ e', s'.get? a = some e' ∧
    e'.valueOf CFPropertyName.pvStatus.value = some PVStatus.active.value ∧
    e'.valueOf CFPropertyName.iocId.value = some t.iocid ∧
    e'.valueOf CFPropertyName.aliasFor.value = some x

/-- The record `x` with the entry `e` is committed again by an IOC that it is listed under. -/
structure Recommits (x : String) (e : CFEntry) : Prop where
  committed : x ∈ (recordsOf cfg setup env t).keys
  stored : s.get? x = some e
  listed : e.has .iocId t.iocid

/-- The records of the commit that are not on the page that `find_by_ioc_id` returns. -/
def freshNames : List String :=
  (recordsOf cfg setup env t).keys.filter fun n =>
    decide (n ∉ (client.findByIocId env s t.iocid).map CFChannel.name)

/-- The last of the fresh records that writes the name. -/
def freshWriter (n : String) : Option String :=
  lastWriter cfg (recordsOf cfg setup env t) n (env.setOrder (freshNames client cfg setup env t s))

/-- What a fresh record leaves under the name. -/
def freshEntry (n z : String) : CFEntry :=
  entryLeft cfg setup (iocInfoOf cfg env t) (recordsOf cfg setup env t)
    (client.getExistingChannels env s (freshNames client cfg setup env t s)) n z

/-- The create and move paths write the record and its aliases: it has no aliases if it is on the
page, and the last fresh record that writes it, or one of its aliases, leaves what it should be. -/
structure Rewritten (x : String) (e : CFEntry) : Prop where
  plain : x ∈ (client.findByIocId env s t.iocid).map CFChannel.name →
    aliasesOf cfg (recordsOf cfg setup env t) x = []
  own : ∃ z, freshWriter client cfg setup env t s x = some z ∧ ∀ name ∈ comparedNames setup,
    (freshEntry client cfg setup env t s x z).valueOf name =
      valueIn (movedProperties cfg setup env t x e) name
  aliases : ∀ a ∈ aliasesOf cfg (recordsOf cfg setup env t) x, ∀ z,
    freshWriter client cfg setup env t s a = some z →
      (freshEntry client cfg setup env t s a z).valueOf CFPropertyName.aliasFor.value = some x

end Recommit

section EntryLeft

variable {cfg : CFConfig} {setup : Setup} {ioc : IOCInfo} {records : Py.Dict String RecordInfo}
  {existing : Py.Dict String CFEntry} {x z name : String}

theorem entryLeft_valueOf {v : String}
    (written : valueIn (propertiesUnder cfg ioc records x z) name = some v) :
    (entryLeft cfg setup ioc records existing x z).valueOf name = some v := by
  have named : name ∈ (propertiesUnder cfg ioc records x z).map CFProperty.name := by
    by_contra absent
    rw [valueIn_eq_none absent] at written
    cases written
  rw [valueOf_eq, entryLeft]
  cases existing.get? x with
  | none => exact written
  | some e =>
    by_cases moved : z ∈ existing.keys
    · simp only [if_pos moved]
      rw [valueIn_merge named]
      exact written
    · simp only [if_neg moved]
      exact written

theorem entryLeft_status : (entryLeft cfg setup ioc records existing x z).valueOf
    CFPropertyName.pvStatus.value = some PVStatus.active.value := by
  apply entryLeft_valueOf
  have own := valueIn_newProperties_status cfg ioc records z
  by_cases listed : x ∈ aliasesOf cfg records z
  · rwa [propertiesUnder, if_pos listed, aliasProperties, valueIn_cons, if_neg (by simp)]
  · rwa [propertiesUnder, if_neg listed]

theorem entryLeft_iocid : (entryLeft cfg setup ioc records existing x z).valueOf
    CFPropertyName.iocId.value = some ioc.id := by
  apply entryLeft_valueOf
  have own := (valueIn_newProperties_iocid cfg ioc records z).2
  by_cases listed : x ∈ aliasesOf cfg records z
  · rwa [propertiesUnder, if_pos listed, aliasProperties, valueIn_cons, if_neg (by simp)]
  · rwa [propertiesUnder, if_neg listed]

theorem entryLeft_aliasFor (listed : x ∈ aliasesOf cfg records z) :
    (entryLeft cfg setup ioc records existing x z).valueOf CFPropertyName.aliasFor.value =
      some z := by
  apply entryLeft_valueOf
  rw [propertiesUnder, if_pos listed]
  exact valueIn_aliasProperties_alias cfg ioc records z

end EntryLeft

theorem valueIn_movedProperties_iocid (cfg : CFConfig) (setup : Setup) (env : Env) (t : Transaction)
    (x : String) (e : CFEntry) :
    valueIn (movedProperties cfg setup env t x e) CFPropertyName.iocId.value = some t.iocid := by
  obtain ⟨named, value⟩ := valueIn_newProperties_iocid cfg (iocInfoOf cfg env t)
    (recordsOf cfg setup env t) x
  rw [movedProperties, valueIn_merge named]
  exact value

section Attempt

variable {client : ChannelFinderAdapter} {cfg : CFConfig} {setup : Setup} {env : Env}
  {t : Transaction} {p : Processor} {s s' : Store}

/-- The state of a name after both loops. -/
theorem get?_afterLoops (covers : setup.Covers cfg) (now : Store)
    (existing : Py.Dict String CFEntry)
    (new : List String) (n : String) :
    (setChannels now (processNewChannels cfg setup (iocInfoOf cfg env t)
        (recordsOf cfg setup env t) env new existing)).get? n =
      ((lastWriter cfg (recordsOf cfg setup env t) n (env.setOrder new)).map
        (entryLeft cfg setup (iocInfoOf cfg env t) (recordsOf cfg setup env t) existing n)).or
        (now.get? n) :=
  get?_processNewChannels (newProperties_managed covers env t n)
    (fun z listed => aliasProperties_managed covers (enabled_of_alias listed) env t z) env new now

/-- An alias of a channel that is old and new never ends as it should. -/
theorem aliasTaken_fails (managed : Managed cfg setup) (covers : setup.Covers cfg)
    {new : List String} {handled : List CFChannel}
    (reconciled : reconcileOld cfg setup p (recordsOf cfg setup env t)
      (t.recordsToDelete.map Key.id) (iocInfoOf cfg env t) (client.findByIocId env s t.iocid) =
        .ok (new, handled))
    (taken : AliasTaken cfg (recordsOf cfg setup env t) (client.findByIocId env s t.iocid)
      (recordsOf cfg setup env t).keys new handled) :
    ∃ x e, Recommits cfg setup env t s x e ∧ ¬ LikeNew cfg setup env t (setChannels
      (setChannels s handled) (processNewChannels cfg setup (iocInfoOf cfg env t)
        (recordsOf cfg setup env t) env new (client.getExistingChannels env s new))) x e := by
  obtain ⟨cf, found, named, away, a, listed, gone, written⟩ := taken
  obtain ⟨stored, own⟩ := client.findByIocId_listed env s t.iocid cf found
  refine ⟨cf.name, cf.toCFEntry, ⟨named, stored, own⟩, fun like => ?_⟩
  obtain ⟨e, final, active, iocid, aliasFor⟩ := like.aliases a listed
  rw [get?_afterLoops covers] at final
  cases writes : lastWriter cfg (recordsOf cfg setup env t) a (env.setOrder new) with
  | some z =>
    -- a record that is still new writes its own name into the alias
    obtain ⟨order, wrote⟩ := lastWriter_eq_some writes
    have fresh : z ∈ new := (env.setOrder_perm new).mem_iff.mp order
    have isAlias := wrote.resolve_left fun same => gone (same ▸ fresh)
    rw [writes] at final
    obtain rfl := Option.some.inj final
    rw [entryLeft_aliasFor isAlias] at aliasFor
    exact away (Option.some.inj aliasFor ▸ fresh)
  | none =>
    rw [writes] at final
    obtain ⟨ch, member, -, last⟩ := get?_setChannels_of_mem s written
    rw [Option.map_none, Option.none_or, last] at final
    obtain rfl := Option.some.inj final
    have unsettled := (handleChannels_unsettled (enabled_of_alias listed) managed (by simp)
      (Py.Dict.keys_nodup _) reconciled).2 ch member
    rcases unsettled with none | none | other
    · rw [none] at iocid
      cases iocid
    · rw [none] at aliasFor
      cases aliasFor
    · exact other active

/-- When every channel of the page is updated on its own, only the fresh records write what a
record should be. -/
theorem plainUpdates_rewritten (covers : setup.Covers cfg) {new : List String}
    {handled : List CFChannel}
    (updates : PlainUpdates cfg (recordsOf cfg setup env t) (client.findByIocId env s t.iocid)
      (recordsOf cfg setup env t).keys new handled) {x : String} {e : CFEntry}
    (again : Recommits cfg setup env t s x e)
    (like : LikeNew cfg setup env t (setChannels (setChannels s handled)
      (processNewChannels cfg setup (iocInfoOf cfg env t) (recordsOf cfg setup env t) env new
        (client.getExistingChannels env s new))) x e) :
    Rewritten client cfg setup env t s x e := by
  obtain rfl : new = freshNames client cfg setup env t s := updates.left
  constructor
  · intro paged
    obtain ⟨ch, found, rfl⟩ := List.mem_map.mp paged
    exact updates.plain ch found again.committed
  · obtain ⟨e', final, -, values⟩ := like.own
    rw [get?_afterLoops covers] at final
    cases writes : freshWriter client cfg setup env t s x with
    | some z =>
      rw [show lastWriter _ _ _ _ = some z from writes] at final
      obtain rfl := Option.some.inj final
      exact ⟨z, rfl, values⟩
    | none =>
      -- the record is on the page, and its update has dropped the iocid
      rw [show lastWriter _ _ _ _ = none from writes] at final
      have paged : x ∈ (client.findByIocId env s t.iocid).map CFChannel.name := by
        by_contra away
        have fresh : x ∈ freshNames client cfg setup env t s :=
          List.mem_filter.mpr ⟨again.committed, by simpa using away⟩
        exact lastWriter_eq_none.mp writes x ((env.setOrder_perm _).mem_iff.mpr fresh) (Or.inl rfl)
      obtain ⟨cf, found, rfl⟩ := List.mem_map.mp paged
      obtain ⟨ch, member, name⟩ := updates.written cf found again.committed
      obtain ⟨last, written, same, stored⟩ :=
        get?_setChannels_of_mem s (List.mem_map.mpr ⟨ch, member, name⟩)
      rw [Option.map_none, Option.none_or, stored] at final
      obtain rfl := Option.some.inj final
      have stripped := updates.stripped cf found again.committed last written same
      have value := values CFPropertyName.iocId.value (by simp [comparedNames])
      rw [stripped, valueIn_movedProperties_iocid] at value
      cases value
  · intro a listed z writes
    obtain ⟨e', final, -, -, aliasFor⟩ := like.aliases a listed
    rw [get?_afterLoops covers, show lastWriter _ _ _ _ = some z from writes] at final
    obtain rfl := Option.some.inj final
    exact aliasFor

/-- What the fresh records write is as good as a move. -/
theorem Rewritten.likeNew (covers : setup.Covers cfg) {x : String} {e : CFEntry}
    (again : Recommits cfg setup env t s x e) (rewritten : Rewritten client cfg setup env t s x e)
    (now : Store) :
    LikeNew cfg setup env t (setChannels now (processNewChannels cfg setup (iocInfoOf cfg env t)
      (recordsOf cfg setup env t) env (freshNames client cfg setup env t s)
      (client.getExistingChannels env s (freshNames client cfg setup env t s)))) x e := by
  have after {n z : String} (writes : freshWriter client cfg setup env t s n = some z) :
      (setChannels now (processNewChannels cfg setup (iocInfoOf cfg env t)
        (recordsOf cfg setup env t) env (freshNames client cfg setup env t s)
        (client.getExistingChannels env s (freshNames client cfg setup env t s)))).get? n =
      some (freshEntry client cfg setup env t s n z) := by
    rw [get?_afterLoops covers, show lastWriter _ _ _ _ = some z from writes]
    rfl
  constructor
  · obtain ⟨z, writes, values⟩ := rewritten.own
    exact ⟨_, after writes, entryLeft_status, values⟩
  · intro a listed
    have away : x ∉ (client.findByIocId env s t.iocid).map CFChannel.name := by
      intro paged
      rw [rewritten.plain paged] at listed
      cases listed
    have fresh : x ∈ freshNames client cfg setup env t s :=
      List.mem_filter.mpr ⟨again.committed, by simpa using away⟩
    cases writes : freshWriter client cfg setup env t s a with
    | none =>
      exact absurd (Or.inr listed)
        (lastWriter_eq_none.mp writes x ((env.setOrder_perm _).mem_iff.mpr fresh))
    | some z =>
      exact ⟨_, after writes, entryLeft_status, entryLeft_iocid,
        rewritten.aliases a listed z writes⟩

end Attempt

/-- An IOC with the record `pv`, and with the record `pv2` that has the given aliases. -/
def aliasedRecords (aliases : List String) : Transaction :=
  { host := "a", port := 5064
    recordsToAdd := ((∅ : Py.Dict Nat (String × String)).set 1 ("pv", "ai")).set 2 ("pv2", "ai")
    aliases := (∅ : Py.Dict Nat (List String)).set 2 aliases }

/-- Channels as a commit of the same IOC left them. -/
def listedStore (names : List String) : Store :=
  setChannels ∅ (names.map fun n =>
    channel n "o" [property .iocId "o" "a:5064", property .pvStatus "o" "Active"])

def aliasConfig (limit : Int) : CFConfig where
  recceiverId := "r"
  aliasEnabled := true
  cfQueryLimit := limit

end Recsync.Cf
