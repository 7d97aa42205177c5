import Recsync.Cf.Limits
import Recsync.Cf.Recommit

set_option autoImplicit false

/- The properties of a channel that the processor does not manage. -/
namespace Recsync.Cf

/-- Every property of `e` that is not managed is one of `e'`, with its owner and its value. -/
def ForeignKept (managed : List String) (e e' : CFEntry) : Prop :=
  ∀ q ∈ e.properties, q.name ∉ managed → q ∈ e'.properties

/-- Every channel keeps the properties that are not managed. -/
def ForeignSurvive (setup : Setup) (s s' : Store) : Prop :=
  ∀ n e, s.get? n = some e →
    ∃ e', s'.get? n = some e' ∧ ForeignKept setup.managedProperties e e'

/-- The names that are still new after the loop over the old channels: it takes a record off that
is not deleted, and its aliases with it. -/
def namesLeft (cfg : CFConfig) (records : Py.Dict String RecordInfo) (del : List Key) :
    List CFChannel → List String → List String
  | [], new => new
  | cf :: rest, new =>
    if Key.name cf.name ∉ del ∧ cf.name ∈ new then
      namesLeft cfg records del rest
        ((aliasesOf cfg records cf.name).foldl List.erase (new.erase cf.name))
    else namesLeft cfg records del rest new

section SparesForeign

variable (client : ChannelFinderAdapter) (cfg : CFConfig) (setup : Setup) (env : Env)
  (t : Transaction) (del : List Key) (s : Store)

/-- The names that the create and move paths are for. -/
def newNames : List String :=
  namesLeft cfg (recordsOf cfg setup env t) del (client.findByIocId env s t.iocid)
    (recordsOf cfg setup env t).keys

/-- The last record of the create and move paths that writes the name. -/
def newWriter (n : String) : Option String :=
  lastWriter cfg (recordsOf cfg setup env t) n
    (env.setOrder (newNames client cfg setup env t del s))

/-- The names that the second query has returned. -/
def lookedUp : List String :=
  (client.getExistingChannels env s (newNames client cfg setup env t del s)).keys

/-- Where ChannelFinder has properties of others, the commit looks before it writes: they are not
under an alias of a record that the loop over the old channels has taken, and if the create or move
path writes the name, the second query has returned it and the last record that writes it. -/
structure SparesForeign : Prop where
  taken : ∀ cf ∈ client.findByIocId env s t.iocid,
    cf.name ∉ newNames client cfg setup env t del s →
      ∀ a ∈ aliasesOf cfg (recordsOf cfg setup env t) cf.name, ∀ e, s.get? a = some e →
        OnlyManaged setup e.properties
  written : ∀ n e, s.get? n = some e → ¬ OnlyManaged setup e.properties →
    ∀ z, newWriter client cfg setup env t del s n = some z →
      n ∈ lookedUp client cfg setup env t del s ∧ z ∈ lookedUp client cfg setup env t del s

end SparesForeign

section Managed

variable {cfg : CFConfig} {setup : Setup}

/-- Merging managed properties into an entry keeps the others. -/
theorem OnlyManaged.merge {new : List CFProperty} (only : OnlyManaged setup new)
    {managed : List String}
    (part : managed ⊆ setup.managedProperties) (owner : String) (e : CFEntry) :
    ForeignKept setup.managedProperties e ⟨owner, mergePropertyLists new e managed⟩ := by
  intro q member foreign
  refine List.mem_append_right _ (List.mem_filter.mpr ⟨member, ?_⟩)
  have notNew : q.name ∉ new.map CFProperty.name := by
    intro named
    obtain ⟨other, inside, same⟩ := List.mem_map.mp named
    exact foreign (same ▸ only other inside)
  have notManaged : q.name ∉ managed := fun inside => foreign (part inside)
  simp [notNew, notManaged]

end Managed

theorem OnlyManaged.foreignKept {setup : Setup} {e : CFEntry}
    (only : OnlyManaged setup e.properties)
    (e' : CFEntry) : ForeignKept setup.managedProperties e e' :=
  fun q member foreign => absurd (only q member) foreign

section Names

variable {cfg : CFConfig} {setup : Setup} {p : Processor} {ioc : IOCInfo}
  {records : Py.Dict String RecordInfo} {del : List Key} {old : List CFChannel}

theorem handleAliasesOldAndNew_erases {own : CFChannel} {aliases new new' : List String}
    {channels : List CFChannel}
    (ran : handleAliasesOldAndNew setup ioc old own aliases new = .ok (new', channels)) :
    new' = aliases.foldl List.erase new := by
  induction aliases generalizing new channels with
  | nil => exact (Prod.mk.inj (Except.ok.inj ran)).1.symm
  | cons a rest ih =>
    obtain ⟨removed, here, ran⟩ := Py.bind_ok ran
    obtain ⟨⟨after, later⟩, tail, ran⟩ := Py.bind_ok ran
    obtain ⟨rfl, rfl⟩ := Prod.mk.inj (Except.ok.inj ran)
    unfold removeNew at here
    split at here
    · rw [ih tail, ← Except.ok.inj here, List.foldl_cons]
    · cases here

theorem handleChannels_namesLeft {l : List CFChannel} {new new' : List String}
    {channels : List CFChannel}
    (ran : handleChannels cfg setup p ioc records del old l new = .ok (new', channels)) :
    new' = namesLeft cfg records del l new := by
  induction l generalizing new channels with
  | nil => exact (Prod.mk.inj (Except.ok.inj ran)).1.symm
  | cons cf rest ih =>
    obtain ⟨next, first, later, head, tail, rfl⟩ := handleChannels_cons_ok ran
    rw [ih tail, namesLeft]
    rcases handleChannel_cases head with
      ⟨released, rfl, -⟩ | ⟨kept, named, updated⟩ | ⟨-, unnamed, rfl, -⟩
    · have stays : ¬ (Key.name cf.name ∉ del ∧ cf.name ∈ next) := by
        rintro ⟨undeleted, named⟩
        rcases released with rfl | deleted
        · cases named
        · exact undeleted deleted
      rw [if_neg stays]
    · obtain ⟨rest, -, aliases, -⟩ := handleChannelOldAndNew_ok updated
      rw [if_pos ⟨fun deleted => kept (Or.inr deleted), named⟩,
        handleAliasesOldAndNew_erases aliases]
    · rw [if_neg fun both => unnamed both.2]

end Names

section Writes

variable {client : ChannelFinderAdapter} {cfg : CFConfig} {setup : Setup} {env : Env}
  {t : Transaction} {s : Store} {p : Processor} {del : List Key} {old : List CFChannel}

/-- A channel that the loop over the old channels writes: what was stored under its name keeps its
foreign properties, unless the name is an alias of an old channel. -/
def Considerate (cfg : CFConfig) (setup : Setup) (records : Py.Dict String RecordInfo) (s : Store)
    (old : List CFChannel) (ch : CFChannel) : Prop :=
  (∀ e, s.get? ch.name = some e → ForeignKept setup.managedProperties e ch.toCFEntry) ∨
    ∃ cf ∈ old, ch.name ∈ aliasesOf cfg records cf.name

theorem OnlyManaged.considerate {new : List CFProperty} (only : OnlyManaged setup new)
    {managed : List String} (part : managed ⊆ setup.managedProperties) {cf : CFChannel}
    (stored : s.get? cf.name = some cf.toCFEntry) (owner : String)
    (records : Py.Dict String RecordInfo) (old : List CFChannel) :
    Considerate cfg setup records s old
      (channel cf.name owner (mergePropertyLists new cf.toCFEntry managed)) := by
  refine Or.inl fun e found => ?_
  obtain rfl : cf.toCFEntry = e := Option.some.inj (stored.symm.trans found)
  exact only.merge part owner cf.toCFEntry

/-- The loop over the old channels merges into every channel that it takes from the answer. -/
theorem handleChannel_considerate (covers : setup.Covers cfg) {cf : CFChannel} {l : List CFChannel}
    (inside : cf ∈ l) (stored : s.get? cf.name = some cf.toCFEntry) {new new' : List String}
    {channels : List CFChannel}
    (ran : handleChannel cfg setup p (iocInfoOf cfg env t) (recordsOf cfg setup env t) del old cf
      new = .ok (new', channels)) :
    ∀ ch ∈ channels, Considerate cfg setup (recordsOf cfg setup env t) s l ch := by
  have status := fun status => statusProperties_managed covers (iocInfoOf cfg env t) status
  intro ch member
  rcases handleChannel_cases ran with
    ⟨-, -, ⟨rfl, -⟩ | ⟨last, -, released⟩⟩ | ⟨-, -, updated⟩ | ⟨-, -, -, rfl⟩
  · rcases List.mem_cons.mp member with rfl | later
    · exact (status .inactive).considerate (List.nil_subset _) stored cf.owner _ _
    · obtain ⟨a, listed, rfl⟩ := List.mem_map.mp later
      exact Or.inr ⟨cf, inside, listed⟩
  · obtain ⟨defaults, made, released⟩ := Py.bind_ok released
    obtain ⟨aliases, mapped, released⟩ := Py.bind_ok released
    rw [← Except.ok.inj released] at member
    rcases List.mem_cons.mp member with rfl | later
    · exact (createDefaultProperties_managed covers made).considerate (List.Subset.refl _) stored
        last.owner _ _
    · obtain ⟨written, listed, among⟩ := List.mem_flatten.mp later
      obtain ⟨a, source, reassigned⟩ := Py.mem_of_mapM_ok mapped written listed
      exact Or.inr ⟨cf, inside, reassignAlias_names reassigned ch among ▸ source⟩
  · obtain ⟨rest, -, aliases, rfl⟩ := handleChannelOldAndNew_ok updated
    rcases List.mem_cons.mp member with rfl | among
    · exact (status .active).considerate (List.Subset.refl _) stored cf.owner _ _
    · exact Or.inr ⟨cf, inside, handleAliasesOldAndNew_names aliases ch among⟩
  · cases member

theorem handleChannels_considerate (covers : setup.Covers cfg) {whole l : List CFChannel}
    (part : l ⊆ whole) (stored : ∀ cf ∈ l, s.get? cf.name = some cf.toCFEntry)
    {new new' : List String} {channels : List CFChannel}
    (ran : handleChannels cfg setup p (iocInfoOf cfg env t) (recordsOf cfg setup env t) del old l
      new = .ok (new', channels)) :
    ∀ ch ∈ channels, Considerate cfg setup (recordsOf cfg setup env t) s whole ch := by
  induction l generalizing new channels with
  | nil =>
    obtain ⟨rfl, rfl⟩ := Prod.mk.inj (Except.ok.inj ran)
    simp
  | cons cf rest ih =>
    obtain ⟨next, first, later, head, tail, rfl⟩ := handleChannels_cons_ok ran
    obtain ⟨here, others⟩ := List.cons_subset.mp part
    intro ch member
    rcases List.mem_append.mp member with inFirst | inLater
    · exact handleChannel_considerate covers here (stored cf List.mem_cons_self) head ch inFirst
    · exact ih others (fun cf inside => stored cf (List.mem_cons_of_mem _ inside)) tail ch inLater

/-- A merge into the channel that was looked up keeps its foreign properties. -/
theorem entryLeft_foreignKept {ioc : IOCInfo} {records : Py.Dict String RecordInfo}
    {existing : Py.Dict String CFEntry} {n z : String} {e : CFEntry}
    (only : OnlyManaged setup (propertiesUnder cfg ioc records n z))
    (looked : existing.get? n = some e) (moved : z ∈ existing.keys) :
    ForeignKept setup.managedProperties e (entryLeft cfg setup ioc records existing n z) := by
  rw [entryLeft, looked]
  simp only [if_pos moved]
  exact only.merge (List.Subset.refl _) e.owner e

/-- Without a merge they are lost. -/
theorem entryLeft_onlyManaged {ioc : IOCInfo} {records : Py.Dict String RecordInfo}
    {existing : Py.Dict String CFEntry} {n z : String}
    (only : OnlyManaged setup (propertiesUnder cfg ioc records n z))
    (apart : ¬ (n ∈ existing.keys ∧ z ∈ existing.keys)) :
    OnlyManaged setup (entryLeft cfg setup ioc records existing n z).properties := by
  rw [entryLeft]
  cases looked : existing.get? n with
  | none => exact only
  | some e =>
    have here : n ∈ existing.keys := (Py.Dict.mem_keys_iff _ _).mpr ⟨e, looked⟩
    simp only [if_neg fun moved => apart ⟨here, moved⟩]
    exact only

theorem propertiesUnder_managed (covers : setup.Covers cfg) (env : Env) (t : Transaction)
    (n z : String) : OnlyManaged setup
      (propertiesUnder cfg (iocInfoOf cfg env t) (recordsOf cfg setup env t) n z) := by
  by_cases listed : n ∈ aliasesOf cfg (recordsOf cfg setup env t) z
  · rw [propertiesUnder, if_pos listed]
    exact aliasProperties_managed covers (enabled_of_alias listed) env t z
  · rw [propertiesUnder, if_neg listed]
    exact newProperties_managed covers env t z

/-- What a successful attempt leaves under a name. -/
theorem updateChannelfinder_get? (covers : setup.Covers cfg) (positive : 0 < cfg.cfQueryLimit)
    {s' : Store} (ran : client.updateChannelfinder cfg setup env p (recordsOf cfg setup env t) del
      (iocInfoOf cfg env t) none s = (.ok (), s')) :
    ∃ handled, reconcileOld cfg setup p (recordsOf cfg setup env t) del (iocInfoOf cfg env t)
        (client.findByIocId env s t.iocid) = .ok (newNames client cfg setup env t del s, handled) ∧
      ∀ n, s'.get? n = ((newWriter client cfg setup env t del s n).map
        (entryLeft cfg setup (iocInfoOf cfg env t) (recordsOf cfg setup env t)
          (client.getExistingChannels env s (newNames client cfg setup env t del s)) n)).or
        ((setChannels s handled).get? n) := by
  obtain ⟨new, handled, reconciled, rfl⟩ := updateChannelfinder_writes positive ran
  obtain rfl : new = newNames client cfg setup env t del s := handleChannels_namesLeft reconciled
  exact ⟨handled, reconciled, fun n => get?_afterLoops covers _ _ _ n⟩

/-- An attempt that looks before it writes keeps the foreign properties. -/
theorem SparesForeign.survive (covers : setup.Covers cfg)
    (spares : SparesForeign client cfg setup env t del s)
    (positive : 0 < cfg.cfQueryLimit) {s' : Store}
    (ran : client.updateChannelfinder cfg setup env p (recordsOf cfg setup env t) del
      (iocInfoOf cfg env t) none s = (.ok (), s')) : ForeignSurvive setup s s' := by
  obtain ⟨handled, reconciled, after⟩ := updateChannelfinder_get? covers positive ran
  have considerate := handleChannels_considerate covers (List.Subset.refl _)
    (fun cf found => (client.findByIocId_listed env s t.iocid cf found).1) reconciled
  intro n e stored
  rw [after n]
  cases writes : newWriter client cfg setup env t del s n with
  | some z =>
    refine ⟨_, rfl, ?_⟩
    by_cases only : OnlyManaged setup e.properties
    · exact only.foreignKept _
    · obtain ⟨here, moved⟩ := spares.written n e stored only z writes
      obtain ⟨e', looked⟩ := (Py.Dict.mem_keys_iff _ _).mp here
      obtain rfl := Option.some.inj ((getExistingChannels_stored looked).symm.trans stored)
      exact entryLeft_foreignKept (propertiesUnder_managed covers env t n z) looked moved
  | none =>
    rw [Option.map_none, Option.none_or]
    rcases get?_setChannels_cases s handled n with ⟨kept, -⟩ | ⟨ch, member, rfl, written⟩
    · exact ⟨e, kept.trans stored, fun _ member _ => member⟩
    · refine ⟨_, written, ?_⟩
      rcases considerate ch member with keeps | ⟨cf, found, listed⟩
      · exact keeps e stored
      · have gone : cf.name ∉ newNames client cfg setup env t del s := fun still =>
          lastWriter_eq_none.mp writes cf.name ((env.setOrder_perm _).mem_iff.mpr still)
            (Or.inr listed)
        exact (spares.taken cf found gone ch.name listed e stored).foreignKept _

end Writes

section Lost

variable {cfg : CFConfig} {setup : Setup} {p : Processor} {ioc : IOCInfo}
  {records : Py.Dict String RecordInfo} {del : List Key} {old : List CFChannel}

theorem handleChannels_stays {r a : String} (listed : a ∈ aliasesOf cfg records r)
    (noAlias : ∀ z, r ∉ aliasesOf cfg records z) {l : List CFChannel} {new new' : List String}
    {channels : List CFChannel} (away : a ∉ new) (named : r ∈ new)
    (ran : handleChannels cfg setup p ioc records del old l new = .ok (new', channels)) :
    r ∈ new' := by
  induction l generalizing new channels with
  | nil =>
    obtain ⟨rfl, rfl⟩ := Prod.mk.inj (Except.ok.inj ran)
    exact named
  | cons cf rest ih =>
    obtain ⟨next, first, later, head, tail, rfl⟩ := handleChannels_cons_ok ran
    have fewer := (handleChannel_left head).1.subset
    refine ih (fun inside => away (fewer inside)) ?_ tail
    rcases handleChannel_cases head with ⟨-, rfl, -⟩ | ⟨-, -, updated⟩ | ⟨-, -, rfl, -⟩
    · exact named
    · obtain ⟨rest, -, aliases, rfl⟩ := handleChannelOldAndNew_ok updated
      by_cases same : r = cf.name
      · have new := handleAliasesOldAndNew_new aliases (same ▸ listed)
        exact absurd (List.mem_of_mem_erase new) away
      · rcases (handleAliasesOldAndNew_left aliases).2 r
          ((List.mem_erase_of_ne same).mpr named) with
          left | taken
        · exact left
        · exact absurd taken (noAlias cf.name)
    · exact named

variable {client : ChannelFinderAdapter} {env : Env} {t : Transaction} {s s' : Store}

/-- An attempt that keeps the foreign properties has looked before it wrote. -/
theorem ForeignSurvive.spares (covers : setup.Covers cfg) (positive : 0 < cfg.cfQueryLimit)
    (ran : client.updateChannelfinder cfg setup env p (recordsOf cfg setup env t) del
      (iocInfoOf cfg env t) none s = (.ok (), s')) (apart : t.AliasesApart)
    (survive : ForeignSurvive setup s s') : SparesForeign client cfg setup env t del s := by
  obtain ⟨handled, reconciled, after⟩ := updateChannelfinder_get? covers positive ran
  constructor
  · intro cf _ gone a listed
    have named := mem_keys_of_alias listed
    have away := @aliasesOf_apart cfg setup env t apart
    exact absurd (handleChannels_stays listed (fun z inside => away z cf.name inside named)
      (away cf.name a listed) named reconciled) gone
  · intro n e stored foreign z writes
    by_contra apart
    obtain ⟨e', found, kept⟩ := survive n e stored
    rw [after n, writes] at found
    obtain rfl := Option.some.inj found
    apply foreign
    intro q member
    by_contra unmanaged
    exact unmanaged (entryLeft_onlyManaged (propertiesUnder_managed covers env t n z) apart q
      (kept q member unmanaged))

end Lost

/-- Every channel keeps its foreign properties when the attempt looks before it writes, or writes
nothing at all. The rest are lost, unless the transaction has an alias as a record as well. -/
theorem foreign_survive_iff {cfg : CFConfig} {nameMatches : String → String → Bool} {startEnv : Env}
    {cfProperties : List String} {setup : Setup} {registered : List String}
    (started : setupCfProperties cfg startEnv cfProperties = .ok (setup, registered)) {env : Env}
    {t : Transaction} {p : Processor} {del : List Key} {fault : Option Fault} {s s' : Store}
    (ran : (cfg.queries nameMatches).updateChannelfinder cfg setup env p
      (recordsOf cfg setup env t) del (iocInfoOf cfg env t) fault s = (.ok (), s')) :
    (cfg.cfQueryLimit ≤ 0 ∨ SparesForeign (cfg.queries nameMatches) cfg setup env t del s →
        ForeignSurvive setup s s') ∧
      (t.AliasesApart → ForeignSurvive setup s s' →
        cfg.cfQueryLimit ≤ 0 ∨ SparesForeign (cfg.queries nameMatches) cfg setup env t del s) := by
  have covers := setupCfProperties_covers started
  have calm := updateChannelfinder_ok ran
  by_cases positive : 0 < cfg.cfQueryLimit
  · constructor
    · rintro (stuck | spares)
      · omega
      · exact spares.survive covers positive calm
    · exact fun apart survive => Or.inr (survive.spares covers positive calm apart)
  · have stuck : cfg.cfQueryLimit ≤ 0 := by omega
    have unchanged := @updateChannelfinder_stuck (cfg.queries nameMatches) cfg setup env p
      (recordsOf cfg setup env t) del (iocInfoOf cfg env t) stuck s
    rw [calm] at unchanged
    obtain rfl : s' = s := unchanged
    exact ⟨fun _ n e stored => ⟨e, stored, fun _ member _ => member⟩, fun _ _ => Or.inl stuck⟩

/-- Channels that an operator has given a property of their own. -/
def labelled (names : List String) : Store :=
  setChannels ∅ (names.map fun n => channel n "operator" [⟨"label", "operator", "west wing"⟩])

/-- The attempt for the records `pv` and `pv2`, the latter with the alias `nick`. -/
def pushNick (limit : Int) (setup : Setup) (s : Store) : Except Py.Error Unit × Store :=
  ((aliasConfig limit).queries PyCFClientAdapter.exactNames).updateChannelfinder (aliasConfig limit)
    setup {} {} (recordsOf (aliasConfig limit) setup {} (aliasedRecords ["nick"])) []
    (iocInfoOf (aliasConfig limit) {} (aliasedRecords ["nick"])) none s

/-- The records may carry labels when a page holds both of them. -/
theorem foreign_survive_iff_labelled :
    ∃ setup registered, setupCfProperties (aliasConfig 2) {} [] = .ok (setup, registered) ∧
      (pushNick 2 setup (labelled ["pv", "pv2"])).1 = .ok () ∧
        ForeignSurvive setup (labelled ["pv", "pv2"])
          (pushNick 2 setup (labelled ["pv", "pv2"])).2 := by
  have started : setupCfProperties (aliasConfig 2) {} [] = .ok (_, _) := rfl
  refine ⟨_, _, started, by decide +kernel, ?_⟩
  apply (foreign_survive_iff started
    (t := aliasedRecords ["nick"]) (s := labelled ["pv", "pv2"])
    (Prod.ext (by decide +kernel) rfl)).1
  refine Or.inr ⟨fun cf page => ?_, fun n e stored _ z writes => ?_⟩
  · cases page
  · have keys : (labelled ["pv", "pv2"]).keys = ["pv", "pv2"] := by decide
    have key := (Py.Dict.mem_keys_iff _ _).mpr ⟨e, stored⟩
    rw [keys] at key
    rcases List.mem_pair.mp key with rfl | rfl
    · obtain rfl := Option.some.inj (show some _ = some z from writes)
      decide +kernel
    · obtain rfl := Option.some.inj (show some _ = some z from writes)
      decide +kernel

/-- The alias may not. -/
theorem foreign_label_lost :
    ∃ setup registered, setupCfProperties (aliasConfig 10000) {} [] = .ok (setup, registered) ∧
      (pushNick 10000 setup (labelled ["nick"])).1 = .ok () ∧
        ¬ ForeignSurvive setup (labelled ["nick"])
          (pushNick 10000 setup (labelled ["nick"])).2 := by
  refine ⟨_, _, rfl, by decide +kernel, ?_⟩
  intro survive
  obtain ⟨e', found, kept⟩ := survive "nick" _ rfl
  have label := kept ⟨"label", "operator", "west wing"⟩ (by decide) (by decide)
  have still := congrArg (Option.map fun e =>
    decide (⟨"label", "operator", "west wing"⟩ ∈ e.properties)) found
  rw [Option.map_some, decide_eq_true label] at still
  exact absurd still (by decide +kernel)

end Recsync.Cf
