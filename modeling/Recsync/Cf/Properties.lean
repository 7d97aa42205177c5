import Recsync.Cf.Eviction
import Recsync.Cf.Frame

set_option autoImplicit false

/- What holds of every property that a commit writes. -/
namespace Recsync.Cf

/-- The properties that the processor makes for IOCs with these addresses satisfy `P`, and all that
have other names than the two. -/
structure Admits (cfg : CFConfig) (address : String → Prop) (P : CFProperty → Prop) : Prop where
  plain : ∀ q, q.name ≠ CFPropertyName.iocId.value → q.name ≠ CFPropertyName.recceiverId.value → P q
  iocId : ∀ owner v, address v → P (property .iocId owner v)
  recceiverId : ∀ owner, P (property .recceiverId owner cfg.recceiverId)

/-- All properties satisfy `P`. -/
def AllOf (P : CFProperty → Prop) (l : List CFProperty) : Prop := ∀ q ∈ l, P q

/-- The IOCs that the processor knows have these addresses. -/
def Homed (address : String → Prop) (p : Processor) : Prop :=
  ∀ i info, p.iocs i = some info → address info.id

namespace Homed

open Py (Program)

variable {address : String → Prop} {p : Processor}

theorem setIoc (homed : Homed address p) (i : String) {entry : Option IOCInfo}
    (own : ∀ info, entry = some info → address info.id) : Homed address (p.setIoc i entry) := by
  intro j info found
  rw [Processor.iocs_setIoc] at found
  split at found
  · exact own info found
  · exact homed j info found

theorem registerChannel (i n : String) :
    Program.Maintains (Homed address) (registerChannel i n) := by
  intro p homed
  unfold Cf.registerChannel Program.after
  by_cases tracked : i ∈ p.ids (.name n)
  · simp only [tracked, if_true]
    exact homed
  · cases known : p.iocs i with
    | none =>
      simp only [tracked, known, if_false, Processor.iocs_setIds]
      exact homed
    | some info =>
      simp only [tracked, known, if_false, Processor.iocs_setIds]
      refine setIoc ?_ i ?_
      · exact homed
      · rintro _ ⟨⟩
        exact homed i info known

theorem removeChannel (i : String) (k : Key) :
    Program.Maintains (Homed address) (removeChannel k i) := by
  intro p homed
  unfold Cf.removeChannel Program.after
  by_cases absent : i ∉ p.ids k
  · simp only [absent, not_false_eq_true, if_true]
    exact homed
  · simp only [absent, if_false, Processor.iocs_setChannels, Processor.iocs_setIds]
    cases known : p.iocs i with
    | none => exact homed
    | some info =>
      have left : ∀ x, (if info.channelcount - 1 ≤ 0 then none
          else some { info with channelcount := info.channelcount - 1 }) = some x →
          address x.id := by
        intro x there
        split at there
        · cases there
        · rw [← Option.some.inj there]
          exact homed i info known
      simp only
      split
      · refine setIoc ?_ i left
        exact homed
      · refine setIoc ?_ i left
        exact homed

theorem steps (i : String) : KeptBySteps (Homed address) i :=
  ⟨registerChannel i, removeChannel i, fun _ _ homed => homed⟩

theorem updateIocInfos (cfg : CFConfig) (env : Env) {t : Transaction} (own : address t.iocid)
    (records : Py.Dict String RecordInfo) :
    Program.Maintains (Homed address) (updateIocInfos cfg env t (iocInfoOf cfg env t) records) := by
  refine (steps t.iocid).updateIocInfos cfg env (fun _ p homed => homed.setIoc _ ?_) records
  rintro _ ⟨⟩
  exact own

theorem evictIoc (env : Env) (i : String) : Program.Maintains (Homed address) (evictIoc env i) := by
  refine (steps i).evictIoc env fun p homed => ?_
  refine setIoc (p := p) homed i ?_
  simp

end Homed

section AllOf

variable {P : CFProperty → Prop}

theorem allOf_nil : AllOf P [] := fun _ member => absurd member List.not_mem_nil

theorem AllOf.cons {q : CFProperty} {l : List CFProperty} (head : P q) (tail : AllOf P l) :
    AllOf P (q :: l) := by
  intro q' member
  rcases List.mem_cons.mp member with rfl | later
  · exact head
  · exact tail q' later

theorem AllOf.append {first second : List CFProperty} (head : AllOf P first)
    (tail : AllOf P second) : AllOf P (first ++ second) := by
  intro q member
  rcases List.mem_append.mp member with inFirst | inSecond
  · exact head q inFirst
  · exact tail q inSecond

theorem AllOf.merge {new : List CFProperty} {e : CFEntry} (added : AllOf P new)
    (kept : AllOf P e.properties) (managed : List String) :
    AllOf P (mergePropertyLists new e managed) :=
  added.append fun q member => kept q (List.mem_of_mem_filter member)

end AllOf

section Writes

variable {cfg : CFConfig} {setup : Setup} {env : Env} {p : Processor} {ioc : IOCInfo}
  {records : Py.Dict String RecordInfo} {del : List Key} {old : List CFChannel}
  {address : String → Prop} {P : CFProperty → Prop} (admits : Admits cfg address P)
include admits

theorem Admits.own {p : CFPropertyName} {owner v : String} (ioc : p ≠ .iocId)
    (recceiver : p ≠ .recceiverId) : P (property p owner v) :=
  admits.plain _ (CFPropertyName.value_injective.ne ioc)
    (CFPropertyName.value_injective.ne recceiver)

theorem Admits.createIocProperties {iocid : String} (own : address iocid)
    (owner time host name ip : String) :
    AllOf P (createIocProperties owner time cfg.recceiverId host name ip iocid) := by
  refine .cons (admits.own ?_ ?_) (.cons (admits.own ?_ ?_) (.cons (admits.iocId _ _ own)
    (.cons (admits.own ?_ ?_) (.cons (admits.own ?_ ?_) (.cons (admits.own ?_ ?_)
    (.cons (admits.recceiverId _) allOf_nil)))))) <;> decide

theorem Admits.statusProperties (status : PVStatus) : AllOf P (statusProperties ioc status) := by
  refine .cons (admits.own ?_ ?_) (.cons (admits.own ?_ ?_) allOf_nil) <;> decide

theorem Admits.newProperties (own : address ioc.id)
    (infos : ∀ n info, records.get? n = some info → AllOf P info.infoProperties) (n : String) :
    AllOf P (newProperties cfg ioc records n) := by
  refine (admits.createIocProperties own _ _ _ _ _).append ?_
  cases found : records.get? n with
  | none => exact allOf_nil
  | some info =>
    refine AllOf.append ?_ (infos n info found)
    split
    · split
      · exact allOf_nil
      · split
        · exact allOf_nil
        · exact .cons (admits.own (by decide) (by decide)) allOf_nil
    · exact allOf_nil

theorem Admits.aliasProperties (own : address ioc.id)
    (infos : ∀ n info, records.get? n = some info → AllOf P info.infoProperties) (n : String) :
    AllOf P (aliasProperties cfg ioc records n) :=
  .cons (admits.own (by decide) (by decide)) (admits.newProperties own infos n)

theorem Admits.createDefaultProperties (homed : Homed address p) {name : String}
    {defaults : List CFProperty} (made : createDefaultProperties cfg p ioc name = .ok defaults) :
    AllOf P defaults := by
  unfold Cf.createDefaultProperties at made
  split at made
  · cases made
  · split at made
    · cases made
    · next info known =>
      rw [← Except.ok.inj made]
      exact admits.createIocProperties (homed _ info known) _ _ _ _ _

omit admits in
theorem reassignAlias_all {defaults : List CFProperty} (added : AllOf P defaults) {name : String}
    {channels : List CFChannel} (ran : reassignAlias setup p defaults name = .ok channels) :
    ∀ ch ∈ channels, AllOf P ch.properties := by
  unfold reassignAlias at ran
  split at ran
  · rw [← Except.ok.inj ran]
    simp
  · split at ran
    · cases ran
    · split at ran
      · rw [← Except.ok.inj ran]
        simp
      · rw [← Except.ok.inj ran]
        intro ch member
        rw [List.mem_singleton.mp member]
        exact added.merge allOf_nil _

theorem Admits.handleAliasesOldAndNew {own : CFChannel} (kept : AllOf P own.properties)
    {aliases new new' : List String} {channels : List CFChannel}
    (ran : handleAliasesOldAndNew setup ioc old own aliases new = .ok (new', channels)) :
    ∀ ch ∈ channels, AllOf P ch.properties := by
  induction aliases generalizing new channels with
  | nil =>
    obtain ⟨rfl, rfl⟩ := Prod.mk.inj (Except.ok.inj ran)
    simp
  | cons a rest ih =>
    obtain ⟨removed, -, ran⟩ := Py.bind_ok ran
    obtain ⟨⟨after, later⟩, tail, ran⟩ := Py.bind_ok ran
    obtain ⟨rfl, rfl⟩ := Prod.mk.inj (Except.ok.inj ran)
    have aliasFor : AllOf P [property .aliasFor ioc.owner own.name] :=
      .cons (admits.own (by decide) (by decide)) allOf_nil
    intro ch member
    rcases List.mem_cons.mp member with rfl | inLater
    · exact ((admits.statusProperties .active).append aliasFor).merge kept _
    · exact ih tail ch inLater

/-- One turn of the loop over the old channels. -/
theorem Admits.handleChannel (homed : Homed address p) {cf : CFChannel}
    (kept : AllOf P cf.properties) {new new' : List String} {channels : List CFChannel}
    (ran : handleChannel cfg setup p ioc records del old cf new = .ok (new', channels)) :
    ∀ ch ∈ channels, AllOf P ch.properties := by
  intro ch member
  rcases handleChannel_cases ran with
    ⟨-, -, ⟨rfl, -⟩ | ⟨last, -, released⟩⟩ | ⟨-, -, updated⟩ | ⟨-, -, -, rfl⟩
  · rcases List.mem_cons.mp member with rfl | later
    · exact (admits.statusProperties .inactive).merge kept _
    · obtain ⟨a, -, rfl⟩ := List.mem_map.mp later
      exact (admits.statusProperties .inactive).merge allOf_nil _
  · obtain ⟨defaults, made, released⟩ := Py.bind_ok released
    obtain ⟨aliases, mapped, released⟩ := Py.bind_ok released
    have added : AllOf P defaults := admits.createDefaultProperties homed made
    rw [← Except.ok.inj released] at member
    rcases List.mem_cons.mp member with rfl | later
    · exact added.merge kept _
    · obtain ⟨written, listed, inside⟩ := List.mem_flatten.mp later
      obtain ⟨a, -, reassigned⟩ := Py.mem_of_mapM_ok mapped written listed
      exact reassignAlias_all added reassigned ch inside
  · obtain ⟨rest, -, aliases, rfl⟩ := handleChannelOldAndNew_ok updated
    have own := (@Admits.statusProperties cfg ioc address P admits .active).merge kept
      setup.managedProperties
    rcases List.mem_cons.mp member with rfl | inside
    · exact own
    · exact admits.handleAliasesOldAndNew own aliases ch inside
  · cases member

theorem Admits.handleChannels (homed : Homed address p) {l : List CFChannel}
    (kept : ∀ cf ∈ l, AllOf P cf.properties) {new new' : List String} {channels : List CFChannel}
    (ran : handleChannels cfg setup p ioc records del old l new = .ok (new', channels)) :
    ∀ ch ∈ channels, AllOf P ch.properties := by
  induction l generalizing new channels with
  | nil =>
    obtain ⟨rfl, rfl⟩ := Prod.mk.inj (Except.ok.inj ran)
    simp
  | cons cf rest ih =>
    rw [List.forall_mem_cons] at kept
    obtain ⟨next, first, later, head, tail, rfl⟩ := handleChannels_cons_ok ran
    intro ch member
    rcases List.mem_append.mp member with inFirst | inLater
    · exact admits.handleChannel homed kept.1 head ch inFirst
    · exact ih kept.2 tail ch inLater

end Writes

/-- The objects that the create and move paths merge into, and the channels they make. -/
structure AllChannels (P : CFProperty → Prop) (st : NewChannels) : Prop where
  existing : ∀ n e, st.existing.get? n = some e → AllOf P e.properties
  fresh : ∀ ch, Pending.fresh ch ∈ st.pending → AllOf P ch.properties

namespace AllChannels

variable {cfg : CFConfig} {setup : Setup} {ioc : IOCInfo} {records : Py.Dict String RecordInfo}
  {P : CFProperty → Prop} {st : NewChannels} {properties : List CFProperty}

theorem overwriteExisting (all : AllChannels P st) (added : AllOf P properties) {n : String}
    {e : CFEntry} (found : st.existing.get? n = some e) :
    AllChannels P (overwriteExisting setup properties n e st) := by
  constructor
  · intro m e' there
    by_cases same : m = n
    · subst same
      rw [← Option.some.inj ((Py.Dict.get?_set_self _ _ _).symm.trans there)]
      exact added.merge (all.existing m e found) _
    · exact all.existing m e' ((Py.Dict.get?_set_ne _ _ same).symm.trans there)
  · intro ch member
    rcases List.mem_append.mp member with before | last
    · exact all.fresh ch before
    · cases List.mem_singleton.mp last

theorem createFresh (all : AllChannels P st) (added : AllOf P properties) (n : String) :
    AllChannels P (createFresh ioc properties n st) := by
  refine ⟨all.existing, ?_⟩
  intro ch member
  rcases List.mem_append.mp member with before | last
  · exact all.fresh ch before
  · cases List.mem_singleton.mp last
    exact added

theorem processNewChannel (all : AllChannels P st)
    (own : ∀ n, AllOf P (newProperties cfg ioc records n))
    (aliases : ∀ n, AllOf P (aliasProperties cfg ioc records n)) (n : String) :
    AllChannels P (processNewChannel cfg setup ioc records st n) := by
  unfold Cf.processNewChannel
  cases found : st.existing.get? n with
  | some e =>
    refine List.foldlRecOn _ _ (all.overwriteExisting (own n) found) ?_
    intro st all a _
    unfold moveAlias
    cases there : st.existing.get? a with
    | some ach => exact all.overwriteExisting (aliases n) there
    | none => exact all.createFresh (aliases n) a
  | none =>
    refine List.foldlRecOn _ _ (all.createFresh (own n) n) ?_
    intro st all a _
    exact all.createFresh (aliases n) a

theorem resolve (all : AllChannels P st) : ∀ x ∈ st.pending, AllOf P (st.resolve x).properties := by
  intro x member
  cases x with
  | fresh ch => exact all.fresh ch member
  | existing n =>
    cases found : st.existing.get? n with
    | some e =>
      simpa only [NewChannels.resolve, found, Option.getD_some] using all.existing n e found
    | none => simpa only [NewChannels.resolve, found, Option.getD_none] using allOf_nil

end AllChannels

section Process

variable {cfg : CFConfig} {setup : Setup} {env : Env} {ioc : IOCInfo}
  {records : Py.Dict String RecordInfo} {address : String → Prop} {P : CFProperty → Prop}

theorem Admits.processNewChannels (admits : Admits cfg address P) (own : address ioc.id)
    (infos : ∀ n info, records.get? n = some info → AllOf P info.infoProperties)
    (new : List String) {existing : Py.Dict String CFEntry}
    (before : ∀ n e, existing.get? n = some e → AllOf P e.properties) :
    ∀ ch ∈ processNewChannels cfg setup ioc records env new existing, AllOf P ch.properties := by
  have done := List.foldlRecOn (motive := AllChannels P) (env.setOrder new)
    (processNewChannel cfg setup ioc records) (⟨before, by simp⟩ : AllChannels P { existing })
    fun st all n _ => all.processNewChannel (admits.newProperties own infos)
      (admits.aliasProperties own infos) n
  intro ch member
  obtain ⟨x, pending, rfl⟩ := List.mem_map.mp member
  exact done.resolve x pending

end Process

/-- No info tag and no environment variable is stored under the name. -/
def Setup.Avoids (setup : Setup) (name : String) : Prop :=
  name ∉ setup.recordPropertyNamesList ∧ ∀ var ∈ setup.envVars.entries, var.2 ≠ name

section Avoids

variable {cfg : CFConfig} {setup : Setup} {env : Env} {t : Transaction} {name : String}

theorem recordsOf_avoids (avoids : setup.Avoids name) (n : String) (info : RecordInfo)
    (found : (recordsOf cfg setup env t).get? n = some info) :
    ∀ q ∈ info.infoProperties, q.name ≠ name := by
  obtain ⟨r, ty, -, rfl⟩ := get?_recordsOf cfg setup env t found
  intro q member
  rcases List.mem_append.mp member with tagged | mapped
  · cases infos : t.recordInfosToAdd.get? r with
    | none => simp [infos] at tagged
    | some infos' =>
      simp only [infos, Option.map_some, Option.getD_some, whitelistedInfos,
        List.mem_filterMap] at tagged
      obtain ⟨tag, listed, value⟩ := tagged
      obtain ⟨v, -, rfl⟩ := Option.map_eq_some_iff.mp value
      rintro rfl
      exact avoids.1 listed
  · simp only [applyEnvVars, List.mem_filterMap] at mapped
    obtain ⟨var, listed, value⟩ := mapped
    obtain ⟨v, -, rfl⟩ := Option.map_eq_some_iff.mp value
    exact avoids.2 var listed

/-- With configured names of their own, the setup avoids what the processor uses itself. -/
theorem setupCfProperties_avoids (apart : cfg.NamesApart) {cfProperties registered : List String}
    (done : setupCfProperties cfg env cfProperties = .ok (setup, registered)) {p : CFPropertyName}
    (desc : p ≠ .recordDesc) (ca : p ≠ .caPort) (pva : p ≠ .pvaPort) : setup.Avoids p.value := by
  obtain ⟨configured, parsed, vars, tags, -⟩ := setupCfProperties_ok done
  have named := apart configured parsed
  constructor
  · intro member
    rw [tags, (env.setOrder_perm _).mem_iff] at member
    rcases mem_recordPropertyNames member with plain | same
    · exact named p.value (List.mem_append_left _ plain) p rfl
    · exact desc (CFPropertyName.value_injective same)
  · intro var member same
    rw [vars] at member
    rcases mem_envVarsOf member with plain | ⟨-, rfl | rfl⟩
    · exact named var.2 (List.mem_append_right _ (List.mem_map_of_mem plain)) p same
    · exact ca (CFPropertyName.value_injective same.symm)
    · exact pva (CFPropertyName.value_injective same.symm)

end Avoids

end Recsync.Cf
