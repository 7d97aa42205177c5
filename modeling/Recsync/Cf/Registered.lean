import Recsync.Cf.Foreign

set_option autoImplicit false

/- The names of the properties that a push writes. -/
namespace Recsync.Cf

/-- Some channel has a property with that name. -/
def PresentIn (s : Store) (name : String) : Prop :=
  ∃ n e, s.get? n = some e ∧ ∃ q ∈ e.properties, q.name = name

/-- Every property is managed, or its name is in use already. -/
def Known (setup : Setup) (s : Store) (properties : List CFProperty) : Prop :=
  ∀ q ∈ properties, q.name ∈ setup.managedProperties ∨ PresentIn s q.name

section Known

variable {setup : Setup} {s : Store}

theorem OnlyManaged.known {properties : List CFProperty} (only : OnlyManaged setup properties) :
    Known setup s properties :=
  fun q member => Or.inl (only q member)

theorem known_nil : Known setup s [] := fun _ member => absurd member List.not_mem_nil

theorem known_stored {n : String} {e : CFEntry} (stored : s.get? n = some e) :
    Known setup s e.properties :=
  fun q member => Or.inr ⟨n, e, stored, q, member, rfl⟩

theorem Known.append {first second : List CFProperty} (head : Known setup s first)
    (tail : Known setup s second) : Known setup s (first ++ second) := by
  intro q member
  rcases List.mem_append.mp member with inFirst | inSecond
  · exact head q inFirst
  · exact tail q inSecond

/-- A merge keeps some of the properties of the entry. -/
theorem Known.merge {new : List CFProperty} {e : CFEntry} (added : Known setup s new)
    (kept : Known setup s e.properties) (managed : List String) :
    Known setup s (mergePropertyLists new e managed) :=
  added.append fun q member => kept q (List.mem_of_mem_filter member)

end Known

section Writes

variable {cfg : CFConfig} {setup : Setup} {env : Env} {t : Transaction} {s : Store} {p : Processor}
  {del : List Key} {old : List CFChannel} {ioc : IOCInfo}

theorem reassignAlias_known {defaults : List CFProperty} (added : Known setup s defaults)
    {name : String} {channels : List CFChannel}
    (ran : reassignAlias setup p defaults name = .ok channels) :
    ∀ ch ∈ channels, Known setup s ch.properties := by
  unfold reassignAlias at ran
  split at ran
  · rw [← Except.ok.inj ran]
    simp
  · split at ran
    · cases ran
    · split at ran
      · rw [← Except.ok.inj ran]
        simp
      · rw [← Except.ok.inj ran]
        intro ch member
        rw [List.mem_singleton.mp member]
        exact added.merge known_nil _

/-- The alias loop writes the status, the alias and what the channel of the record has. -/
theorem handleAliasesOldAndNew_known (covers : setup.Covers cfg) {own : CFChannel}
    (known : Known setup s own.properties) {aliases new new' : List String}
    (enabled : ∀ a ∈ aliases, cfg.aliasEnabled = true) {channels : List CFChannel}
    (ran : handleAliasesOldAndNew setup ioc old own aliases new = .ok (new', channels)) :
    ∀ ch ∈ channels, Known setup s ch.properties := by
  induction aliases generalizing new channels with
  | nil =>
    obtain ⟨rfl, rfl⟩ := Prod.mk.inj (Except.ok.inj ran)
    simp
  | cons a rest ih =>
    rw [List.forall_mem_cons] at enabled
    obtain ⟨removed, -, ran⟩ := Py.bind_ok ran
    obtain ⟨⟨after, later⟩, tail, ran⟩ := Py.bind_ok ran
    obtain ⟨rfl, rfl⟩ := Prod.mk.inj (Except.ok.inj ran)
    have status : Known setup s (statusProperties ioc .active) :=
      (statusProperties_managed covers ioc .active).known
    have aliasFor : Known setup s [property .aliasFor ioc.owner own.name] := by
      intro q member
      rw [List.mem_singleton.mp member]
      exact Or.inl (covers.aliasFor enabled.1)
    intro ch member
    rcases List.mem_cons.mp member with rfl | inLater
    · exact (status.append aliasFor).merge known _
    · exact ih enabled.2 tail ch inLater

theorem handleChannel_known (covers : setup.Covers cfg) {records : Py.Dict String RecordInfo}
    {cf : CFChannel} (stored : s.get? cf.name = some cf.toCFEntry) {new new' : List String}
    {channels : List CFChannel}
    (ran : handleChannel cfg setup p ioc records del old cf new = .ok (new', channels)) :
    ∀ ch ∈ channels, Known setup s ch.properties := by
  have status (status : PVStatus) : Known setup s (statusProperties ioc status) :=
    (statusProperties_managed covers ioc status).known
  have before : Known setup s cf.properties := known_stored stored
  intro ch member
  rcases handleChannel_cases ran with
    ⟨-, -, ⟨rfl, -⟩ | ⟨last, -, released⟩⟩ | ⟨-, -, updated⟩ | ⟨-, -, -, rfl⟩
  · rcases List.mem_cons.mp member with rfl | later
    · exact (status .inactive).merge before _
    · obtain ⟨a, -, rfl⟩ := List.mem_map.mp later
      exact (status .inactive).merge known_nil _
  · obtain ⟨defaults, made, released⟩ := Py.bind_ok released
    obtain ⟨aliases, mapped, released⟩ := Py.bind_ok released
    have added : Known setup s defaults := (createDefaultProperties_managed covers made).known
    rw [← Except.ok.inj released] at member
    rcases List.mem_cons.mp member with rfl | later
    · exact added.merge before _
    · obtain ⟨written, listed, inside⟩ := List.mem_flatten.mp later
      obtain ⟨a, -, reassigned⟩ := Py.mem_of_mapM_ok mapped written listed
      exact reassignAlias_known added reassigned ch inside
  · obtain ⟨rest, -, aliases, rfl⟩ := handleChannelOldAndNew_ok updated
    have own := (status .active).merge before setup.managedProperties
    rcases List.mem_cons.mp member with rfl | inside
    · exact own
    · exact handleAliasesOldAndNew_known covers own (fun a => enabled_of_alias) aliases ch inside
  · cases member

theorem handleChannels_known (covers : setup.Covers cfg) {records : Py.Dict String RecordInfo}
    {l : List CFChannel} (stored : ∀ cf ∈ l, s.get? cf.name = some cf.toCFEntry)
    {new new' : List String} {channels : List CFChannel}
    (ran : handleChannels cfg setup p ioc records del old l new = .ok (new', channels)) :
    ∀ ch ∈ channels, Known setup s ch.properties := by
  induction l generalizing new channels with
  | nil =>
    obtain ⟨rfl, rfl⟩ := Prod.mk.inj (Except.ok.inj ran)
    simp
  | cons cf rest ih =>
    rw [List.forall_mem_cons] at stored
    obtain ⟨next, first, later, head, tail, rfl⟩ := handleChannels_cons_ok ran
    intro ch member
    rcases List.mem_append.mp member with inFirst | inLater
    · exact handleChannel_known covers stored.1 head ch inFirst
    · exact ih stored.2 tail ch inLater

/-- What holds of the create and move paths: the objects they merge into and the channels they
make have known properties. -/
structure KnownChannels (setup : Setup) (s : Store) (st : NewChannels) : Prop where
  existing : ∀ n e, st.existing.get? n = some e → Known setup s e.properties
  fresh : ∀ ch, Pending.fresh ch ∈ st.pending → Known setup s ch.properties

namespace KnownChannels

variable {st : NewChannels}

theorem overwriteExisting (known : KnownChannels setup s st) {properties : List CFProperty}
    (added : Known setup s properties) {n : String} {e : CFEntry}
    (found : st.existing.get? n = some e) :
    KnownChannels setup s (overwriteExisting setup properties n e st) := by
  constructor
  · intro m e' there
    by_cases same : m = n
    · subst same
      rw [← Option.some.inj ((Py.Dict.get?_set_self _ _ _).symm.trans there)]
      exact added.merge (known.existing m e found) _
    · exact known.existing m e' ((Py.Dict.get?_set_ne _ _ same).symm.trans there)
  · intro ch member
    rcases List.mem_append.mp member with before | last
    · exact known.fresh ch before
    · cases List.mem_singleton.mp last

theorem createFresh (known : KnownChannels setup s st) {properties : List CFProperty}
    (added : Known setup s properties) (n : String) :
    KnownChannels setup s (createFresh ioc properties n st) := by
  refine ⟨known.existing, ?_⟩
  intro ch member
  rcases List.mem_append.mp member with before | last
  · exact known.fresh ch before
  · cases List.mem_singleton.mp last
    exact added

theorem processNewChannel (covers : setup.Covers cfg) (known : KnownChannels setup s st)
    (n : String) : KnownChannels setup s (processNewChannel cfg setup (iocInfoOf cfg env t)
      (recordsOf cfg setup env t) st n) := by
  have own : Known setup s
    (newProperties cfg (iocInfoOf cfg env t) (recordsOf cfg setup env t) n) :=
    (newProperties_managed covers env t n).known
  have ofAlias (a : String) (listed : a ∈ aliasesOf cfg (recordsOf cfg setup env t) n) :
      Known setup s (aliasProperties cfg (iocInfoOf cfg env t) (recordsOf cfg setup env t) n) :=
    (aliasProperties_managed covers (enabled_of_alias listed) env t n).known
  unfold Cf.processNewChannel
  cases found : st.existing.get? n with
  | some e =>
    refine List.foldlRecOn _ _ (known.overwriteExisting own found) ?_
    intro st known a listed
    unfold moveAlias
    cases there : st.existing.get? a with
    | some ach => exact known.overwriteExisting (ofAlias a listed) there
    | none => exact known.createFresh (ofAlias a listed) a
  | none =>
    refine List.foldlRecOn _ _ (known.createFresh own n) ?_
    intro st known a listed
    exact known.createFresh (ofAlias a listed) a

theorem resolve (known : KnownChannels setup s st) :
    ∀ x ∈ st.pending, Known setup s (st.resolve x).properties := by
  intro x member
  cases x with
  | fresh ch => exact known.fresh ch member
  | existing n =>
    cases found : st.existing.get? n with
    | some e =>
      simpa only [NewChannels.resolve, found, Option.getD_some] using known.existing n e found
    | none => simpa only [NewChannels.resolve, found, Option.getD_none] using known_nil

end KnownChannels

theorem processNewChannels_known (client : ChannelFinderAdapter) (covers : setup.Covers cfg)
    (new : List String) :
    ∀ ch ∈ processNewChannels cfg setup (iocInfoOf cfg env t) (recordsOf cfg setup env t) env new
      (client.getExistingChannels env s new), Known setup s ch.properties := by
  have start : KnownChannels setup s { existing := client.getExistingChannels env s new } :=
    ⟨fun n e found => known_stored (getExistingChannels_stored found), by simp⟩
  have done := List.foldlRecOn (motive := KnownChannels setup s) (env.setOrder new)
    (processNewChannel cfg setup (iocInfoOf cfg env t) (recordsOf cfg setup env t)) start
    fun st known n _ => known.processNewChannel covers n
  intro ch member
  obtain ⟨x, pending, rfl⟩ := List.mem_map.mp member
  exact done.resolve x pending

theorem attemptWrites_known (client : ChannelFinderAdapter) (covers : setup.Covers cfg)
    {fault : Option Fault} {ch : CFChannel}
    (member : ch ∈ attemptWrites client cfg setup env p (recordsOf cfg setup env t) del
      (iocInfoOf cfg env t) fault s) : Known setup s ch.properties := by
  obtain ⟨new, handled, reconciled, old | fresh⟩ := mem_attemptWrites member
  · have stored (cf) (found : cf ∈ client.findByIocId env s (iocInfoOf cfg env t).id) :
        s.get? cf.name = some cf.toCFEntry := (client.findByIocId_listed env s _ cf found).1
    exact handleChannels_known covers stored reconciled ch old
  · exact processNewChannels_known client covers new ch fresh

end Writes

/-- A managed name was found in ChannelFinder or is registered. -/
theorem managed_registered {cfg : CFConfig} {env : Env} {cfProperties : List String}
    {setup : Setup} {registered : List String}
    (started : setupCfProperties cfg env cfProperties = .ok (setup, registered)) {name : String}
    (managed : name ∈ setup.managedProperties) : name ∈ cfProperties ∨ name ∈ registered := by
  unfold setupCfProperties at started
  cases parsed : parseEnvVars cfg with
  | error e => simp [parsed, bind, Except.bind] at started
  | ok configured =>
    simp only [parsed, bind, Except.bind, pure, Except.pure, Except.ok.injEq, Prod.mk.injEq]
      at started
    rw [← started.1] at managed
    dsimp only at managed
    by_cases found : name ∈ cfProperties
    · exact Or.inl found
    · right
      rw [← started.2, (env.setOrder_perm _).mem_iff, List.mem_filter, decide_eq_true_iff]
      exact ⟨managed, found⟩

/-- Whatever an attempt writes, the names of the properties are known to ChannelFinder: it had them
on some channel before, or the setup found them there or registered them. -/
theorem attemptWrites_registered (client : ChannelFinderAdapter) {cfg : CFConfig} {startEnv : Env}
    {cfProperties : List String}
    {setup : Setup} {registered : List String}
    (started : setupCfProperties cfg startEnv cfProperties = .ok (setup, registered)) (env : Env)
    (p : Processor) (t : Transaction) (del : List Key) (fault : Option Fault) (s : Store) :
    ∀ ch ∈ attemptWrites client cfg setup env p (recordsOf cfg setup env t) del
      (iocInfoOf cfg env t)
        fault s, ∀ q ∈ ch.properties,
        PresentIn s q.name ∨ q.name ∈ cfProperties ∨ q.name ∈ registered := by
  intro ch member q written
  cases attemptWrites_known client (setupCfProperties_covers started) member q written with
  | inl managed => exact Or.inr (managed_registered started managed)
  | inr present => exact Or.inl present

/-- The records of a transaction with an alias, in a ChannelFinder that knows one of the
properties. -/
theorem attemptWrites_registered_nick :
    ∃ setup registered,
      setupCfProperties (aliasConfig 10000) {} ["pvStatus"] = .ok (setup, registered) ∧
      ∀ ch ∈ attemptWrites ((aliasConfig 10000).queries PyCFClientAdapter.exactNames)
          (aliasConfig 10000) setup {} {}
          (recordsOf (aliasConfig 10000) setup {} (aliasedRecords ["nick"])) []
          (iocInfoOf (aliasConfig 10000) {} (aliasedRecords ["nick"])) none (labelled ["pv2"]),
        ∀ q ∈ ch.properties, PresentIn (labelled ["pv2"]) q.name ∨ q.name ∈ ["pvStatus"] ∨
          q.name ∈ registered := by
  have started : setupCfProperties (aliasConfig 10000) {} ["pvStatus"] = .ok (_, _) := rfl
  exact ⟨_, _, started, attemptWrites_registered _ started {} {} (aliasedRecords ["nick"]) [] none
    (labelled ["pv2"])⟩

end Recsync.Cf
