import Recsync.Cf.Frame
import Recsync.Cf.Serving
import Recsync.Cf.SweepFaults

set_option autoImplicit false

/- What the commits of a run of sessions leave in ChannelFinder for the next sweep. -/
namespace Recsync.Cf

open Runs (EveryStep)

/-- If it is Active, it has the id of this recceiver. -/
def CFEntry.Marked (cfg : CFConfig) (e : CFEntry) : Prop :=
  e.Active → e.has .recceiverId cfg.recceiverId

/-- Everything Active has the id of this recceiver. -/
def Marked (cfg : CFConfig) (s : Store) : Prop := ∀ n e, s.get? n = some e → e.Marked cfg

section Writes

variable {client : ChannelFinderAdapter} {cfg : CFConfig} {setup : Setup} {env : Env}
  {p : Processor} {ioc : IOCInfo}
  {records : Py.Dict String RecordInfo} {del : List Key} {old : List CFChannel}

theorem gives_marked {l : List CFProperty} (sets : HasProperty l .recceiverId cfg.recceiverId) :
    Gives (CFEntry.Marked cfg) l :=
  ⟨fun _ _ => sets, fun _ _ _ _ => (hasProperty_append _ _ _ _).mpr (Or.inl sets)⟩

theorem createIocProperties_marks (owner time recceiverid host name ip iocid : String) :
    HasProperty (createIocProperties owner time recceiverid host name ip iocid) .recceiverId
      recceiverid :=
  ⟨_, List.getLast_mem (List.cons_ne_nil _ _), rfl, rfl⟩

theorem newProperties_marks (n : String) :
    HasProperty (newProperties cfg ioc records n) .recceiverId cfg.recceiverId :=
  (hasProperty_append _ _ _ _).mpr (Or.inl (createIocProperties_marks _ _ _ _ _ _ _))

theorem aliasProperties_marks (n : String) :
    HasProperty (aliasProperties cfg ioc records n) .recceiverId cfg.recceiverId :=
  (hasProperty_cons _ _ _ _).mpr (Or.inr (newProperties_marks n))

/-- What an orphan gets is not Active. -/
theorem marked_inactive (name owner : String) (e : CFEntry) :
    (channel name owner (mergePropertyLists (statusProperties ioc .inactive) e
      [])).toCFEntry.Marked cfg := by
  intro active
  have status := (hasProperty_merge (by simp [statusProperties]) _).mp active
  revert status
  simp [statusProperties, hasProperty_cons, PVStatus.value]

theorem createDefaultProperties_marks {name : String} {defaults : List CFProperty}
    (made : createDefaultProperties cfg p ioc name = .ok defaults) :
    HasProperty defaults .recceiverId cfg.recceiverId := by
  unfold createDefaultProperties at made
  split at made
  · cases made
  · split at made
    · cases made
    · rw [← Except.ok.inj made]
      exact createIocProperties_marks _ _ _ _ _ _ _

theorem reassignAlias_marked {defaults : List CFProperty}
    (marks : HasProperty defaults .recceiverId cfg.recceiverId) {name : String}
    {channels : List CFChannel} (ran : reassignAlias setup p defaults name = .ok channels) :
    ∀ ch ∈ channels, ch.toCFEntry.Marked cfg := by
  unfold reassignAlias at ran
  split at ran
  · rw [← Except.ok.inj ran]
    simp
  · split at ran
    · cases ran
    · split at ran
      · rw [← Except.ok.inj ran]
        simp
      · rw [← Except.ok.inj ran]
        intro ch member
        rw [List.mem_singleton.mp member]
        exact (gives_marked marks).merged _ _ _

theorem handleChannel_marked {cf : CFChannel} {new new' : List String} {channels : List CFChannel}
    (unnamed : cf.name ∉ new)
    (ran : handleChannel cfg setup p ioc records del old cf new = .ok (new', channels)) :
    new' = new ∧ ∀ ch ∈ channels, ch.toCFEntry.Marked cfg := by
  rcases handleChannel_cases ran with
    ⟨-, same, ⟨rfl, -⟩ | ⟨last, -, released⟩⟩ | ⟨-, named, -⟩ | ⟨-, -, same, rfl⟩
  · refine ⟨same, ?_⟩
    intro ch member
    rcases List.mem_cons.mp member with rfl | later
    · exact marked_inactive _ _ _
    · obtain ⟨a, -, rfl⟩ := List.mem_map.mp later
      exact marked_inactive _ _ _
  · refine ⟨same, ?_⟩
    obtain ⟨defaults, made, released⟩ := Py.bind_ok released
    obtain ⟨aliases, mapped, released⟩ := Py.bind_ok released
    have marks := createDefaultProperties_marks made
    rw [← Except.ok.inj released]
    intro ch member
    rcases List.mem_cons.mp member with rfl | later
    · exact (gives_marked marks).merged _ _ _
    · obtain ⟨written, listed, inside⟩ := List.mem_flatten.mp later
      obtain ⟨a, -, reassigned⟩ := Py.mem_of_mapM_ok mapped written listed
      exact reassignAlias_marked marks reassigned ch inside
  · exact absurd named unnamed
  · exact ⟨same, by simp⟩

theorem handleChannels_marked {l : List CFChannel} {new new' : List String}
    {channels : List CFChannel} (unnamed : ∀ cf ∈ l, cf.name ∉ new)
    (ran : handleChannels cfg setup p ioc records del old l new = .ok (new', channels)) :
    ∀ ch ∈ channels, ch.toCFEntry.Marked cfg := by
  induction l generalizing new channels with
  | nil =>
    obtain ⟨rfl, rfl⟩ := Prod.mk.inj (Except.ok.inj ran)
    simp
  | cons cf rest ih =>
    rw [List.forall_mem_cons] at unnamed
    obtain ⟨next, first, later, head, tail, rfl⟩ := handleChannels_cons_ok ran
    obtain ⟨rfl, marked⟩ := handleChannel_marked unnamed.1 head
    intro ch member
    rcases List.mem_append.mp member with inFirst | inLater
    · exact marked ch inFirst
    · exact ih unnamed.2 tail ch inLater

theorem attemptWrites_marked {fault : Option Fault} {s : Store}
    (unnamed : ∀ cf ∈ client.findByIocId env s ioc.id, cf.name ∉ records.keys) {ch : CFChannel}
    (member : ch ∈ attemptWrites client cfg setup env p records del ioc fault s) :
    ch.toCFEntry.Marked cfg := by
  obtain ⟨new, handled, reconciled, old | fresh⟩ := mem_attemptWrites member
  · exact handleChannels_marked unnamed reconciled ch old
  · exact (processNewChannels_writes cfg setup ioc (fun n => gives_marked (newProperties_marks n))
      (fun n => gives_marked (aliasProperties_marks n)) env new _).1 ch fresh

/-- A commit that meets no fault and names nothing that is listed under its IOC. -/
theorem commit_marked {t : Transaction} {w : World}
    (unnamed : ∀ cf ∈ client.findByIocId env w.store t.iocid,
      cf.name ∉ (recordsOf cfg setup env t).keys)
    (marked : Marked cfg w.store) :
      Marked cfg (client.commitWithThread cfg setup env [] t w).2.store := by
  have written : ∀ ch ∈ commitWrites client cfg setup env [] t w, ch.toCFEntry.Marked cfg := by
    intro ch member
    unfold commitWrites at member
    dsimp only at member
    split at member
    · cases member
    split at member
    · cases member
    split at member
    · cases member
    split at member
    · cases member
    unfold pushWrites at member
    split at member
    · cases member
    split at member
    · cases member
    exact attemptWrites_marked unnamed member
  obtain ⟨carried, inside, same⟩ := (commitWrites_owned client cfg setup env [] t w).2
  rw [same]
  intro n e stored
  rcases get?_setChannels_cases w.store carried n with ⟨kept, -⟩ | ⟨ch, member, -, found⟩
  · exact marked n e (kept ▸ stored)
  · obtain rfl := Option.some.inj (found.symm.trans stored)
    exact written ch (inside member)

end Writes

/-- What one life of the recceiver may leave to the next: everything Active has the id of the
recceiver, and everything is listed under addresses that have been in use. -/
structure LeftBehind (cfg : CFConfig) (used : String → Prop) (s : Store) : Prop where
  marked : Marked cfg s
  listed : ∀ n e, s.get? n = some e → ∀ v, e.has .iocId v → used v

section Run

variable {client : ChannelFinderAdapter} {cfg : CFConfig} {setup : Setup} {run done : List Commit}
  {w : World} {c : Commit} {used : String → Prop}

/-- In a run of sessions no commit names what is listed under its IOC. -/
theorem Agreement.unnamed (inv : Agreement run done w) (member : c ∈ run)
    (continues : Continues (sent done c.iocid) c.transaction) :
    ∀ cf ∈ client.findByIocId c.env w.store c.transaction.iocid,
      cf.name ∉ (recordsOf cfg setup c.env c.transaction).keys := by
  intro cf found key
  obtain ⟨stored, listed⟩ := client.findByIocId_listed _ _ _ cf found
  have holds := inv.holder_listed member continues.stillOpen stored listed
  have touch : cf.name ∈ touched cfg (recordsOf cfg setup c.env c.transaction) :=
    mem_touched.mpr ⟨cf.name, key, Or.inl rfl⟩
  exact inv.not_serving continues (touched_subset_names cfg setup c.env c.transaction touch)
    (Ownership.holder_mem holds)

/-- Every entry after a commit is one from before it, or has the iocids of one from before it, or is
listed under an IOC of the run. -/
theorem Agreement.listed_next (inv : Agreement run done w) (usable : cfg.Usable)
    (apart : setup.Apart) (whole : client.FindsListed c.env w.store c.iocid) (member : c ∈ run)
    (continues : Continues (sent done c.iocid) c.transaction) (calm : c.faults = [])
    (converts : iocNameConverts (iocInfoOf cfg c.env c.transaction).iocName = true)
    (inside : done ⊆ run) {n : String} {e : CFEntry}
    (stored : (client.commitStep cfg setup w c).store.get? n = some e) {v : String}
    (has : e.has .iocId v) :
    (∃ old, w.store.get? n = some old ∧ old.has .iocId v) ∨ ∃ d ∈ run, d.iocid = v := by
  rcases continues.kind with ⟨connected, first⟩ | disconnect
  · have known : c.transaction.initial = true ∨ (w.proc.iocs c.transaction.iocid).isSome :=
      (inv.first_or_registered continues first).imp And.left And.right
    obtain ⟨s, step, effect⟩ :=
      inv.commitStep_connected usable apart member continues calm converts connected known
    rw [step] at stored
    rcases effect n with ⟨⟨e', stored', live⟩, -⟩ | ⟨kept, -⟩
    · obtain rfl := Option.some.inj (stored.symm.trans stored')
      exact Or.inr ⟨c, member, ((live.listed v).mp has).symm⟩
    · exact Or.inl ⟨e, kept.symm.trans stored, has⟩
  · cases known : w.proc.iocs c.transaction.iocid with
    | some info =>
      obtain ⟨s, ran, effect⟩ := commit_disconnect_spec usable inv.up converts inv.consistent
        inv.keyed disconnect (by simp [known]) whole
      rw [ChannelFinderAdapter.commitStep, calm, ran] at stored
      rcases effect n with ⟨kept, -⟩ | ⟨old, e', before, -, stored', live, orphan⟩
      · exact Or.inl ⟨e, kept.symm.trans stored, has⟩
      · obtain rfl := Option.some.inj (stored.symm.trans stored')
        cases holds : Ownership.holder (Ownership.leave w.proc.owners c.transaction.iocid) n with
        | none => exact Or.inl ⟨old, before, ((orphan holds).2 v).mp has⟩
        | some j =>
          have serving : j ∈ w.proc.owners n :=
            List.mem_of_mem_erase (Ownership.holder_mem holds)
          obtain ⟨u, sentBefore, -⟩ := inv.sentBefore n j serving
          obtain ⟨d, among, -⟩ := List.mem_map.mp sentBefore
          obtain ⟨early, same⟩ := List.mem_filter.mp among
          rw [((live j holds).listed v).mp has]
          exact Or.inr ⟨d, inside early, of_decide_eq_true same⟩
    | none =>
      rw [ChannelFinderAdapter.commitStep, calm,
        Agreement.commit_disconnect_unknown disconnect inv.up converts known] at stored
      exact Or.inl ⟨e, stored, has⟩

/-- A run of sessions leaves what the next sweep finds. -/
theorem leftBehind_run (usable : cfg.Usable) (apart : setup.Apart) (session : SessionRun run)
    (calm : ∀ c ∈ run, c.faults = [])
    (converts : ∀ c ∈ run, iocNameConverts (iocInfoOf cfg c.env c.transaction).iocName = true)
    {s : Store} (start : Agreement run [] ⟨{}, s⟩) (whole : client.Covers run)
    (left : LeftBehind cfg used s) (addresses : ∀ c ∈ run, used c.iocid) :
    LeftBehind cfg used (client.runCommits cfg setup ⟨{}, s⟩ run).store := by
  have kept := EveryStep.maintains (I := fun done => done ⊆ run ∧
    Agreement run done (client.runCommits cfg setup ⟨{}, s⟩ done) ∧
    LeftBehind cfg used (client.runCommits cfg setup ⟨{}, s⟩ done).store) session
    ⟨List.nil_subset _, start, left⟩ ?_ (List.prefix_refl run)
  · exact kept.2.2
  intro done c member ⟨inside, inv, before⟩ continues
  have through := calm c member
  have found := whole done _ inv inside c member
  have named := converts c member
  rw [runCommits_append]
  refine ⟨List.append_subset.mpr ⟨inside, by simpa using member⟩,
    inv.next usable apart found member continues through named, ?_, ?_⟩
  · rw [ChannelFinderAdapter.commitStep, through]
    exact commit_marked (inv.unnamed member continues) before.marked
  · intro n e stored v has
    rcases inv.listed_next usable apart found member continues through named inside stored has with
      ⟨old, stored, had⟩ | ⟨d, among, rfl⟩
    · exact before.listed n old stored v had
    · exact addresses d among

end Run

section Swept

variable {cfg : CFConfig} {setup : Setup} {used : String → Prop} {s after : Store}

/-- The sweep between two lives leaves nothing Active. -/
theorem LeftBehind.inactive (left : LeftBehind cfg used s) (drained : Drained cfg s after) :
    ∀ n e, after.get? n = some e → ¬ e.Active := by
  intro n e stored active
  have swept := drained.inactive n e stored
  rw [drained.channels n] at stored
  obtain ⟨old, before, rfl⟩ := Option.map_eq_some_iff.mp stored
  rw [CFEntry.afterSweep] at swept active
  split at active
  · exact setProperty_inactive old cfg.username active
  · next other => exact other ⟨active, left.marked n old before active⟩

theorem LeftBehind.addresses (left : LeftBehind cfg used s) (drained : Drained cfg s after) :
    ∀ n e, after.get? n = some e → ∀ v, e.has .iocId v → used v := by
  intro n e stored v listed
  rw [drained.channels n] at stored
  obtain ⟨old, before, rfl⟩ := Option.map_eq_some_iff.mp stored
  obtain ⟨q, member, name, value⟩ := listed
  have other : q.name ≠ CFPropertyName.pvStatus.value := by
    rw [name]
    decide
  exact left.listed n old before v ⟨q, (mem_afterSweep other).mp member, name, value⟩

theorem cleanThread_drained {client : ChannelFinderAdapter} {events : List SweepEvent} {w : World}
    (through : (cleanThread client cfg setup events w).2.Through) :
    Drained cfg w.store (cleanThread client cfg setup events w).1.store := by
  have spec := @cleanThread_spec client cfg setup events w
  have place := spec.place
  generalize (cleanThread client cfg setup events w).2 = task at through place
  match task, through with
  | .sweeping .finished _, _ => exact drained_of_kept spec.channels place

end Swept

end Recsync.Cf
