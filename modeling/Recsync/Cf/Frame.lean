import Recsync.Cf.Disconnect
import Recsync.Cf.RecommitWrites

set_option autoImplicit false

/- What a commit leaves alone: the channels and the maps of the other IOCs. -/
namespace Recsync.Cf

open Py (Error Program)

/-- What `p` keeps of `q` for every IOC but one: its entry, its channels, and its place among the
others in every list of `channel_ioc_ids`. -/
structure OthersKept (iocid : String) (q p : Processor) : Prop where
  iocs : ∀ j, j ≠ iocid → p.iocs j = q.iocs j
  channels : ∀ j, j ≠ iocid → p.iocChannels j = q.iocChannels j
  lists : ∀ k, (p.ids k).filter (fun j => decide (j ≠ iocid)) =
    (q.ids k).filter fun j => decide (j ≠ iocid)

namespace OthersKept

variable {iocid : String} {q p : Processor}

theorem refl (q : Processor) : OthersKept iocid q q :=
  ⟨fun _ _ => rfl, fun _ _ => rfl, fun _ => rfl⟩

theorem trans {r : Processor} (first : OthersKept iocid q p) (second : OthersKept iocid p r) :
    OthersKept iocid q r where
  iocs j other := (second.iocs j other).trans (first.iocs j other)
  channels j other := (second.channels j other).trans (first.channels j other)
  lists k := (second.lists k).trans (first.lists k)

theorem setIoc (kept : OthersKept iocid q p) (info : Option IOCInfo) :
    OthersKept iocid q (p.setIoc iocid info) := by
  refine ⟨?_, kept.channels, kept.lists⟩
  intro j other
  rw [Processor.iocs_setIoc, if_neg other]
  exact kept.iocs j other

theorem setChannels (kept : OthersKept iocid q p) (names : Option (Py.Set String)) :
    OthersKept iocid q (p.setChannels iocid names) := by
  refine ⟨kept.iocs, ?_, kept.lists⟩
  intro j other
  exact (Function.update_of_ne other _ _).trans (kept.channels j other)

/-- A list may lose or gain the IOC itself. -/
theorem setIds (kept : OthersKept iocid q p) (k : Key) {l : Option (List String)}
    (same : (l.getD []).filter (fun j => decide (j ≠ iocid)) =
      (p.ids k).filter fun j => decide (j ≠ iocid)) : OthersKept iocid q (p.setIds k l) := by
  refine ⟨kept.iocs, kept.channels, ?_⟩
  intro key
  rw [Processor.ids_setIds]
  split
  · rename_i here
    rw [same, ← here]
    exact kept.lists key
  · exact kept.lists key

theorem logError (kept : OthersKept iocid q p) (message : String) :
    OthersKept iocid q (p.logError message) :=
  ⟨kept.iocs, kept.channels, kept.lists⟩

theorem registerChannel (n : String) :
    Program.Maintains (OthersKept iocid q) (registerChannel iocid n) := by
  intro p kept
  unfold Cf.registerChannel Program.after
  by_cases tracked : iocid ∈ p.ids (.name n)
  · simp only [tracked, if_true]
    exact kept.setChannels _
  · have listed : OthersKept iocid q (p.setIds (.name n) (some (p.ids (.name n) ++ [iocid]))) := by
      apply kept.setIds
      simp
    cases known : p.iocs iocid with
    | none => simpa only [tracked, known, if_false, Processor.iocs_setIds] using listed
    | some info =>
      simp only [tracked, known, if_false, Processor.iocs_setIds]
      exact (listed.setIoc _).setChannels _

theorem removeChannel (k : Key) :
    Program.Maintains (OthersKept iocid q) (removeChannel k iocid) := by
  intro p kept
  unfold Cf.removeChannel Program.after
  by_cases absent : iocid ∉ p.ids k
  · simp only [absent, not_false_eq_true, if_true]
    exact kept.setIds k rfl
  · have erased : ((if (p.ids k).erase iocid = [] then none
        else some ((p.ids k).erase iocid)).getD []).filter (fun j => decide (j ≠ iocid)) =
        (p.ids k).filter fun j => decide (j ≠ iocid) := by
      have same : (if (p.ids k).erase iocid = [] then none
          else some ((p.ids k).erase iocid)).getD [] = (p.ids k).erase iocid := by
        split
        · rename_i empty
          simp [empty]
        · rfl
      rw [same, ← List.erase_filter]
      exact List.erase_of_not_mem (by simp)
    simp only [absent, if_false, Processor.iocs_setChannels, Processor.iocs_setIds]
    have left := fun names => (kept.setIds k erased).setChannels (some names)
    cases known : p.iocs iocid with
    | none => exact left _
    | some info =>
      simp only
      split
      · exact ((left _).logError _).setIoc _
      · exact (left _).setIoc _

theorem steps (q : Processor) (iocid : String) : KeptBySteps (OthersKept iocid q) iocid :=
  ⟨OthersKept.registerChannel, OthersKept.removeChannel, fun _ k kept => kept.setIds k rfl⟩

end OthersKept

/-- A commit touches the maps of no other IOC, whatever it meets. -/
theorem commit_others (client : ChannelFinderAdapter) (cfg : CFConfig) (setup : Setup) (env : Env)
    (faults : List Fault)
    (t : Transaction) (w : World) :
    OthersKept t.iocid w.proc (client.commitWithThread cfg setup env faults t w).2.proc := by
  refine @commit_maintains client (OthersKept t.iocid w.proc) cfg setup ⟨env, faults, t⟩ ?_ ?_ w
    (OthersKept.refl _)
  · exact (OthersKept.steps w.proc t.iocid).updateIocInfos cfg env
      (fun _ _ kept => kept.setIoc _) _
  · intro _
    exact (OthersKept.steps w.proc t.iocid).evictIoc env
      fun _ kept => (kept.setIoc none).setChannels none

section Names

variable {cfg : CFConfig} {setup : Setup} {p : Processor} {ioc : IOCInfo}
  {records : Py.Dict String RecordInfo} {del : List Key} {old : List CFChannel}

theorem orphanChannel_names (cf : CFChannel) :
    ∀ ch ∈ orphanChannel cfg ioc records cf, ch.name = cf.name ∨
      ch.name ∈ aliasesOf cfg records cf.name := by
  intro ch member
  rcases List.mem_cons.mp member with rfl | later
  · exact Or.inl rfl
  · obtain ⟨a, listed, rfl⟩ := List.mem_map.mp later
    exact Or.inr listed

theorem reassignAlias_names {defaults : List CFProperty} {a : String} {channels : List CFChannel}
    (ran : reassignAlias setup p defaults a = .ok channels) : ∀ ch ∈ channels, ch.name = a := by
  unfold reassignAlias at ran
  split at ran
  · rw [← Except.ok.inj ran]
    simp
  · split at ran
    · cases ran
    · split at ran
      · rw [← Except.ok.inj ran]
        simp
      · rw [← Except.ok.inj ran]
        simp

theorem handleChannelIsOld_names {cf : CFChannel} {last : IOCInfo} {channels : List CFChannel}
    (ran : handleChannelIsOld cfg setup p ioc records cf last = .ok channels) :
    ∀ ch ∈ channels, ch.name = cf.name ∨ ch.name ∈ aliasesOf cfg records cf.name := by
  obtain ⟨defaults, -, ran⟩ := Py.bind_ok ran
  obtain ⟨aliases, mapped, ran⟩ := Py.bind_ok ran
  rw [← Except.ok.inj ran]
  intro ch member
  rcases List.mem_cons.mp member with rfl | later
  · exact Or.inl rfl
  · obtain ⟨written, listed, inside⟩ := List.mem_flatten.mp later
    obtain ⟨a, source, reassigned⟩ := Py.mem_of_mapM_ok mapped written listed
    rw [reassignAlias_names reassigned ch inside]
    exact Or.inr source

theorem removeNew_left {new new' : List String} {n : String} (ran : removeNew new n = .ok new') :
    new'.Sublist new ∧ ∀ m ∈ new, m ∈ new' ∨ m = n := by
  unfold removeNew at ran
  split at ran
  · rw [← Except.ok.inj ran]
    refine ⟨List.erase_sublist, ?_⟩
    intro m member
    by_cases same : m = n
    · exact Or.inr same
    · exact Or.inl ((List.mem_erase_of_ne same).mpr member)
  · cases ran

theorem handleAliasesOldAndNew_names {own : CFChannel} {aliases new new' : List String}
    {channels : List CFChannel}
    (ran : handleAliasesOldAndNew setup ioc old own aliases new = .ok (new', channels)) :
    ∀ ch ∈ channels, ch.name ∈ aliases := by
  induction aliases generalizing new channels with
  | nil =>
    obtain ⟨rfl, rfl⟩ := Prod.mk.inj (Except.ok.inj ran)
    simp
  | cons a rest ih =>
    obtain ⟨removed, here, ran⟩ := Py.bind_ok ran
    obtain ⟨⟨after, later⟩, tail, ran⟩ := Py.bind_ok ran
    obtain ⟨rfl, rfl⟩ := Prod.mk.inj (Except.ok.inj ran)
    intro ch member
    rcases List.mem_cons.mp member with rfl | inside
    · simp [nameInChannels]
    · exact List.mem_cons_of_mem _ (ih tail ch inside)

/-- The alias loop takes nothing but aliases off the new names. -/
theorem handleAliasesOldAndNew_left {own : CFChannel} {aliases new new' : List String}
    {channels : List CFChannel}
    (ran : handleAliasesOldAndNew setup ioc old own aliases new = .ok (new', channels)) :
    new'.Sublist new ∧ ∀ m ∈ new, m ∈ new' ∨ m ∈ aliases := by
  induction aliases generalizing new channels with
  | nil =>
    obtain ⟨rfl, rfl⟩ := Prod.mk.inj (Except.ok.inj ran)
    exact ⟨List.Sublist.refl _, fun _ => Or.inl⟩
  | cons a rest ih =>
    obtain ⟨removed, here, ran⟩ := Py.bind_ok ran
    obtain ⟨⟨after, later⟩, tail, ran⟩ := Py.bind_ok ran
    obtain ⟨rfl, rfl⟩ := Prod.mk.inj (Except.ok.inj ran)
    obtain ⟨shorter, only⟩ := removeNew_left here
    obtain ⟨fewer, others⟩ := ih tail
    refine ⟨fewer.trans shorter, ?_⟩
    intro m member
    rcases only m member with still | rfl
    · exact (others m still).imp id (List.mem_cons_of_mem a)
    · exact Or.inr List.mem_cons_self

/-- The alias loop of a channel that is old and new raises at an alias that is not new. -/
theorem handleAliasesOldAndNew_new {own : CFChannel} {aliases new : List String}
    {result : List String × List CFChannel}
    (ran : handleAliasesOldAndNew setup ioc old own aliases new = .ok result) : aliases ⊆ new := by
  induction aliases generalizing new result with
  | nil => exact List.nil_subset _
  | cons a rest ih =>
    obtain ⟨removed, here, ran⟩ := Py.bind_ok ran
    obtain ⟨⟨after, later⟩, tail, -⟩ := Py.bind_ok ran
    have present : a ∈ new := by
      unfold removeNew at here
      split at here
      · assumption
      · cases here
    exact List.cons_subset.mpr
      ⟨present, fun b inside => (removeNew_left here).1.subset (ih tail inside)⟩

theorem handleChannel_names {cf : CFChannel} {new new' : List String} {channels : List CFChannel}
    (ran : handleChannel cfg setup p ioc records del old cf new = .ok (new', channels)) :
    ∀ ch ∈ channels, ch.name = cf.name ∨ ch.name ∈ aliasesOf cfg records cf.name := by
  rcases handleChannel_cases ran with
    ⟨-, rfl, ⟨rfl, -⟩ | ⟨last, -, released⟩⟩ | ⟨-, -, updated⟩ | ⟨-, -, rfl, rfl⟩
  · exact orphanChannel_names cf
  · exact handleChannelIsOld_names released
  · obtain ⟨rest, -, aliases, rfl⟩ := handleChannelOldAndNew_ok updated
    intro ch member
    rcases List.mem_cons.mp member with rfl | inside
    · exact Or.inl rfl
    · exact Or.inr (handleAliasesOldAndNew_names aliases ch inside)
  · simp

/-- One turn takes nothing but these names off the new ones. -/
theorem handleChannel_left {cf : CFChannel} {new new' : List String} {channels : List CFChannel}
    (ran : handleChannel cfg setup p ioc records del old cf new = .ok (new', channels)) :
    new'.Sublist new ∧
      ∀ m ∈ new, m ∈ new' ∨ m = cf.name ∨ m ∈ aliasesOf cfg records cf.name := by
  rcases handleChannel_cases ran with ⟨-, rfl, -⟩ | ⟨-, -, updated⟩ | ⟨-, -, rfl, rfl⟩
  · exact ⟨List.Sublist.refl _, fun _ => Or.inl⟩
  · obtain ⟨rest, -, aliases, rfl⟩ := handleChannelOldAndNew_ok updated
    obtain ⟨fewer, others⟩ := handleAliasesOldAndNew_left aliases
    refine ⟨fewer.trans List.erase_sublist, ?_⟩
    intro m member
    by_cases same : m = cf.name
    · exact Or.inr (Or.inl same)
    · exact (others m ((List.mem_erase_of_ne same).mpr member)).imp id Or.inr
  · exact ⟨List.Sublist.refl _, fun _ => Or.inl⟩

theorem handleChannels_names {l : List CFChannel} {new new' : List String}
    {channels : List CFChannel}
    (ran : handleChannels cfg setup p ioc records del old l new = .ok (new', channels)) :
    ∀ ch ∈ channels, ∃ cf ∈ l, ch.name = cf.name ∨ ch.name ∈ aliasesOf cfg records cf.name := by
  induction l generalizing new channels with
  | nil =>
    obtain ⟨rfl, rfl⟩ := Prod.mk.inj (Except.ok.inj ran)
    simp
  | cons cf rest ih =>
    obtain ⟨next, first, later, head, tail, rfl⟩ := handleChannels_cons_ok ran
    intro ch member
    rcases List.mem_append.mp member with inFirst | inLater
    · exact ⟨cf, by simp, handleChannel_names head ch inFirst⟩
    · obtain ⟨source, inside, named⟩ := ih tail ch inLater
      exact ⟨source, by simp [inside], named⟩

theorem handleChannels_left {l : List CFChannel} {new new' : List String}
    {channels : List CFChannel}
    (ran : handleChannels cfg setup p ioc records del old l new = .ok (new', channels)) :
    new'.Sublist new ∧ ∀ m ∈ new, m ∈ new' ∨
      ∃ cf ∈ l, m = cf.name ∨ m ∈ aliasesOf cfg records cf.name := by
  induction l generalizing new channels with
  | nil =>
    obtain ⟨rfl, rfl⟩ := Prod.mk.inj (Except.ok.inj ran)
    exact ⟨List.Sublist.refl _, fun _ => Or.inl⟩
  | cons cf rest ih =>
    obtain ⟨next, first, later, head, tail, rfl⟩ := handleChannels_cons_ok ran
    obtain ⟨shorter, only⟩ := handleChannel_left head
    obtain ⟨fewer, others⟩ := ih tail
    refine ⟨fewer.trans shorter, ?_⟩
    intro m member
    rcases only m member with still | taken
    · rcases others m still with left | ⟨source, inside, named⟩
      · exact Or.inl left
      · exact Or.inr ⟨source, by simp [inside], named⟩
    · exact Or.inr ⟨cf, by simp, taken⟩

theorem mem_touched_of_alias {n a : String} (listed : a ∈ aliasesOf cfg records n) :
    a ∈ touched cfg records := by
  rw [mem_touched]
  exact ⟨n, mem_keys_of_alias listed, Or.inr listed⟩

/-- The create and move paths write the new names and the aliases of their records. -/
theorem processNewChannels_names (env : Env) (new : List String)
    (existing : Py.Dict String CFEntry) :
    ∀ ch ∈ processNewChannels cfg setup ioc records env new existing,
      ch.name ∈ new ∨ ch.name ∈ touched cfg records := by
  intro ch member
  have named := List.mem_map_of_mem (f := CFChannel.name) member
  rw [map_name_processNewChannels, List.mem_flatMap] at named
  obtain ⟨n, inside, either⟩ := named
  rcases List.mem_cons.mp either with same | listed
  · exact Or.inl (same ▸ (env.setOrder_perm new).mem_iff.mp inside)
  · exact Or.inr (mem_touched_of_alias listed)

end Names

section Writes

variable (client : ChannelFinderAdapter) (cfg : CFConfig) (setup : Setup) (env : Env)
  (p : Processor)
  (records : Py.Dict String RecordInfo) (del : List Key) (ioc : IOCInfo)

/-- The channels of the batches, up to and with the request that fails. -/
def passed (bs : List (List CFChannel)) : Option Fault → List CFChannel
  | some (.setChannels written _ _) => (bs.take (written + 1)).flatten
  | _ => bs.flatten

/-- The channels that an attempt passes to `set_channels`. -/
def attemptWrites (fault : Option Fault) (s : Store) : List CFChannel :=
  if p.cancelled then []
  else if failsFindByIocId fault then []
  else
    let old := client.findByIocId env s ioc.id
    match reconcileOld cfg setup p records del ioc old with
    | .error _ => []
    | .ok (new, handled) =>
      if failsFindByNames fault ∧ new ≠ [] then []
      else
        match batches cfg setup env records ioc old new handled
          (client.getExistingChannels env s new) with
        | .error _ => []
        | .ok bs => passed bs fault

/-- The channels that the attempts of a push pass to `set_channels`. -/
def pushWrites : List Fault → Int → Store → List CFChannel
  | faults, count, s =>
    if ¬ (cfg.pushAlwaysRetry = true ∨ count < cfg.pushMaxRetries) then []
    else if ¬ p.running then []
    else
      match faults with
      | [] => attemptWrites client cfg setup env p records del ioc none s
      | fault :: rest =>
        attemptWrites client cfg setup env p records del ioc (some fault) s ++
          match client.updateChannelfinder cfg setup env p records del ioc (some fault) s with
          | (.error .requestException, s') => pushWrites rest (count + 1) s'
          | _ => []

/-- The channels that a commit passes to `set_channels`. -/
def commitWrites (faults : List Fault) (t : Transaction) (w : World) : List CFChannel :=
  let ioc := iocInfoOf cfg env t
  let records := recordsOf cfg setup env t
  if ¬ w.proc.running then []
  else if ¬ iocNameConverts ioc.iocName then []
  else if t.connected = false ∧ w.proc.iocs ioc.id = none then []
  else
    match updateIocInfos cfg env t ioc records w.proc with
    | .error _ _ => []
    | .ok del p => pushWrites client cfg setup env p records del ioc faults 0 w.store

end Writes

section Carried

variable {client : ChannelFinderAdapter} {cfg : CFConfig} {setup : Setup} {env : Env}
  {p : Processor}
  {records : Py.Dict String RecordInfo} {del : List Key} {ioc : IOCInfo} {A : String → Prop}

theorem passed_subset (bs : List (List CFChannel)) (fault : Option Fault) :
    passed bs fault ⊆ bs.flatten := by
  unfold passed
  split
  · intro ch member
    obtain ⟨batch, inside, here⟩ := List.mem_flatten.mp member
    exact List.mem_flatten.mpr ⟨batch, List.mem_of_mem_take inside, here⟩
  · exact List.Subset.refl _

theorem writeBatches_carried (bs : List (List CFChannel)) (fault : Option Fault) (s : Store) :
    ∃ carried ⊆ passed bs fault, (writeBatches bs fault s).2 = setChannels s carried := by
  cases fault with
  | none => exact ⟨bs.flatten, List.Subset.refl _, rfl⟩
  | some fault =>
    cases fault with
    | findByIocId => exact ⟨bs.flatten, List.Subset.refl _, rfl⟩
    | findByNames => exact ⟨bs.flatten, List.Subset.refl _, rfl⟩
    | setChannels written torn part =>
      simp only [writeBatches, passed]
      cases found : bs[written]? with
      | some batch =>
        refine ⟨(bs.take written).flatten ++ torn batch, ?_, (setChannels_append _ _ _).symm⟩
        have cut : (bs.take (written + 1)).flatten = (bs.take written).flatten ++ batch := by
          simp [List.take_add_one, found]
        rw [cut]
        intro ch member
        rcases List.mem_append.mp member with before | last
        · exact List.mem_append_left _ before
        · exact List.mem_append_right _ (part batch last)
      | none =>
        have beyond := List.getElem?_eq_none_iff.mp found
        rw [List.take_of_length_le (by omega)]
        exact ⟨bs.flatten, List.Subset.refl _, rfl⟩

/-- What reaches ChannelFinder was passed to `set_channels`. -/
theorem attempt_carried (fault : Option Fault) (s : Store) :
    ∃ carried ⊆ attemptWrites client cfg setup env p records del ioc fault s,
      (client.updateChannelfinder cfg setup env p records del ioc fault s).2 =
        setChannels s carried := by
  have nothing {writes : List CFChannel} : ∃ carried ⊆ writes, s = setChannels s carried :=
    ⟨[], by simp, rfl⟩
  unfold ChannelFinderAdapter.updateChannelfinder attemptWrites
  split
  · exact nothing
  split
  · exact nothing
  dsimp only
  cases reconcileOld cfg setup p records del ioc (client.findByIocId env s ioc.id) with
  | error e => exact nothing
  | ok result =>
    dsimp only
    split
    · exact nothing
    · cases batches cfg setup env records ioc (client.findByIocId env s ioc.id) result.1 result.2
          (client.getExistingChannels env s result.1) with
      | error e => exact nothing
      | ok bs => exact writeBatches_carried bs fault s

/-- Everything that is listed under the iocid has a name in `A`. -/
def ListedIn (iocid : String) (A : String → Prop) (s : Store) : Prop :=
  ∀ n e, s.get? n = some e → e.has .iocId iocid → A n

theorem ListedIn.setChannels {iocid : String} {s : Store} (listed : ListedIn iocid A s)
    {channels : List CFChannel} (named : ∀ ch ∈ channels, A ch.name) :
    ListedIn iocid A (setChannels s channels) := by
  intro n e stored own
  rcases get?_setChannels_cases s channels n with ⟨kept, -⟩ | ⟨ch, member, name, -⟩
  · exact listed n e (kept ▸ stored) own
  · exact name ▸ named ch member

/-- What an attempt writes is decided by the old channels or by the names that are left. -/
theorem mem_attemptWrites {fault : Option Fault} {s : Store} {ch : CFChannel}
    (member : ch ∈ attemptWrites client cfg setup env p records del ioc fault s) :
    ∃ new handled, reconcileOld cfg setup p records del ioc (client.findByIocId env s ioc.id) =
        .ok (new, handled) ∧
      (ch ∈ handled ∨ ch ∈ processNewChannels cfg setup ioc records env new
        (client.getExistingChannels env s new)) := by
  unfold attemptWrites at member
  split at member
  · cases member
  split at member
  · cases member
  dsimp only at member
  split at member
  · cases member
  rename_i new handled reconciled
  split at member
  · cases member
  split at member
  · cases member
  rename_i bs planned
  refine ⟨new, handled, reconciled, List.mem_append.mp ?_⟩
  have inside := passed_subset bs fault member
  by_cases positive : 0 < cfg.cfQueryLimit
  · obtain ⟨bs', same, flat⟩ := @batches_flatten cfg setup env records ioc positive
      (client.findByIocId env s ioc.id) new handled (client.getExistingChannels env s new)
    rw [planned] at same
    rwa [Except.ok.inj same, flat] at inside
  · rw [batches_stuck (by omega) planned] at inside
    cases inside

theorem attemptWrites_names (fault : Option Fault) {s : Store} (listed : ListedIn ioc.id A s)
    (own : ∀ n ∈ touched cfg records, A n) :
    ∀ ch ∈ attemptWrites client cfg setup env p records del ioc fault s, A ch.name := by
  intro ch member
  obtain ⟨new, handled, reconciled, old | fresh⟩ := mem_attemptWrites member
  · obtain ⟨cf, found, either⟩ := handleChannels_names reconciled ch old
    rcases either with same | isAlias
    · obtain ⟨stored, has⟩ := client.findByIocId_listed env s ioc.id cf found
      exact same ▸ listed cf.name _ stored has
    · exact own _ (mem_touched_of_alias isAlias)
  · have fewer := (handleChannels_left reconciled).1.subset
    rcases processNewChannels_names env new _ ch fresh with new | isTouched
    · exact own _ (mem_touched.mpr ⟨ch.name, fewer new, Or.inl rfl⟩)
    · exact own _ isTouched

/-- A push writes names of `A` only. -/
theorem pushWrites_names (own : ∀ n ∈ touched cfg records, A n) (faults : List Fault) (count : Int)
    {s : Store} (listed : ListedIn ioc.id A s) :
    (∀ ch ∈ pushWrites client cfg setup env p records del ioc faults count s, A ch.name) ∧
      ∃ carried ⊆ pushWrites client cfg setup env p records del ioc faults count s,
        (client.pushToCf cfg setup env p records del ioc faults count s).2 =
          setChannels s carried := by
  have nothing {writes : List CFChannel} : ∃ carried ⊆ writes, s = setChannels s carried :=
    ⟨[], by simp, rfl⟩
  induction faults generalizing count s with
  | nil =>
    unfold pushWrites ChannelFinderAdapter.pushToCf
    split
    · exact ⟨by simp, nothing⟩
    split
    · exact ⟨by simp, nothing⟩
    refine ⟨attemptWrites_names none listed own, ?_⟩
    obtain ⟨carried, fewer, after⟩ := @attempt_carried client cfg setup env p records del ioc none s
    refine ⟨carried, fewer, ?_⟩
    rw [← after]
    generalize client.updateChannelfinder cfg setup env p records del ioc none s = attempt
    rcases attempt with ⟨_ | _, s'⟩ <;> rfl
  | cons fault rest ih =>
    unfold pushWrites ChannelFinderAdapter.pushToCf
    split
    · exact ⟨by simp, nothing⟩
    split
    · exact ⟨by simp, nothing⟩
    have named :=
      @attemptWrites_names client cfg setup env p records del ioc A (some fault) s listed own
    obtain ⟨carried, fewer, after⟩ :=
      @attempt_carried client cfg setup env p records del ioc (some fault) s
    dsimp only
    generalize client.updateChannelfinder cfg setup env p records del ioc (some fault) s = attempt
      at after ⊢
    rcases attempt with ⟨e | _, s'⟩
    · by_cases again : e = .requestException
      · subst again
        have still : ListedIn ioc.id A s' := by
          rw [show s' = setChannels s carried from after]
          exact listed.setChannels fun ch member => named ch (fewer member)
        obtain ⟨later, more, subset, ends⟩ := ih (count + 1) still ⟨[], by simp, rfl⟩
        refine ⟨?_, carried ++ more, ?_, ?_⟩
        · intro ch member
          rcases List.mem_append.mp member with now | rest
          · exact named ch now
          · exact later ch rest
        · intro ch member
          rcases List.mem_append.mp member with now | rest
          · exact List.mem_append_left _ (fewer now)
          · exact List.mem_append_right _ (subset rest)
        · rw [setChannels_append, ← show s' = setChannels s carried from after]
          exact ends
      · cases e <;> first
          | exact absurd rfl again
          | exact ⟨by simpa using named, carried, by simpa using fewer, after⟩
    · exact ⟨by simpa using named, carried, by simpa using fewer, after⟩

end Carried

/-- A record name of the transaction or, where aliases are handled, an alias of one of its records. -/
def Transaction.Names (cfg : CFConfig) (t : Transaction) (n : String) : Prop :=
  (∃ r ty, t.recordsToAdd.get? r = some (n, ty)) ∨
    cfg.aliasEnabled = true ∧ ∃ r record, t.recordsToAdd.get? r = some record ∧
      n ∈ (t.aliases.get? r).getD []

/-- The channels that a commit of the transaction may write: those that are listed under its
iocid and those that it names. -/
def Transaction.Owns (cfg : CFConfig) (t : Transaction) (s : Store) (n : String) : Prop :=
  (∃ e, s.get? n = some e ∧ e.has .iocId t.iocid) ∨ t.Names cfg n

theorem listed_of_mem_aliasesOf {cfg : CFConfig} {setup : Setup} {env : Env} {t : Transaction}
    {n a : String} (listed : a ∈ aliasesOf cfg (recordsOf cfg setup env t) n) :
    ∃ r ty, t.recordsToAdd.get? r = some (n, ty) ∧ a ∈ (t.aliases.get? r).getD [] := by
  obtain ⟨info, found⟩ := (Py.Dict.mem_keys_iff _ _).mp (mem_keys_of_alias listed)
  obtain ⟨r, ty, added, rfl⟩ := get?_recordsOf cfg setup env t found
  refine ⟨r, ty, added, ?_⟩
  simpa [aliasesOf, enabled_of_alias listed, found, recordInfoOf] using listed

theorem names_of_touched {cfg : CFConfig} {setup : Setup} {env : Env} {t : Transaction} {n : String}
    (member : n ∈ touched cfg (recordsOf cfg setup env t)) : t.Names cfg n := by
  obtain ⟨record, key, rfl | listed⟩ := mem_touched.mp member
  · exact Or.inl ((mem_keys_recordsOf cfg setup env t n).mp key)
  · obtain ⟨r, ty, added, inside⟩ := listed_of_mem_aliasesOf listed
    exact Or.inr ⟨enabled_of_alias listed, r, _, added, inside⟩

theorem commitWrites_owned (client : ChannelFinderAdapter) (cfg : CFConfig) (setup : Setup)
    (env : Env) (faults : List Fault)
    (t : Transaction) (w : World) :
    (∀ ch ∈ commitWrites client cfg setup env faults t w, t.Owns cfg w.store ch.name) ∧
      ∃ carried ⊆ commitWrites client cfg setup env faults t w,
        (client.commitWithThread cfg setup env faults t w).2.store =
          setChannels w.store carried := by
  have nothing {writes : List CFChannel} :
    ∃ carried ⊆ writes, w.store = setChannels w.store carried :=
    ⟨[], by simp, rfl⟩
  unfold commitWrites ChannelFinderAdapter.commitWithThread
  dsimp only
  split
  · exact ⟨by simp, nothing⟩
  split
  · exact ⟨by simp, nothing⟩
  split
  · exact ⟨by simp, nothing⟩
  cases updateIocInfos cfg env t (iocInfoOf cfg env t) (recordsOf cfg setup env t) w.proc with
  | error e p => exact ⟨by simp, nothing⟩
  | ok del p =>
    dsimp only
    rw [finishCommit_store]
    apply pushWrites_names
    · exact fun n member => Or.inr (names_of_touched member)
    · exact fun n e stored listed => Or.inl ⟨e, stored, listed⟩

/-- Whatever a commit meets, every channel that it passes to `set_channels` is one that is listed
under its iocid or one that it names, every other channel is as it was, and the other IOCs keep
their entries, their channels and their places in the lists. -/
theorem commit_frame (client : ChannelFinderAdapter) (cfg : CFConfig) (setup : Setup) (env : Env)
    (faults : List Fault)
    (t : Transaction) (w : World) :
    (∀ ch ∈ commitWrites client cfg setup env faults t w, t.Owns cfg w.store ch.name) ∧
      (∀ n, ¬ t.Owns cfg w.store n →
        (client.commitWithThread cfg setup env faults t w).2.store.get? n = w.store.get? n) ∧
      OthersKept t.iocid w.proc (client.commitWithThread cfg setup env faults t w).2.proc := by
  obtain ⟨owned, carried, fewer, after⟩ := commitWrites_owned client cfg setup env faults t w
  refine ⟨owned, ?_, commit_others client cfg setup env faults t w⟩
  intro n foreign
  rw [after]
  apply get?_setChannels_of_not_mem
  rintro ch member rfl
  exact foreign (owned ch (fewer member))

end Recsync.Cf
