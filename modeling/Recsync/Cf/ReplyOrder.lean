import Recsync.Cf.Batches
import Recsync.Cf.Frame
import Recsync.Cf.Retry

set_option autoImplicit false

/- Whether the order in which ChannelFinder lists its answers matters to a commit. -/
namespace Recsync.Cf

open Py (Program)

/-- Channels are compared by owner and by the set of their properties. -/
def SameEntry (e e' : CFEntry) : Prop :=
  e.owner = e'.owner ∧ ∀ q, q ∈ e.properties ↔ q ∈ e'.properties

theorem SameEntry.refl (e : CFEntry) : SameEntry e e := ⟨rfl, fun _ => Iff.rfl⟩

def SameStore (s s' : Store) : Prop := ∀ n, Option.Rel SameEntry (s.get? n) (s'.get? n)

theorem sameEntry_refl (o : Option CFEntry) : Option.Rel SameEntry o o := by
  cases o with
  | none => exact .none
  | some e => exact .some (SameEntry.refl e)

theorem sameEntry_of_common {a b c : Option CFEntry} (first : Option.Rel SameEntry a c)
    (second : Option.Rel SameEntry b c) : Option.Rel SameEntry a b := by
  cases first with
  | none =>
    cases second
    exact .none
  | some same =>
    cases second with
    | some other =>
      exact .some ⟨same.1.trans other.1.symm, fun q => (same.2 q).trans (other.2 q).symm⟩

theorem sameEntry_has {a b : Option CFEntry} (same : Option.Rel SameEntry a b) (p : CFPropertyName)
    (v : String) : a.map (fun e => decide (e.has p v)) = b.map fun e => decide (e.has p v) := by
  cases same with
  | none => rfl
  | some same =>
    rw [Option.map_some, Option.map_some, decide_eq_decide.mpr]
    simp only [CFEntry.has, same.2]

/-- The same writes keep two stores the same. -/
theorem SameStore.setChannels {s s' : Store} (same : SameStore s s') (channels : List CFChannel) :
    SameStore (setChannels s channels) (setChannels s' channels) := by
  induction channels generalizing s s' with
  | nil => exact same
  | cons ch rest ih =>
    refine ih fun n => ?_
    rw [Py.Dict.get?_set, Py.Dict.get?_set]
    split
    · exact .some (SameEntry.refl _)
    · exact same n

/-- An order in which the channels of an answer may be listed. -/
structure ReplyOrder where
  order : List CFChannel → List CFChannel
  perm : ∀ l, (order l).Perm l

/-- The same answers, listed in this order. -/
def ChannelFinderAdapter.reordered (client : ChannelFinderAdapter) (r : ReplyOrder) :
    ChannelFinderAdapter where
  findByIocId env s iocid := r.order (client.findByIocId env s iocid)
  findByNames env s names := r.order (client.findByNames env s names)
  findByIocId_listed env s iocid ch member :=
    client.findByIocId_listed env s iocid ch ((r.perm _).mem_iff.mp member)
  findByIocId_nodup env s iocid :=
    ((r.perm _).map CFChannel.name).nodup_iff.mpr (client.findByIocId_nodup env s iocid)
  findByNames_stored env s names ch member :=
    client.findByNames_stored env s names ch ((r.perm _).mem_iff.mp member)

theorem ChannelFinderAdapter.mem_reordered {client : ChannelFinderAdapter} (r : ReplyOrder)
    {env : Env} {s : Store} {iocid : String} {ch : CFChannel} :
    ch ∈ (client.reordered r).findByIocId env s iocid ↔ ch ∈ client.findByIocId env s iocid :=
  (r.perm _).mem_iff

/-- A name is looked up in an answer of any order with the same result. -/
theorem ChannelFinderAdapter.get?_reordered (client : ChannelFinderAdapter) (r : ReplyOrder)
    (env : Env) (s : Store) (new : List String) (n : String) :
    ((client.reordered r).getExistingChannels env s new).get? n =
      (client.getExistingChannels env s new).get? n := by
  have fold (c : ChannelFinderAdapter) : c.getExistingChannels env s new =
      setChannels ∅ (c.findByNames env s (env.setOrder new)) := rfl
  have same : ∀ ch, ch ∈ (client.reordered r).findByNames env s (env.setOrder new) ↔
      ch ∈ client.findByNames env s (env.setOrder new) := fun ch => (r.perm _).mem_iff
  rw [fold, fold]
  rcases get?_setChannels_cases ∅ ((client.reordered r).findByNames env s (env.setOrder new)) n with
    ⟨missing, unwritten⟩ | ⟨ch, member, rfl, written⟩
  · rw [missing, get?_setChannels_of_not_mem _ fun ch member => unwritten ch ((same ch).mpr member)]
  · obtain ⟨other, inside, name, found⟩ := get?_setChannels_of_mem ∅
      (List.mem_map_of_mem (f := CFChannel.name) ((same ch).mp member))
    have stored := client.findByNames_stored _ _ _ ch ((same ch).mp member)
    have stored' := client.findByNames_stored _ _ _ other inside
    rw [name] at stored'
    rw [written, found, Option.some.inj (stored.symm.trans stored')]

section Reconcile

variable {cfg : CFConfig} {setup : Setup} {p : Processor} {ioc : IOCInfo}
  {records : Py.Dict String RecordInfo} {del : List Key} {old : List CFChannel}

/-- The channel as the in-place update leaves it. -/
def updatedInPlace (setup : Setup) (ioc : IOCInfo) (cf : CFChannel) : CFChannel :=
  channel cf.name cf.owner
    (mergePropertyLists (statusProperties ioc .active) cf.toCFEntry setup.managedProperties)

/-- What the loop over the old channels leaves and writes, in any order of the channels. -/
structure Reconciled (cfg : CFConfig) (setup : Setup) (p : Processor) (ioc : IOCInfo)
    (records : Py.Dict String RecordInfo) (l : List CFChannel) (new new' : List String)
    (handled : List CFChannel) : Prop where
  plain : ∀ cf ∈ l, cf.name ∈ new → aliasesOf cfg records cf.name = []
  left : new' = new.filter fun n => decide (n ∉ l.map CFChannel.name)
  updated : ∀ cf ∈ l, cf.name ∈ new → updatedInPlace setup ioc cf ∈ handled
  -- a channel of another name is released once no new name is left
  written : ∀ ch ∈ handled, ∃ cf ∈ l, cf.name ∈ new ∧ ch = updatedInPlace setup ioc cf ∨
    cf.name ∉ new ∧ new' = [] ∧ p.channelIocIds (.name cf.name) ≠ some [] ∧
      ch = releaseChannel cfg setup p ioc cf

namespace Reconciled

variable {cf : CFChannel} {rest later : List CFChannel} {new new' : List String}

theorem nil (new : List String) : Reconciled cfg setup p ioc records [] new new [] where
  plain := by simp
  left := by simp
  updated := by simp
  written := by simp

theorem release (after : Reconciled cfg setup p ioc records rest [] new' later)
    (nonempty : p.channelIocIds (.name cf.name) ≠ some []) :
    Reconciled cfg setup p ioc records (cf :: rest) [] new'
      (releaseChannel cfg setup p ioc cf :: later) where
  plain := by simp
  left := after.left
  updated := by simp
  written := by
    intro ch member
    rcases List.mem_cons.mp member with rfl | inside
    · exact ⟨cf, by simp, Or.inr ⟨by simp, after.left, nonempty, rfl⟩⟩
    · obtain ⟨source, listed, how⟩ := after.written ch inside
      exact ⟨source, by simp [listed], how⟩

/-- A channel that is old and new is updated in place and taken off the new names. -/
theorem update (nodup : new.Nodup) (fresh : cf.name ∉ rest.map CFChannel.name)
    (noAliases : aliasesOf cfg records cf.name = []) (named : cf.name ∈ new)
    (after : Reconciled cfg setup p ioc records rest (new.erase cf.name) new' later) :
    Reconciled cfg setup p ioc records (cf :: rest) new new'
      (updatedInPlace setup ioc cf :: later) := by
  have other : ∀ d ∈ rest, d.name ∈ new.erase cf.name ↔ d.name ∈ new := by
    intro d member
    have different : d.name ≠ cf.name :=
      fun same => fresh (List.mem_map.mpr ⟨d, member, same⟩)
    exact List.mem_erase_of_ne different
  constructor
  · intro d member inside
    rcases List.mem_cons.mp member with rfl | later
    · exact noAliases
    · exact after.plain d later ((other d later).mpr inside)
  · rw [after.left, nodup.erase_eq_filter, List.filter_filter]
    apply List.filter_congr
    intro n _
    by_cases here : n = cf.name <;> simp [here]
  · intro d member inside
    rcases List.mem_cons.mp member with rfl | later
    · exact List.mem_cons_self
    · exact List.mem_cons_of_mem _ (after.updated d later ((other d later).mpr inside))
  · intro ch member
    rcases List.mem_cons.mp member with rfl | inside
    · exact ⟨cf, by simp, Or.inl ⟨named, rfl⟩⟩
    · obtain ⟨source, listed, how⟩ := after.written ch inside
      rw [other source listed] at how
      exact ⟨source, by simp [listed], how⟩

/-- Any other channel is passed over while a new name is left. -/
theorem skip (after : Reconciled cfg setup p ioc records rest new new' later)
    (unnamed : cf.name ∉ new) :
    Reconciled cfg setup p ioc records (cf :: rest) new new' later := by
  constructor
  · intro d member inside
    rcases List.mem_cons.mp member with rfl | later
    · exact absurd inside unnamed
    · exact after.plain d later inside
  · rw [after.left]
    apply List.filter_congr
    intro n inside
    have different : n ≠ cf.name := fun here => unnamed (here ▸ inside)
    simp [different]
  · intro d member inside
    rcases List.mem_cons.mp member with rfl | later
    · exact absurd inside unnamed
    · exact after.updated d later inside
  · intro ch member
    obtain ⟨source, listed, how⟩ := after.written ch member
    exact ⟨source, by simp [listed], how⟩

end Reconciled

/-- An in-place update takes the aliases of its record off the new names, so a record whose aliases
are none of the new names has none. -/
theorem handleChannelOldAndNew_plain {cf : CFChannel} {new new' : List String}
    {channels : List CFChannel}
    (apart : ∀ a ∈ aliasesOf cfg records cf.name, a ∉ new)
    (ran : handleChannelOldAndNew cfg setup ioc records old cf new = .ok (new', channels)) :
    aliasesOf cfg records cf.name = [] ∧ new' = new.erase cf.name ∧
      channels = [updatedInPlace setup ioc cf] := by
  obtain ⟨rest, -, aliases, rfl⟩ := handleChannelOldAndNew_ok ran
  have noAliases : aliasesOf cfg records cf.name = [] := by
    apply List.eq_nil_iff_forall_not_mem.mpr
    intro a listed
    exact apart a listed (List.mem_of_mem_erase (handleAliasesOldAndNew_new aliases listed))
  rw [noAliases] at aliases
  obtain ⟨rfl, rfl⟩ := Prod.mk.inj (Except.ok.inj aliases)
  exact ⟨noAliases, rfl, rfl⟩

theorem handleChannels_reconciled (unnamed : ∀ n, Key.name n ∉ del) {l : List CFChannel}
    {new new' : List String} {handled : List CFChannel} (nodup : new.Nodup)
    (names : (l.map CFChannel.name).Nodup)
    (complete : ∀ cf ∈ l, cf.name ∈ records.keys → cf.name ∈ new)
    (apart : ∀ cf ∈ l, cf.name ∈ new → ∀ a ∈ aliasesOf cfg records cf.name, a ∉ new)
    (ran : handleChannels cfg setup p ioc records del old l new = .ok (new', handled)) :
    Reconciled cfg setup p ioc records l new new' handled := by
  induction l generalizing new handled with
  | nil =>
    obtain ⟨rfl, rfl⟩ := Prod.mk.inj (Except.ok.inj ran)
    exact Reconciled.nil _
  | cons cf rest ih =>
    obtain ⟨next, first, later, head, tail, rfl⟩ := handleChannels_cons_ok ran
    obtain ⟨fresh, distinct⟩ := List.nodup_cons.mp names
    have completeRest : ∀ d ∈ rest, d.name ∈ records.keys → d.name ∈ new :=
      fun d member => complete d (by simp [member])
    have apartRest : ∀ d ∈ rest, d.name ∈ new → ∀ a ∈ aliasesOf cfg records d.name, a ∉ new :=
      fun d member => apart d (by simp [member])
    rcases handleChannel_cases head with
      ⟨empty | deleted, rfl, -⟩ | ⟨-, named, updated⟩ | ⟨-, other, rfl, rfl⟩
    · -- the channel is not one of the commit, so it has no aliases
      subst empty
      have noAliases : aliasesOf cfg records cf.name = [] :=
        aliasesOf_of_not_mem fun key => absurd (complete cf (by simp) key) (by simp)
      have nonempty : p.channelIocIds (.name cf.name) ≠ some [] := by
        intro empty
        simp [handleChannel, empty] at head
      rw [handleChannel_release cfg setup p ioc records noAliases nonempty] at head
      obtain rfl := (Prod.mk.inj (Except.ok.inj head)).2
      exact (ih nodup distinct completeRest apartRest tail).release nonempty
    · exact absurd deleted (unnamed _)
    · obtain ⟨noAliases, rfl, rfl⟩ :=
        handleChannelOldAndNew_plain (apart cf (by simp) named) updated
      refine Reconciled.update nodup fresh noAliases named
        (ih (nodup.erase cf.name) distinct ?_ ?_ tail)
      · intro d member key
        refine nodup.mem_erase_iff.mpr ⟨?_, completeRest d member key⟩
        intro same
        exact fresh (List.mem_map.mpr ⟨d, member, same⟩)
      · intro d member inside a listed left
        exact apartRest d member (List.mem_of_mem_erase inside) a listed
          (List.mem_of_mem_erase left)
    · exact (ih nodup distinct completeRest apartRest tail).skip other

end Reconcile

section Agree

variable (cfg : CFConfig) (setup : Setup) (ioc : IOCInfo) (records : Py.Dict String RecordInfo)

/-- Two states of the loop over the new channels that only differ in the order of the dictionary. -/
structure Agree (st st' : NewChannels) : Prop where
  existing : ∀ n, st.existing.get? n = st'.existing.get? n
  pending : st.pending = st'.pending

variable {st st' : NewChannels}

theorem Agree.overwriteExisting (agree : Agree st st') (properties : List CFProperty) (n : String)
    (e : CFEntry) :
    Agree (overwriteExisting setup properties n e st)
      (overwriteExisting setup properties n e st') := by
  constructor
  · intro m
    simp only [Cf.overwriteExisting, Py.Dict.get?_set, agree.existing]
  · simp only [Cf.overwriteExisting, agree.pending]

theorem Agree.createFresh (agree : Agree st st') (properties : List CFProperty) (n : String) :
    Agree (createFresh ioc properties n st) (createFresh ioc properties n st') :=
  ⟨agree.existing, by simp only [Cf.createFresh, agree.pending]⟩

theorem Agree.moveAlias (agree : Agree st st') (n a : String) :
    Agree (moveAlias cfg setup ioc records n st a) (moveAlias cfg setup ioc records n st' a) := by
  unfold Cf.moveAlias
  rw [agree.existing]
  split
  · exact agree.overwriteExisting setup _ _ _
  · exact agree.createFresh ioc _ _

theorem Agree.processNewChannel (agree : Agree st st') (n : String) :
    Agree (processNewChannel cfg setup ioc records st n)
      (processNewChannel cfg setup ioc records st' n) := by
  unfold Cf.processNewChannel
  rw [agree.existing]
  split
  · exact List.foldl_rel (agree.overwriteExisting setup _ _ _)
      fun a _ _ _ before => before.moveAlias cfg setup ioc records n a
  · exact List.foldl_rel (agree.createFresh ioc _ _)
      fun a _ _ _ before => before.createFresh ioc _ a

/-- The create and move paths look names up, whatever the order of the answer was. -/
theorem processNewChannels_agree (env : Env) (new : List String)
    {existing existing' : Py.Dict String CFEntry}
    (same : ∀ n, existing.get? n = existing'.get? n) :
    processNewChannels cfg setup ioc records env new existing =
      processNewChannels cfg setup ioc records env new existing' := by
  have agree : Agree ((env.setOrder new).foldl (processNewChannel cfg setup ioc records)
    { existing })
      ((env.setOrder new).foldl (processNewChannel cfg setup ioc records)
        { existing := existing' }) :=
    List.foldl_rel ⟨same, rfl⟩
      fun n _ _ _ before => before.processNewChannel cfg setup ioc records n
  unfold processNewChannels
  dsimp only
  rw [agree.pending]
  apply List.map_congr_left
  intro x _
  cases x with
  | fresh ch => rfl
  | existing n => simp only [NewChannels.resolve, agree.existing]

end Agree

section Free

variable (client : ChannelFinderAdapter) (env : Env) (cfg : CFConfig) (setup : Setup)
  (ioc : IOCInfo)
  (records : Py.Dict String RecordInfo) (p : Processor) (s : Store)

/-- The channels that are returned as listed under the IOC. -/
def Returned (n : String) (e : CFEntry) : Prop :=
  { e with name := n } ∈ client.findByIocId env s ioc.id

/-- No record that is returned has an alias that is a record of the commit too. -/
def ReturnedApart : Prop :=
  ∀ n e, Returned client env ioc s n e → n ∈ records.keys → ∀ a ∈ aliasesOf cfg records n,
    a ∉ records.keys

/-- Every record of the commit is returned, and none has aliases, so that no new name is left when
the last of them is updated. -/
structure Exhausted : Prop where
  announces : records.keys ≠ []
  plain : ∀ n ∈ records.keys, aliasesOf cfg records n = []
  returned : ∀ n ∈ records.keys, ∃ e, Returned client env ioc s n e

/-- Some other channel is returned, and releasing it would change it. -/
def ReleaseMatters : Prop :=
  ∃ n e, Returned client env ioc s n e ∧ n ∉ records.keys ∧ p.channelIocIds (.name n) ≠ some [] ∧
    ¬ SameEntry (releaseChannel cfg setup p ioc { e with name := n }).toCFEntry e

/-- The entry after the loop over the old channels, up to releases. -/
def updatedEntry (n : String) (e : CFEntry) : CFEntry :=
  if n ∈ (client.findByIocId env s ioc.id).map CFChannel.name ∧ n ∈ records.keys then
    (updatedInPlace setup ioc { e with name := n }).toCFEntry
  else e

variable {client env cfg setup ioc records p s}

theorem Returned.stored {n : String} {e : CFEntry} (returned : Returned client env ioc s n e) :
    s.get? n = some e :=
  (client.findByIocId_listed env s ioc.id _ returned).1

theorem Reconciled.exhausted {r : ReplyOrder} {new : List String} {handled : List CFChannel}
    (reconciled : Reconciled cfg setup p ioc records ((client.reordered r).findByIocId env s ioc.id)
      records.keys new handled) (announces : records.keys ≠ []) (empty : new = []) :
    Exhausted client env cfg ioc records s := by
  have every : ∀ n ∈ records.keys,
      ∃ cf ∈ (client.reordered r).findByIocId env s ioc.id, cf.name = n := by
    intro n named
    have gone : n ∉ new := by simp [empty]
    rw [reconciled.left] at gone
    by_contra absent
    refine gone (List.mem_filter.mpr ⟨named, decide_eq_true ?_⟩)
    intro listed
    exact absent (List.mem_map.mp listed)
  refine ⟨announces, ?_, ?_⟩
  · intro n named
    obtain ⟨cf, found, rfl⟩ := every n named
    exact reconciled.plain cf found named
  · intro n named
    obtain ⟨cf, found, rfl⟩ := every n named
    exact ⟨cf.toCFEntry, (ChannelFinderAdapter.mem_reordered r).mp found⟩

/-- Where releases do not matter, the loop leaves the same entries in every order. -/
theorem Reconciled.get? {r : ReplyOrder} {new : List String} {handled : List CFChannel}
    (reconciled : Reconciled cfg setup p ioc records ((client.reordered r).findByIocId env s ioc.id)
      records.keys new handled) (announces : records.keys ≠ [])
    (free : Exhausted client env cfg ioc records s →
      ¬ ReleaseMatters client env cfg setup ioc records p s) (n : String) :
    Option.Rel SameEntry ((setChannels s handled).get? n)
      ((s.get? n).map (updatedEntry client env setup ioc records s n)) := by
  have same := fun cf => @ChannelFinderAdapter.mem_reordered client r env s ioc.id cf
  rcases get?_setChannels_cases s handled n with ⟨kept, unwritten⟩ | ⟨ch, member, name, written⟩
  · rw [kept]
    cases stored : s.get? n with
    | none => exact .none
    | some e =>
      have other : ¬ (n ∈ (client.findByIocId env s ioc.id).map CFChannel.name ∧
          n ∈ records.keys) := by
        rintro ⟨returned, named⟩
        obtain ⟨cf, found, rfl⟩ := List.mem_map.mp returned
        exact unwritten _ (reconciled.updated cf ((same cf).mpr found) named) rfl
      rw [Option.map_some, updatedEntry, if_neg other]
      exact .some (SameEntry.refl e)
  · rw [written]
    obtain ⟨cf, found, ⟨named, rfl⟩ | ⟨unnamed, empty, nonempty, rfl⟩⟩ :=
      reconciled.written ch member
    · obtain rfl : cf.name = n := name
      have returned := (same cf).mp found
      rw [(client.findByIocId_listed env s ioc.id cf returned).1, Option.map_some, updatedEntry,
        if_pos ⟨List.mem_map_of_mem returned, named⟩]
      exact .some (SameEntry.refl _)
    · rw [releaseChannel_name] at name
      subst name
      have returned := (same cf).mp found
      rw [(client.findByIocId_listed env s ioc.id cf returned).1, Option.map_some, updatedEntry,
        if_neg fun both => unnamed both.2]
      refine .some ?_
      by_contra differs
      exact free (reconciled.exhausted announces empty)
        ⟨cf.name, cf.toCFEntry, returned, unnamed, nonempty, differs⟩

/-- The entries after two successful attempts that only the order of the answers tells apart. -/
def OrderFree (client : ChannelFinderAdapter) (cfg : CFConfig) (setup : Setup) (env : Env)
    (p : Processor) (records : Py.Dict String RecordInfo) (del : List Key) (ioc : IOCInfo)
    (s : Store) : Prop :=
  ∀ (first second : ReplyOrder) (fault fault' : Option Fault) (s₁ s₂ : Store),
    (client.reordered first).updateChannelfinder cfg setup env p records del ioc fault s =
      (.ok (), s₁) →
    (client.reordered second).updateChannelfinder cfg setup env p records del ioc fault' s =
      (.ok (), s₂) →
      SameStore s₁ s₂

theorem updateChannelfinder_active {del : List Key} {fault : Option Fault} {s' : Store}
    (ran : client.updateChannelfinder cfg setup env p records del ioc fault s = (.ok (), s')) :
    p.cancelled = false := by
  rcases @updateChannelfinder_cases client cfg setup env p records del ioc fault s with
    ⟨e, raised⟩ | ⟨new, handled, bs, active, -⟩
  · rw [raised] at ran
    cases ran
  · exact active

/-- The order matters to nothing that is written for a commit without records. -/
theorem updateChannelfinder_empty_get? {del : List Key} (positive : 0 < cfg.cfQueryLimit)
    {r : ReplyOrder} {s' : Store}
    (ran : (client.reordered r).updateChannelfinder cfg setup env p ∅ del ioc none s = (.ok (), s'))
    (n : String) :
    s'.get? n = if n ∈ (client.findByIocId env s ioc.id).map CFChannel.name then
      (s.get? n).map (releaseEntry cfg setup p ioc n) else s.get? n := by
  have names : n ∈ ((client.reordered r).findByIocId env s ioc.id).map CFChannel.name ↔
      n ∈ (client.findByIocId env s ioc.id).map CFChannel.name :=
    ((r.perm _).map CFChannel.name).mem_iff
  rcases @updateChannelfinder_noRecords (client.reordered r) cfg setup env p del ioc positive none s
    with ⟨e, raised⟩ | ⟨-, -, bs, flat, wrote⟩
  · rw [raised] at ran
    cases ran
  · rw [wrote] at ran
    rw [writeBatches_ok ran, flat, get?_setChannels_allReleased]
    simp only [names]

theorem orderFree_of_records {del : List Key} (unnamed : ∀ n, Key.name n ∉ del)
    (announces : records.keys ≠ []) (positive : 0 < cfg.cfQueryLimit)
    (apart : ReturnedApart client env cfg ioc records s)
    (free : Exhausted client env cfg ioc records s →
      ¬ ReleaseMatters client env cfg setup ioc records p s) :
    OrderFree client cfg setup env p records del ioc s := by
  intro first second fault fault' s₁ s₂ ran ran'
  have reconciled : ∀ (r : ReplyOrder) {new : List String} {handled : List CFChannel},
      reconcileOld cfg setup p records del ioc ((client.reordered r).findByIocId env s ioc.id) =
        .ok (new, handled) →
      Reconciled cfg setup p ioc records ((client.reordered r).findByIocId env s ioc.id)
        records.keys new handled := by
    intro r new handled reconciled
    refine handleChannels_reconciled unnamed records.keys_nodup
      ((client.reordered r).findByIocId_nodup env s ioc.id) (fun _ _ => id) ?_ reconciled
    intro cf found named
    exact apart cf.name cf.toCFEntry ((ChannelFinderAdapter.mem_reordered r).mp found) named
  obtain ⟨new, handled, run, rfl⟩ :=
    updateChannelfinder_writes positive (updateChannelfinder_ok ran)
  obtain ⟨new', handled', run', rfl⟩ :=
    updateChannelfinder_writes positive (updateChannelfinder_ok ran')
  have one := reconciled first run
  have two := reconciled second run'
  have left : new = new' := by
    rw [one.left, two.left]
    apply List.filter_congr
    intro n _
    have names : n ∈ ((client.reordered first).findByIocId env s ioc.id).map CFChannel.name ↔
        n ∈ ((client.reordered second).findByIocId env s ioc.id).map CFChannel.name :=
      ((first.perm _).map CFChannel.name).mem_iff.trans
        ((second.perm _).map CFChannel.name).mem_iff.symm
    simp only [names]
  subst left
  have looked : ∀ n, ((client.reordered first).getExistingChannels env s new).get? n =
      ((client.reordered second).getExistingChannels env s new).get? n := by
    intro n
    rw [client.get?_reordered first, client.get?_reordered second]
  rw [processNewChannels_agree cfg setup ioc records env new looked]
  apply SameStore.setChannels
  intro n
  exact sameEntry_of_common (one.get? announces free n) (two.get? announces free n)

theorem orderFree_of_noRecords {del : List Key} (none : records = ∅)
    (positive : 0 < cfg.cfQueryLimit) : OrderFree client cfg setup env p records del ioc s := by
  intro first second fault fault' s₁ s₂ ran ran' n
  subst none
  rw [updateChannelfinder_empty_get? positive (updateChannelfinder_ok ran) n,
    updateChannelfinder_empty_get? positive (updateChannelfinder_ok ran') n]
  exact sameEntry_refl _

theorem orderFree_of_stuck {del : List Key} (stuck : cfg.cfQueryLimit ≤ 0) :
    OrderFree client cfg setup env p records del ioc s := by
  intro first second fault fault' s₁ s₂ ran ran' n
  have one := @updateChannelfinder_stuck (client.reordered first) cfg setup env p records del ioc
    stuck s
  have two := @updateChannelfinder_stuck (client.reordered second) cfg setup env p records del ioc
    stuck s
  rw [updateChannelfinder_ok ran] at one
  rw [updateChannelfinder_ok ran'] at two
  rw [show s₁ = s from one, show s₂ = s from two]
  exact sameEntry_refl _

end Free

/-- The order that puts some of the channels last. -/
def ReplyOrder.holdBack (r : ReplyOrder) (last : CFChannel → Bool) : ReplyOrder where
  order l := (r.order l).filter (fun cf => !last cf) ++ (r.order l).filter last
  perm l := (List.perm_append_comm.trans (List.filter_append_perm last _)).trans (r.perm l)

section Bound

variable {cfg : CFConfig} {setup : Setup} {p : Processor} {ioc : IOCInfo}
  {records : Py.Dict String RecordInfo} {del : List Key} {old : List CFChannel}

theorem handleChannels_append {l rest first later : List CFChannel} {new next new' : List String}
    (head : handleChannels cfg setup p ioc records del old l new = .ok (next, first))
    (tail : handleChannels cfg setup p ioc records del old rest next = .ok (new', later)) :
    handleChannels cfg setup p ioc records del old (l ++ rest) new =
      .ok (new', first ++ later) := by
  induction l generalizing new first with
  | nil =>
    obtain ⟨rfl, rfl⟩ := Prod.mk.inj (Except.ok.inj head)
    exact tail
  | cons cf l ih =>
    obtain ⟨middle, here, there, one, more, rfl⟩ := handleChannels_cons_ok head
    rw [List.append_assoc]
    exact handleChannels_cons cfg setup p ioc records one (ih more)

theorem handleChannels_updates (unnamed : ∀ n, Key.name n ∉ del) {l : List CFChannel}
    {new : List String} (nodup : new.Nodup) (names : (l.map CFChannel.name).Nodup)
    (named : ∀ cf ∈ l, cf.name ∈ new) (plain : ∀ cf ∈ l, aliasesOf cfg records cf.name = []) :
    handleChannels cfg setup p ioc records del old l new =
      .ok (new.filter (fun n => decide (n ∉ l.map CFChannel.name)),
        l.map (updatedInPlace setup ioc)) := by
  induction l generalizing new with
  | nil => simp [handleChannels]
  | cons cf rest ih =>
    obtain ⟨fresh, distinct⟩ := List.nodup_cons.mp names
    have here : cf.name ∈ new := named cf (by simp)
    have notEmpty : new ≠ [] := List.ne_nil_of_mem here
    have head : handleChannel cfg setup p ioc records del old cf new =
        .ok (new.erase cf.name, [updatedInPlace setup ioc cf]) := by
      simp [handleChannel, notEmpty, unnamed, here, handleChannelOldAndNew, removeNew,
        plain cf (by simp), handleAliasesOldAndNew, updatedInPlace, bind, Except.bind, pure,
        Except.pure]
    have left : ∀ d ∈ rest, d.name ∈ new.erase cf.name := by
      intro d member
      refine nodup.mem_erase_iff.mpr ⟨?_, named d (by simp [member])⟩
      intro same
      exact fresh (List.mem_map.mpr ⟨d, member, same⟩)
    have tail := ih (nodup.erase cf.name) distinct left fun d member => plain d (by simp [member])
    rw [handleChannels_cons cfg setup p ioc records head tail, nodup.erase_eq_filter,
      List.filter_filter]
    congr 2
    apply List.filter_congr
    intro n _
    by_cases same : n = cf.name <;> simp [same]

variable {client : ChannelFinderAdapter} {env : Env} {s : Store}

theorem Exhausted.reconcileOld (exhausted : Exhausted client env cfg ioc records s)
    (unnamed : ∀ n, Key.name n ∉ del) {before own after : List CFChannel}
    (names : (own.map CFChannel.name).Nodup)
    (every : ∀ n, n ∈ own.map CFChannel.name ↔ n ∈ records.keys)
    (passed : ∀ cf ∈ before, cf.name ∉ records.keys)
    (released : ∀ cf ∈ after, cf.name ∉ records.keys ∧ p.channelIocIds (.name cf.name) ≠ some []) :
    reconcileOld cfg setup p records del ioc (before ++ own ++ after) =
      .ok ([], own.map (updatedInPlace setup ioc) ++
        after.map (releaseChannel cfg setup p ioc)) := by
  have named : ∀ cf ∈ own, cf.name ∈ records.keys :=
    fun cf member => (every cf.name).mp (List.mem_map_of_mem member)
  have none : records.keys.filter (fun n => decide (n ∉ own.map CFChannel.name)) = [] := by
    rw [List.filter_eq_nil_iff]
    intro n member
    simpa using (every n).mpr member
  have skip := @handleChannels_skip cfg setup p ioc records del (before ++ own ++ after) before
    records.keys exhausted.announces fun cf member => ⟨passed cf member, unnamed _⟩
  have update := @handleChannels_updates cfg setup p ioc records del (before ++ own ++ after)
    unnamed own records.keys records.keys_nodup names named
    fun cf member => exhausted.plain _ (named cf member)
  rw [none] at update
  have release := @handleChannels_release cfg setup p ioc records del (before ++ own ++ after) after
    (fun cf member => aliasesOf_of_not_mem (released cf member).1)
    fun cf member => (released cf member).2
  exact handleChannels_append (handleChannels_append skip update) release

/-- The records come after the other channels, and before some of them. -/
def recordsLast (records : Py.Dict String RecordInfo) (after : CFChannel → Bool) : ReplyOrder :=
  (ReplyOrder.holdBack ⟨id, fun l => List.Perm.refl l⟩
    fun cf => decide (cf.name ∈ records.keys)).holdBack after

theorem findByIocId_recordsLast (after : CFChannel → Bool) :
    ∃ before own last,
      (client.reordered (recordsLast records after)).findByIocId env s ioc.id =
        before ++ own ++ last ∧
      (∀ cf ∈ before, cf.name ∉ records.keys) ∧
      (∀ cf : CFChannel, cf ∈ own ↔ (cf ∈ client.findByIocId env s ioc.id ∧
        cf.name ∈ records.keys) ∧ after cf = false) ∧
      ∀ cf, cf ∈ last ↔ cf ∈ client.findByIocId env s ioc.id ∧ after cf = true := by
  refine ⟨_, _, _, congrArg (· ++ _) (List.filter_append _ _), ?_, ?_, ?_⟩
  · intro cf member
    simpa using (List.mem_filter.mp (List.mem_filter.mp member).1).2
  · intro cf
    simp only [List.mem_filter, id_eq, decide_eq_true_iff, Bool.not_eq_true']
  · intro cf
    rw [List.mem_filter, (ReplyOrder.perm _ _).mem_iff]

theorem Exhausted.attempt (exhausted : Exhausted client env cfg ioc records s)
    (unnamed : ∀ n, Key.name n ∉ del) (positive : 0 < cfg.cfQueryLimit)
    (active : p.cancelled = false) {after : CFChannel → Bool}
    (released : ∀ cf ∈ client.findByIocId env s ioc.id, after cf = true →
      cf.name ∉ records.keys ∧ p.channelIocIds (.name cf.name) ≠ some []) :
    ∃ own last : List CFChannel, (∀ cf ∈ own, cf.name ∈ records.keys) ∧
      (∀ cf, cf ∈ last ↔ cf ∈ client.findByIocId env s ioc.id ∧ after cf = true) ∧
      (client.reordered (recordsLast records after)).updateChannelfinder cfg setup env p records del
          ioc none s =
        (.ok (), setChannels s (own.map (updatedInPlace setup ioc) ++
          last.map (releaseChannel cfg setup p ioc))) := by
  obtain ⟨before, own, last, answer, passed, inOwn, inLast⟩ :=
    @findByIocId_recordsLast ioc records client env s after
  have names : (own.map CFChannel.name).Nodup := by
    have all := (client.reordered (recordsLast records after)).findByIocId_nodup env s ioc.id
    rw [answer, List.map_append, List.map_append] at all
    exact (List.nodup_append.mp (List.nodup_append.mp all).1).2.1
  have every : ∀ n, n ∈ own.map CFChannel.name ↔ n ∈ records.keys := by
    intro n
    constructor
    · intro member
      obtain ⟨cf, inside, rfl⟩ := List.mem_map.mp member
      exact ((inOwn cf).mp inside).1.2
    · intro named
      obtain ⟨e, returned⟩ := exhausted.returned n named
      refine List.mem_map.mpr ⟨{ e with name := n }, (inOwn _).mpr ⟨⟨returned, named⟩, ?_⟩, rfl⟩
      by_contra late
      exact (released { e with name := n } returned (by simpa using late)).1 named
  have reconciled := @Exhausted.reconcileOld cfg setup p ioc records del client env s exhausted
    unnamed before own last names every passed fun cf member =>
      released cf ((inLast cf).mp member).1 ((inLast cf).mp member).2
  rw [← answer] at reconciled
  refine ⟨own, last, fun cf member => ((inOwn cf).mp member).1.2, inLast, ?_⟩
  rw [updateChannelfinder_calm positive active s reconciled, processNewChannels_nil,
    List.append_nil]

/-- A channel of another name is released when it comes after the records, and passed over when it
comes before them. -/
theorem Exhausted.not_orderFree (exhausted : Exhausted client env cfg ioc records s)
    (unnamed : ∀ n, Key.name n ∉ del) (positive : 0 < cfg.cfQueryLimit)
    (active : p.cancelled = false) (matters : ReleaseMatters client env cfg setup ioc records p s) :
    ¬ OrderFree client cfg setup env p records del ioc s := by
  intro orderFree
  obtain ⟨n, e, returned, other, nonempty, changes⟩ := matters
  obtain ⟨own, none, inOwn, inNone, passed⟩ := @Exhausted.attempt cfg setup p ioc records del
    client env s exhausted unnamed positive active (fun _ => false) (by simp)
  obtain ⟨own', last, inOwn', inLast, released⟩ := @Exhausted.attempt cfg setup p ioc records del
    client env s exhausted unnamed positive active (fun cf => decide (cf.name = n)) (by
      intro cf _ here
      rw [of_decide_eq_true here]
      exact ⟨other, nonempty⟩)
  have kept : ∀ ch ∈ own.map (updatedInPlace setup ioc) ++
      none.map (releaseChannel cfg setup p ioc), ch.name ≠ n := by
    intro ch member
    rcases List.mem_append.mp member with first | second
    · obtain ⟨cf, inside, rfl⟩ := List.mem_map.mp first
      intro same
      exact other (same ▸ inOwn cf inside)
    · obtain ⟨cf, inside, -⟩ := List.mem_map.mp second
      cases ((inNone cf).mp inside).2
  have inside : ({ e with name := n } : CFChannel) ∈ last :=
    (inLast _).mpr ⟨returned, decide_eq_true rfl⟩
  have written : n ∈ (own'.map (updatedInPlace setup ioc) ++
      last.map (releaseChannel cfg setup p ioc)).map CFChannel.name := by
    refine List.mem_map.mpr ⟨releaseChannel cfg setup p ioc { e with name := n }, ?_,
      releaseChannel_name _ _ _ _ _⟩
    exact List.mem_append_right _ (List.mem_map_of_mem inside)
  obtain ⟨ch, member, name, final⟩ := get?_setChannels_of_mem s written
  have same := orderFree _ _ _ _ _ _ released passed n
  rw [final, get?_setChannels_of_not_mem s kept, returned.stored] at same
  rcases List.mem_append.mp member with first | second
  · obtain ⟨cf, inside, rfl⟩ := List.mem_map.mp first
    exact other (name ▸ inOwn' cf inside)
  · obtain ⟨cf, late, rfl⟩ := List.mem_map.mp second
    rw [releaseChannel_name] at name
    subst name
    have entry : cf.toCFEntry = e :=
      Option.some.inj
        ((client.findByIocId_listed env s ioc.id cf ((inLast cf).mp late).1).1.symm.trans
        returned.stored)
    subst entry
    cases same with
    | some same => exact changes same

end Bound

/-- A connected transaction deletes by record number only. -/
theorem updateIocInfos_unnamed {cfg : CFConfig} {env : Env} {t : Transaction} {ioc : IOCInfo}
    {records : Py.Dict String RecordInfo} {q p : Processor} {del : List Key}
    (connected : t.connected = true)
    (update : updateIocInfos cfg env t ioc records q = .ok del p) : ∀ n, Key.name n ∉ del := by
  have keys : ∀ p, keysToDelete env t ioc.id p = t.recordsToDelete.map Key.id := by
    intro p
    simp [keysToDelete, connected]
  have rest : ∀ before : Processor, (do
      registerRecords cfg ioc.id records
      (keysToDelete env t ioc.id before).forM (deleteRecord cfg ioc.id records)
      return keysToDelete env t ioc.id before : Program Processor (List Key)) before = .ok del p →
      ∀ n, Key.name n ∉ del := by
    intro before ran
    obtain ⟨_, _, _, ran⟩ := Program.of_bind_ok ran
    obtain ⟨_, _, _, ran⟩ := Program.of_bind_ok ran
    obtain ⟨rfl, -⟩ := EStateM.Result.ok.inj (show EStateM.Result.ok _ _ = _ from ran)
    simp [keys]
  unfold updateIocInfos at update
  split at update
  · obtain ⟨_, _, _, ran⟩ := Program.of_bind_ok update
    exact rest _ ran
  · exact rest _ update

/-- The channels `pv` and `gone`, as commits of the IOC left them. -/
def twoListed : Store :=
  setChannels ∅ [channel "pv" "o" [property .iocId "o" "a:5064", property .pvStatus "o" "Active"],
    channel "gone" "o" [property .iocId "o" "a:5064", property .pvStatus "o" "Active"]]

end Recsync.Cf
