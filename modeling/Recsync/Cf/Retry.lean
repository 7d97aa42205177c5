import Mathlib.Data.List.Perm.Subperm
import Recsync.Cf.Commit
import Recsync.Cf.Setup

set_option autoImplicit false

namespace Recsync.Cf

section Attempts

variable {client : ChannelFinderAdapter} {cfg : CFConfig} {setup : Setup} {env : Env}
  {p : Processor}
  {records : Py.Dict String RecordInfo} {del : List Key} {ioc : IOCInfo}

theorem writeBatches_ok {bs : List (List CFChannel)} {fault : Option Fault} {s s' : Store}
    (ran : writeBatches bs fault s = (.ok (), s')) : s' = setChannels s bs.flatten := by
  unfold writeBatches at ran
  split at ran
  · split at ran
    · cases ran
    · exact (Prod.mk.inj ran).2.symm
  · exact (Prod.mk.inj ran).2.symm

/-- An attempt that returns did what an attempt without faults does. -/
theorem updateChannelfinder_ok {fault : Option Fault} {s s' : Store}
    (ran : client.updateChannelfinder cfg setup env p records del ioc fault s = (.ok (), s')) :
    client.updateChannelfinder cfg setup env p records del ioc none s = (.ok (), s') := by
  rcases @updateChannelfinder_cases client cfg setup env p records del ioc fault s with
    ⟨e, raised⟩ | ⟨new, handled, bs, active, reconciled, planned, wrote⟩
  · rw [raised] at ran
    cases ran
  · rw [wrote] at ran
    rw [writeBatches_ok ran]
    simp [ChannelFinderAdapter.updateChannelfinder, failsFindByIocId, failsFindByNames, active,
      reconciled, planned,
      writeBatches]

/-- A push that succeeds does so at once, or after a failed attempt. -/
theorem pushToCf_ok_cases {faults : List Fault} {count : Int} {s s' : Store}
    (pushed : client.pushToCf cfg setup env p records del ioc faults count s = (.ok true, s')) :
    (∃ fault, client.updateChannelfinder cfg setup env p records del ioc fault s = (.ok (), s')) ∨
      ∃ fault rest next, faults = fault :: rest ∧
        client.updateChannelfinder cfg setup env p records del ioc (some fault) s =
          (.error .requestException, next) ∧
        client.pushToCf cfg setup env p records del ioc rest (count + 1) next = (.ok true, s') := by
  cases faults with
  | nil =>
    simp only [ChannelFinderAdapter.pushToCf] at pushed
    split at pushed
    · cases pushed
    split at pushed
    · cases pushed
    split at pushed
    · rename_i next ran
      exact Or.inl ⟨none, (Prod.mk.inj pushed).2 ▸ ran⟩
    · cases pushed
  | cons fault rest =>
    simp only [ChannelFinderAdapter.pushToCf] at pushed
    split at pushed
    · cases pushed
    split at pushed
    · cases pushed
    split at pushed
    · rename_i next ran
      exact Or.inl ⟨some fault, (Prod.mk.inj pushed).2 ▸ ran⟩
    · rename_i next ran
      exact Or.inr ⟨fault, rest, next, rfl, ran, pushed⟩
    · cases pushed

/-- When no failed attempt changes the store, the push does what its first attempt would
have done. -/
theorem pushToCf_unchanged {faults : List Fault} {s : Store}
    (unchanged : ∀ f ∈ faults, ∀ e s',
      client.updateChannelfinder cfg setup env p records del ioc (some f) s = (.error e, s') →
        s' = s) {count : Int} {s' : Store}
    (pushed : client.pushToCf cfg setup env p records del ioc faults count s = (.ok true, s')) :
    client.updateChannelfinder cfg setup env p records del ioc none s = (.ok (), s') := by
  induction faults generalizing count with
  | nil =>
    rcases pushToCf_ok_cases pushed with ⟨_, ran⟩ | ⟨_, _, _, impossible, _⟩
    · exact updateChannelfinder_ok ran
    · cases impossible
  | cons fault rest ih =>
    rcases pushToCf_ok_cases pushed with ⟨_, ran⟩ | ⟨f, later, next, split, failed, retried⟩
    · exact updateChannelfinder_ok ran
    · obtain ⟨rfl, rfl⟩ := List.cons.inj split
      rw [unchanged fault (by simp) _ _ failed] at retried
      exact ih (fun f member => unchanged f (by simp [member])) retried

/-- The request fails before anything is written. -/
def Fault.Silent : Fault → Prop
  | .findByIocId => True
  | .findByNames => True
  | .setChannels written torn _ => written = 0 ∧ ∀ l, torn l = []

theorem updateChannelfinder_silent {f : Fault} (silent : f.Silent) {s s' : Store} {e : Py.Error}
    (ran : client.updateChannelfinder cfg setup env p records del ioc (some f) s = (.error e, s')) :
    s' = s := by
  rcases @updateChannelfinder_cases client cfg setup env p records del ioc (some f) s with
    ⟨e', raised⟩ | ⟨new, handled, bs, -, -, -, wrote⟩
  · rw [raised] at ran
    exact (Prod.mk.inj ran).2.symm
  · rw [wrote] at ran
    cases f with
    | findByIocId => cases ran
    | findByNames => cases ran
    | setChannels written torn part =>
      obtain ⟨rfl, nothing⟩ := silent
      simp only [writeBatches] at ran
      split at ran
      · simpa [nothing] using (Prod.mk.inj ran).2.symm
      · cases ran

end Attempts

section Release

variable (cfg : CFConfig) (setup : Setup) (p : Processor) (ioc : IOCInfo)

/-- What a commit without records makes of an entry. -/
def releaseEntry (n : String) (e : CFEntry) : CFEntry :=
  if e.has .iocId ioc.id then (releaseChannel cfg setup p ioc { e with name := n }).toCFEntry else e

theorem mergePropertyLists_idem (new : List CFProperty) (ch : CFEntry) (owner : String)
    (managed : List String) :
    mergePropertyLists new ⟨owner, mergePropertyLists new ch managed⟩ managed =
      mergePropertyLists new ch managed := by
  have own : new.filter (fun old => decide (old.name ∉ new.map CFProperty.name) &&
      decide (old.name ∉ managed)) = [] := by
    rw [List.filter_eq_nil_iff]
    intro q member
    have named : q.name ∈ new.map CFProperty.name := List.mem_map_of_mem member
    simp [named]
  simp only [mergePropertyLists, List.filter_append, own, List.nil_append, List.filter_filter,
    Bool.and_self]

theorem releaseChannel_idem (cf : CFChannel) :
    releaseChannel cfg setup p ioc (releaseChannel cfg setup p ioc cf) =
      releaseChannel cfg setup p ioc cf := by
  have name := releaseChannel_name cfg setup p ioc cf
  generalize again : releaseChannel cfg setup p ioc cf = once at name ⊢
  unfold releaseChannel at again ⊢
  rw [name]
  cases last : (Ownership.holder p.owners cf.name).bind p.iocs with
  | none =>
    rw [last] at again
    subst again
    simp only [channel]
    rw [mergePropertyLists_idem]
  | some info =>
    rw [last] at again
    subst again
    simp only [channel]
    rw [mergePropertyLists_idem]

theorem releaseEntry_idem (n : String) (e : CFEntry) :
    releaseEntry cfg setup p ioc n (releaseEntry cfg setup p ioc n e) =
      releaseEntry cfg setup p ioc n e := by
  by_cases listed : e.has .iocId ioc.id
  · have once : releaseEntry cfg setup p ioc n e =
        (releaseChannel cfg setup p ioc { e with name := n }).toCFEntry := if_pos listed
    rw [once]
    unfold releaseEntry
    split
    · have whole : ({ (releaseChannel cfg setup p ioc { e with name := n }).toCFEntry with
          name := n } : CFChannel) = releaseChannel cfg setup p ioc { e with name := n } := by
        have name := releaseChannel_name cfg setup p ioc { e with name := n }
        generalize releaseChannel cfg setup p ioc { e with name := n } = ch at name ⊢
        cases ch
        simp only at name
        rw [← name]
      rw [whole, releaseChannel_idem]
    · rfl
  · have once : releaseEntry cfg setup p ioc n e = e := if_neg listed
    rw [once, once]

variable {cfg setup p ioc}
variable {client : ChannelFinderAdapter} {env : Env}

/-- Writing some of the released channels changes each entry to its released form or not at
all. -/
theorem get?_setChannels_released {s : Store} {channels : List CFChannel}
    (part : channels ⊆ (client.findByIocId env s ioc.id).map (releaseChannel cfg setup p ioc))
    (n : String) :
    (setChannels s channels).get? n = s.get? n ∨
      (setChannels s channels).get? n = (s.get? n).map (releaseEntry cfg setup p ioc n) := by
  rcases get?_setChannels_cases s channels n with ⟨kept, -⟩ | ⟨ch, member, name, written⟩
  · exact Or.inl kept
  · obtain ⟨cf, found, rfl⟩ := List.mem_map.mp (part member)
    rw [releaseChannel_name] at name
    subst name
    obtain ⟨stored, listed⟩ := client.findByIocId_listed env s ioc.id cf found
    refine Or.inr ?_
    rw [written, stored, Option.map_some, releaseEntry, if_pos listed]

/-- A channel that is returned is released, any other stays as it is. -/
theorem get?_setChannels_allReleased (s : Store) (n : String) :
    (setChannels s
      ((client.findByIocId env s ioc.id).map (releaseChannel cfg setup p ioc))).get? n =
      if n ∈ (client.findByIocId env s ioc.id).map CFChannel.name then
        (s.get? n).map (releaseEntry cfg setup p ioc n)
      else s.get? n := by
  rcases get?_setChannels_cases s
      ((client.findByIocId env s ioc.id).map (releaseChannel cfg setup p ioc)) n with
    ⟨kept, unwritten⟩ | ⟨ch, member, name, written⟩
  · have missed : n ∉ (client.findByIocId env s ioc.id).map CFChannel.name := by
      intro member
      obtain ⟨cf, found, name⟩ := List.mem_map.mp member
      exact unwritten _ (List.mem_map_of_mem found) ((releaseChannel_name _ _ _ _ cf).trans name)
    rw [kept, if_neg missed]
  · obtain ⟨cf, found, rfl⟩ := List.mem_map.mp member
    rw [releaseChannel_name] at name
    subst name
    obtain ⟨stored, listed⟩ := client.findByIocId_listed env s ioc.id cf found
    rw [if_pos (List.mem_map_of_mem found), written, stored, Option.map_some, releaseEntry,
      if_pos listed]

/-- Where all that is listed is returned, every entry takes its released form. -/
theorem get?_setChannels_wholeReleased {s : Store}
    (whole : client.FindsListed env s ioc.id) (n : String) :
    (setChannels s
      ((client.findByIocId env s ioc.id).map (releaseChannel cfg setup p ioc))).get? n =
      (s.get? n).map (releaseEntry cfg setup p ioc n) := by
  rw [get?_setChannels_allReleased]
  split
  · rfl
  · rename_i missed
    cases stored : s.get? n with
    | none => rfl
    | some e =>
      have unlisted : ¬ e.has .iocId ioc.id := fun listed =>
        missed (List.mem_map_of_mem (whole n e stored listed))
      rw [Option.map_some, releaseEntry, if_neg unlisted]

end Release

section NoRecords

variable {client : ChannelFinderAdapter} {cfg : CFConfig} {setup : Setup} {env : Env}
  {p : Processor}
  {del : List Key} {ioc : IOCInfo}

/-- The lookups of a commit without records do not raise. -/
def Releasable (p : Processor) (channels : List CFChannel) : Prop :=
  ∀ cf ∈ channels, p.channelIocIds (.name cf.name) ≠ some []

theorem handleChannels_releasable {old l : List CFChannel} {result : List String × List CFChannel}
    (ran : handleChannels cfg setup p ioc ∅ del old l [] = .ok result) : Releasable p l := by
  induction l generalizing result with
  | nil => exact fun cf member => absurd member (by simp)
  | cons cf rest ih =>
    have head : p.channelIocIds (.name cf.name) ≠ some [] := by
      intro empty
      have raises : handleChannel cfg setup p ioc ∅ del old cf [] = .error .indexError := by
        simp [handleChannel, empty]
      simp [handleChannels, raises, bind, Except.bind] at ran
    have step := @handleChannel_release cfg setup p ioc ∅ del old cf (aliasesOf_empty _) head
    cases later : handleChannels cfg setup p ioc ∅ del old rest [] with
    | error e => simp [handleChannels, step, later, bind, Except.bind] at ran
    | ok tail =>
      intro other member
      rcases List.mem_cons.mp member with rfl | inside
      · exact head
      · exact ih later other inside

/-- All that an attempt without records can do. -/
theorem updateChannelfinder_noRecords (positive : 0 < cfg.cfQueryLimit) (fault : Option Fault)
    (s : Store) :
    (∃ e, client.updateChannelfinder cfg setup env p ∅ del ioc fault s = (.error e, s)) ∨
      p.cancelled = false ∧ Releasable p (client.findByIocId env s ioc.id) ∧
        ∃ bs, bs.flatten = (client.findByIocId env s ioc.id).map (releaseChannel cfg setup p ioc) ∧
          client.updateChannelfinder cfg setup env p ∅ del ioc fault s =
            writeBatches bs fault s := by
  rcases @updateChannelfinder_cases client cfg setup env p ∅ del ioc fault s with
    raised | ⟨new, handled, bs, active, reconciled, planned, wrote⟩
  · exact Or.inl raised
  · have releasable := handleChannels_releasable reconciled
    rw [reconcileOld_release releasable] at reconciled
    obtain ⟨rfl, rfl⟩ := Prod.mk.inj (Except.ok.inj reconciled)
    obtain ⟨bs', planned', flat⟩ := @batches_flatten cfg setup env ∅ ioc positive
      (client.findByIocId env s ioc.id) []
        ((client.findByIocId env s ioc.id).map (releaseChannel cfg setup p ioc))
      (client.getExistingChannels env s [])
    rw [planned] at planned'
    obtain rfl := Except.ok.inj planned'
    rw [processNewChannels_nil, List.append_nil] at flat
    exact Or.inr ⟨active, releasable, bs, flat, wrote⟩

theorem writeBatches_error {bs : List (List CFChannel)} {fault : Option Fault} {s s' : Store}
    {e : Py.Error} (ran : writeBatches bs fault s = (.error e, s')) :
    ∃ channels, channels ⊆ bs.flatten ∧ s' = setChannels s channels := by
  unfold writeBatches at ran
  split at ran
  · rename_i written torn part
    split at ran
    · rename_i batch found
      refine ⟨(bs.take written).flatten ++ torn batch, ?_, ?_⟩
      · intro ch member
        rcases List.mem_append.mp member with early | last
        · obtain ⟨b, inside, here⟩ := List.mem_flatten.mp early
          exact List.mem_flatten.mpr ⟨b, List.mem_of_mem_take inside, here⟩
        · exact List.mem_flatten.mpr ⟨batch, List.mem_of_getElem? found, part batch last⟩
      · rw [setChannels_append]
        exact (Prod.mk.inj ran).2.symm
    · cases ran
  · cases ran

/-- Each entry of `now` is the one of `s` or its released form. -/
def PartlyReleased (cfg : CFConfig) (setup : Setup) (p : Processor) (ioc : IOCInfo)
    (s now : Store) : Prop :=
  ∀ n, now.get? n = s.get? n ∨ now.get? n = (s.get? n).map (releaseEntry cfg setup p ioc n)

theorem PartlyReleased.trans {s middle now : Store}
    (first : PartlyReleased cfg setup p ioc s middle)
    (second : PartlyReleased cfg setup p ioc middle now) :
    PartlyReleased cfg setup p ioc s now := by
  intro n
  rcases second n with kept | released
  · rw [kept]
    exact first n
  · rcases first n with same | earlier
    · rw [released, same]
      exact Or.inr rfl
    · refine Or.inr ?_
      rw [released, earlier, Option.map_map]
      congr 1
      funext e
      exact releaseEntry_idem cfg setup p ioc n e

/-- Releasing the rest gives what releasing everything at once gives. -/
theorem PartlyReleased.complete {s now : Store} (partly : PartlyReleased cfg setup p ioc s now)
    (n : String) :
    (now.get? n).map (releaseEntry cfg setup p ioc n) =
      (s.get? n).map (releaseEntry cfg setup p ioc n) := by
  rcases partly n with same | released
  · rw [same]
  · rw [released, Option.map_map]
    congr 1
    funext e
    exact releaseEntry_idem cfg setup p ioc n e

theorem PartlyReleased.listed_of {s now : Store} (partly : PartlyReleased cfg setup p ioc s now)
    {n : String} {e : CFEntry} (stored : now.get? n = some e) (listed : e.has .iocId ioc.id) :
    ∃ before, s.get? n = some before ∧ before.has .iocId ioc.id := by
  rcases partly n with same | released
  · exact ⟨e, same ▸ stored, listed⟩
  · rw [released] at stored
    obtain ⟨before, found, rfl⟩ := Option.map_eq_some_iff.mp stored
    refine ⟨before, found, ?_⟩
    by_contra unlisted
    rw [releaseEntry, if_neg unlisted] at listed
    exact unlisted listed

/-- The listed channels do not become more. -/
theorem PartlyReleased.length_listed {s now : Store}
    (partly : PartlyReleased cfg setup p ioc s now) :
    (PyCFClientAdapter.listed now ioc.id).length ≤ (PyCFClientAdapter.listed s ioc.id).length := by
  have names : (PyCFClientAdapter.listed now ioc.id).map CFChannel.name ⊆
      (PyCFClientAdapter.listed s ioc.id).map CFChannel.name := by
    intro n member
    obtain ⟨ch, here, rfl⟩ := List.mem_map.mp member
    obtain ⟨stored, listed⟩ := PyCFClientAdapter.mem_listed.mp here
    obtain ⟨before, found, listed⟩ := partly.listed_of stored listed
    exact List.mem_map.mpr ⟨{ before with name := ch.name },
      PyCFClientAdapter.mem_listed.mpr ⟨found, listed⟩, rfl⟩
  have shorter :=
    (List.subperm_of_subset (PyCFClientAdapter.listed_nodup now ioc.id) names).length_le
  simpa using shorter

/-- An attempt without records leaves each entry as it is or releases it. -/
theorem PartlyReleased.of_attempt (positive : 0 < cfg.cfQueryLimit)
    {s s' : Store} {fault : Option Fault} {result : Except Py.Error Unit}
    (ran : client.updateChannelfinder cfg setup env p ∅ del ioc fault s = (result, s')) :
    PartlyReleased cfg setup p ioc s s' := by
  rcases @updateChannelfinder_noRecords client cfg setup env p del ioc positive fault s with
    ⟨e, raised⟩ | ⟨-, -, bs, flat, wrote⟩
  · rw [raised] at ran
    obtain rfl := (Prod.mk.inj ran).2
    exact fun n => Or.inl rfl
  · rw [wrote] at ran
    cases result with
    | ok _ =>
      obtain rfl := writeBatches_ok ran
      exact get?_setChannels_released (by rw [flat]; exact List.Subset.refl _)
    | error e =>
      obtain ⟨channels, part, rfl⟩ := writeBatches_error ran
      exact get?_setChannels_released (flat ▸ part)

section Whole

variable (positive : 0 < cfg.cfQueryLimit) {s : Store}
  (whole : ∀ now, PartlyReleased cfg setup p ioc s now → client.FindsListed env now ioc.id)
include positive whole

/-- An attempt that returns completes the release that earlier attempts began. -/
theorem PartlyReleased.attempt {now s' : Store} (partly : PartlyReleased cfg setup p ioc s now)
    (ready : now = s ∨ Releasable p (client.findByIocId env s ioc.id)) {fault : Option Fault}
    (ran : client.updateChannelfinder cfg setup env p ∅ del ioc fault now = (.ok (), s')) :
    p.cancelled = false ∧ Releasable p (client.findByIocId env s ioc.id) ∧
      ∀ n, s'.get? n = (s.get? n).map (releaseEntry cfg setup p ioc n) := by
  rcases @updateChannelfinder_noRecords client cfg setup env p del ioc positive fault now with
    ⟨e, raised⟩ | ⟨active, releasable, bs, flat, wrote⟩
  · rw [raised] at ran
    cases ran
  · refine ⟨active, ready.elim (fun same => same ▸ releasable) id, ?_⟩
    intro n
    rw [wrote] at ran
    rw [writeBatches_ok ran, flat, get?_setChannels_wholeReleased (whole now partly)]
    exact partly.complete n

/-- The invariant of the retry loop is the relation to the store of the first attempt. That
attempt would return too, once one that wrote something got past its lookups. -/
theorem PartlyReleased.push {faults : List Fault} {count : Int} {now s' : Store}
    (partly : PartlyReleased cfg setup p ioc s now)
    (ready : now = s ∨ Releasable p (client.findByIocId env s ioc.id))
    (pushed : client.pushToCf cfg setup env p ∅ del ioc faults count now = (.ok true, s')) :
    p.cancelled = false ∧ Releasable p (client.findByIocId env s ioc.id) ∧
      ∀ n, s'.get? n = (s.get? n).map (releaseEntry cfg setup p ioc n) := by
  induction faults generalizing count now with
  | nil =>
    rcases pushToCf_ok_cases pushed with ⟨_, ran⟩ | ⟨_, _, _, impossible, _⟩
    · exact partly.attempt positive whole ready ran
    · cases impossible
  | cons fault rest ih =>
    rcases pushToCf_ok_cases pushed with ⟨_, ran⟩ | ⟨f, later, next, split, failed, retried⟩
    · exact partly.attempt positive whole ready ran
    obtain ⟨rfl, rfl⟩ := List.cons.inj split
    refine ih (partly.trans (PartlyReleased.of_attempt positive failed)) ?_ retried
    rcases @updateChannelfinder_noRecords client cfg setup env p del ioc positive (some fault)
      now with
      ⟨e, raised⟩ | ⟨-, releasable, -, -, -⟩
    · rw [raised] at failed
      exact (Prod.mk.inj failed).2 ▸ ready
    · exact Or.inr (ready.elim (fun same => same ▸ releasable) id)

end Whole

end NoRecords

/-- One page holds all that is listed under the iocid, also after some of it was released. -/
theorem PartlyReleased.findsListed {adapter : PyCFClientAdapter} {cfg : CFConfig} {setup : Setup}
    {env : Env} {p : Processor} {ioc : IOCInfo} {s now : Store}
    (enough : (PyCFClientAdapter.listed s ioc.id).length ≤ adapter.sizeLimit)
    (partly : PartlyReleased cfg setup p ioc s now) :
    adapter.queries.FindsListed env now ioc.id := by
  have fewer := partly.length_listed
  apply PyCFClientAdapter.findsListed_of_page
  omega

/-- Two channels of an IOC that is gone. -/
def leftBehind : Store :=
  setChannels ∅ [channel "pv" "o" [property .iocId "o" "a:5064", property .pvStatus "o" "Active"],
    channel "pv2" "o" [property .iocId "o" "a:5064", property .pvStatus "o" "Active"]]

/-- A request that is carried out for one channel before it fails. -/
def halfWritten : Fault := .setChannels 0 (List.take 1) fun l => List.take_subset 1 l

/-- The push of the first commit with two records, in chunks of one channel. -/
def pushTwo (setup : Setup) (faults : List Fault) : Except Py.Error Bool × Store :=
  ((pagesOf 1).queries (· == ·)).pushToCf (pagesOf 1) setup {}
    (afterConnected (pagesOf 1) setup {} tornAnnounce.transaction {})
    (recordsOf (pagesOf 1) setup {} tornAnnounce.transaction) []
    (iocInfoOf (pagesOf 1) {} tornAnnounce.transaction) faults 0 ∅

end Recsync.Cf
