import Recsync.Lib.Paging
import Recsync.Cf.Stop

set_option autoImplicit false

/- The sweep of `clean_tool.py` and of `clean_service`. -/
namespace Recsync.Cf

/-- `run_clean`, with the answers of its queries by their number. -/
def sweepLoop (cfg : CFConfig) (find : Nat → Store → List CFChannel) (dryRun : Bool) :
    Nat → Nat → Nat → Store → Option (Nat × Store)
  | 0, _, _, _ => none
  | fuel + 1, query, total, s =>
    let channels := find query s
    if channels = [] then some (total, s)
    else
      let s := if dryRun then s else markInactive cfg (channels.map CFChannel.name) s
      let total := total + channels.length
      if dryRun then some (total, s) else sweepLoop cfg find dryRun fuel (query + 1) total s

def runClean (cfg : CFConfig) (find : Nat → Store → List CFChannel) (dryRun : Bool) (fuel : Nat)
    (s : Store) : Option (Nat × Store) :=
  sweepLoop cfg find dryRun fuel 0 0 s

/-- `clean_service` when no request fails. -/
def cleanService (cfg : CFConfig) (find : Nat → Store → List CFChannel) :
    Nat → Nat → Store → Option Store
  | 0, _, _ => none
  | fuel + 1, query, s =>
    let channels := find query s
    if channels = [] then some s
    else cleanService cfg find fuel (query + 1) (markInactive cfg (channels.map CFChannel.name) s)

/-- The channel is Active for this recceiver. -/
def CFEntry.Swept (cfg : CFConfig) (e : CFEntry) : Prop :=
  e.Active ∧ e.has .recceiverId cfg.recceiverId

instance (cfg : CFConfig) (e : CFEntry) : Decidable (e.Swept cfg) :=
  inferInstanceAs (Decidable (e.Active ∧ e.has .recceiverId cfg.recceiverId))

/-- The channels that a sweep is about. -/
def activeFor (cfg : CFConfig) (s : Store) : List CFChannel :=
  (storedChannels s).filter fun ch => decide (ch.toCFEntry.Swept cfg)

/-- A query returns some of the matching channels, at most as many as the limit and at least one
while there are any. -/
structure IsPage (limit : Int) (matching page : List CFChannel) : Prop where
  distinct : (page.map CFChannel.name).Nodup
  inside : ∀ ch ∈ page, ch ∈ matching
  bounded : 0 < limit → (page.length : Int) ≤ limit
  nonempty : page = [] → matching = []

def inactive (cfg : CFConfig) : CFProperty :=
  property .pvStatus cfg.username PVStatus.inactive.value

def CFEntry.afterSweep (cfg : CFConfig) (e : CFEntry) : CFEntry :=
  if e.Swept cfg then e.setProperty (inactive cfg) else e

section Stores

variable {cfg : CFConfig}

theorem not_swept_setProperty (e : CFEntry) : ¬ (e.setProperty (inactive cfg)).Swept cfg :=
  fun swept => setProperty_inactive e cfg.username swept.1

theorem not_swept_afterSweep (e : CFEntry) : ¬ (e.afterSweep cfg).Swept cfg := by
  rw [CFEntry.afterSweep]
  split
  · exact not_swept_setProperty e
  · assumption

theorem afterSweep_of_not_swept {e : CFEntry} (other : ¬ e.Swept cfg) : e.afterSweep cfg = e :=
  if_neg other

theorem mem_activeFor {s : Store} {ch : CFChannel} :
    ch ∈ activeFor cfg s ↔ s.get? ch.name = some ch.toCFEntry ∧ ch.toCFEntry.Swept cfg := by
  rw [activeFor, List.mem_filter, mem_storedChannels, decide_eq_true_iff]

/-- The request sets the property of the channels that it names and keeps the others. -/
theorem get?_updateProperty (p : CFProperty) {names : List String} (distinct : names.Nodup)
    (s : Store) (n : String) :
    (updateProperty s p names).get? n =
      if n ∈ names then (s.get? n).map fun e => e.setProperty p else s.get? n := by
  rw [updateProperty]
  induction names generalizing s with
  | nil => simp
  | cons name rest ih =>
    obtain ⟨fresh, distinct⟩ := List.nodup_cons.mp distinct
    rw [List.foldl_cons, ih distinct]
    by_cases here : n = name
    · subst here
      simp only [List.mem_cons_self, if_true, fresh, if_false]
      cases found : s.get? n with
      | none => simp [found]
      | some e => simp
    · cases found : s.get? name with
      | none => simp [here]
      | some e => simp [here, Py.Dict.get?_set_ne s _ here]

theorem keys_updateProperty (p : CFProperty) (names : List String) (s : Store) :
    (updateProperty s p names).keys = s.keys := by
  rw [updateProperty]
  induction names generalizing s with
  | nil => rfl
  | cons name rest ih =>
    rw [List.foldl_cons, ih]
    split
    · rename_i e found
      rw [Py.Dict.keys_set, if_pos ((s.mem_keys_iff name).mpr ⟨e, found⟩)]
    · rfl

/-- Every channel of the page is swept and the others stay. -/
theorem get?_markInactive {limit : Int} {s : Store} {page : List CFChannel}
    (isPage : IsPage limit (activeFor cfg s) page) (n : String) :
    (markInactive cfg (page.map CFChannel.name) s).get? n =
      if n ∈ page.map CFChannel.name then (s.get? n).map (CFEntry.afterSweep cfg)
      else s.get? n := by
  rw [markInactive, get?_updateProperty _ isPage.distinct]
  by_cases named : n ∈ page.map CFChannel.name
  · obtain ⟨ch, member, rfl⟩ := List.mem_map.mp named
    obtain ⟨found, swept⟩ := mem_activeFor.mp (isPage.inside ch member)
    rw [if_pos named, if_pos named, found, Option.map_some, Option.map_some, CFEntry.afterSweep,
      if_pos swept]
    rfl
  · rw [if_neg named, if_neg named]

/-- What is left of the sweep, channel by channel. -/
def sweptAt (cfg : CFConfig) (s : Store) (n : String) : Bool :=
  (s.get? n).any fun e => decide (e.Swept cfg)

theorem length_activeFor (s : Store) :
    (activeFor cfg s).length = (s.keys.filter (sweptAt cfg s)).length := by
  have same : (activeFor cfg s).map CFChannel.name = s.keys.filter (sweptAt cfg s) := by
    rw [activeFor, storedChannels, Py.Dict.keys, List.filter_map, List.filter_map, List.map_map]
    apply congrArg (List.map Prod.fst)
    apply List.filter_congr
    intro entry member
    have found : s.get? entry.1 = some entry.2 := (s.get?_eq_some_iff _ _).mpr member
    simp [sweptAt, found]
  rw [← same, List.length_map]

theorem sweptAt_markInactive {limit : Int} {s : Store} {page : List CFChannel}
    (isPage : IsPage limit (activeFor cfg s) page) (n : String) :
    sweptAt cfg (markInactive cfg (page.map CFChannel.name) s) n =
      (sweptAt cfg s n && !decide (n ∈ page.map CFChannel.name)) := by
  rw [sweptAt, get?_markInactive isPage]
  by_cases named : n ∈ page.map CFChannel.name
  · rw [if_pos named, decide_eq_true named, Bool.not_true, Bool.and_false]
    cases s.get? n with
    | none => rfl
    | some e => simp [not_swept_afterSweep]
  · rw [if_neg named, decide_eq_false named, Bool.not_false, Bool.and_true]
    rfl

/-- As many channels are swept as the page names. -/
theorem length_activeFor_markInactive {limit : Int} {s : Store} {page : List CFChannel}
    (isPage : IsPage limit (activeFor cfg s) page) :
    (activeFor cfg (markInactive cfg (page.map CFChannel.name) s)).length + page.length =
      (activeFor cfg s).length := by
  have keys : (markInactive cfg (page.map CFChannel.name) s).keys = s.keys :=
    keys_updateProperty _ _ s
  have named : (page.map CFChannel.name).Perm
      ((s.keys.filter (sweptAt cfg s)).filter fun n => decide (n ∈ page.map CFChannel.name)) := by
    rw [List.perm_ext_iff_of_nodup isPage.distinct
      ((s.keys_nodup.filter _).filter _)]
    intro n
    rw [List.mem_filter, decide_eq_true_iff]
    constructor
    · intro member
      refine ⟨?_, member⟩
      obtain ⟨ch, inside, rfl⟩ := List.mem_map.mp member
      obtain ⟨found, swept⟩ := mem_activeFor.mp (isPage.inside ch inside)
      rw [List.mem_filter, Py.Dict.mem_keys_iff]
      exact ⟨⟨_, found⟩, by simp [sweptAt, found, swept]⟩
    · exact And.right
  have left : s.keys.filter (sweptAt cfg (markInactive cfg (page.map CFChannel.name) s)) =
      (s.keys.filter (sweptAt cfg s)).filter fun n => !decide (n ∈ page.map CFChannel.name) := by
    rw [List.filter_filter]
    apply List.filter_congr
    intro n _
    rw [sweptAt_markInactive isPage, Bool.and_comm]
  have both := (List.filter_append_perm (fun n => decide (n ∈ page.map CFChannel.name))
    (s.keys.filter (sweptAt cfg s))).length_eq
  rw [List.length_append, ← named.length_eq, List.length_map] at both
  rw [length_activeFor, length_activeFor, keys, left]
  omega

theorem afterSweep_afterSweep (e : CFEntry) :
    (e.afterSweep cfg).afterSweep cfg = e.afterSweep cfg :=
  afterSweep_of_not_swept (not_swept_afterSweep e)

/-- The sweep changes no property but `pvStatus`. -/
theorem mem_afterSweep {e : CFEntry} {q : CFProperty}
    (other : q.name ≠ CFPropertyName.pvStatus.value) :
    q ∈ (e.afterSweep cfg).properties ↔ q ∈ e.properties := by
  rw [CFEntry.afterSweep]
  split
  · have unlike : q ≠ inactive cfg := fun same => other (congrArg CFProperty.name same)
    have kept : q.name ≠ (inactive cfg).name := other
    simp [CFEntry.setProperty, List.mem_filter, unlike, kept]
  · rfl

end Stores

structure Drained (cfg : CFConfig) (before after : Store) : Prop where
  channels : ∀ n, after.get? n = (before.get? n).map (CFEntry.afterSweep cfg)
  inactive : ∀ n e, after.get? n = some e → ¬ e.Swept cfg
  properties : ∀ n e e', before.get? n = some e → after.get? n = some e' →
    ∀ q, q.name ≠ CFPropertyName.pvStatus.value → (q ∈ e'.properties ↔ q ∈ e.properties)

section Loops

variable {cfg : CFConfig}

theorem drained_of_channels {before after : Store}
    (channels : ∀ n, after.get? n = (before.get? n).map (CFEntry.afterSweep cfg)) :
    Drained cfg before after := by
  constructor
  · exact channels
  · intro n e found
    rw [channels] at found
    obtain ⟨old, -, rfl⟩ := Option.map_eq_some_iff.mp found
    exact not_swept_afterSweep old
  · intro n e e' old new q other
    rw [channels, old, Option.map_some] at new
    rw [← Option.some.inj new]
    exact mem_afterSweep other

/-- The work on a page, in both loops. -/
def sweepPage (cfg : CFConfig) (page : List CFChannel) (s : Store) : Store :=
  markInactive cfg (page.map CFChannel.name) s

theorem sweepLoop_live (find : Nat → Store → List CFChannel) (fuel query total : Nat) (s : Store) :
    sweepLoop cfg find false fuel query total s =
      Paging.drain find (sweepPage cfg) fuel query total s := by
  induction fuel generalizing query total s with
  | zero => rfl
  | succ fuel ih =>
    cases page : find query s with
    | nil => simp [sweepLoop, Paging.drain, page]
    | cons ch rest => simp [sweepLoop, Paging.drain, page, ih, sweepPage]

theorem cleanService_eq (find : Nat → Store → List CFChannel) (fuel query total : Nat) (s : Store) :
    cleanService cfg find fuel query s =
      (Paging.drain find (sweepPage cfg) fuel query total s).map Prod.snd := by
  induction fuel generalizing query total s with
  | zero => rfl
  | succ fuel ih =>
    cases page : find query s with
    | nil => simp [cleanService, Paging.drain, page]
    | cons ch rest =>
      simp [cleanService, Paging.drain, page, ih (query + 1) (total + (rest.length + 1)), sweepPage]

variable {limit : Int} {find : Nat → Store → List CFChannel}
  (pages : ∀ query s, IsPage limit (activeFor cfg s) (find query s))
include pages

theorem drains_pages :
    Paging.Drains find (sweepPage cfg) fun s => (activeFor cfg s).length where
  nonempty query s none := List.length_eq_zero_iff.mpr ((pages query s).nonempty none)
  shrinks query s := length_activeFor_markInactive (pages query s)

theorem sweepPage_keeps (before : Store) (query : Nat) (s : Store)
    (same : s.keys = before.keys ∧ ∀ n, (s.get? n).map (CFEntry.afterSweep cfg) =
      (before.get? n).map (CFEntry.afterSweep cfg)) :
    (sweepPage cfg (find query s) s).keys = before.keys ∧
      ∀ n, ((sweepPage cfg (find query s) s).get? n).map (CFEntry.afterSweep cfg) =
        (before.get? n).map (CFEntry.afterSweep cfg) := by
  constructor
  · rw [← same.1]
    exact keys_updateProperty _ _ s
  · intro n
    rw [sweepPage, get?_markInactive (pages query s), ← same.2 n]
    split
    · rw [Option.map_map]
      congr 1
      funext e
      exact afterSweep_afterSweep e
    · rfl

theorem drain_pages {before : Store} {fuel : Nat} (enough : (activeFor cfg before).length < fuel)
    (query total : Nat) :
    ∃ after, Paging.drain find (sweepPage cfg) fuel query total before =
        some (total + (activeFor cfg before).length, after) ∧
      after.keys = before.keys ∧
      ∀ n, after.get? n = (before.get? n).map (CFEntry.afterSweep cfg) := by
  obtain ⟨after, run, none, keys, same⟩ := Paging.drain_complete (drains_pages pages)
    (sweepPage_keeps pages before) query total enough ⟨rfl, fun _ => rfl⟩
  refine ⟨after, run, keys, ?_⟩
  intro n
  rw [← same n]
  cases found : after.get? n with
  | none => rfl
  | some e =>
    have other : ¬ e.Swept cfg := by
      intro swept
      have inside : ({ e with name := n } : CFChannel) ∈ activeFor cfg after :=
        mem_activeFor.mpr ⟨found, swept⟩
      rw [List.length_eq_zero_iff.mp none] at inside
      cases inside
    rw [Option.map_some, afterSweep_of_not_swept other]

end Loops

/-- Dictionaries with the same keys in the same order and the same values are equal. -/
theorem eq_of_get? {s t : Store} (keys : s.keys = t.keys) (same : ∀ n, s.get? n = t.get? n) :
    s = t := by
  have listed (d : Store) : d.entries = d.keys.filterMap fun n => (d.get? n).map (n, ·) := by
    rw [Py.Dict.keys, List.filterMap_map]
    calc d.entries = d.entries.filterMap some := List.filterMap_some.symm
      _ = _ := by
        apply List.filterMap_congr
        intro entry member
        have found : d.get? entry.1 = some entry.2 := (d.get?_eq_some_iff _ _).mpr member
        simp [found]
  have entries : s.entries = t.entries := by
    rw [listed s, listed t, keys]
    simp only [same]
  cases s
  cases t
  cases entries
  rfl

section Answers

variable {cfg : CFConfig}

theorem findActiveForRecceiver_eq (env : Env) (s : Store) :
    findActiveForRecceiver cfg env s =
      if 0 < cfg.cfQueryLimit then (env.replyOrder (activeFor cfg s)).take cfg.cfQueryLimit.toNat
      else env.replyOrder (activeFor cfg s) := by
  have same : (storedChannels s).filter (fun ch => decide ch.toCFEntry.Active &&
      decide (ch.toCFEntry.has .recceiverId cfg.recceiverId)) = activeFor cfg s := by
    apply List.filter_congr
    intro ch _
    rw [← Bool.decide_and]
    rfl
  rw [findActiveForRecceiver, same]

theorem length_findActiveForRecceiver (env : Env) (s : Store) :
    (findActiveForRecceiver cfg env s).length =
      if 0 < cfg.cfQueryLimit then min cfg.cfQueryLimit.toNat (activeFor cfg s).length
      else (activeFor cfg s).length := by
  rw [findActiveForRecceiver_eq]
  split
  · rw [List.length_take, (env.replyOrder_perm _).length_eq]
  · exact (env.replyOrder_perm _).length_eq

theorem findActiveForRecceiver_isPage (env : Env) (s : Store) :
    IsPage cfg.cfQueryLimit (activeFor cfg s) (findActiveForRecceiver cfg env s) := by
  have whole := env.replyOrder_perm (activeFor cfg s)
  have length := @length_findActiveForRecceiver cfg env s
  have sublist : (findActiveForRecceiver cfg env s).Sublist (env.replyOrder (activeFor cfg s)) := by
    rw [findActiveForRecceiver_eq]
    split
    · exact List.take_sublist _ _
    · exact List.Sublist.refl _
  constructor
  · apply (sublist.map CFChannel.name).nodup
    rw [(whole.map CFChannel.name).nodup_iff]
    exact (storedChannels_nodup s).sublist (List.filter_sublist.map CFChannel.name)
  · intro ch member
    exact whole.mem_iff.mp (sublist.subset member)
  · intro positive
    rw [length, if_pos positive]
    omega
  · intro nothing
    rw [nothing] at length
    apply List.length_eq_zero_iff.mp
    simp only [List.length_nil] at length
    split at length <;> omega

end Answers

/-- Without `dry_run` the sweep ends after any answers of the queries, counts each channel that was
Active for the recceiver once and leaves none of them Active; `clean_service` ends in the same
store. -/
theorem runClean_drains {cfg : CFConfig} {limit : Int}
    {find serviceFind : Nat → Store → List CFChannel}
    (pages : ∀ query s, IsPage limit (activeFor cfg s) (find query s))
    (servicePages : ∀ query s, IsPage limit (activeFor cfg s) (serviceFind query s))
    {before : Store} {fuel : Nat} (enough : (activeFor cfg before).length < fuel) :
    ∃ after, runClean cfg find false fuel before = some ((activeFor cfg before).length, after) ∧
      Drained cfg before after ∧ cleanService cfg serviceFind fuel 0 before = some after := by
  obtain ⟨after, run, keys, channels⟩ := drain_pages pages enough 0 0
  obtain ⟨served, serving, servedKeys, servedChannels⟩ := drain_pages servicePages enough 0 0
  have same : served = after := by
    apply eq_of_get? (servedKeys.trans keys.symm)
    intro n
    rw [channels, servedChannels]
  refine ⟨after, ?_, drained_of_channels channels, ?_⟩
  · rw [runClean, sweepLoop_live, run, Nat.zero_add]
  · rw [cleanService_eq serviceFind fuel 0 0, serving, same]
    rfl

/-- Three channels of a recceiver, one of them Inactive. -/
def pumps : Store :=
  setChannels ∅ [
    channel "PV:1" "admin" [property .pvStatus "admin" "Active", property .recceiverId "admin" "r"],
    channel "PV:2" "admin" [property .pvStatus "admin" "Inactive",
      property .recceiverId "admin" "r"],
    channel "PV:3" "admin" [property .pvStatus "admin" "Active", property .recceiverId "admin" "r"]]

/-- The two Active ones come in two pages. -/
theorem runClean_drains_pumps :
    ∃ after, runClean { recceiverId := "r", cfQueryLimit := 1 }
        (fun _ s => findActiveForRecceiver { recceiverId := "r", cfQueryLimit := 1 } {} s) false 3
        pumps = some (2, after) ∧
      Drained { recceiverId := "r", cfQueryLimit := 1 } pumps after ∧
      cleanService { recceiverId := "r", cfQueryLimit := 1 }
        (fun _ s => findActiveForRecceiver { recceiverId := "r", cfQueryLimit := 1 } {} s) 3 0
        pumps = some after := by
  have two : (activeFor { recceiverId := "r", cfQueryLimit := 1 } pumps).length = 2 := by
    decide +kernel
  have drained := @runClean_drains { recceiverId := "r", cfQueryLimit := 1 } 1 _ _
    (fun _ s => @findActiveForRecceiver_isPage { recceiverId := "r", cfQueryLimit := 1 } {} s)
    (fun _ s => @findActiveForRecceiver_isPage { recceiverId := "r", cfQueryLimit := 1 } {} s)
    pumps 3 (by rw [two]; decide)
  rw [two] at drained
  exact drained

/-- The thread of `clean_service`, request by request. -/
theorem cleanService_reaches (client : ChannelFinderAdapter) {cfg : CFConfig} (setup : Setup)
    (envs : Nat → Env) (failures : Nat) {fuel query : Nat} {w : World} {after : Store}
    (served : cleanService cfg (fun query s => findActiveForRecceiver cfg (envs query) s) fuel query
      w.store = some after) :
    Reaches client cfg setup (w, .sweeping .querying failures)
      ({ w with store := after }, .sweeping .finished failures) := by
  induction fuel generalizing query w with
  | zero => cases served
  | succ fuel ih =>
    simp only [cleanService] at served
    apply Reaches.answered (envs query)
    split at served
    · rename_i nothing
      simp only [Task.proceed, nothing, ← Option.some.inj served]
      exact .refl _
    · rename_i more
      simp only [Task.proceed]
      rw [if_neg (mt List.map_eq_nil_iff.mp more)]
      exact .answered (envs query) (@ih (query + 1) { w with store := markInactive cfg _ w.store }
        served)

/-- Request by request, a thread that nothing comes between does what its function does, whatever
requests of a commit fail. -/
theorem threads_do_calls (client : ChannelFinderAdapter) (cfg : CFConfig) (setup : Setup)
    (w : World) :
    (∀ env faults t, Reaches client cfg setup (w, .starting t)
      ((client.commitWithThread cfg setup env faults t w).2,
        .ended (client.commitWithThread cfg setup env faults t w).1)) ∧
    ∀ (envs : Nat → Env) fuel after,
      cleanService cfg (fun query s => findActiveForRecceiver cfg (envs query) s) fuel 0 w.store =
        some after →
      Reaches client cfg setup (w, .sweeping .querying 0)
        ({ w with store := after }, .sweeping .finished 0) :=
  ⟨fun env faults t => commit_reaches env faults t w,
    fun envs _ _ served => cleanService_reaches client setup envs 0 served⟩

theorem sweepLoop_dryRun {cfg : CFConfig} (find : Nat → Store → List CFChannel)
    (fuel query total : Nat) (s : Store) :
    sweepLoop cfg find true (fuel + 1) query total s =
      some (total + (find query s).length, s) := by
  cases page : find query s with
  | nil => simp [sweepLoop, page]
  | cons ch rest => simp [sweepLoop, page]

/-- The dry run keeps the store and counts what the live run counts exactly when no page is cut
off. -/
theorem dryRun_predicts_iff (cfg : CFConfig) (dryEnvs liveEnvs : Nat → Env) {s : Store}
    {fuel : Nat} (enough : (activeFor cfg s).length < fuel) :
    (∃ count after,
        runClean cfg (fun query s => findActiveForRecceiver cfg (dryEnvs query) s) true fuel s =
          some (count, s) ∧
        runClean cfg (fun query s => findActiveForRecceiver cfg (liveEnvs query) s) false fuel s =
          some (count, after)) ↔
      cfg.cfQueryLimit ≤ 0 ∨ ((activeFor cfg s).length : Int) ≤ cfg.cfQueryLimit := by
  obtain ⟨swept, live, -, -⟩ := drain_pages
    (fun query s => findActiveForRecceiver_isPage (liveEnvs query) s) enough 0 0
  rw [← sweepLoop_live, Nat.zero_add] at live
  obtain ⟨more, rfl⟩ : ∃ more, fuel = more + 1 := ⟨fuel - 1, by omega⟩
  simp only [runClean, sweepLoop_dryRun, live, Nat.zero_add, length_findActiveForRecceiver]
  constructor
  · rintro ⟨count, after, dry, whole⟩
    have first := congrArg Prod.fst (Option.some.inj dry)
    have second := congrArg Prod.fst (Option.some.inj whole)
    dsimp only at first second
    split at first <;> omega
  · intro fits
    refine ⟨(activeFor cfg s).length, swept, ?_, rfl⟩
    congr 2
    split <;> omega

theorem dryRun_predicts_iff_pumps :
    ∃ count after,
      runClean { recceiverId := "r", cfQueryLimit := 2 }
          (fun _ s => findActiveForRecceiver { recceiverId := "r", cfQueryLimit := 2 } {} s) true 3
          pumps = some (count, pumps) ∧
        runClean { recceiverId := "r", cfQueryLimit := 2 }
          (fun _ s => findActiveForRecceiver { recceiverId := "r", cfQueryLimit := 2 } {} s) false 3
          pumps = some (count, after) := by
  have two : (activeFor { recceiverId := "r", cfQueryLimit := 2 } pumps).length = 2 := by
    decide +kernel
  apply (@dryRun_predicts_iff { recceiverId := "r", cfQueryLimit := 2 } (fun _ => {}) (fun _ => {})
    pumps 3 (by rw [two]; decide)).mpr
  rw [two]
  decide

/-- With pages of one channel the dry run counts one of the two. -/
theorem dryRun_counts_first_page :
    runClean { recceiverId := "r", cfQueryLimit := 1 }
        (fun _ s => findActiveForRecceiver { recceiverId := "r", cfQueryLimit := 1 } {} s) true 3
        pumps = some (1, pumps) ∧
      (runClean { recceiverId := "r", cfQueryLimit := 1 }
        (fun _ s => findActiveForRecceiver { recceiverId := "r", cfQueryLimit := 1 } {} s) false 3
        pumps).map Prod.fst = some 2 := by
  constructor
  · rw [runClean, sweepLoop_dryRun]
    congr 2
  · decide +kernel

end Recsync.Cf
