import Mathlib.Algebra.BigOperators.Group.List.Basic
import Mathlib.Algebra.GroupWithZero.Nat
import Mathlib.Data.List.Perm.Subperm
import Recsync.Cf.Update

set_option autoImplicit false

/- The two limits on requests: the length of a name query, and the number of channels that a request
asks for or writes. -/
namespace Recsync.Cf

open Py (groups groups_flatten groups_induct addToGroup closeGroup)

namespace PyCFClientAdapter

/-- `query.split("|")` -/
def splitBars (query : String) : List String :=
  (query.toList.splitOn '|').map String.ofList

/-- `"|".join(names)` -/
def joinBars (names : List String) : String := "|".intercalate names

/-- A name still fits behind those of a query. -/
def fits (names : List String) (name : String) : Bool :=
  decide ((joinBars names).length + name.length < cfNameQueryLimit)

def nameGroups (names : List String) : List (List String) := groups fits names

section Queries

theorem joinBars_append {names : List String} (some : names ≠ []) (name : String) :
    joinBars (names ++ [name]) = joinBars names ++ "|" ++ name := by
  rw [joinBars, String.intercalate_append_of_ne_nil some (by simp), String.intercalate_singleton,
    joinBars]

theorem joinBars_eq_empty_iff {names : List String} (given : ∀ name ∈ names, name ≠ "") :
    joinBars names = "" ↔ names = [] := by
  constructor
  · intro empty
    cases names with
    | nil => rfl
    | cons first rest =>
      have some : first ≠ "" := given first List.mem_cons_self
      cases rest with
      | nil =>
        rw [joinBars, String.intercalate_singleton] at empty
        exact absurd empty some
      | cons second rest =>
        have size := congrArg String.length empty
        rw [joinBars, String.intercalate_cons_cons, String.length_append,
          String.length_append] at size
        simp at size
  · intro none
    rw [none, joinBars, String.intercalate_nil]

theorem splitBars_joinBars {names : List String} (some : names ≠ [])
    (plain : ∀ name ∈ names, '|' ∉ name.toList) : splitBars (joinBars names) = names := by
  have bars : ∀ chars ∈ names.map String.toList, '|' ∉ chars := by
    intro chars member
    obtain ⟨name, inside, rfl⟩ := List.mem_map.mp member
    exact plain name inside
  have back : (names.map String.toList).map String.ofList = names := by
    rw [List.map_map]
    exact List.map_id'' (fun name => String.ofList_toList) names
  rw [splitBars, joinBars, String.toList_intercalate,
    show "|".toList = ['|'] from rfl, List.splitOn_intercalate '|' bars (by simpa using some), back]

/-- The buffer of `find_by_names` holds the names of the open group. -/
theorem addName_joinBars {st : List (List String) × List String} {name : String}
    (given : ∀ other ∈ st.2, other ≠ "") :
    addName (st.1.map joinBars, joinBars st.2) name =
      ((addToGroup fits st name).1.map joinBars, joinBars (addToGroup fits st name).2) := by
  have single : joinBars [name] = name := String.intercalate_singleton
  rw [addName, addToGroup]
  dsimp only
  by_cases empty : st.2 = []
  · rw [if_pos ((joinBars_eq_empty_iff given).mpr empty), if_pos (List.isEmpty_iff.mpr empty),
      single]
  · rw [if_neg (mt (joinBars_eq_empty_iff given).mp empty),
      if_neg (mt List.isEmpty_iff.mp empty)]
    by_cases room : (joinBars st.2).length + name.length < cfNameQueryLimit
    · have fit : fits st.2 name = true := decide_eq_true room
      rw [if_pos room, if_pos fit, joinBars_append empty]
    · have full : ¬ fits st.2 name = true := by simpa [fits] using room
      rw [if_neg room, if_neg full, List.map_append, List.map_singleton, single]

theorem addToGroup_given {st : List (List String) × List String} {name : String}
    (given : ∀ other ∈ st.2, other ≠ "") (some : name ≠ "") :
    ∀ other ∈ (addToGroup fits st name).2, other ≠ "" := by
  have single : ∀ other ∈ [name], other ≠ "" := by
    intro other member
    rwa [List.mem_singleton.mp member]
  rw [addToGroup]
  split
  · exact single
  · split
    · intro other member
      exact (List.mem_append.mp member).elim (given other) (single other)
    · exact single

theorem foldl_addName {st : List (List String) × List String} {names : List String}
    (given : ∀ other ∈ st.2, other ≠ "") (some : ∀ name ∈ names, name ≠ "") :
    names.foldl addName (st.1.map joinBars, joinBars st.2) =
        ((names.foldl (addToGroup fits) st).1.map joinBars,
          joinBars (names.foldl (addToGroup fits) st).2) ∧
      ∀ other ∈ (names.foldl (addToGroup fits) st).2, other ≠ "" := by
  induction names generalizing st with
  | nil => exact ⟨rfl, given⟩
  | cons name rest ih =>
    have first : name ≠ "" := some name List.mem_cons_self
    rw [List.foldl_cons, List.foldl_cons, addName_joinBars given]
    exact ih (addToGroup_given given first)
      fun other member => some other (List.mem_cons_of_mem _ member)

theorem nameQueries_eq {names : List String} (some : ∀ name ∈ names, name ≠ "") :
    nameQueries names = (nameGroups names).map joinBars := by
  obtain ⟨run, given⟩ := @foldl_addName ([], []) names nofun some
  have start : names.foldl addName ([], "") =
      ((names.foldl (addToGroup fits) ([], [])).1.map joinBars,
        joinBars (names.foldl (addToGroup fits) ([], [])).2) := by
    rw [← run]
    rfl
  rw [nameQueries, start, nameGroups, groups, closeGroup]
  dsimp only
  by_cases none : (names.foldl (addToGroup fits) ([], [])).2 = []
  · rw [if_pos ((joinBars_eq_empty_iff given).mpr none), if_pos (List.isEmpty_iff.mpr none)]
  · rw [if_neg (mt (joinBars_eq_empty_iff given).mp none), if_neg (mt List.isEmpty_iff.mp none),
      List.map_append, List.map_singleton]

/-- No group is empty, and one with a longer query is a single name. -/
theorem nameGroups_short (names : List String) : ∀ g ∈ nameGroups names,
    g ≠ [] ∧ ((joinBars g).length ≤ cfNameQueryLimit ∨ ∃ name, g = [name]) := by
  apply groups_induct
  · intro name member
    exact Or.inr ⟨name, rfl⟩
  · intro g some name member short fit
    have room : (joinBars g).length + name.length < cfNameQueryLimit := of_decide_eq_true fit
    left
    rw [joinBars_append some, String.length_append, String.length_append,
      show "|".length = 1 from rfl]
    omega

theorem exists_nameGroup {names : List String} {name : String} (member : name ∈ names) :
    ∃ g ∈ nameGroups names, name ∈ g := by
  rw [← groups_flatten fits names] at member
  exact List.mem_flatten.mp member

theorem mem_of_mem_nameGroups {names g : List String} (group : g ∈ nameGroups names) {name : String}
    (member : name ∈ g) : name ∈ names := by
  rw [← groups_flatten fits names]
  exact List.mem_flatten.mpr ⟨g, group, member⟩

end Queries

section Room

theorem length_joinBars {names : List String} (nonempty : names ≠ []) :
    (joinBars names).length + 1 = (names.map String.length).sum + names.length := by
  induction names with
  | nil => exact absurd rfl nonempty
  | cons first rest ih =>
    cases rest with
    | nil =>
      have one : joinBars [first] = first := String.intercalate_singleton
      rw [one, List.map_cons, List.map_nil, List.sum_cons, List.sum_nil, Nat.add_zero]
      rfl
    | cons second more =>
      have later : (joinBars (second :: more)).length + 1 = _ := ih (List.cons_ne_nil _ _)
      rw [joinBars] at later
      rw [joinBars, String.intercalate_cons_cons, String.length_append, String.length_append,
        show "|".length = 1 from rfl, List.map_cons, List.sum_cons, List.length_cons]
      omega

/-- A query asks for at most 300 names. -/
theorem length_nameGroup {names : List String} (given : ∀ name ∈ names, name ≠ "") :
    ∀ g ∈ nameGroups names, g.length ≤ 300 := by
  intro g group
  obtain ⟨nonempty, short | ⟨name, rfl⟩⟩ := nameGroups_short names g group
  · have each : ∀ n ∈ g.map String.length, 1 ≤ n := by
      intro n member
      obtain ⟨name, inside, rfl⟩ := List.mem_map.mp member
      have some := given name (mem_of_mem_nameGroups group inside)
      exact Nat.one_le_iff_ne_zero.mpr fun zero => some (String.length_eq_zero_iff.mp zero)
    have total := List.length_le_sum_of_one_le _ each
    have size := length_joinBars nonempty
    simp only [cfNameQueryLimit, List.length_map] at short total
    omega
  · simp

theorem nameGroups_letters {names : List String} (letters : ∀ name ∈ names, name.length = 1)
    (few : names.length ≤ 300) (nonempty : names ≠ []) : nameGroups names = [names] := by
  refine Py.groups_whole nonempty ?_
  intro g name part some
  have inside : ∀ other ∈ g ++ [name], other.length = 1 :=
    fun other member => letters other (part.subset member)
  have lengths : (g.map String.length).sum = g.length := by
    rw [List.map_congr_left (g := fun _ => 1) fun other member => inside other (by simp [member])]
    simp
  have size := length_joinBars some
  have all := part.length_le
  rw [fits, decide_eq_true_iff, cfNameQueryLimit, inside name (by simp)]
  simp only [List.length_append, List.length_singleton] at all
  omega

end Room

/-- The names of the queries are those asked for, each of them once and in order, and a query is
longer than the limit only if it is a single name. -/
structure QueriesExactly (names : List String) : Prop where
  split : (nameQueries names).flatMap splitBars = names
  short : ∀ query ∈ nameQueries names, query.length ≤ cfNameQueryLimit ∨ query ∈ names

theorem queriesExactly {names : List String} (some : ∀ name ∈ names, name ≠ "")
    (plain : ∀ name ∈ names, '|' ∉ name.toList) : QueriesExactly names := by
  have each := nameGroups_short names
  have back : ∀ g ∈ nameGroups names, splitBars (joinBars g) = g := fun g group =>
    splitBars_joinBars (each g group).1
      fun name member => plain name (mem_of_mem_nameGroups group member)
  constructor
  · rw [nameQueries_eq some, List.flatMap_map, List.flatMap_congr back, List.flatMap_id']
    exact groups_flatten fits names
  · intro query member
    rw [nameQueries_eq some] at member
    obtain ⟨g, group, rfl⟩ := List.mem_map.mp member
    cases (each g group).2 with
    | inl short => exact Or.inl short
    | inr single =>
      obtain ⟨name, rfl⟩ := single
      right
      rw [joinBars, String.intercalate_singleton]
      exact mem_of_mem_nameGroups group List.mem_cons_self

/-- The stored channels that one of the names matches. -/
def asked (adapter : PyCFClientAdapter) (s : Store) (names : List String) : List CFChannel :=
  (storedChannels s).filter fun ch => names.any fun name => adapter.nameMatches name ch.name

/-- The service takes what stands between the bars of a query as alternatives. -/
def TakesAlternatives (nameMatches : String → String → Bool) : Prop :=
  ∀ names, names ≠ [] → (∀ name ∈ names, '|' ∉ name.toList) → ∀ stored,
    nameMatches (joinBars names) stored = names.any fun name => nameMatches name stored

/-- However the service orders its replies, the channels returned are those of all names. -/
def ReturnsAll (adapter : PyCFClientAdapter) (s : Store) (names : List String) : Prop :=
  ∀ env ch, ch ∈ adapter.findByNames env s names ↔ ch ∈ adapter.asked s names

/-- Each channel that is asked for is in a query that asks for no more channels than a reply may
have. -/
def FitsPages (adapter : PyCFClientAdapter) (s : Store) (names : List String) : Prop :=
  adapter.sizeLimit ≤ 0 ∨ ∀ ch ∈ adapter.asked s names, ∃ g ∈ nameGroups names,
    ch ∈ adapter.asked s g ∧ (adapter.asked s g).length ≤ adapter.sizeLimit

def lastInReplies (name : String) : Env where
  replyOrder l := l.filter (fun ch => !ch.name == name) ++ l.filter (fun ch => ch.name == name)
  replyOrder_perm l := by
    apply List.Perm.trans List.perm_append_comm
    exact List.filter_append_perm (fun ch => ch.name == name) l

section Replies

variable {adapter : PyCFClientAdapter} {s : Store} {names : List String}

theorem mem_asked {ch : CFChannel} : ch ∈ adapter.asked s names ↔
    ch ∈ storedChannels s ∧ ∃ name ∈ names, adapter.nameMatches name ch.name = true := by
  rw [asked, List.mem_filter, List.any_eq_true]

theorem asked_nodup (adapter : PyCFClientAdapter) (s : Store) (names : List String) :
    ((adapter.asked s names).map CFChannel.name).Nodup :=
  (storedChannels_nodup s).sublist (List.filter_sublist.map CFChannel.name)

theorem length_named_le_one (adapter : PyCFClientAdapter) (s : Store) (names : List String)
    (name : String) :
    ((adapter.asked s names).filter fun ch => ch.name == name).length ≤ 1 := by
  have once := List.nodup_iff_count_le_one.mp (asked_nodup adapter s names) name
  rwa [List.count, List.countP_map, List.countP_eq_length_filter] at once

/-- A reply that is too short leaves out the channel at its end. -/
theorem not_mem_find_last {ch : CFChannel} (positive : 0 < adapter.sizeLimit)
    (long : adapter.sizeLimit < (adapter.asked s names).length) :
    ch ∉ adapter.find (lastInReplies ch.name) (adapter.asked s names) := by
  intro member
  have last := length_named_le_one adapter s names ch.name
  have size := ((lastInReplies ch.name).replyOrder_perm (adapter.asked s names)).length_eq
  rw [lastInReplies, List.length_append] at size
  rw [find, if_pos positive, lastInReplies, List.take_append_of_le_length (by omega)] at member
  have other := (List.mem_filter.mp (List.mem_of_mem_take member)).2
  simp at other

section Service

variable (some : ∀ name ∈ names, name ≠ "") (plain : ∀ name ∈ names, '|' ∉ name.toList)
  (service : TakesAlternatives adapter.nameMatches)
include some plain service

/-- The replies to the queries are those for their names. -/
theorem findByNames_eq (env : Env) : adapter.findByNames env s names =
    (nameGroups names).flatMap fun g => adapter.find env (adapter.asked s g) := by
  rw [findByNames, nameQueries_eq some, List.flatMap_map]
  apply List.flatMap_congr
  intro g group
  have matching : ∀ ch : CFChannel, adapter.nameMatches (joinBars g) ch.name =
      g.any fun name => adapter.nameMatches name ch.name := fun ch =>
    service g (nameGroups_short names g group).1
      (fun name member => plain name (mem_of_mem_nameGroups group member)) ch.name
  simp only [matching]
  rfl

theorem returnsAll_iff : ReturnsAll adapter s names ↔ FitsPages adapter s names := by
  have replies := fun env => @findByNames_eq adapter s names some plain service env
  constructor
  · intro all
    by_cases unlimited : adapter.sizeLimit ≤ 0
    · exact Or.inl unlimited
    · right
      intro ch wanted
      -- the channel comes last in each reply, so that one of them is not cut off
      have member := (all (lastInReplies ch.name) ch).mpr wanted
      rw [replies] at member
      obtain ⟨g, group, found⟩ := List.mem_flatMap.mp member
      refine ⟨g, group, mem_find found, ?_⟩
      apply Int.not_lt.mp
      intro long
      exact not_mem_find_last (by omega) long found
  · intro pages env ch
    rw [replies, List.mem_flatMap]
    constructor
    · intro returned
      obtain ⟨g, group, found⟩ := returned
      obtain ⟨stored, name, member, matched⟩ := mem_asked.mp (mem_find found)
      exact mem_asked.mpr ⟨stored, name, mem_of_mem_nameGroups group member, matched⟩
    · intro wanted
      cases pages with
      | inl unlimited =>
        obtain ⟨stored, name, member, matched⟩ := mem_asked.mp wanted
        obtain ⟨g, group, inside⟩ := exists_nameGroup member
        exact ⟨g, group,
          mem_find_of_fits (Or.inl unlimited) (mem_asked.mpr ⟨stored, name, inside, matched⟩)⟩
      | inr few =>
        obtain ⟨g, group, here, short⟩ := few ch wanted
        exact ⟨g, group, mem_find_of_fits (Or.inr short) here⟩

end Service

/-- A name that a query can ask for: it is not empty and has neither the bar nor a wildcard. -/
structure PlainName (name : String) : Prop where
  some : name ≠ ""
  noBar : '|' ∉ name.toList
  noWildcard : '*' ∉ name.toList ∧ '?' ∉ name.toList

/-- The service takes such names as they are. -/
structure TakesNames (nameMatches : String → String → Bool) : Prop where
  alternatives : TakesAlternatives nameMatches
  exact : ∀ name, PlainName name → ∀ stored, nameMatches name stored = decide (stored = name)

section Plain

variable (plain : ∀ name ∈ names, PlainName name) (service : TakesNames adapter.nameMatches)
include plain service

theorem mem_asked_plain {ch : CFChannel} :
    ch ∈ adapter.asked s names ↔ s.get? ch.name = some ch.toCFEntry ∧ ch.name ∈ names := by
  rw [mem_asked, mem_storedChannels]
  apply and_congr_right
  intro _
  constructor
  · rintro ⟨name, member, taken⟩
    rw [service.exact name (plain name member), decide_eq_true_iff] at taken
    exact taken ▸ member
  · intro member
    exact ⟨_, member, by rw [service.exact _ (plain _ member)]; exact decide_eq_true rfl⟩

theorem length_asked_le : (adapter.asked s names).length ≤ names.length := by
  have part : (adapter.asked s names).map CFChannel.name ⊆ names := by
    intro name member
    obtain ⟨ch, inside, rfl⟩ := List.mem_map.mp member
    exact ((mem_asked_plain plain service).mp inside).2
  simpa using ((asked_nodup adapter s names).subperm part).length_le

/-- Pages of as many channels as a query has names are enough. -/
theorem mem_findByNames_of_pages
    (enough : adapter.sizeLimit ≤ 0 ∨ ∀ g ∈ nameGroups names, (g.length : Int) ≤ adapter.sizeLimit)
    (env : Env) (ch : CFChannel) : ch ∈ adapter.findByNames env s names ↔
      s.get? ch.name = some ch.toCFEntry ∧ ch.name ∈ names := by
  have given : ∀ name ∈ names, name ≠ "" := fun name member => (plain name member).some
  have pages : FitsPages adapter s names := by
    refine enough.imp id fun size ch wanted => ?_
    have stored := (mem_asked_plain plain service).mp wanted
    obtain ⟨g, group, inside⟩ := exists_nameGroup stored.2
    have plainGroup : ∀ name ∈ g, PlainName name :=
      fun name member => plain name (mem_of_mem_nameGroups group member)
    refine ⟨g, group, (mem_asked_plain plainGroup service).mpr ⟨stored.1, inside⟩, ?_⟩
    have few := @length_asked_le adapter s g plainGroup service
    have room := size g group
    omega
  have all := (returnsAll_iff given (fun name member => (plain name member).noBar)
    service.alternatives).mpr pages env ch
  exact all.trans (mem_asked_plain plain service)

/-- Pages of 300 channels are enough for every query. -/
theorem mem_findByNames_plain (enough : adapter.sizeLimit ≤ 0 ∨ 300 ≤ adapter.sizeLimit) (env : Env)
    (ch : CFChannel) : ch ∈ adapter.findByNames env s names ↔
      s.get? ch.name = some ch.toCFEntry ∧ ch.name ∈ names := by
  apply mem_findByNames_of_pages plain service
  refine enough.imp id fun size g group => ?_
  have most := length_nameGroup (fun name member => (plain name member).some) g group
  omega

end Plain

/-- A name alone asks for one channel. -/
theorem mem_findByNames_single (service : TakesNames adapter.nameMatches) {name : String}
    (plain : PlainName name) (positive : 0 < adapter.sizeLimit) (env : Env) (ch : CFChannel) :
    ch ∈ adapter.findByNames env s [name] ↔
      s.get? ch.name = some ch.toCFEntry ∧ ch.name ∈ [name] := by
  have all : ∀ other ∈ [name], PlainName other := by
    intro other member
    rwa [List.mem_singleton.mp member]
  apply mem_findByNames_of_pages all service
  refine Or.inr fun g group => ?_
  have one : nameGroups [name] = [[name]] := by
    simp [nameGroups, groups, addToGroup, closeGroup]
  rw [one, List.mem_singleton] at group
  rw [group, List.length_singleton]
  omega

/-- The replies to a single query fill one page at most. -/
theorem length_findByNames_le (service : TakesAlternatives adapter.nameMatches)
    (plain : ∀ name ∈ names, PlainName name) (one : nameGroups names = [names])
    (positive : 0 < adapter.sizeLimit) (env : Env) :
    ((adapter.findByNames env s names).length : Int) ≤ adapter.sizeLimit := by
  rw [findByNames_eq (fun name member => (plain name member).some)
    (fun name member => (plain name member).noBar) service, one, List.flatMap_singleton, find,
    if_pos positive, List.length_take]
  omega

end Replies

/-- The names are split without loss, and all channels come back exactly when each of them is in a
query that matches no more channels than the limit, if there is one. -/
theorem findByNames_whole_iff {adapter : PyCFClientAdapter} {s : Store} {names : List String}
    (some : ∀ name ∈ names, name ≠ "") (plain : ∀ name ∈ names, '|' ∉ name.toList)
    (service : TakesAlternatives adapter.nameMatches) :
    (QueriesExactly names ∧ ReturnsAll adapter s names) ↔ FitsPages adapter s names := by
  rw [returnsAll_iff some plain service]
  exact and_iff_right (queriesExactly some plain)

/-- A service that takes names as they are. -/
def exactNames (query stored : String) : Bool := decide (stored ∈ splitBars query)

theorem takesAlternatives_exactNames : TakesAlternatives exactNames := by
  intro names some plain stored
  have each : ∀ name ∈ names, exactNames name stored = decide (stored = name) := by
    intro name member
    have single := @splitBars_joinBars [name] (by simp)
      (fun other here => by rw [List.mem_singleton.mp here]; exact plain name member)
    rw [joinBars, String.intercalate_singleton] at single
    rw [exactNames, single]
    simp
  rw [exactNames, splitBars_joinBars some plain, Bool.eq_iff_iff, decide_eq_true_iff,
    List.any_eq_true]
  constructor
  · intro member
    exact ⟨stored, member, by rw [each stored member]; exact decide_eq_true rfl⟩
  · intro found
    obtain ⟨name, member, same⟩ := found
    rw [each name member, decide_eq_true_iff] at same
    rwa [same]

theorem takesNames_exactNames : TakesNames exactNames where
  alternatives := takesAlternatives_exactNames
  exact name plain stored := by
    have single := @splitBars_joinBars [name] (by simp)
      (fun other here => by rw [List.mem_singleton.mp here]; exact plain.noBar)
    rw [joinBars, String.intercalate_singleton] at single
    rw [exactNames, single]
    simp

/-- Two stored channels. -/
def pumps : Store := (Py.Dict.set ∅ "P:1" ⟨"", []⟩).set "P:2" ⟨"", []⟩

/-- A limit of two channels is enough for two names. -/
theorem findByNames_whole_two :
    QueriesExactly ["P:1", "P:2"] ∧ ReturnsAll ⟨2, exactNames⟩ pumps ["P:1", "P:2"] := by
  refine (findByNames_whole_iff (by decide) (by decide) takesAlternatives_exactNames).mpr ?_
  exact Or.inr (by decide +kernel)

/-- With a limit of one channel only one of the two comes back. -/
theorem not_returnsAll_two : ¬ ∀ (adapter : PyCFClientAdapter) (s : Store) (names : List String),
    (∀ name ∈ names, name ≠ "") → (∀ name ∈ names, '|' ∉ name.toList) →
      TakesAlternatives adapter.nameMatches →
        QueriesExactly names ∧ ReturnsAll adapter s names := by
  intro all
  have both := (all ⟨1, exactNames⟩ pumps ["P:1", "P:2"] (by decide) (by decide)
    takesAlternatives_exactNames).2 {} ⟨⟨"", []⟩, "P:2"⟩
  have stored : (⟨⟨"", []⟩, "P:2"⟩ : CFChannel) ∈
      asked ⟨1, exactNames⟩ pumps ["P:1", "P:2"] := by decide +kernel
  have missing : (⟨⟨"", []⟩, "P:2"⟩ : CFChannel) ∉
      findByNames ⟨1, exactNames⟩ {} pumps ["P:1", "P:2"] := by decide +kernel
  exact missing (both.mpr stored)

end PyCFClientAdapter

/-- The batches are all of the channels, and none is longer than a positive limit. -/
def WritesAll (cfg : CFConfig) (channels : List CFChannel) : Prop :=
  ∃ bs, cfSetChunked cfg channels = .ok bs ∧ bs.flatten = channels ∧
    (0 < cfg.cfQueryLimit → ∀ batch ∈ bs, (batch.length : Int) ≤ cfg.cfQueryLimit)

/-- All channels are written exactly when the limit is positive, or negative and there is nothing to
write. -/
theorem cfSetChunked_whole_iff (cfg : CFConfig) (channels : List CFChannel) :
    WritesAll cfg channels ↔ 0 < cfg.cfQueryLimit ∨ cfg.cfQueryLimit < 0 ∧ channels = [] := by
  constructor
  · intro writes
    obtain ⟨bs, written, all, -⟩ := writes
    rw [cfSetChunked] at written
    split at written
    · cases written
    · next nonzero =>
      split at written
      · next negative =>
        cases written
        exact Or.inr ⟨negative, all.symm⟩
      · left
        omega
  · intro condition
    cases condition with
    | inl positive =>
      have size : 0 < cfg.cfQueryLimit.toNat := by omega
      refine ⟨Py.chunks cfg.cfQueryLimit.toNat channels, ?_, Py.chunks_flatten size channels, ?_⟩
      · rw [cfSetChunked, if_neg (by omega), if_neg (by omega)]
      · intro _ batch member
        have short := Py.length_le_of_mem_chunks member
        omega
    | inr nothing =>
      obtain ⟨negative, empty⟩ := nothing
      refine ⟨[], ?_, empty.symm, fun positive => by omega⟩
      rw [cfSetChunked, if_neg (by omega), if_pos negative]

/-- A limit of zero raises an error, one of minus one writes nothing. -/
theorem not_writesAll :
    cfSetChunked { recceiverId := "rc", cfQueryLimit := 0 } [⟨⟨"", []⟩, "P:1"⟩] =
        .error .valueError ∧
      cfSetChunked { recceiverId := "rc", cfQueryLimit := -1 } [⟨⟨"", []⟩, "P:1"⟩] = .ok [] ∧
      ¬ ∀ cfg channels, WritesAll cfg channels := by
  refine ⟨rfl, rfl, fun all => ?_⟩
  obtain ⟨bs, written, -, -⟩ := all { recceiverId := "rc", cfQueryLimit := 0 } []
  cases written

end Recsync.Cf
