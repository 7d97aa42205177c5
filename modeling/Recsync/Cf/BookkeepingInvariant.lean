import Recsync.Cf.Bookkeeping
import Recsync.Lib.Ownership

set_option autoImplicit false

namespace Recsync.Cf

open Py (Program)
open Ownership (arrive mem_arrive arrive_nodup)

namespace Processor

@[simp] theorem ids_setIds (p : Processor) (k key : Key) (l : Option (List String)) :
    (p.setIds k l).ids key = if key = k then l.getD [] else p.ids key := by
  by_cases same : key = k <;> simp [ids, setIds, same]

@[simp] theorem ids_setIoc (p : Processor) (i : String) (info : Option IOCInfo) (k : Key) :
    (p.setIoc i info).ids k = p.ids k := rfl

@[simp] theorem ids_setChannels (p : Processor) (i : String) (names : Option (Py.Set String))
    (k : Key) : (p.setChannels i names).ids k = p.ids k := rfl

@[simp] theorem channels_setChannels (p : Processor) (i j : String)
    (names : Option (Py.Set String)) :
    (p.setChannels i names).channels j = if j = i then names.getD ∅ else p.channels j := by
  by_cases same : j = i <;> simp [channels, setChannels, same]

@[simp] theorem channels_setIds (p : Processor) (k : Key) (l : Option (List String)) (j : String) :
    (p.setIds k l).channels j = p.channels j := rfl

@[simp] theorem channels_setIoc (p : Processor) (i : String) (info : Option IOCInfo) (j : String) :
    (p.setIoc i info).channels j = p.channels j := rfl

@[simp] theorem iocs_setIoc (p : Processor) (i j : String) (info : Option IOCInfo) :
    (p.setIoc i info).iocs j = if j = i then info else p.iocs j := by
  simp [setIoc, Function.update_apply]

@[simp] theorem iocs_setIds (p : Processor) (k : Key) (l : Option (List String)) (j : String) :
    (p.setIds k l).iocs j = p.iocs j := rfl

@[simp] theorem iocs_setChannels (p : Processor) (i j : String) (names : Option (Py.Set String)) :
    (p.setChannels i names).iocs j = p.iocs j := rfl

@[simp] theorem channelIocIds_setIds (p : Processor) (k key : Key) (l : Option (List String)) :
    (p.setIds k l).channelIocIds key = if key = k then l else p.channelIocIds key := by
  simp [setIds, Function.update_apply]

@[simp] theorem channelIocIds_setIoc (p : Processor) (i : String) (info : Option IOCInfo)
    (k : Key) : (p.setIoc i info).channelIocIds k = p.channelIocIds k := rfl

@[simp] theorem channelIocIds_setChannels (p : Processor) (i : String)
    (names : Option (Py.Set String)) (k : Key) :
    (p.setChannels i names).channelIocIds k = p.channelIocIds k := rfl

theorem channelIocIds_of_mem {p : Processor} {k : Key} {i : String} (member : i ∈ p.ids k) :
    p.channelIocIds k = some (p.ids k) := by
  unfold ids at *
  cases found : p.channelIocIds k with
  | none => simp [found] at member
  | some l => rfl

/-- Looking a key up in the default dictionary changes nothing when it is present. -/
theorem setIds_self {p : Processor} {k : Key} {i : String} (member : i ∈ p.ids k) :
    p.setIds k (some (p.ids k)) = p := by
  unfold setIds
  rw [← channelIocIds_of_mem member, Function.update_eq_self]

/-- The state after `registerChannel` for an IOC that is registered with `info`. -/
def track (p : Processor) (iocid name : String) (info : IOCInfo) : Processor :=
  ((p.setIds (.name name) (some (arrive iocid (p.ids (.name name))))).setIoc iocid
    (some { info with channelcount :=
      info.channelcount + if iocid ∈ p.ids (.name name) then 0 else 1 })).setChannels iocid
    (some ((p.channels iocid).add name))

/-- An entry is dropped together with its last iocid. -/
def dropEmpty (l : List String) : Option (List String) := if l = [] then none else some l

@[simp] theorem dropEmpty_getD (l : List String) : (dropEmpty l).getD [] = l := by
  unfold dropEmpty
  split
  · rename_i empty
    simp [empty]
  · rfl

theorem dropEmpty_ne (l : List String) : dropEmpty l ≠ some [] := by
  unfold dropEmpty
  split
  · simp
  · rename_i present
    simpa using present

/-- The IOC entry after a decrement; it is dropped when no channel is left. -/
def countDown (info : IOCInfo) : Option IOCInfo :=
  if info.channelcount - 1 ≤ 0 then none
  else some { info with channelcount := info.channelcount - 1 }

def negativeCount (iocid : String) (info : IOCInfo) : List String :=
  if info.channelcount - 1 < 0 then ["Channel count negative: " ++ iocid] else []

/-- The state after `remove_channel` of a tracked name. -/
def untrack (p : Processor) (iocid name : String) : Processor :=
  { p with
    channelIocIds := Function.update p.channelIocIds (.name name)
      (dropEmpty ((p.ids (.name name)).erase iocid))
    iocChannels := Function.update p.iocChannels iocid (some ((p.channels iocid).discard name))
    iocs := Function.update p.iocs iocid ((p.iocs iocid).bind countDown)
    errorLog := p.errorLog ++ ((p.iocs iocid).map (negativeCount iocid)).getD [] }

end Processor

theorem registerChannel_eq {p : Processor} {iocid : String} {info : IOCInfo}
    (known : p.iocs iocid = some info) (name : String) :
    registerChannel iocid name p = .ok ⟨⟩ (p.track iocid name info) := by
  unfold registerChannel Processor.track arrive
  by_cases tracked : iocid ∈ p.ids (.name name)
  · have same : p.setIoc iocid (some info) = p := by
      unfold Processor.setIoc
      rw [← known, Function.update_eq_self]
    simp [tracked, Processor.setIds_self tracked, same]
  · simp [tracked, known]

theorem removeChannel_eq {p : Processor} {iocid name : String}
    (tracked : iocid ∈ p.ids (.name name)) :
    removeChannel (.name name) iocid p = .ok ⟨⟩ (p.untrack iocid name) := by
  simp only [removeChannel, Processor.untrack, tracked, not_true_eq_false, if_false,
    Processor.iocs_setChannels, Processor.iocs_setIds]
  cases found : p.iocs iocid with
  | none =>
    have same : Function.update p.iocs iocid none = p.iocs := by
      rw [← found, Function.update_eq_self]
    simp [Processor.setIds, Processor.setChannels, Processor.dropEmpty, same]
  | some info =>
    by_cases negative : info.channelcount - 1 < 0 <;>
      simp only [Processor.setIds, Processor.setChannels, Processor.setIoc, Processor.logError,
        Processor.dropEmpty, Processor.countDown, Processor.negativeCount, negative, if_true,
        if_false, Option.bind_some, Option.map_some, Option.getD_some, List.append_nil]

/-- The name maps mirror each other, whatever the counters say. -/
structure Tracking (p : Processor) : Prop where
  nonempty : ∀ n, p.channelIocIds (.name n) ≠ some []
  nodup : ∀ n, (p.ids (.name n)).Nodup
  linked : ∀ n i, i ∈ p.ids (.name n) ↔ n ∈ p.channels i
  idle : ∀ r, p.ids (.id r) = []

/-- The counters agree with the channel sets. -/
structure Counted (p : Processor) : Prop where
  registered : ∀ i, p.channels i ≠ ∅ → (p.iocs i).isSome
  counted : ∀ i info, p.iocs i = some info → info.channelcount = (p.channels i).size

structure Consistent (p : Processor) : Prop where
  lists : ∀ k l, p.channelIocIds k = some l → l ≠ [] ∧ l.Nodup
  linked : ∀ k i, i ∈ p.ids k ↔ ∃ n, k = .name n ∧ n ∈ p.channels i
  registered : ∀ i, p.channels i ≠ ∅ → (p.iocs i).isSome
  counted : ∀ i info, p.iocs i = some info → info.channelcount = (p.channels i).size

theorem Processor.ids_eq_nil_iff {p : Processor} {k : Key}
    (nonempty : p.channelIocIds k ≠ some []) :
    p.ids k = [] ↔ p.channelIocIds k = none := by
  unfold ids
  cases found : p.channelIocIds k with
  | none => simp
  | some l =>
    rw [found] at nonempty
    simpa using nonempty

theorem consistent_iff (p : Processor) :
    Consistent p ↔ Tracking p ∧ Counted p ∧ ∀ r, p.channelIocIds (.id r) = none := by
  constructor
  · intro ok
    have nonempty : ∀ k, p.channelIocIds k ≠ some [] := fun k found => (ok.lists k [] found).1 rfl
    have idle : ∀ r, p.ids (.id r) = [] := by
      intro r
      apply List.eq_nil_iff_forall_not_mem.mpr
      intro i member
      obtain ⟨n, impossible, _⟩ := (ok.linked (.id r) i).mp member
      cases impossible
    refine ⟨⟨fun n => nonempty _, ?_, ?_, idle⟩, ⟨ok.registered, ok.counted⟩, ?_⟩
    · intro n
      unfold Processor.ids
      cases found : p.channelIocIds (.name n) with
      | none => simp
      | some l => exact (ok.lists _ l found).2
    · intro n i
      rw [ok.linked]
      simp
    · intro r
      exact (Processor.ids_eq_nil_iff (nonempty _)).mp (idle r)
  · rintro ⟨tracking, counted, absent⟩
    refine ⟨?_, ?_, counted.registered, counted.counted⟩
    · intro k l found
      cases k with
      | name n =>
        have nodup := tracking.nodup n
        simp only [Processor.ids, found, Option.getD_some] at nodup
        exact ⟨fun empty => tracking.nonempty n (empty ▸ found), nodup⟩
      | id r => simp [absent r] at found
    · intro k i
      cases k with
      | name n => simpa using tracking.linked n i
      | id r => simp [tracking.idle r]

namespace Processor

theorem ids_track (p : Processor) (i n : String) (info : IOCInfo) (k : Key) :
    (p.track i n info).ids k = if k = .name n then arrive i (p.ids k) else p.ids k := by
  by_cases same : k = .name n <;> simp [track, same]

theorem channelIocIds_track (p : Processor) (i n : String) (info : IOCInfo) (k : Key) :
    (p.track i n info).channelIocIds k =
      if k = .name n then some (arrive i (p.ids k)) else p.channelIocIds k := by
  by_cases same : k = .name n <;> simp [track, same]

theorem channels_track (p : Processor) (i n : String) (info : IOCInfo) (j : String) :
    (p.track i n info).channels j = if j = i then (p.channels i).add n else p.channels j := by
  simp [track]

theorem iocs_track (p : Processor) (i n : String) (info : IOCInfo) (j : String) :
    (p.track i n info).iocs j = if j = i then some { info with channelcount :=
      info.channelcount + (if i ∈ p.ids (.name n) then 0 else 1) } else p.iocs j := by
  simp [track]

theorem channelIocIds_untrack (p : Processor) (i n : String) (k : Key) :
    (p.untrack i n).channelIocIds k =
      if k = .name n then dropEmpty ((p.ids k).erase i) else p.channelIocIds k := by
  by_cases same : k = .name n <;> simp [untrack, same]

theorem ids_untrack (p : Processor) (i n : String) (k : Key) :
    (p.untrack i n).ids k = if k = .name n then (p.ids k).erase i else p.ids k := by
  by_cases same : k = .name n <;> simp [ids, channelIocIds_untrack, same]

theorem channels_untrack (p : Processor) (i n : String) (j : String) :
    (p.untrack i n).channels j = if j = i then (p.channels i).discard n else p.channels j := by
  by_cases same : j = i <;> simp [untrack, channels, same]

theorem iocs_untrack (p : Processor) (i n : String) (j : String) :
    (p.untrack i n).iocs j = if j = i then (p.iocs i).bind countDown else p.iocs j := by
  simp [untrack, Function.update_apply]

end Processor

theorem Tracking.track {p : Processor} (tracking : Tracking p) (i n : String) (info : IOCInfo) :
    Tracking (p.track i n info) := by
  refine ⟨?_, ?_, ?_, ?_⟩
  · intro name
    rw [Processor.channelIocIds_track]
    split
    · have member := mem_arrive.mpr (Or.inl rfl : i = i ∨ i ∈ p.ids (.name name))
      intro empty
      rw [Option.some.inj empty] at member
      cases member
    · exact tracking.nonempty name
  · intro name
    rw [Processor.ids_track]
    split
    · exact arrive_nodup (tracking.nodup name)
    · exact tracking.nodup name
  · intro name j
    have linked := tracking.linked name j
    rw [Processor.ids_track, Processor.channels_track]
    by_cases sameName : name = n <;> by_cases sameIoc : j = i <;>
      simp_all [mem_arrive]
  · intro r
    rw [Processor.ids_track, if_neg (by simp)]
    exact tracking.idle r

theorem Tracking.untrack {p : Processor} (tracking : Tracking p) (i n : String) :
    Tracking (p.untrack i n) := by
  refine ⟨?_, ?_, ?_, ?_⟩
  · intro name
    rw [Processor.channelIocIds_untrack]
    split
    · exact Processor.dropEmpty_ne _
    · exact tracking.nonempty name
  · intro name
    rw [Processor.ids_untrack]
    split
    · exact (tracking.nodup name).erase i
    · exact tracking.nodup name
  · intro name j
    have linked := tracking.linked name j
    rw [Processor.ids_untrack, Processor.channels_untrack]
    by_cases sameName : name = n <;> by_cases sameIoc : j = i <;>
      simp_all [(tracking.nodup _).mem_erase_iff]
  · intro r
    rw [Processor.ids_untrack, if_neg (by simp)]
    exact tracking.idle r

theorem Counted.track {p : Processor} (tracking : Tracking p) (counted : Counted p) {i : String}
    {info : IOCInfo} (known : p.iocs i = some info) (n : String) :
    Counted (p.track i n info) := by
  refine ⟨?_, ?_⟩
  · intro j present
    rw [Processor.channels_track] at present
    rw [Processor.iocs_track]
    split
    · rfl
    · rename_i other
      rw [if_neg other] at present
      exact counted.registered j present
  · intro j entry found
    rw [Processor.iocs_track] at found
    rw [Processor.channels_track]
    split at found
    · rename_i same
      have size := counted.counted i info known
      rw [if_pos same, ← Option.some.inj found]
      by_cases member : i ∈ p.ids (.name n)
      · rw [Py.Set.add_of_mem ((tracking.linked n i).mp member)]
        simpa [member] using size
      · rw [Py.Set.size_add (fun inside => member ((tracking.linked n i).mpr inside))]
        simp [member, size]
    · rename_i other
      rw [if_neg other]
      exact counted.counted j entry found

theorem Counted.untrack {p : Processor} (tracking : Tracking p) (counted : Counted p)
    {i n : String} (tracked : i ∈ p.ids (.name n)) : Counted (p.untrack i n) := by
  have member := (tracking.linked n i).mp tracked
  have smaller := Py.Set.size_discard member
  refine ⟨?_, ?_⟩
  · intro j present
    rw [Processor.channels_untrack] at present
    rw [Processor.iocs_untrack]
    split
    · rename_i same
      rw [if_pos same] at present
      obtain ⟨info, known⟩ := Option.isSome_iff_exists.mp
        (counted.registered i fun empty => by simp [empty] at member)
      have size := counted.counted i info known
      have left : (p.channels i).discard n ≠ ∅ → ((p.channels i).discard n).size ≠ 0 :=
        fun some none => some (Py.Set.eq_empty_of_size none)
      have positive := left present
      have more : ¬ info.channelcount - 1 ≤ 0 := by omega
      simp [known, Processor.countDown, more]
    · rename_i other
      rw [if_neg other] at present
      exact counted.registered j present
  · intro j entry found
    rw [Processor.iocs_untrack] at found
    rw [Processor.channels_untrack]
    split at found
    · rename_i same
      rw [if_pos same]
      obtain ⟨info, known, after⟩ := Option.bind_eq_some_iff.mp found
      have size := counted.counted i info known
      unfold Processor.countDown at after
      split at after
      · cases after
      · rw [← Option.some.inj after]
        dsimp only
        omega
    · rename_i other
      rw [if_neg other]
      exact counted.counted j entry found

/-- With the counters right, the decrement never goes below zero. -/
theorem Counted.errorLog_untrack {p : Processor} (tracking : Tracking p) (counted : Counted p)
    {i n : String} (tracked : i ∈ p.ids (.name n)) : (p.untrack i n).errorLog = p.errorLog := by
  have positive := Py.Set.size_pos_of_mem ((tracking.linked n i).mp tracked)
  cases found : p.iocs i with
  | none => simp [Processor.untrack, found]
  | some info =>
    have size := counted.counted i info found
    have enough : ¬ info.channelcount - 1 < 0 := by omega
    simp only [Processor.untrack, found, Processor.negativeCount, enough, if_false,
      Option.map_some, Option.getD_some, List.append_nil]

end Recsync.Cf
