import Recsync.Cf.Model

set_option autoImplicit false

namespace Recsync.Cf

/-- ChannelFinder as the processor sees it: a map from channel names to entries. -/
abbrev Store := Py.Dict String CFEntry

def storedChannels (s : Store) : List CFChannel :=
  s.entries.map fun e => { e.2 with name := e.1 }

/-- `find_by_ioc_id`: every channel listed under the iocid, in any order. -/
def findByIocId (env : Env) (s : Store) (iocid : String) : List CFChannel :=
  env.replyOrder ((storedChannels s).filter fun ch => decide (ch.toCFEntry.has .iocId iocid))

def findByNames (env : Env) (s : Store) (names : List String) : List CFChannel :=
  env.replyOrder ((storedChannels s).filter fun ch => decide (ch.name ∈ names))

/-- `set_channels`: creates or overwrites by name. -/
def setChannels (s : Store) (channels : List CFChannel) : Store :=
  channels.foldl (fun s ch => s.set ch.name ch.toCFEntry) s

theorem mem_storedChannels (s : Store) (ch : CFChannel) :
    ch ∈ storedChannels s ↔ s.get? ch.name = some ch.toCFEntry := by
  rw [Py.Dict.get?_eq_some_iff]
  constructor
  · intro member
    obtain ⟨e, inside, rfl⟩ := List.mem_map.mp member
    exact inside
  · intro inside
    exact List.mem_map.mpr ⟨(ch.name, ch.toCFEntry), inside, rfl⟩

theorem storedChannels_nodup (s : Store) : ((storedChannels s).map CFChannel.name).Nodup := by
  have names : (storedChannels s).map CFChannel.name = s.keys := by
    simp [storedChannels, Py.Dict.keys]
  rw [names]
  exact s.keys_nodup

theorem mem_findByIocId (env : Env) (s : Store) (iocid : String) (ch : CFChannel) :
    ch ∈ findByIocId env s iocid ↔
      s.get? ch.name = some ch.toCFEntry ∧ ch.toCFEntry.has .iocId iocid := by
  rw [findByIocId, (env.replyOrder_perm _).mem_iff, List.mem_filter, mem_storedChannels,
    decide_eq_true_iff]

theorem findByIocId_nodup (env : Env) (s : Store) (iocid : String) :
    ((findByIocId env s iocid).map CFChannel.name).Nodup := by
  rw [findByIocId, ((env.replyOrder_perm _).map CFChannel.name).nodup_iff]
  exact (storedChannels_nodup s).sublist (List.filter_sublist.map CFChannel.name)

theorem mem_findByNames (env : Env) (s : Store) (names : List String) (ch : CFChannel) :
    ch ∈ findByNames env s names ↔ s.get? ch.name = some ch.toCFEntry ∧ ch.name ∈ names := by
  rw [findByNames, (env.replyOrder_perm _).mem_iff, List.mem_filter, mem_storedChannels,
    decide_eq_true_iff]

@[simp] theorem setChannels_nil (s : Store) : setChannels s [] = s := rfl

@[simp] theorem setChannels_cons (s : Store) (ch : CFChannel) (rest : List CFChannel) :
    setChannels s (ch :: rest) = setChannels (s.set ch.name ch.toCFEntry) rest := rfl

theorem setChannels_append (s : Store) (first second : List CFChannel) :
    setChannels s (first ++ second) = setChannels (setChannels s first) second :=
  List.foldl_append

theorem get?_setChannels_of_not_mem (s : Store) {channels : List CFChannel} {n : String}
    (untouched : ∀ ch ∈ channels, ch.name ≠ n) : (setChannels s channels).get? n = s.get? n := by
  induction channels generalizing s with
  | nil => rfl
  | cons ch rest ih =>
    rw [setChannels_cons, ih _ (fun other member => untouched other (by simp [member])),
      Py.Dict.get?_set_ne]
    exact fun same => untouched ch (by simp) same.symm

/-- A written name holds one of the channels that were written under it. -/
theorem get?_setChannels_of_mem (s : Store) {channels : List CFChannel} {n : String}
    (written : n ∈ channels.map CFChannel.name) :
    ∃ ch ∈ channels, ch.name = n ∧ (setChannels s channels).get? n = some ch.toCFEntry := by
  induction channels generalizing s with
  | nil => cases written
  | cons ch rest ih =>
    rw [setChannels_cons]
    by_cases later : n ∈ rest.map CFChannel.name
    · obtain ⟨last, member, name, found⟩ := ih (s.set ch.name ch.toCFEntry) later
      exact ⟨last, by simp [member], name, found⟩
    · have here : ch.name = n := by
        rcases List.mem_cons.mp written with same | member
        · exact same.symm
        · exact absurd member later
      refine ⟨ch, by simp, here, ?_⟩
      rw [get?_setChannels_of_not_mem _ (fun other member same =>
        later (List.mem_map.mpr ⟨other, member, same⟩)), here, Py.Dict.get?_set_self]

/-- What holds of the old entry and of every channel written under the name holds of
the entry after the write. -/
theorem get?_setChannels_cases (s : Store) (channels : List CFChannel) (n : String) :
    (setChannels s channels).get? n = s.get? n ∧ (∀ ch ∈ channels, ch.name ≠ n) ∨
      ∃ ch ∈ channels, ch.name = n ∧ (setChannels s channels).get? n = some ch.toCFEntry := by
  by_cases written : n ∈ channels.map CFChannel.name
  · exact Or.inr (get?_setChannels_of_mem s written)
  · have untouched : ∀ ch ∈ channels, ch.name ≠ n :=
      fun ch member same => written (List.mem_map.mpr ⟨ch, member, same⟩)
    exact Or.inl ⟨get?_setChannels_of_not_mem s untouched, untouched⟩

end Recsync.Cf
