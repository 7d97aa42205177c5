import Recsync.Cf.Store

set_option autoImplicit false

namespace Recsync.Cf

/-- The queries of the protocol `ChannelFinderAdapter` that a commit makes. They return stored
channels, `find_by_ioc_id` some of those that are listed under the iocid and none of them twice. -/
structure ChannelFinderAdapter where
  findByIocId : Env → Store → String → List CFChannel
  findByNames : Env → Store → List String → List CFChannel
  findByIocId_listed : ∀ env s iocid, ∀ ch ∈ findByIocId env s iocid,
    s.get? ch.name = some ch.toCFEntry ∧ ch.toCFEntry.has .iocId iocid
  findByIocId_nodup : ∀ env s iocid, ((findByIocId env s iocid).map CFChannel.name).Nodup
  findByNames_stored : ∀ env s names, ∀ ch ∈ findByNames env s names,
    s.get? ch.name = some ch.toCFEntry

/-- An adapter that does what the docstrings say. -/
def documented : ChannelFinderAdapter where
  findByIocId := Cf.findByIocId
  findByNames := Cf.findByNames
  findByIocId_listed env s iocid ch member := (mem_findByIocId env s iocid ch).mp member
  findByIocId_nodup := Cf.findByIocId_nodup
  findByNames_stored env s names ch member := ((mem_findByNames env s names ch).mp member).1

@[simp] theorem documented_findByIocId (env : Env) (s : Store) (iocid : String) :
    documented.findByIocId env s iocid = Cf.findByIocId env s iocid := rfl

@[simp] theorem documented_findByNames (env : Env) (s : Store) (names : List String) :
    documented.findByNames env s names = Cf.findByNames env s names := rfl

def ChannelFinderAdapter.FindsListed (client : ChannelFinderAdapter) (env : Env) (s : Store)
    (iocid : String) : Prop :=
  ∀ n e, s.get? n = some e → e.has .iocId iocid →
    { e with name := n } ∈ client.findByIocId env s iocid

theorem documented_findsListed (env : Env) (s : Store) (iocid : String) :
    documented.FindsListed env s iocid :=
  fun _ _ stored listed => (mem_findByIocId env s iocid _).mpr ⟨stored, listed⟩

/-- `PyCFClientAdapter`, with the match of `~name` that the service does. -/
structure PyCFClientAdapter where
  sizeLimit : Int
  nameMatches : String → String → Bool

/-- The adapter that `startService` builds. -/
def CFConfig.adapter (cfg : CFConfig) (nameMatches : String → String → Bool) : PyCFClientAdapter :=
  ⟨cfg.cfQueryLimit, nameMatches⟩

namespace PyCFClientAdapter

def cfNameQueryLimit : Nat := 600

/-- A turn of the loop of `find_by_names`: the chunks so far and the buffer. -/
def addName (st : List String × String) (name : String) : List String × String :=
  if st.2 = "" then (st.1, name)
  else if st.2.length + name.length < cfNameQueryLimit then (st.1, st.2 ++ "|" ++ name)
  else (st.1 ++ [st.2], name)

def nameQueries (names : List String) : List String :=
  let st := names.foldl addName ([], "")
  if st.2 = "" then st.1 else st.1 ++ [st.2]

/-- What holds of the names, and of two of them with a bar between, holds of the chunks. -/
theorem nameQueries_all {Q : String → Prop} {names : List String} (each : ∀ n ∈ names, Q n)
    (join : ∀ a b, Q a → Q b → Q (a ++ "|" ++ b)) : ∀ chunk ∈ nameQueries names, Q chunk := by
  have turn : ∀ st : List String × String, ((∀ chunk ∈ st.1, Q chunk) ∧ (st.2 = "" ∨ Q st.2)) →
      ∀ name, Q name → (∀ chunk ∈ (addName st name).1, Q chunk) ∧
        ((addName st name).2 = "" ∨ Q (addName st name).2) := by
    rintro ⟨chunks, buffer⟩ ⟨before, pending⟩ name own
    unfold addName
    split
    · exact ⟨before, Or.inr own⟩
    · next filled =>
      have here := pending.resolve_left filled
      split
      · exact ⟨before, Or.inr (join buffer name here own)⟩
      · exact ⟨List.forall_mem_append.mpr ⟨before, by simpa using here⟩, Or.inr own⟩
  have all : ∀ (rest : List String) (st : List String × String), (∀ n ∈ rest, Q n) →
      ((∀ chunk ∈ st.1, Q chunk) ∧ (st.2 = "" ∨ Q st.2)) →
      (∀ chunk ∈ (rest.foldl addName st).1, Q chunk) ∧
        ((rest.foldl addName st).2 = "" ∨ Q (rest.foldl addName st).2) := by
    intro rest
    induction rest with
    | nil => exact fun st _ inv => inv
    | cons name rest ih =>
      intro st own inv
      rw [List.forall_mem_cons] at own
      exact ih (addName st name) own.2 (turn st inv name own.1)
  obtain ⟨done, pending⟩ := all names ([], "") each ⟨by simp, Or.inl rfl⟩
  intro chunk member
  unfold nameQueries at member
  dsimp only at member
  split at member
  · exact done chunk member
  · next filled =>
    rcases List.mem_append.mp member with before | last
    · exact done chunk before
    · rw [List.mem_singleton.mp last]
      exact pending.resolve_left filled

section Find

variable (adapter : PyCFClientAdapter) (env : Env) (s : Store)

/-- `_find`: with `~size` the service returns that many of the matching channels. -/
def find (matching : List CFChannel) : List CFChannel :=
  if 0 < adapter.sizeLimit then (env.replyOrder matching).take adapter.sizeLimit.toNat
  else env.replyOrder matching

def findByIocId (iocid : String) : List CFChannel :=
  adapter.find env ((storedChannels s).filter fun ch => decide (ch.toCFEntry.has .iocId iocid))

def findByNames (names : List String) : List CFChannel :=
  (nameQueries names).flatMap fun chunk =>
    adapter.find env ((storedChannels s).filter fun ch => adapter.nameMatches chunk ch.name)

end Find

/-- The channels that CF lists under an iocid. -/
def listed (s : Store) (iocid : String) : List CFChannel :=
  (storedChannels s).filter fun ch => decide (ch.toCFEntry.has .iocId iocid)

variable {adapter : PyCFClientAdapter} {env : Env} {s : Store}

theorem find_sublist (adapter : PyCFClientAdapter) (env : Env) (matching : List CFChannel) :
    (adapter.find env matching).Sublist (env.replyOrder matching) := by
  rw [find]
  split
  · exact List.take_sublist _ _
  · exact List.Sublist.refl _

theorem mem_find {matching : List CFChannel} {ch : CFChannel}
    (member : ch ∈ adapter.find env matching) : ch ∈ matching :=
  (env.replyOrder_perm matching).mem_iff.mp ((find_sublist adapter env matching).subset member)

/-- A page that is long enough holds everything. -/
theorem find_whole {matching : List CFChannel}
    (fits : adapter.sizeLimit ≤ 0 ∨ (matching.length : Int) ≤ adapter.sizeLimit) :
    adapter.find env matching = env.replyOrder matching := by
  have size := (env.replyOrder_perm matching).length_eq
  rw [find]
  split
  · exact List.take_of_length_le (by omega)
  · rfl

theorem mem_find_of_fits {matching : List CFChannel} {ch : CFChannel}
    (fits : adapter.sizeLimit ≤ 0 ∨ (matching.length : Int) ≤ adapter.sizeLimit)
    (member : ch ∈ matching) : ch ∈ adapter.find env matching := by
  rw [find_whole fits]
  exact (env.replyOrder_perm matching).mem_iff.mpr member

theorem mem_listed {iocid : String} {ch : CFChannel} :
    ch ∈ listed s iocid ↔ s.get? ch.name = some ch.toCFEntry ∧ ch.toCFEntry.has .iocId iocid := by
  rw [listed, List.mem_filter, mem_storedChannels, decide_eq_true_iff]

theorem listed_nodup (s : Store) (iocid : String) :
    ((listed s iocid).map CFChannel.name).Nodup :=
  (storedChannels_nodup s).sublist (List.filter_sublist.map CFChannel.name)

theorem findByIocId_whole {iocid : String} (enough : (listed s iocid).length ≤ adapter.sizeLimit) :
    adapter.findByIocId env s iocid = Cf.findByIocId env s iocid :=
  find_whole (Or.inr enough)

theorem findByNames_nil : adapter.findByNames env s [] = Cf.findByNames env s [] := by
  have nothing : env.replyOrder [] = [] := List.perm_nil.mp (env.replyOrder_perm [])
  simp [PyCFClientAdapter.findByNames, nameQueries, Cf.findByNames, nothing]

theorem findByIocId_nodup (adapter : PyCFClientAdapter) (env : Env) (s : Store) (iocid : String) :
    ((adapter.findByIocId env s iocid).map CFChannel.name).Nodup := by
  have page := (find_sublist adapter env (listed s iocid)).map CFChannel.name
  refine List.Nodup.sublist page ?_
  exact ((env.replyOrder_perm _).map CFChannel.name).nodup_iff.mpr (listed_nodup s iocid)

theorem findByNames_stored {names : List String} {ch : CFChannel}
    (member : ch ∈ adapter.findByNames env s names) : s.get? ch.name = some ch.toCFEntry := by
  obtain ⟨chunk, -, found⟩ := List.mem_flatMap.mp member
  exact (mem_storedChannels s ch).mp (List.mem_filter.mp (mem_find found)).1

def queries (adapter : PyCFClientAdapter) : ChannelFinderAdapter where
  findByIocId := adapter.findByIocId
  findByNames := adapter.findByNames
  findByIocId_listed _ _ _ _ member := mem_listed.mp (mem_find member)
  findByIocId_nodup := adapter.findByIocId_nodup
  findByNames_stored _ _ _ _ member := findByNames_stored member

theorem findsListed_of_page {iocid : String}
    (enough : (listed s iocid).length ≤ adapter.sizeLimit) :
    adapter.queries.FindsListed env s iocid := by
  intro n e stored has
  exact mem_find_of_fits (Or.inr enough) (mem_listed.mpr ⟨stored, has⟩)

end PyCFClientAdapter

/-- The queries of the program, in pages of `findSizeLimit` channels. -/
abbrev CFConfig.queries (cfg : CFConfig) (nameMatches : String → String → Bool) :
    ChannelFinderAdapter :=
  (cfg.adapter nameMatches).queries

end Recsync.Cf
