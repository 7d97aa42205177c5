import Recsync.Recast.Groups

set_option autoImplicit false

/- What a session has flushed of an upload that is not complete. -/
namespace Recsync.Recast

open CollectionSession

def Upload.Begun (u : Upload) (groups : List (List UploadRecord)) : Prop :=
  groups.flatten <+: u.records

theorem Upload.Cut.begun {u : Upload} {groups : List (List UploadRecord)} (cut : u.Cut groups) :
    u.Begun groups :=
  ⟨[], (List.append_nil _).trans cut.whole⟩

/-- A part of a sequence in two halves lies in the first one, or has all of it. -/
theorem prefix_append_cases {α : Type} {l first second : List α} (part : l <+: first ++ second) :
    l <+: first ∨ ∃ more, l = first ++ more ∧ more <+: second := by
  rcases List.prefix_or_prefix_of_prefix part (List.prefix_append first second) with early | late
  · exact Or.inl early
  · obtain ⟨more, rfl⟩ := late
    exact Or.inr ⟨more, rfl, (List.prefix_append_right_inj first).mp part⟩

/-- What arrives of a record is nothing, or the record with its first aliases and infos. -/
theorem prefix_record {r : UploadRecord} {calls : List SessionCall} (begun : calls <+: r.calls) :
    ∃ short : List UploadRecord, short.length ≤ 1 ∧ calls = short.flatMap UploadRecord.calls := by
  rcases List.prefix_cons_iff.mp begun with rfl | ⟨tells, rfl, items⟩
  · exact ⟨[], by simp, rfl⟩
  · obtain ⟨count, rfl⟩ : ∃ count, tells = r.itemCalls.take count :=
      ⟨_, List.prefix_iff_eq_take.mp items⟩
    refine ⟨[{ r with items := r.items.take count }], Nat.le_refl 1, ?_⟩
    rw [UploadRecord.itemCalls, ← List.map_take, List.flatMap_singleton]
    rfl

/-- The messages about some records: whole ones, and the one that was being sent. -/
theorem prefix_records {records : List UploadRecord} {calls : List SessionCall}
    (begun : calls <+: records.flatMap UploadRecord.calls) :
    ∃ done short : List UploadRecord, done <+: records ∧ short.length ≤ 1 ∧
      calls = done.flatMap UploadRecord.calls ++ short.flatMap UploadRecord.calls := by
  induction records generalizing calls with
  | nil =>
    obtain rfl := List.prefix_nil.mp begun
    exact ⟨[], [], List.prefix_refl _, by simp, rfl⟩
  | cons r rest ih =>
    rw [List.flatMap_cons] at begun
    rcases prefix_append_cases begun with first | ⟨later, rfl, more⟩
    · obtain ⟨short, one, rfl⟩ := prefix_record first
      exact ⟨[], short, List.nil_prefix, one, rfl⟩
    · obtain ⟨done, short, part, one, rfl⟩ := ih more
      refine ⟨r :: done, short, (List.prefix_cons_inj r).mpr part, one, ?_⟩
      rw [List.flatMap_cons, List.append_assoc]

section Run

variable (cfg : SessionConfig) (factory : Factory) {u : Upload} {host : String} {port srcid : Nat}

/-- The record that was being sent is not flushed yet. -/
theorem run_short {events : List CollectionSession.Event} (opened : .close ∉ events)
    {short : List UploadRecord} (one : short.length ≤ 1)
    (messages : received events = short.flatMap UploadRecord.calls) {s : CollectionSession}
    {groups : List (List UploadRecord)} {current : List UploadRecord}
    (part : groups.flatten ++ current <+: u.records)
    (gathering : Gathering u host port srcid groups current s) :
    ∃ groups', u.Begun groups' ∧
      (s.run cfg factory events).flushed =
        groupTransactions host port srcid u.clientInfos groups' := by
  obtain ⟨groups', current', same, after⟩ := run_records cfg factory opened messages gathering
  rw [← List.append_assoc] at same
  refine ⟨groups', ?_, after.flushed⟩
  show groups'.flatten <+: u.records
  rcases after.started with rfl | collecting
  · exact List.nil_prefix
  · refine (List.prefix_of_prefix_length_le (List.prefix_append groups'.flatten current')
      (same ▸ List.prefix_append _ short) ?_).trans part
    have lengths := congrArg List.length same
    have positive := List.length_pos_of_ne_nil collecting
    simp only [List.length_append] at lengths ⊢
    omega

/-- However much of an upload has arrived, a session has flushed groups of whole records in the
order of the upload, and after Upload Done all of them. -/
theorem interrupted_cut {events : List CollectionSession.Event} (opened : .close ∉ events)
    (messages : received events <+: u.calls) :
    ∃ groups, u.Begun groups ∧ (received events = u.calls → u.Cut groups) ∧
      ((CollectionSession.opened host port srcid).run cfg factory events).flushed =
        groupTransactions host port srcid u.clientInfos groups := by
  by_cases all : received events = u.calls
  · obtain ⟨groups, cut, flushed⟩ := upload_cut cfg factory opened all
    exact ⟨groups, cut.begun, fun _ => cut, flushed⟩
  suffices ∃ groups, u.Begun groups ∧
      ((CollectionSession.opened host port srcid).run cfg factory events).flushed =
        groupTransactions host port srcid u.clientInfos groups by
    obtain ⟨groups, begun, flushed⟩ := this
    exact ⟨groups, begun, fun whole => absurd whole all, flushed⟩
  rw [Upload.calls, ← List.append_assoc] at messages all
  rcases List.prefix_concat_iff.mp messages with whole | rest
  · exact absurd whole all
  rcases prefix_append_cases rest with infos | ⟨later, split, more⟩
  · -- the infos themselves are not complete
    obtain ⟨count, told⟩ : ∃ count, received events = u.infoCalls.take count :=
      ⟨_, List.prefix_iff_eq_take.mp infos⟩
    have started := @run_infos cfg factory { u with infos := u.infos.take count } host port srcid
      events opened (by rw [told, Upload.infoCalls, ← List.map_take]; rfl)
    exact ⟨[], List.nil_prefix, started.flushed⟩
  · obtain ⟨done, short, part, one, rfl⟩ := prefix_records more
    obtain ⟨tells, others, rfl, infos, records⟩ := received_eq_append split
    obtain ⟨adds, last, rfl, whole, piece⟩ := received_eq_append records
    simp only [List.mem_append, not_or] at opened
    obtain ⟨openedTells, openedAdds, openedLast⟩ := opened
    rw [run_append, run_append]
    have started := @run_infos cfg factory u host port srcid tells openedTells infos
    obtain ⟨groups, current, same, gathering⟩ := run_records cfg factory openedAdds whole started
    refine run_short cfg factory openedLast one piece ?_ gathering
    rw [same]
    exact part

end Run

end Recsync.Recast
