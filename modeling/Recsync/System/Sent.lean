import Recsync.System.Database
import Recsync.System.Link

set_option autoImplicit false

/- The bytes of an upload, from the client to the session. -/
namespace Recsync.System

open Attempts Bytes Client Protocol Recast CastReceiver
open Upload (Call ValidFrom)

section Client

/-- A call that fits succeeds as long as the connection is there. -/
theorem run_calm {c : SendCall} {self : Caster} (calm : self.csock.outcomes = [])
    (known : KnownId c) (counted : 0 ≤ self.nextRecID) : 0 ≤ (c.run self).1 := by
  cases c with
  | sendRecord rtype rname =>
    simp only [SendCall.run, casterSendRecord, casterSendRA, sendParts_all _ calm,
      if_neg (Int.not_lt.mpr counted), ne_eq, not_true_eq_false, if_false]
    exact counted
  | sendAlias rid rname =>
    simp only [SendCall.run, casterSendAlias, casterSendRA, sendParts_all _ calm]
    exact Int.le_refl 0
  | sendInfo rid name val =>
    simp only [SendCall.run, casterSendInfo, sendParts_all _ calm,
      if_neg (Int.not_lt.mpr known.1)]
    exact Int.le_refl 0

/-- The plan is carried out to its end as long as the connection is there. -/
theorem attempt_calm {plan : List Planned} (legible : ∀ p ∈ plan, Legible p.call)
    (known : ∀ p ∈ plan, KnownId p.call) {u : Client.Upload} (calm : u.caster.csock.outcomes = [])
    (counted : 0 ≤ u.caster.nextRecID)
    (valid : ValidFrom u.caster.nextRecID (plan.map fun p => asCall p.call)) :
    ∃ u', attempt Planned.perform plan u = .complete u' ∧
      u'.caster = (plan.map fun p => asCall p.call).foldl (fun self c => (Call.send self c).2)
        u.caster ∧ u'.caster.csock.outcomes = [] := by
  induction plan generalizing u with
  | nil => exact ⟨u, rfl, rfl, calm⟩
  | cons p plan ih =>
    rw [List.forall_mem_cons] at legible known
    have sent := (asCall p.call).send_succeeds calm valid.1
    have same : (u.send p.call).2.caster = ((asCall p.call).send u.caster).2 := by
      rw [asCall_send legible.1 known.1]
      rfl
    have made : (p.perform u).1 = true := decide_eq_true (run_calm calm known.1 counted)
    have counted' : 0 ≤ (asCall p.call).next u.caster.nextRecID := by
      cases p.call with
      | sendRecord rtype rname => exact Int.le_add_one counted
      | sendAlias rid rname => exact counted
      | sendInfo rid name val => exact counted
    obtain ⟨u', complete, caster, quiet⟩ := @ih legible.2 known.2 (u.send p.call).2
      (by rw [same, sent]; exact calm) (by rw [same, sent]; exact counted')
      (by rw [same, sent]; exact valid.2)
    refine ⟨u', ?_, ?_, quiet⟩
    · rw [attempt_cons, if_pos made]
      exact complete
    · rw [caster, same]
      rfl

theorem recordsPlan_known {ioc : Ioc} {records : List (DbRecordType × DbRecordNode)} {rid : Int}
    (listed : ∀ record ∈ records, record.2 ∈ record.1.recList ∧ record.2.isAlias = false)
    (positive : 1 ≤ rid) (few : rid + records.length ≤ 2 ^ 32) :
    ∀ p ∈ recordsPlan ioc rid records, KnownId p.call := by
  induction records generalizing rid with
  | nil => simp [recordsPlan]
  | cons record rest ih =>
    rw [List.forall_mem_cons] at listed
    rw [← rid_length_cons] at few
    intro p planned
    rcases List.mem_append.mp planned with own | later
    · have called : p.call ∈ recordCall ioc record.2 :: tagCalls ioc rid record := by
        rw [← recordPlan_calls rid listed.1.1 listed.1.2]
        exact List.mem_map_of_mem own
      rcases List.mem_cons.mp called with first | tag
      · rw [first]
        trivial
      · exact (tagCalls_tags tag).2 (by omega)
    · exact ih listed.2 (by omega) few p later

variable (d : Database) (csock : ShSocket)

/-- The caster when `getrecords` is called. -/
def uploading : Client.Upload := ⟨{ nextRecID := d.firstId, csock }, []⟩

theorem plan_known : ∀ p ∈ uploadPlan d.ioc d.firstId, KnownId p.call := by
  intro p planned
  rcases List.mem_append.mp planned with env | records
  · obtain ⟨c, member, rfl⟩ := List.mem_map.mp env
    exact d.envPlan_known c member
  · exact recordsPlan_known d.records_listed (Int.ofNat_le.mpr d.positive) d.few_records p records

theorem casterPushPDB_sends (calm : csock.outcomes = []) :
    ∃ u', casterPushPDB d.ioc (uploading d csock) = (0, u') ∧ u'.caster.csock.outcomes = [] ∧
      u'.caster.csock.sent =
        csock.sent ++ Frame.stream (d.letters.map Letter.frame) := by
  have valid : ValidFrom (uploading d csock).caster.nextRecID
    ((uploadPlan d.ioc d.firstId).map fun p => asCall p.call) := d.valid
  obtain ⟨u', complete, caster, quiet⟩ := attempt_calm d.legible (plan_known d)
    (u := uploading d csock) calm (Int.natCast_nonneg _) valid
  have counts : (uploading d csock).caster.Counts d.firstId := by
    have positive := d.positive
    have few := d.few
    exact Or.inl ⟨rfl, by omega, by omega⟩
  have follows := casterPushPDB_follows d.ioc counts
  rw [complete] at follows
  have sent := Upload.sends_append {} 0 _ (uploading d csock).caster calm valid
  rw [← caster] at sent
  refine ⟨u', follows, quiet, ?_⟩
  rw [sent, Database.letters, ← lettersFrom_stream {} 0]
  rfl

theorem uploadDoneFrame_bytes :
    uploadDoneFrame.bytes = packedHead 0x0005 4 ++ ofUInt 4 0 := rfl

/-- On a connection that stays there the upload succeeds and sends the stream of its letters and
Upload Done. -/
theorem doCasterTCPUpload_sends (calm : csock.outcomes = []) :
    (doCasterTCPUpload d.ioc (uploading d csock)).ret = 0 ∧
      (doCasterTCPUpload d.ioc (uploading d csock)).doneSent = true ∧
      (doCasterTCPUpload d.ioc (uploading d csock)).upload.caster.csock.sent =
        csock.sent ++ Frame.stream (d.letters.map Letter.frame ++ [uploadDoneFrame]) := by
  obtain ⟨u', pushed, quiet, sent⟩ := casterPushPDB_sends d csock calm
  have last := sendParts_all [packedHead 0x0005 4, ofUInt 4 0] quiet
  simp only [doCasterTCPUpload, pushed, ne_eq, not_true_eq_false, if_false, last]
  refine ⟨trivial, trivial, ?_⟩
  rw [sent, Frame.stream_append, ← List.append_assoc]
  simp [Frame.stream, uploadDoneFrame_bytes]

end Client

section Server

variable (chance : Chance)

theorem recvHeader_effects (data : List UInt8) (r : CastReceiver) :
    (resultState (recvHeader data r)).effects = r.effects := by
  unfold recvHeader
  cases Header.decode data with
  | error e => cases e <;> rfl
  | ok header =>
    dsimp only
    by_cases empty : header.bodyLength = 0
    · rw [dif_pos empty]
      rfl
    · rw [dif_neg empty]
      by_cases brief : 0 ≤ (rxfn header.msgId).2 ∧ (header.bodyLength : Int) < (rxfn header.msgId).2
      · simp only [if_pos brief]
        rfl
      · simp only [if_neg brief]
        rfl

/-- The receiver takes nothing back. -/
theorem handle_effects (s : Expecting × CastReceiver) (data : List UInt8) :
    s.2.effects <+: ((receiver chance).handle s data).2.effects := by
  obtain ⟨failed, handled⟩ := handle_resultState chance s.1 s.2 data
  rw [handled]
  by_cases header : s.1.fn = .recvHeader
  · rw [header]
    show s.2.effects <+: (resultState (recvHeader data s.2)).effects
    exact ⟨[], by rw [List.append_nil, recvHeader_effects]⟩
  · rcases reaction_keeps chance (run_reacts chance header data s.2) with ⟨-, opens⟩ | ⟨-, keeps⟩
    · show s.2.effects <+: (resultState _).effects
      rw [opens.effects]
      exact List.prefix_append _ _
    · obtain ⟨more, effects, -⟩ := keeps.effects
      show s.2.effects <+: (resultState _).effects
      rw [effects]
      exact List.prefix_append _ _

theorem deliveries_effects {a b : (Expecting × CastReceiver) × List UInt8}
    (run : Relation.ReflTransGen (Stateful.Delivers (receiver chance)) a b) :
    a.1.2.effects <+: b.1.2.effects := by
  induction run with
  | refl => exact List.prefix_refl _
  | tail _ last ih =>
    obtain ⟨s, taken, left, -, -⟩ := last
    exact ih.trans (handle_effects chance s taken)

/-- What has arrived of a stream has had a part of the effects of all of it. -/
theorem final_effects_grow (s : Expecting × CastReceiver) (bytes more : List UInt8) :
    (Stateful.final (receiver chance) s bytes).2.effects <+:
      (Stateful.final (receiver chance) s (bytes ++ more)).2.effects := by
  have first := Stateful.deliveries_append
    (Stateful.drain_delivers (receiver chance) bytes.length s bytes) more
  have second := Stateful.drain_delivers (receiver chance)
    ((Stateful.drain (receiver chance) bytes.length s bytes).2 ++ more).length
    (Stateful.drain (receiver chance) bytes.length s bytes).1
    ((Stateful.drain (receiver chance) bytes.length s bytes).2 ++ more)
  have grows := deliveries_effects chance second
  rw [Stateful.final_of_deliveries (first.trans second) (Stateful.drain_stuck _ _)]
  exact grows

theorem sessionCalls_grow {first second : List Effect} (before : first <+: second) :
    sessionCalls first <+: sessionCalls second := by
  obtain ⟨more, rfl⟩ := before
  rw [sessionCalls_append]
  exact List.prefix_append _ _

/-- The messages of the script, one after the other. -/
theorem final_script {env : Surroundings} (passes : ∀ n, env.chance.timePasses n = true)
    {serverKey : Nat} {letters : List Letter} {arrived items : List Item}
    (split : script letters = arrived ++ items) {r : CastReceiver}
    {sessions : List CollectionSession}
    (served : Served env arrived r sessions) (alive : r.alive = true) :
    ∃ r', Stateful.final (receiver env.chance) (getInitialState, r)
        (Frame.stream (items.map (Item.frame serverKey))) = (getInitialState, r') ∧
      r'.alive = true ∧
      sessionCalls r'.effects = sessionCalls r.effects ++ items.flatMap Item.calls := by
  induction items generalizing arrived r sessions with
  | nil => exact ⟨r, Stateful.final_nil _, alive, (List.append_nil _).symm⟩
  | cons item items ih =>
    obtain ⟨news, passed⟩ := @served_item env serverKey letters arrived items r sessions passes item
      split served {}
    have still : (afterFrame env.chance r (item.frame serverKey)).2.alive = true := by
      simp only [CastReceiver.alive, passed.disconnecting, passed.failed] at alive ⊢
      exact alive
    have header := afterFrame_header env.chance r (item.frame serverKey) still
    obtain ⟨r', final, opened, calls⟩ := ih (by simpa using split) passed.served still
    refine ⟨r', ?_, opened, ?_⟩
    · rw [List.map_cons]
      show Stateful.final _ _ ((item.frame serverKey).bytes ++ _) = _
      rw [final_frame env.chance alive, ← final, ← header]
      rfl
    · rw [calls, passed.effects, sessionCalls_append, passed.calls, List.flatMap_cons,
        List.append_assoc]

end Server

/-- The connection on which `doCasterTCPPhase` has sent its greeting. -/
def greetedSock (servkey : Nat) : ShSocket where
  sent := packedHead 0x0001 8 ++ (ofUInt 4 0 ++ ofUInt 4 servkey)

/-- What a client sends for its database, cut in any way and read by any implementation of
`StatefulProtocol`, becomes the calls that the database asks for: the first of them as long as
something has not arrived yet, all of them in the end, with nothing raised and the connection still
there. -/
theorem upload_received (d : Database) (servkey : Nat) {chance : Chance}
    (passes : ∀ n, chance.timePasses n = true) (impl : Stateful.Protocol (receiver chance))
    {p : impl.State} (fresh : impl.state p = (getInitialState, {})) (nothing : impl.pending p = [])
    {chunks : List (List UInt8)} {rest : List UInt8}
    (cut : chunks.flatten ++ rest =
      (doCasterTCPUpload d.ioc (uploading d (greetedSock servkey))).upload.caster.csock.sent) :
    let s := impl.state (chunks.foldl impl.receive p)
    sessionCalls s.2.effects <+: d.upload.calls ∧
      (rest = [] → s.1 = getInitialState ∧ s.2.alive = true ∧
        sessionCalls s.2.effects = d.upload.calls) := by
  intro s
  let env : Surroundings :=
    { chance, host := "", port := 0, srcid := id, factory := fun _ _ => none }
  have stream :
    (doCasterTCPUpload d.ioc (uploading d (greetedSock servkey))).upload.caster.csock.sent
      = Frame.stream ((script d.letters).map (Item.frame servkey)) := by
    rw [(doCasterTCPUpload_sends d (greetedSock servkey) rfl).2.2, script, List.map_cons,
      List.map_append, List.map_map]
    rfl
  rw [stream] at cut
  have stuck : Stateful.Stuck (receiver chance) (impl.state p, impl.pending p) := by
    rw [nothing]
    exact Or.inr ((receiver chance).wants_pos _)
  have received : s = Stateful.final (receiver chance) (getInitialState, {}) chunks.flatten := by
    rw [← fresh, show chunks.flatten = impl.pending p ++ chunks.flatten by rw [nothing]; rfl]
    exact impl.receive_final chunks p stuck
  have served : Served env [] {} [] := ⟨rfl, rfl, rfl⟩
  obtain ⟨r', final, alive, calls⟩ := @final_script env passes servkey d.letters []
    (script d.letters) rfl {} [] served rfl
  have all : sessionCalls r'.effects = d.upload.calls := by
    rw [calls, script_calls, d.letters_calls]
    rfl
  constructor
  · rw [received, ← all, ← show _ = r' from congrArg Prod.snd final, ← cut]
    exact sessionCalls_grow (final_effects_grow chance _ _ _)
  · intro complete
    rw [complete, List.append_nil] at cut
    rw [received, cut, show Stateful.final _ _ _ = (getInitialState, r') from final]
    exact ⟨rfl, alive, all⟩

/-- A string as C has it, without the zero bytes. -/
def cstring (s : String) : CString where
  bytes := (encode s).filter fun b => b != 0
  noNul := by simp

/-- A record with an alias, an info tag and a description. -/
def pumpNodes : List DbRecordNode :=
  [{ recordname := cstring "TEST:pump", precord := 0, hasAlias := true,
      infos := [(cstring "archive", some (cstring "fast"))] },
    { recordname := cstring "TEST:pumpe", precord := 0, isAlias := true }]

def pumpIoc : Ioc where
  epicsVersion := cstring "7.0.9"
  globMatch _ _ := false
  pdbbase := {
    recordTypes := [⟨pumpNodes, by decide⟩]
    deref := fun _ => {
      name := cstring "TEST:pump"
      rdes := cstring "motor"
      desc := cstring "Förderpumpe" } }

def pumpDatabase : Database where
  ioc := pumpIoc
  legible := by decide +kernel
  positive := Nat.le_refl 1
  few := by decide +kernel
  distinct := by decide +kernel

/-- The upload arrives byte by byte. -/
theorem upload_received_bytewise :
    let impl := Stateful.reference (receiver {})
    let bytes := (doCasterTCPUpload pumpDatabase.ioc
      (uploading pumpDatabase (greetedSock 42))).upload.caster.csock.sent
    sessionCalls (impl.state ((bytes.map fun b => [b]).foldl impl.receive
        ((getInitialState, {}), []))).2.effects =
      [.iocInfo "EPICS_VERSION" "7.0.9", .addRecord 1 "motor" "TEST:pump", .addAlias 1 "TEST:pumpe",
        .recInfo 1 "archive" "fast", .recInfo 1 "recordDesc" "Förderpumpe", .done] := by
  intro impl bytes
  have pieces (l : List UInt8) : (l.map fun b => [b]).flatten = l := by
    induction l with
    | nil => rfl
    | cons b l ih => exact congrArg (b :: ·) ih
  have cut : (bytes.map fun b => [b]).flatten ++ [] = bytes := by rw [List.append_nil, pieces]
  have asked : pumpDatabase.upload.calls = [.iocInfo "EPICS_VERSION" "7.0.9",
      .addRecord 1 "motor" "TEST:pump", .addAlias 1 "TEST:pumpe", .recInfo 1 "archive" "fast",
      .recInfo 1 "recordDesc" "Förderpumpe", .done] := by decide +kernel
  rw [← asked]
  exact ((upload_received pumpDatabase 42 (fun _ => rfl) impl rfl rfl cut).2 rfl).2.2

end Recsync.System
