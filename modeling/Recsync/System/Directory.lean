import Mathlib.Data.List.Flatten
import Recsync.Cf.Batches
import Recsync.Cf.Serving
import Recsync.System.Fleet
import Recsync.System.Registered

set_option autoImplicit false

/- ChannelFinder lists the records of the clients that are connected. -/
namespace Recsync.System

open Cf Recast
open Ownership (Visit visits holder)
open Runs (EveryStep)

section Transactions

variable {u : Recast.Upload} {host : String} {port srcid : Nat}

/-- A transaction names the records of its group and their aliases, and nothing else. -/
theorem groupTransaction_names (infos : Py.Dict String String) (initial : Bool)
    {group : List Recast.UploadRecord} (nodup : (group.map Recast.UploadRecord.recordId).Nodup) :
    ∀ n ∈ (groupTransaction host port srcid infos initial group).toTransaction.names,
      n ∈ group.flatMap Recast.UploadRecord.names := by
  have holds := groupTransaction_holds host port srcid infos initial nodup
  intro n named
  obtain ⟨entry, member, listed⟩ := List.mem_flatMap.mp named
  have key : entry.1 ∈ (groupTransaction host port srcid infos initial group).recordsToAdd.keys :=
    List.mem_map_of_mem member
  have entries := member
  rw [holds.records] at entries
  obtain ⟨r, inside, rfl⟩ := List.mem_map.mp entries
  refine List.mem_flatMap.mpr ⟨r, inside, ?_⟩
  rw [holds.complete.aliases _ key, (group_speaks nodup inside).1] at listed
  exact listed

theorem mem_groupTransactions {infos : Py.Dict String String}
    {groups : List (List Recast.UploadRecord)} {t : Recast.Transaction}
    (member : t ∈ groupTransactions host port srcid infos groups) :
    ∃ group ∈ groups, ∃ initial, t = groupTransaction host port srcid infos initial group := by
  cases groups with
  | nil => cases member
  | cons group rest =>
    rcases List.mem_cons.mp member with rfl | later
    · exact ⟨group, List.mem_cons_self, true, rfl⟩
    · obtain ⟨group, inside, rfl⟩ := List.mem_map.mp later
      exact ⟨group, List.mem_cons_of_mem _ inside, false, rfl⟩

/-- What a session has flushed of an upload goes on as a connection should. -/
theorem groups_continue {groups : List (List Recast.UploadRecord)} (begun : u.Begun groups) :
    EveryStep (fun before t => Continues before t)
      ((groupTransactions host port srcid u.clientInfos groups).map fun t => t.toTransaction) := by
  induction groups using List.reverseRecOn with
  | nil => exact EveryStep.nil _
  | append_singleton groups group ih =>
    have part : groups.flatten ++ group <+: u.records := by
      rw [Recast.Upload.Begun, List.flatten_concat] at begun
      exact begun
    have earlier : u.Begun groups := (List.prefix_append _ _).trans part
    have ids := (part.sublist.map Recast.UploadRecord.recordId).nodup u.ids_nodup
    have names := (part.sublist.flatMap Recast.UploadRecord.names).nodup u.names_nodup
    rw [List.map_append, List.nodup_append] at ids
    rw [List.flatMap_append, List.nodup_append] at names
    rw [groupTransactions_concat, List.map_append]
    have frame := groupTransaction_sameFrame host port srcid u.clientInfos groups.isEmpty group
    refine (ih earlier).append ⟨?_, Or.inl ⟨frame.connected, ?_⟩, frame.recordsToDelete, ?_⟩
    · intro before member
      obtain ⟨t, inside, rfl⟩ := List.mem_map.mp member
      obtain ⟨group, -, initial, rfl⟩ := mem_groupTransactions inside
      exact (groupTransaction_sameFrame host port srcid u.clientInfos initial group).connected
    · refine (by rw [frame.initial] : _ ↔ groups.isEmpty = true).trans ?_
      cases groups <;> simp [groupTransactions]
    · intro n named before member again
      obtain ⟨t, inside, rfl⟩ := List.mem_map.mp member
      obtain ⟨other, among, initial, rfl⟩ := mem_groupTransactions inside
      have whole := (List.sublist_flatten_of_mem among).map Recast.UploadRecord.recordId
      have first := groupTransaction_names u.clientInfos initial (whole.nodup ids.1) n again
      have second := groupTransaction_names u.clientInfos groups.isEmpty ids.2.1 n named
      have inFront := ((List.sublist_flatten_of_mem among).flatMap _).subset first
      exact names.2.2 n inFront n second rfl

/-- The goodbye of a session comes last. -/
theorem goodbye_continues {groups : List (List Recast.UploadRecord)} (begun : u.Begun groups) :
    EveryStep (fun before t => Continues before t)
      ((groupTransactions host port srcid u.clientInfos groups ++
        [Recast.goodbye host port srcid]).map fun t => t.toTransaction) := by
  rw [List.map_append]
  refine (groups_continue begun).append
    ⟨?_, Or.inr ⟨rfl, rfl, rfl, rfl⟩, rfl, fun n named => absurd named (List.not_mem_nil)⟩
  intro before member
  obtain ⟨t, inside, rfl⟩ := List.mem_map.mp member
  obtain ⟨group, -, initial, rfl⟩ := mem_groupTransactions inside
  exact (groupTransaction_sameFrame host port srcid u.clientInfos initial group).connected

end Transactions

namespace Fleet.Kept

variable {limits : SessionConfig} {sites : Nat → Site} {f : Fleet} (kept : Kept limits sites f)

include kept

/-- A transaction at the lock has the address of its client. -/
theorem source {t : Recast.Transaction} (member : t ∈ f.server.done ++ f.server.queue) :
    ∃ k, f.server.connections t.srcid = some k ∧ t ∈ k.session.flushed ∧
      t.iocid = (sites t.srcid).iocid := by
  obtain ⟨k, known⟩ := Option.isSome_iff_exists.mp (kept.serial.order.known t member)
  have holds := kept.serial.holds t.srcid k known
  have inside : t ∈ k.session.flushed := by
    apply holds.handed_flushed.subset
    rw [← kept.serial.order.log t.srcid k known]
    exact List.mem_filter.mpr ⟨member, by simp⟩
  obtain ⟨-, host, port, -⟩ := (kept.tended t.srcid).known k known
  refine ⟨k, known, inside, (holds.source inside).2.trans ?_⟩
  rw [host, port]
  rfl

theorem committed_first {i : Nat} {k : Cf.Connection} (known : f.server.connections i = some k) :
    f.server.done.filter (fun t => decide (t.srcid = i)) <+: k.session.flushed := by
  have log := kept.serial.order.log i k known
  rw [List.filter_append] at log
  refine List.IsPrefix.trans ?_ (kept.serial.holds i k known).handed_flushed
  rw [← log]
  exact List.prefix_append _ _

/-- What a session has flushed: groups of the upload of its client, and its goodbye when the
connection is lost. -/
theorem flushed {i : Nat} {k : Cf.Connection} (known : f.server.connections i = some k) :
    ∃ groups, (sites i).upload.Begun groups ∧
      (((f.wires i).lost = false ∧ (Good.Delivered (f.link i) → (sites i).upload.Cut groups) ∧
        k.session.flushed = groupTransactions (sites i).host (sites i).port i
          (sites i).upload.clientInfos groups) ∨
      ((f.wires i).lost = true ∧
        k.session.flushed = groupTransactions (sites i).host (sites i).port i
          (sites i).upload.clientInfos groups ++
            [Recast.goodbye (sites i).host (sites i).port i])) := by
  cases lost : (f.wires i).lost with
  | false =>
    obtain ⟨groups, begun, whole, flushed⟩ := (kept.tended i).begun lost known
    exact ⟨groups, begun, Or.inl ⟨rfl, whole, flushed⟩⟩
  | true =>
    obtain ⟨groups, begun, flushed⟩ := (kept.tended i).flushed k known lost
    exact ⟨groups, begun, Or.inr ⟨rfl, flushed⟩⟩

theorem flushed_continues {i : Nat} {k : Cf.Connection} (known : f.server.connections i = some k) :
    EveryStep (fun before t => Continues before t)
      (k.session.flushed.map fun t => t.toTransaction) := by
  obtain ⟨groups, begun, ⟨-, -, flushed⟩ | ⟨-, flushed⟩⟩ := kept.flushed known
  · rw [flushed]
    exact groups_continue begun
  · rw [flushed]
    exact goodbye_continues begun

/-- The commits with the address of a client are its own. -/
theorem filter_iocid (apart : Function.Injective fun i => (sites i).iocid) (i : Nat)
    {part : List Recast.Transaction} (inside : part ⊆ f.server.done) :
    part.filter (fun t => decide (t.iocid = (sites i).iocid)) =
      part.filter (fun t => decide (t.srcid = i)) := by
  apply List.filter_congr
  intro t member
  obtain ⟨-, -, -, iocid⟩ := kept.source (List.mem_append_left _ (inside member))
  rw [iocid, decide_eq_decide]
  exact ⟨fun same => apart same, fun same => by rw [same]⟩

/-- What the clients have committed is an interleaving of sessions. -/
theorem sessionRun (apart : Function.Injective fun i => (sites i).iocid) {done : List Commit}
    (transactions : done.map Commit.transaction = f.server.done.map fun t => t.toTransaction) :
    SessionRun done := by
  intro before c rest split
  rw [split, List.map_append, List.map_cons] at transactions
  obtain ⟨early, others, whole, front, tail⟩ := List.map_eq_append_iff.mp transactions.symm
  obtain ⟨t, late, rfl, now, -⟩ := List.map_eq_cons_iff.mp tail
  have member : t ∈ f.server.done := by simp [whole]
  obtain ⟨k, known, -, iocid⟩ := kept.source (List.mem_append_left _ member)
  have sentBefore : sent before c.iocid =
      (early.filter fun u => decide (u.srcid = t.srcid)).map fun u => u.toTransaction := by
    have address : c.iocid = (sites t.srcid).iocid := by
      rw [← iocid]
      exact congrArg Cf.Transaction.iocid now.symm
    rw [← kept.filter_iocid apart t.srcid (by simp [whole]), sent, address]
    have moved := congrArg
      (List.filter fun u : Cf.Transaction => decide (u.iocid = (sites t.srcid).iocid)) front
    rw [List.filter_map, List.filter_map] at moved
    exact moved.symm
  obtain ⟨more, flushed⟩ := kept.committed_first known
  rw [whole, List.filter_append, List.filter_cons_of_pos (by simp), List.append_assoc,
    List.cons_append] at flushed
  have step := kept.flushed_continues known
  rw [← flushed, List.map_append, List.map_cons] at step
  rw [sentBefore, ← now]
  exact step _ _ _ rfl

theorem committed_all (empty : f.server.queue = []) {i : Nat} {k : Cf.Connection}
    (known : f.server.connections i = some k) :
    f.server.done.filter (fun t => decide (t.srcid = i)) = k.session.flushed := by
  have log := kept.serial.order.log i k known
  rw [empty, List.append_nil] at log
  obtain ⟨settled, state, done⟩ := (kept.serial.holds i k known).settled
  rcases state.handed_cases with ⟨-, flushed⟩ | ⟨-, t, queue, handed, -⟩
  · rw [flushed, done]
  · have lengths := congrArg List.length (handed.symm.trans (log.symm.trans done.symm))
    simp at lengths

/-- A client that has not sent its greeting has no session. -/
theorem unconnected {i : Nat} (opened : (f.wires i).lost = false)
    (fresh : (f.wires i).phase = .connected) : f.server.connections i = none := by
  obtain ⟨arrived, inFlight, later, answers, flow⟩ := ((kept.tended i).good opened).flow
  have served := flow.served
  rw [(flow.fresh fresh).1] at served
  cases known : f.server.connections i with
  | none => rfl
  | some k =>
    rw [known] at served
    cases served.2.2

theorem committed_cases {t : Recast.Transaction} (member : t ∈ f.server.done) :
    (∃ groups, (sites t.srcid).upload.Begun groups ∧ ∃ group ∈ groups, ∃ initial,
        t = groupTransaction (sites t.srcid).host (sites t.srcid).port t.srcid
          (sites t.srcid).upload.clientInfos initial group) ∨
      (f.wires t.srcid).lost = true ∧
        t = Recast.goodbye (sites t.srcid).host (sites t.srcid).port t.srcid := by
  obtain ⟨k, known, inside, -⟩ := kept.source (List.mem_append_left _ member)
  obtain ⟨groups, begun, ⟨-, -, flushed⟩ | ⟨lost, flushed⟩⟩ := kept.flushed known
  · rw [flushed] at inside
    exact Or.inl ⟨groups, begun, mem_groupTransactions inside⟩
  · rw [flushed, List.mem_append, List.mem_singleton] at inside
    exact inside.imp (fun among => ⟨groups, begun, mem_groupTransactions among⟩) fun last =>
      ⟨lost, last⟩

end Fleet.Kept

/-- The client registers the name: it has a record or an alias of it. -/
def Site.Lists (cfg : CFConfig) (x : Site) (n : String) : Prop :=
  ∃ record ∈ x.database.records, ∃ name ∈ registeredNames cfg x.database.ioc record, text name = n

theorem Site.lists_iff (cfg : CFConfig) (x : Site) (n : String) :
    x.Lists cfg n ↔ n ∈ x.upload.records.flatMap (served cfg) := by
  rw [List.mem_flatMap]
  constructor
  · rintro ⟨record, known, name, listed, rfl⟩
    obtain ⟨id, member⟩ := uploadRecords_mem known x.database.firstId
    refine ⟨_, member, ?_⟩
    rw [served_uploadRecord]
    exact List.mem_map_of_mem listed
  · rintro ⟨r, member, listed⟩
    obtain ⟨id, record, known, rfl⟩ := mem_uploadRecords member
    rw [served_uploadRecord] at listed
    obtain ⟨name, named, rfl⟩ := List.mem_map.mp listed
    exact ⟨record, known, name, named, rfl⟩

/-- The records of the client and their aliases. -/
def Site.names (x : Site) : List String := x.upload.records.flatMap Recast.UploadRecord.names

theorem group_touches (cfg : CFConfig) (setup : Setup) {u : Recast.Upload} (host : String)
    (port srcid : Nat) (initial : Bool) {groups : List (List Recast.UploadRecord)}
    (begun : u.Begun groups) {group : List Recast.UploadRecord} (member : group ∈ groups)
    (env : Env) :
    touched cfg (recordsOf cfg setup env
      (groupTransaction host port srcid u.clientInfos initial group).toTransaction) =
        group.flatMap (served cfg) := by
  obtain ⟨before, after, rfl⟩ := List.append_of_mem member
  obtain ⟨more, split⟩ := begun
  have whole : before.flatten ++ (group ++ (after.flatten ++ more)) = u.records := by
    rw [← split]
    simp
  exact (@part_holdsRecords cfg setup u host port before.flatten group _ whole srcid
    initial).touched
    cfg setup env

section Visits

variable {cfg : CFConfig} {setup : Setup} (x : Site) (srcid : Nat) {c : Commit}

theorem group_visit (initial : Bool) {groups : List (List Recast.UploadRecord)}
    (begun : x.upload.Begun groups) {group : List Recast.UploadRecord} (member : group ∈ groups)
    (same : c.transaction = (groupTransaction x.host x.port srcid x.upload.clientInfos initial
      group).toTransaction) :
    c.visit cfg setup = .serves x.iocid (group.flatMap (served cfg)) := by
  have frame := groupTransaction_sameFrame x.host x.port srcid x.upload.clientInfos initial group
  have connected : c.transaction.connected = true := by
    rw [same]
    exact frame.connected
  have address : c.iocid = x.iocid := by
    rw [Commit.iocid, same]
    exact congrArg₂ iocidOf frame.host frame.port
  rw [Commit.visit, if_pos connected, address, same,
    group_touches cfg setup x.host x.port srcid initial begun member]

theorem goodbye_visit
    (same : c.transaction = (Recast.goodbye x.host x.port srcid).toTransaction) :
    c.visit cfg setup = .leaves x.iocid := by
  have gone : ¬ c.transaction.connected = true := by
    rw [same]
    exact Bool.false_ne_true
  rw [Commit.visit, if_neg gone, Commit.iocid, same]
  rfl

end Visits

namespace Fleet

/-- The client is connected and all its messages have arrived. -/
def Online (f : Fleet) (i : Nat) : Prop := (f.wires i).lost = false ∧ Good.Delivered (f.link i)

/-- No commit waits, and no client is in the middle of its upload. -/
structure Quiet (f : Fleet) : Prop where
  empty : f.server.queue = []
  settled : ∀ i, f.Online i ∨ (f.wires i).lost = true ∨ (f.wires i).phase = .connected

variable {limits : SessionConfig} {cfg : CFConfig} {setup : Setup} {sites : Nat → Site} {f : Fleet}
  {done : List Commit}

theorem Kept.visit_cases (kept : Kept limits sites f)
    (transactions : done.map Commit.transaction = f.server.done.map fun t => t.toTransaction)
    {v : Visit String String} (member : v ∈ done.map (Commit.visit cfg setup)) :
    ∃ i, (∃ groups, (sites i).upload.Begun groups ∧ ∃ group ∈ groups,
        v = .serves (sites i).iocid (group.flatMap (served cfg))) ∨
      (f.wires i).lost = true ∧ v = .leaves (sites i).iocid := by
  obtain ⟨c, inside, rfl⟩ := List.mem_map.mp member
  have known : c.transaction ∈ f.server.done.map fun t => t.toTransaction := by
    rw [← transactions]
    exact List.mem_map_of_mem inside
  obtain ⟨t, among, same⟩ := List.mem_map.mp known
  refine ⟨t.srcid, ?_⟩
  rcases kept.committed_cases among with ⟨groups, begun, group, held, initial, form⟩ | ⟨lost, form⟩
  · exact Or.inl ⟨groups, begun, group, held, group_visit (sites t.srcid) t.srcid initial begun held
      (same.symm.trans (congrArg Recast.Transaction.toTransaction form))⟩
  · exact Or.inr ⟨lost, goodbye_visit (sites t.srcid) t.srcid
      (same.symm.trans (congrArg Recast.Transaction.toTransaction form))⟩

/-- Whoever serves a name has a record or an alias of it. -/
theorem Kept.serves_lists (kept : Kept limits sites f)
    (transactions : done.map Commit.transaction = f.server.done.map fun t => t.toTransaction)
    {i : String} {names : List String}
    (member : .serves i names ∈ done.map (Commit.visit cfg setup)) {n : String}
    (named : n ∈ names) :
    ∃ j, i = (sites j).iocid ∧ (sites j).Lists cfg n := by
  obtain ⟨j, ⟨groups, begun, group, held, visit⟩ | ⟨-, visit⟩⟩ :=
    kept.visit_cases transactions member
  · obtain ⟨rfl, rfl⟩ := Visit.serves.inj visit
    refine ⟨j, rfl, (Site.lists_iff cfg _ n).mpr ?_⟩
    exact (((List.sublist_flatten_of_mem held).trans begun.sublist).flatMap _).subset named
  · cases visit

/-- A client whose goodbye is committed has lost its connection. -/
theorem Kept.leaves_lost (kept : Kept limits sites f)
    (apart : Function.Injective fun i => (sites i).iocid)
    (transactions : done.map Commit.transaction = f.server.done.map fun t => t.toTransaction)
    {i : Nat} (member : .leaves (sites i).iocid ∈ done.map (Commit.visit cfg setup)) :
    (f.wires i).lost = true := by
  obtain ⟨j, ⟨_, _, _, _, visit⟩ | ⟨lost, visit⟩⟩ := kept.visit_cases transactions member
  · cases visit
  · rw [apart (Visit.leaves.inj visit)]
    exact lost

theorem exists_commit
    (transactions : done.map Commit.transaction = f.server.done.map fun t => t.toTransaction)
    {t : Recast.Transaction} (member : t ∈ f.server.done) :
    ∃ c ∈ done, c.transaction = t.toTransaction := by
  have known : t.toTransaction ∈ done.map Commit.transaction := by
    rw [transactions]
    exact List.mem_map_of_mem member
  exact List.mem_map.mp known

theorem Kept.flushed_done (kept : Kept limits sites f) (quiet : f.Quiet) {i : Nat}
    {k : Cf.Connection} (known : f.server.connections i = some k) {t : Recast.Transaction}
    (member : t ∈ k.session.flushed) : t ∈ f.server.done := by
  rw [← kept.committed_all quiet.empty known] at member
  exact List.mem_of_mem_filter member

theorem Kept.lists_serves (kept : Kept limits sites f) (quiet : f.Quiet)
    (transactions : done.map Commit.transaction = f.server.done.map fun t => t.toTransaction)
    {i : Nat} (online : f.Online i) {n : String} (lists : (sites i).Lists cfg n) :
    ∃ names, .serves (sites i).iocid names ∈ done.map (Commit.visit cfg setup) ∧ n ∈ names := by
  obtain ⟨k, known⟩ : ∃ k, f.server.connections i = some k := by
    have served := (((kept.tended i).good online.1).flow_delivered online.2).1
    obtain ⟨-, events, -, -, session⟩ := served
    cases known : f.server.connections i with
    | some k => exact ⟨k, rfl⟩
    | none =>
      rw [known] at session
      cases session
  obtain ⟨groups, begun, ⟨-, whole, flushed⟩ | ⟨lost, -⟩⟩ := kept.flushed known
  · obtain ⟨r, inside, named⟩ := List.mem_flatMap.mp ((Site.lists_iff cfg _ n).mp lists)
    rw [← (whole online.2).whole] at inside
    obtain ⟨group, held, inGroup⟩ := List.mem_flatten.mp inside
    obtain ⟨initial, member⟩ : ∃ initial, groupTransaction (sites i).host (sites i).port i
        (sites i).upload.clientInfos initial group ∈ k.session.flushed := by
      rw [flushed]
      cases groups with
      | nil => cases held
      | cons first rest =>
        rcases List.mem_cons.mp held with rfl | later
        · exact ⟨true, List.mem_cons_self⟩
        · exact ⟨false, List.mem_cons_of_mem _ (List.mem_map_of_mem later)⟩
    obtain ⟨c, among, same⟩ := exists_commit transactions (kept.flushed_done quiet known member)
    refine ⟨group.flatMap (served cfg), ?_, List.mem_flatMap.mpr ⟨r, inGroup, named⟩⟩
    rw [← group_visit (sites i) i initial begun held same]
    exact List.mem_map_of_mem among
  · rw [online.1] at lost
    cases lost

/-- When all is quiet, a client that is not connected any more has left. -/
theorem Kept.lost_leaves (kept : Kept limits sites f) (quiet : f.Quiet)
    (transactions : done.map Commit.transaction = f.server.done.map fun t => t.toTransaction)
    {i : Nat} (lost : (f.wires i).lost = true) {k : Cf.Connection}
    (known : f.server.connections i = some k) :
    .leaves (sites i).iocid ∈ done.map (Commit.visit cfg setup) := by
  obtain ⟨groups, begun, ⟨opened, -, -⟩ | ⟨-, flushed⟩⟩ := kept.flushed known
  · rw [lost] at opened
    cases opened
  · have member : Recast.goodbye (sites i).host (sites i).port i ∈ k.session.flushed := by
      rw [flushed]
      exact List.mem_append_right _ (List.mem_singleton_self _)
    obtain ⟨c, among, same⟩ := exists_commit transactions (kept.flushed_done quiet known member)
    rw [← goodbye_visit (sites i) i same]
    exact List.mem_map_of_mem among

/-- A client that has lost its connection serves nothing when all is quiet. -/
theorem Kept.online_of_serves (kept : Kept limits sites f)
    (apart : Function.Injective fun i => (sites i).iocid) (quiet : f.Quiet)
    (transactions : done.map Commit.transaction = f.server.done.map fun t => t.toTransaction)
    {i : Nat} {names : List String}
    (serves : .serves (sites i).iocid names ∈ done.map (Commit.visit cfg setup))
    (stays : .leaves (sites i).iocid ∉ done.map (Commit.visit cfg setup)) : f.Online i := by
  obtain ⟨c, among, visit⟩ := List.mem_map.mp serves
  have sent : c.transaction ∈ f.server.done.map fun t => t.toTransaction := by
    rw [← transactions]
    exact List.mem_map_of_mem among
  obtain ⟨t, member, same⟩ := List.mem_map.mp sent
  obtain ⟨k, known, -, iocid⟩ := kept.source (List.mem_append_left _ member)
  have own : t.srcid = i := by
    apply apart
    show (sites t.srcid).iocid = (sites i).iocid
    rw [← iocid]
    have address : c.iocid = (sites i).iocid := by
      rw [Commit.visit] at visit
      split at visit
      · exact (Visit.serves.inj visit).1
      · cases visit
    exact (congrArg Cf.Transaction.iocid same).trans address
  rw [own] at known
  rcases quiet.settled i with online | lost | fresh
  · exact online
  · exact absurd (kept.lost_leaves quiet transactions lost known) stays
  · cases lost : (f.wires i).lost with
    | true => exact absurd (kept.lost_leaves quiet transactions lost known) stays
    | false =>
      rw [kept.unconnected lost fresh] at known
      cases known

theorem Kept.commit_address (kept : Kept limits sites f)
    (transactions : done.map Commit.transaction = f.server.done.map fun t => t.toTransaction)
    {c : Commit} (member : c ∈ done) : ∃ i, c.iocid = (sites i).iocid := by
  have known : c.transaction ∈ done.map Commit.transaction := List.mem_map_of_mem member
  rw [transactions] at known
  obtain ⟨t, among, same⟩ := List.mem_map.mp known
  obtain ⟨-, -, -, iocid⟩ := kept.source (List.mem_append_left _ among)
  refine ⟨t.srcid, ?_⟩
  rw [Commit.iocid, ← same]
  exact iocid

/-- The commits of a run, as the agreement of memory and ChannelFinder needs them. -/
theorem Kept.converts (kept : Kept limits sites f)
    (named : ∀ i, iocNameConverts
      (uploadIoc cfg (sites i).upload (sites i).host (sites i).port "").iocName = true)
    (transactions : done.map Commit.transaction = f.server.done.map fun t => t.toTransaction)
    {c : Commit} (member : c ∈ done) :
    iocNameConverts (iocInfoOf cfg c.env c.transaction).iocName = true := by
  have known : c.transaction ∈ f.server.done.map fun t => t.toTransaction := by
    rw [← transactions]
    exact List.mem_map_of_mem member
  obtain ⟨t, among, same⟩ := List.mem_map.mp known
  rw [← same]
  rcases kept.committed_cases among with ⟨groups, begun, group, held, initial, form⟩ | ⟨-, form⟩
  · rw [form, groupTransaction_ioc]
    exact named t.srcid
  · rw [form]
    exact iocNameConverts_port (sites t.srcid).small

/-- What is sent under the address of a client names its records and aliases. -/
theorem Kept.names_sent (kept : Kept limits sites f)
    (apart : Function.Injective fun i => (sites i).iocid)
    (transactions : done.map Commit.transaction = f.server.done.map fun t => t.toTransaction)
    {i : Nat} {u : Cf.Transaction} (member : u ∈ sent done (sites i).iocid) :
    u.names ⊆ (sites i).names := by
  obtain ⟨c, inside, rfl⟩ := List.mem_map.mp member
  obtain ⟨among, address⟩ := List.mem_filter.mp inside
  have known : c.transaction ∈ f.server.done.map fun t => t.toTransaction := by
    rw [← transactions]
    exact List.mem_map_of_mem among
  obtain ⟨t, there, same⟩ := List.mem_map.mp known
  obtain ⟨-, -, -, iocid⟩ := kept.source (List.mem_append_left _ there)
  have own : t.srcid = i := by
    apply apart
    show (sites t.srcid).iocid = (sites i).iocid
    rw [← iocid, ← of_decide_eq_true address, Commit.iocid, ← same]
  rw [← same]
  rcases kept.committed_cases there with ⟨groups, begun, group, held, initial, form⟩ | ⟨-, form⟩
  · rw [own] at begun
    have part := (List.sublist_flatten_of_mem held).trans begun.sublist
    have ids := (part.map Recast.UploadRecord.recordId).nodup (sites i).upload.ids_nodup
    intro n named
    rw [form, own] at named
    exact (part.flatMap _).subset (groupTransaction_names _ initial ids n named)
  · rw [form]
    exact List.nil_subset _

end Fleet

/-- What holds of the names in ChannelFinder, whose clients `sites` are. -/
structure Directory (cfg : CFConfig) (sites : Nat → Site) (f : Fleet) : Prop where
  agrees : Agrees f.server.world
  active : ∀ n e, f.server.world.store.get? n = some e → e.Active →
    ∃ i, (sites i).Lists cfg n ∧ Live (sites i).iocid e
  listed : f.Quiet → ∀ n, (∃ e, f.server.world.store.get? n = some e ∧ e.Active) ↔
    ∃ i, f.Online i ∧ (sites i).Lists cfg n
  online : f.Quiet → ∀ n e, f.server.world.store.get? n = some e → e.Active →
    ∃ i, f.Online i ∧ (sites i).Lists cfg n ∧ Live (sites i).iocid e

section Life

variable {queries : ChannelFinderAdapter} {limits : SessionConfig} {cfg : CFConfig} {setup : Setup}
  {sites : Nat → Site} {s : Store} {f : Fleet} {done : List Commit}

/-- What a life of the server has committed. -/
structure Fleet.Committed (queries : ChannelFinderAdapter) (limits : SessionConfig) (cfg : CFConfig)
    (setup : Setup)
    (sites : Nat → Site) (s : Store) (f : Fleet) (done : List Commit) : Prop where
  kept : Fleet.Kept limits sites f
  calm : ∀ c ∈ done, c.faults = []
  transactions : done.map Commit.transaction = f.server.done.map fun t => t.toTransaction
  world : f.server.world = queries.runCommits cfg setup ⟨{}, s⟩ done
  session : SessionRun done
  start : Agreement done [] ⟨{}, s⟩
  converts : ∀ c ∈ done, iocNameConverts (iocInfoOf cfg c.env c.transaction).iocName = true
  whole : queries.Covers done

theorem Fleet.run_committed {nameMatches : String → String → Bool}
    (addresses : Function.Injective fun i => (sites i).iocid)
    (named : ∀ i, iocNameConverts
      (uploadIoc cfg (sites i).upload (sites i).host (sites i).port "").iocName = true)
    (inactive : ∀ n e, s.get? n = some e → ¬ e.Active)
    (foreign : ∀ n e, s.get? n = some e → ∀ i, ¬ e.has .iocId (sites i).iocid)
    (few : ∀ i, (sites i).names.length ≤ cfg.cfQueryLimit) (events : List FleetEvent) :
    ∃ done, Fleet.Committed (cfg.queries nameMatches) limits cfg setup sites s
      ((Fleet.start sites ⟨{}, s⟩).run (cfg.queries nameMatches) limits cfg setup sites events)
        done := by
  obtain ⟨kept, done, calm, transactions, world⟩ :=
    @Fleet.Kept.run (cfg.queries nameMatches) limits cfg setup sites addresses ⟨{}, s⟩ events
  refine ⟨done, kept, calm, transactions, world, kept.sessionRun addresses transactions, ?_,
    fun c member => kept.converts named transactions member, ?_⟩
  · apply Agreement.start inactive
    intro n e stored c member
    obtain ⟨i, address⟩ := kept.commit_address transactions member
    exact address ▸ foreign n e stored i
  · apply queries_covers
    intro c member
    obtain ⟨i, address⟩ := kept.commit_address transactions member
    refine ⟨(sites i).names, few i, fun u among => ?_⟩
    exact kept.names_sent addresses transactions (address ▸ among)

/-- What ChannelFinder lists is what the clients have. -/
theorem Fleet.Committed.directory (committed : Fleet.Committed queries limits cfg setup sites s
    f done)
    (usable : cfg.Usable) (apart : setup.Apart)
    (addresses : Function.Injective fun i => (sites i).iocid) : Directory cfg sites f := by
  obtain ⟨kept, calm, transactions, world, session, start, converts, whole⟩ := committed
  obtain ⟨inv, owners⟩ :=
    owners_run usable apart session calm converts start whole (List.prefix_refl done)
  rw [← world] at inv owners
  have once := @SessionRun.once cfg setup done session
  have listed (n : String) (e : CFEntry) (stored : f.server.world.store.get? n = some e)
      (active : e.Active) : ∃ i, (sites i).Lists cfg n ∧ Live (sites i).iocid e ∧
        (f.Quiet → f.Online i) := by
    obtain ⟨j, holds, live⟩ := (inv.shows owners n).2 e stored active
    obtain ⟨⟨names, serves, member⟩, stays⟩ := Ownership.holder_visits once holds
    obtain ⟨i, rfl, lists⟩ := kept.serves_lists transactions serves member
    exact ⟨i, lists, live,
      fun quiet => kept.online_of_serves addresses quiet transactions serves stays⟩
  refine ⟨inv.agrees, ?_, ?_, ?_⟩
  · intro n e stored active
    obtain ⟨i, lists, live, -⟩ := listed n e stored active
    exact ⟨i, lists, live⟩
  · intro quiet n
    constructor
    · rintro ⟨e, stored, active⟩
      obtain ⟨i, lists, -, online⟩ := listed n e stored active
      exact ⟨i, online quiet, lists⟩
    · rintro ⟨i, online, lists⟩
      obtain ⟨names, serves, member⟩ := kept.lists_serves quiet transactions online lists
      have stays : .leaves (sites i).iocid ∉ done.map (Commit.visit cfg setup) := by
        intro gone
        have lost := kept.leaves_lost addresses transactions gone
        rw [online.1] at lost
        cases lost
      exact (inv.shows owners n).1.mpr
        ⟨_, (Ownership.mem_visits once _ n).mpr ⟨⟨names, serves, member⟩, stays⟩⟩
  · intro quiet n e stored active
    obtain ⟨i, lists, live, online⟩ := listed n e stored active
    exact ⟨i, online quiet, lists, live⟩

end Life

/-- However the steps of any number of clients, their connections and the commits are interleaved,
with every request to ChannelFinder successful and no client with more names than a page has room
for: memory and ChannelFinder agree after every step, and what is Active is a record or an alias of
a client, listed under its address. When all is quiet, exactly the records and aliases of the
clients that are connected are Active. -/
theorem clients_listed {limits : SessionConfig} {cfg : CFConfig} (usable : cfg.Usable)
    (apart : cfg.NamesApart) {startEnv : Env} {cfProperties : List String} {setup : Setup}
    {registered : List String}
    (started : setupCfProperties cfg startEnv cfProperties = .ok (setup, registered))
    {nameMatches : String → String → Bool} {sites : Nat → Site}
    (addresses : Function.Injective fun i => (sites i).iocid)
    (named : ∀ i, iocNameConverts
      (uploadIoc cfg (sites i).upload (sites i).host (sites i).port "").iocName = true)
    {s : Store} (inactive : ∀ n e, s.get? n = some e → ¬ e.Active)
    (foreign : ∀ n e, s.get? n = some e → ∀ i, ¬ e.has .iocId (sites i).iocid)
    (few : ∀ i, (sites i).names.length ≤ cfg.cfQueryLimit) (events : List FleetEvent) :
    Directory cfg sites
      ((Fleet.start sites ⟨{}, s⟩).run (cfg.queries nameMatches) limits cfg setup sites
        events) := by
  obtain ⟨done, committed⟩ := @Fleet.run_committed limits cfg setup sites s nameMatches addresses
    named inactive foreign few events
  exact committed.directory usable (setupCfProperties_apart apart started) addresses

section Idle

variable {queries : ChannelFinderAdapter} {limits : SessionConfig} {cfg : CFConfig} {setup : Setup}
  {sites : Nat → Site}

def FleetEvent.client : FleetEvent → Option Nat
  | .sends i | .reads i | .arrives i _ | .expires i | .drops i => some i
  | .commits _ => none

/-- The connection of a client that does nothing stays as it is. -/
theorem Fleet.run_idle {i : Nat} {events : List FleetEvent}
    (idle : ∀ e ∈ events, e.client ≠ some i) (f : Fleet) :
    (f.run queries limits cfg setup sites events).wires i = f.wires i := by
  have link (g : Fleet) (j : Nat) (other : some j ≠ some i) (clock : Clock) (e : LinkEvent) :
      (g.onLink queries limits cfg setup sites j clock e).wires i = g.wires i := by
    rw [Fleet.onLink]
    split
    · rfl
    · exact Function.update_of_ne (fun same => other (congrArg some same.symm)) ..
  induction events generalizing f with
  | nil => rfl
  | cons e rest ih =>
    have here := idle e List.mem_cons_self
    refine (ih (fun d member => idle d (List.mem_cons_of_mem e member)) _).trans ?_
    cases e with
    | sends j => exact link f j here _ _
    | reads j => exact link f j here _ _
    | arrives j clock => exact link f j here _ _
    | expires j => exact link f j here _ _
    | drops j =>
      rw [Fleet.step]
      split
      · rfl
      · exact Function.update_of_ne (fun same => here (congrArg some same.symm)) ..
    | commits env => rfl

end Idle

/-- Clients with the same database and hosts of their own. -/
def pumpSite (i : Nat) : Site where
  host := String.ofList (List.replicate i 'x')
  port := 40001
  serverKey := 5
  database := pumpDatabase
  small := by decide
  range _ := Nat.two_pow_pos 32
  passes _ := rfl

theorem pumpSite_addresses : Function.Injective fun i => (pumpSite i).iocid := by
  intro i j same
  have lengths := congrArg String.length same
  simpa [Site.iocid, iocidOf, pumpSite] using lengths

theorem pumpSite_few (i : Nat) : (pumpSite i).names.length ≤ (pagesOf 10000).cfQueryLimit := by
  have few : (pumpDatabase.upload.records.flatMap Recast.UploadRecord.names).length ≤ 10000 := by
    decide +kernel
  exact Int.ofNat_le.mpr few

theorem pumpSite_named (i : Nat) : iocNameConverts (uploadIoc (pagesOf 10000)
    (pumpSite i).upload (pumpSite i).host (pumpSite i).port "").iocName = true := by
  show iocNameConverts (orElse (pumpDatabase.upload.clientInfos.get? "IOCNAME")
    (toString 40001)) = true
  decide +kernel

/-- One client uploads its database, another one is lost in the middle of its own upload. -/
def lostUpload : List FleetEvent :=
  [.sends 0, .reads 0] ++ List.replicate 6 (.sends 0) ++ [.sends 1, .reads 1, .sends 1, .sends 1] ++
    List.replicate 14 (.arrives 0 {}) ++ List.replicate 5 (.arrives 1 {}) ++
    [.drops 1, .commits {}, .commits {}]

theorem clients_listed_lost :
    ∃ setup registered, setupCfProperties (pagesOf 10000) {} [] = .ok (setup, registered) ∧
      ∃ e, ((Fleet.start pumpSite {}).run ((pagesOf 10000).queries (· == ·)) {} (pagesOf 10000)
          setup pumpSite lostUpload).server.world.store.get? "TEST:pump" = some e ∧ e.Active := by
  have started : setupCfProperties (pagesOf 10000) {} [] = .ok (_, _) := rfl
  refine ⟨_, _, started, ?_⟩
  have listed := @clients_listed {} (pagesOf 10000) ⟨by decide, by decide⟩
    (namesApart_of_plain rfl rfl) {} [] _ _ started (· == ·) pumpSite pumpSite_addresses
    pumpSite_named {} (by simp) (by simp) pumpSite_few lostUpload
  generalize reached : (Fleet.start pumpSite ⟨{}, {}⟩).run ((pagesOf 10000).queries (· == ·)) {}
    (pagesOf 10000) _ pumpSite lostUpload = f at listed
  have online : f.Online 0 := by
    have all : (f.wires 0).lost = false ∧ (f.link 0).todo.isEmpty = true ∧
        (f.link 0).keepalive.toServer.isEmpty = true := by
      rw [← reached]
      decide +kernel
    refine ⟨all.1, List.isEmpty_iff.mp all.2.1, ?_⟩
    rw [List.isEmpty_iff.mp all.2.2]
    simp
  have quiet : f.Quiet := by
    have empty : f.server.queue.isEmpty = true ∧ (f.wires 1).lost = true := by
      rw [← reached]
      decide +kernel
    refine ⟨List.isEmpty_iff.mp empty.1, ?_⟩
    intro i
    rcases i with _ | _ | n
    · exact Or.inl online
    · exact Or.inr (Or.inl empty.2)
    · refine Or.inr (Or.inr ?_)
      rw [← reached, Fleet.run_idle]
      · rfl
      · have few : ∀ e ∈ lostUpload, e.client.all (fun i => decide (i < 2)) = true := by
          decide +kernel
        intro e member same
        have bound := few e member
        simp only [same, Option.all_some, decide_eq_true_eq] at bound
        omega
  have lists : (pumpSite 0).Lists (pagesOf 10000) "TEST:pump" := by
    have known : (⟨pumpNodes, by decide⟩, pumpNodes.head (by decide)) ∈ pumpDatabase.records :=
      List.mem_cons_self
    exact ⟨_, known, _, List.mem_cons_self, by decide +kernel⟩
  exact (listed.listed quiet "TEST:pump").mpr ⟨0, online, lists⟩

end Recsync.System
