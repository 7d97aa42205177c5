import Mathlib.Logic.Function.Basic
import Recsync.Lib.Tables
import Recsync.Recast.Session

set_option autoImplicit false

/- The tables of the schema and `DBProcessor._commit`. The columns `rtype` and `rname` are the
ones that the statements call `record_type` and `record_name`. -/
namespace Recsync.Db

open Recast (Transaction)
open Tables (find upsert nextKey)

/-- What a column holds. -/
inductive Value where
  | integer (n : Int)
  | real (bits : UInt64)
  | text (s : String)
  deriving DecidableEq, Repr

structure ServerRow where
  id : Nat
  owner : Int
  hostname : String
  port : Nat
  deriving DecidableEq, Repr

/-- A row of `servinfo`, where the parent is the column `host`, or of `recinfo`, where it is
`rec`. -/
structure InfoRow where
  parent : Nat
  key : Value
  value : Value
  deriving DecidableEq, Repr

structure RecordRow where
  pkey : Nat
  id : Nat
  rtype : Value
  host : Nat
  deriving DecidableEq, Repr

structure NameRow where
  record : Nat
  rname : Value
  prim : Bool
  deriving DecidableEq, Repr

/-- The five tables, in the order of their rowids. -/
structure Database where
  server : List ServerRow := []
  servinfo : List InfoRow := []
  record : List RecordRow := []
  recordName : List NameRow := []
  recinfo : List InfoRow := []

inductive DbError where
  | keyError
  | typeError
  | notNull
  | unique
  | foreignKey
  deriving DecidableEq, Repr

/-- The settings of the processor, and what a column of the type STRING makes of a text. SQLite
gives such a column the affinity NUMERIC: a text that reads as a number is stored as a number. -/
structure DbConfig where
  mykey : Int
  stored : String → Value

def InfoRow.index (row : InfoRow) : Nat × Value := (row.parent, row.key)

def RecordRow.index (row : RecordRow) : Nat × Nat := (row.id, row.host)

def NameRow.index (row : NameRow) : Nat × Value := (row.record, row.rname)

def ServerRow.endpoint (row : ServerRow) : String × Nat × Int := (row.hostname, row.port, row.owner)

namespace Database

variable (db : Database)

def insertServer (hostname : String) (port : Nat) (owner : Int) : Database :=
  { db with server := db.server ++ [⟨nextKey (db.server.map ServerRow.id), owner, hostname, port⟩] }

/-- `SELECT id ... WHERE hostname=? AND port=? AND owner=?` and `fetchone`: the oldest of the
rows. -/
def selectServer (hostname : String) (port : Nat) (owner : Int) : Option Nat :=
  (find ServerRow.endpoint db.server (hostname, port, owner)).map ServerRow.id

/-- Delete rows of `record`, and by `ON DELETE CASCADE` what refers to them. -/
def deleteRecords (gone : RecordRow → Bool) : Database :=
  let pkeys := (db.record.filter gone).map RecordRow.pkey
  { db with
    record := db.record.filter fun row => !gone row
    recordName := db.recordName.filter fun row => decide (row.record ∉ pkeys)
    recinfo := db.recinfo.filter fun row => decide (row.parent ∉ pkeys) }

def deleteServer (id : Nat) (owner : Int) : Database :=
  let gone (row : ServerRow) : Bool := decide (row.id = id ∧ row.owner = owner)
  let ids := (db.server.filter gone).map ServerRow.id
  { db with
    server := db.server.filter fun row => !gone row
    servinfo := db.servinfo.filter fun row => decide (row.parent ∉ ids) }.deleteRecords
      fun row => decide (row.host ∈ ids)

/-- `INSERT OR REPLACE` into `servinfo` or `recinfo`. A parent that is NULL or not there is an
error also with `OR REPLACE`. -/
def replaceInfo (parents : List Nat) (rows : List InfoRow) (parent : Option Nat)
    (key value : Value) : Except DbError (List InfoRow) :=
  match parent with
  | none => .error .notNull
  | some p => if p ∈ parents then .ok (upsert InfoRow.index rows ⟨p, key, value⟩) else .error .foreignKey

def replaceServinfo (host : Nat) (key value : Value) : Except DbError Database := do
  let servinfo ← replaceInfo (db.server.map ServerRow.id) db.servinfo (some host) key value
  return { db with servinfo }

def deleteRecord (host id : Nat) : Database :=
  db.deleteRecords fun row => decide (row.host = host ∧ row.id = id)

def insertRecord (host id : Nat) (rtype : Value) : Except DbError Database :=
  if (find RecordRow.index db.record (id, host)).isSome then .error .unique
  else if host ∉ db.server.map ServerRow.id then .error .foreignKey
  else .ok { db with
    record := db.record ++ [⟨nextKey (db.record.map RecordRow.pkey), id, rtype, host⟩] }

/-- The subquery `SELECT pkey ... WHERE id=? AND host=?`. -/
def selectRecord (id host : Nat) : Option Nat :=
  (find RecordRow.index db.record (id, host)).map RecordRow.pkey

def insertName (host id : Nat) (rname : Value) (prim : Bool) : Except DbError Database :=
  match db.selectRecord id host with
  | none => .error .notNull
  | some pkey =>
    if (find NameRow.index db.recordName (pkey, rname)).isSome then .error .unique
    else .ok { db with recordName := db.recordName ++ [⟨pkey, rname, prim⟩] }

def replaceRecinfo (host id : Nat) (key value : Value) : Except DbError Database := do
  let recinfo ← replaceInfo (db.record.map RecordRow.pkey) db.recinfo (db.selectRecord id host) key value
  return { db with recinfo }

end Database

/-- The rows that `_commit` inserts as aliases: record id and name. -/
def aliasRows (t : Transaction) : List (Nat × String) :=
  t.aliases.entries.flatMap fun e => e.2.map fun name => (e.1, name)

/-- The rows that `_commit` inserts as infos of records: record id, key and value. -/
def recinfoRows (t : Transaction) : List (Nat × String × String) :=
  t.recordInfosToAdd.entries.flatMap fun e => e.2.entries.map fun info => (e.1, info)

/-- The statements of `_commit` for a client that is connected, in their order. -/
def commitRows (cfg : DbConfig) (srvid : Nat) (t : Transaction) (db : Database) :
    Except DbError Database := do
  let db ← t.clientInfos.entries.foldlM
    (fun db e => db.replaceServinfo srvid (cfg.stored e.1) (cfg.stored e.2)) db
  let db := (t.recordsToAdd.keys ++ t.recordsToDelete).foldl (fun db id => db.deleteRecord srvid id) db
  let db ← t.recordsToAdd.entries.foldlM
    (fun db e => db.insertRecord srvid e.1 (cfg.stored e.2.2)) db
  let db ← t.recordsToAdd.entries.foldlM
    (fun db e => db.insertName srvid e.1 (cfg.stored e.2.1) true) db
  let db ← (aliasRows t).foldlM (fun db e => db.insertName srvid e.1 (cfg.stored e.2) false) db
  (recinfoRows t).foldlM
    (fun db e => db.replaceRecinfo srvid e.1 (cfg.stored e.2.1) (cfg.stored e.2.2)) db

structure DBProcessor where
  db : Database := {}
  /-- source id to server id -/
  sources : Nat → Option Nat := fun _ => none

/-- The server row of the transaction; an initial transaction makes one. -/
def serverOf (cfg : DbConfig) (t : Transaction) (p : DBProcessor) :
    Except DbError (Nat × DBProcessor) :=
  if t.initial then
    let db := p.db.insertServer t.host t.port cfg.mykey
    match db.selectServer t.host t.port cfg.mykey with
    | none => .error .typeError
    | some srvid => .ok (srvid, ⟨db, Function.update p.sources t.srcid (some srvid)⟩)
  else
    match p.sources t.srcid with
    | none => .error .keyError
    | some srvid => .ok (srvid, p)

/-- `_commit`, run by `runInteraction`: an exception rolls the tables back, but not `sources`. -/
def commit (cfg : DbConfig) (t : Transaction) (p : DBProcessor) : Except DbError Unit × DBProcessor :=
  match serverOf cfg t p with
  | .error e => (.error e, p)
  | .ok (srvid, q) =>
    if t.connected = false then
      (.ok (), ⟨q.db.deleteServer srvid cfg.mykey, Function.update q.sources t.srcid none⟩)
    else
      match commitRows cfg srvid t q.db with
      | .ok db => (.ok (), { q with db })
      | .error e => (.error e, { q with db := p.db })

end Recsync.Db
