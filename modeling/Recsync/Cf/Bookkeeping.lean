import Mathlib.Logic.Function.Basic
import Recsync.Cf.Model

set_option autoImplicit false

namespace Recsync.Cf

open Py (Program)

/-- What `channel_ioc_ids` is indexed with: PV names, and the record ids that a
transaction carries in `records_to_delete`. -/
inductive Key where
  | name (n : String)
  | id (r : Nat)
  deriving DecidableEq, Repr

/-- The mutable part of `CFProcessor`. The two default dictionaries are partial
functions: a key that was only looked up is present with an empty value. -/
structure Processor where
  channelIocIds : Key → Option (List String) := fun _ => none
  iocs : String → Option IOCInfo := fun _ => none
  iocChannels : String → Option (Py.Set String) := fun _ => none
  running : Bool := true
  cancelled : Bool := false
  /-- the messages given to `log.error` -/
  errorLog : List String := []

namespace Processor

/-- The list under a key; empty for an absent key. -/
def ids (p : Processor) (k : Key) : List String := (p.channelIocIds k).getD []

/-- The set under an iocid; empty for an absent iocid. -/
def channels (p : Processor) (iocid : String) : Py.Set String := (p.iocChannels iocid).getD ∅

def setIds (p : Processor) (k : Key) (l : Option (List String)) : Processor :=
  { p with channelIocIds := Function.update p.channelIocIds k l }

def setIoc (p : Processor) (iocid : String) (info : Option IOCInfo) : Processor :=
  { p with iocs := Function.update p.iocs iocid info }

def setChannels (p : Processor) (iocid : String) (names : Option (Py.Set String)) : Processor :=
  { p with iocChannels := Function.update p.iocChannels iocid names }

def logError (p : Processor) (message : String) : Processor :=
  { p with errorLog := p.errorLog ++ [message] }

end Processor

def whitelistedInfos (setup : Setup) (owner : String) (infos : Py.Dict String String) :
    List CFProperty :=
  setup.recordPropertyNamesList.filterMap fun tag =>
    (infos.get? tag).map fun value => ⟨tag, owner, value⟩

/-- `_apply_env_vars`: the properties that it appends to every record. -/
def applyEnvVars (setup : Setup) (owner : String) (t : Transaction) : List CFProperty :=
  setup.envVars.entries.filterMap fun var =>
    (t.clientInfos.get? var.1).map fun value => ⟨var.2, owner, value⟩

/-- The `RecordInfo` of one record id. The source fills it in four passes over the
dictionaries of the transaction; each pass changes one field of the record with that
id and ignores ids that are not being added. -/
def recordInfoOf (cfg : CFConfig) (setup : Setup) (owner : String) (t : Transaction)
    (recordId : Nat) (recordName recordType : String) : RecordInfo where
  pvName := recordName
  recordType := if cfg.recordTypeEnabled then some recordType else none
  infoProperties :=
    ((t.recordInfosToAdd.get? recordId).map (whitelistedInfos setup owner)).getD [] ++
      applyEnvVars setup owner t
  aliases := (t.aliases.get? recordId).getD []

def transactionToRecordInfos (cfg : CFConfig) (setup : Setup) (owner : String) (t : Transaction) :
    List RecordInfo :=
  t.recordsToAdd.entries.map fun e => recordInfoOf cfg setup owner t e.1 e.2.1 e.2.2

/-- `record_info_by_name`: later records with a name that was seen are skipped. -/
def recordInfoByName (infos : List RecordInfo) : Py.Dict String RecordInfo :=
  infos.foldl (fun d info => if info.pvName ∈ d.keys then d else d.set info.pvName info) ∅

/-- `x or y` on an optional string: an empty string counts as missing. -/
def orElse (x : Option String) (y : String) : String :=
  match x with
  | some v => if v = "" then y else v
  | none => y

/-- The `IOCInfo` that `_commit_with_thread` builds from the transaction. -/
def iocInfoOf (cfg : CFConfig) (env : Env) (t : Transaction) : IOCInfo where
  host := t.host
  hostname := orElse (t.clientInfos.get? "HOSTNAME") t.host
  iocName := orElse (t.clientInfos.get? "IOCNAME") (toString t.port)
  iocIp := t.host
  owner := orElse (t.clientInfos.get? cfg.envOwnerVariable)
    (orElse (t.clientInfos.get? "CF_USERNAME") cfg.username)
  time := env.now
  port := t.port

@[simp] theorem iocInfoOf_id (cfg : CFConfig) (env : Env) (t : Transaction) :
    (iocInfoOf cfg env t).id = t.iocid := rfl

/-- The records of a transaction as the commit hands them to the bookkeeping and to the push. -/
def recordsOf (cfg : CFConfig) (setup : Setup) (env : Env) (t : Transaction) :
    Py.Dict String RecordInfo :=
  recordInfoByName (transactionToRecordInfos cfg setup (iocInfoOf cfg env t).owner t)

section UpdateIocInfos

variable (cfg : CFConfig)

/-- The body shared by the record loop of `update_ioc_infos` and `_register_aliases`. -/
def registerChannel (iocid name : String) : Program Processor PUnit := fun p =>
  let addName (p : Processor) := p.setChannels iocid (some ((p.channels iocid).add name))
  if iocid ∈ p.ids (.name name) then .ok ⟨⟩ (addName p)
  else
    let p := p.setIds (.name name) (some (p.ids (.name name) ++ [iocid]))
    match p.iocs iocid with
    | none => .error .keyError p
    | some info =>
      .ok ⟨⟩ (addName (p.setIoc iocid (some { info with channelcount := info.channelcount + 1 })))

def registerAliases (aliases : List String) (iocid : String) : Program Processor PUnit :=
  aliases.forM (registerChannel iocid)

def removeChannel (record : Key) (iocid : String) : Program Processor PUnit := fun p =>
  if iocid ∉ p.ids record then .error .valueError (p.setIds record (some (p.ids record)))
  else
    let rest := (p.ids record).erase iocid
    let left := match record with
      | .name n => (p.channels iocid).discard n
      | .id _ => p.channels iocid
    let p := (p.setIds record (if rest = [] then none else some rest)).setChannels iocid (some left)
    match p.iocs iocid with
    | none => .ok ⟨⟩ p
    | some info =>
      let count := info.channelcount - 1
      let p := if count < 0 then p.logError ("Channel count negative: " ++ iocid) else p
      .ok ⟨⟩ (p.setIoc iocid (if count ≤ 0 then none else some { info with channelcount := count }))

def removeAliases (aliases : List String) (iocid : String) : Program Processor PUnit :=
  aliases.forM fun name => removeChannel (.name name) iocid

/-- The record loop of `update_ioc_infos`. -/
def registerRecords (iocid : String) (records : Py.Dict String RecordInfo) :
    Program Processor PUnit :=
  records.entries.forM fun e => do
    registerChannel iocid e.1
    if cfg.aliasEnabled then registerAliases e.2.aliases iocid

/-- One turn of the deletion loop of `update_ioc_infos`. The membership test already
creates the key. -/
def deleteRecord (iocid : String) (records : Py.Dict String RecordInfo) (record : Key) :
    Program Processor PUnit := do
  modify fun p => p.setIds record (some (p.ids record))
  if iocid ∈ (← get).ids record then
    removeChannel record iocid
    if cfg.aliasEnabled then
      match record with
      | .name n => removeAliases (((records.get? n).map RecordInfo.aliases).getD []) iocid
      | .id _ => pure ⟨⟩

/-- The keys that `update_ioc_infos` deletes: it extends the list of its caller, which
hands it on to the push. -/
def keysToDelete (env : Env) (t : Transaction) (iocid : String) (p : Processor) : List Key :=
  t.recordsToDelete.map Key.id ++
    if t.connected then [] else (env.setOrder (p.channels iocid).elems).map Key.name

/-- `update_ioc_infos`, with the extended deletion list as its result. -/
def updateIocInfos (env : Env) (t : Transaction) (ioc : IOCInfo)
    (records : Py.Dict String RecordInfo) : Program Processor (List Key) := do
  if t.initial then modify fun p => p.setIoc ioc.id (some ioc)
  let keys := keysToDelete env t ioc.id (← get)
  registerRecords cfg ioc.id records
  keys.forM (deleteRecord cfg ioc.id records)
  return keys

def evictIoc (env : Env) (iocid : String) : Program Processor PUnit := do
  (env.setOrder ((← get).channels iocid).elems).forM fun ch => removeChannel (.name ch) iocid
  modify fun p => (p.setIoc iocid none).setChannels iocid none

end UpdateIocInfos

end Recsync.Cf
