import Recsync.Cf.Bookkeeping
import Recsync.Cf.Queries
import Recsync.Lib.Chunks

set_option autoImplicit false

namespace Recsync.Cf

open Py (Error)

def property (name : CFPropertyName) (owner value : String) : CFProperty :=
  ⟨name.value, owner, value⟩

def channel (name owner : String) (properties : List CFProperty) : CFChannel :=
  { name, owner, properties }

def createIocProperties (owner time recceiverid hostName iocName iocIp iocid : String) :
    List CFProperty :=
  [property .hostname owner hostName, property .iocName owner iocName,
    property .iocId owner iocid, property .iocIp owner iocIp,
    property .pvStatus owner PVStatus.active.value, property .time owner time,
    property .recceiverId owner recceiverid]

def mergePropertyLists (new : List CFProperty) (ch : CFEntry) (managed : List String) :
    List CFProperty :=
  new ++ ch.properties.filter fun old =>
    decide (old.name ∉ new.map CFProperty.name) && decide (old.name ∉ managed)

/-- The status and the time that the in-place updates write. -/
def statusProperties (ioc : IOCInfo) (status : PVStatus) : List CFProperty :=
  [property .pvStatus ioc.owner status.value, property .time ioc.owner ioc.time]

section Handle

variable (cfg : CFConfig) (setup : Setup) (p : Processor) (ioc : IOCInfo)
  (records : Py.Dict String RecordInfo)

/-- The aliases of a record of this commit, when aliases are handled at all. -/
def aliasesOf (name : String) : List String :=
  if cfg.aliasEnabled then ((records.get? name).map RecordInfo.aliases).getD [] else []

/-- `create_default_properties`: both lookups may fail. -/
def createDefaultProperties (name : String) : Except Error (List CFProperty) :=
  match (p.ids (.name name)).getLast? with
  | none => .error .indexError
  | some last =>
    match p.iocs last with
    | none => .error .keyError
    | some info =>
      .ok (createIocProperties ioc.owner ioc.time cfg.recceiverId info.hostname info.iocName
        info.iocIp info.id)

/-- The alias loop of `_handle_channel_is_old`, for one alias. An alias that is not
tracked, or whose last IOC is gone, is left alone. -/
def reassignAlias (defaults : List CFProperty) (name : String) : Except Error (List CFChannel) :=
  match p.channelIocIds (.name name) with
  | none => .ok []
  | some ids =>
    match ids.getLast? with
    | none => .error .indexError
    | some last =>
      match p.iocs last with
      | none => .ok []
      | some info =>
        .ok [channel name info.owner (mergePropertyLists defaults ⟨"", []⟩ setup.managedProperties)]

def handleChannelIsOld (cf : CFChannel) (last : IOCInfo) : Except Error (List CFChannel) := do
  let defaults ← createDefaultProperties cfg p ioc cf.name
  let own := channel cf.name last.owner
    (mergePropertyLists defaults cf.toCFEntry setup.managedProperties)
  let aliases ← (aliasesOf cfg records cf.name).mapM (reassignAlias setup p defaults)
  return own :: aliases.flatten

def orphanChannel (cf : CFChannel) : List CFChannel :=
  channel cf.name cf.owner
      (mergePropertyLists (statusProperties ioc .inactive) cf.toCFEntry []) ::
    (aliasesOf cfg records cf.name).map fun name =>
      channel name "" (mergePropertyLists (statusProperties ioc .inactive) ⟨"", []⟩ [])

/-- `alias_name in old_channels`: a name is compared with channel objects, which are
never equal to it. -/
def nameInChannels (_name : String) (_channels : List CFChannel) : Bool := false

/-- `new_channels.remove(name)`. -/
def removeNew (new : List String) (name : String) : Except Error (List String) :=
  if name ∈ new then .ok (new.erase name) else .error .keyError

/-- The alias loop of `_handle_channel_old_and_new`; `own` is the channel of the record,
already updated. -/
def handleAliasesOldAndNew (old : List CFChannel) (own : CFChannel) :
    List String → List String → Except Error (List String × List CFChannel)
  | [], new => .ok (new, [])
  | name :: rest, new => do
    let written :=
      if nameInChannels name old then
        channel name "" (mergePropertyLists (statusProperties ioc .active) ⟨"", []⟩
          setup.managedProperties)
      else
        channel name ioc.owner (mergePropertyLists
          (statusProperties ioc .active ++ [property .aliasFor ioc.owner own.name])
          own.toCFEntry setup.managedProperties)
    let new ← removeNew new name
    let (new, channels) ← handleAliasesOldAndNew old own rest new
    return (new, written :: channels)

def handleChannelOldAndNew (old : List CFChannel) (cf : CFChannel) (new : List String) :
    Except Error (List String × List CFChannel) := do
  let own := channel cf.name cf.owner
    (mergePropertyLists (statusProperties ioc .active) cf.toCFEntry setup.managedProperties)
  let new ← removeNew new cf.name
  let (new, channels) ←
    handleAliasesOldAndNew setup ioc old own (aliasesOf cfg records cf.name) new
  return (new, own :: channels)

/-- One turn of the loop of `_handle_channels`: what is left of `new_channels` and what
is appended to `channels`. -/
def handleChannel (del : List Key) (old : List CFChannel) (cf : CFChannel) (new : List String) :
    Except Error (List String × List CFChannel) :=
  if new = [] ∨ Key.name cf.name ∈ del then
    match p.channelIocIds (.name cf.name) with
    | none => .ok (new, orphanChannel cfg ioc records cf)
    | some ids =>
      match ids.getLast? with
      | none => .error .indexError
      | some last =>
        match p.iocs last with
        | none => .ok (new, orphanChannel cfg ioc records cf)
        | some info => do return (new, ← handleChannelIsOld cfg setup p ioc records cf info)
  else if cf.name ∈ new then handleChannelOldAndNew cfg setup ioc records old cf new
  else .ok (new, [])

def handleChannels (del : List Key) (old : List CFChannel) :
    List CFChannel → List String → Except Error (List String × List CFChannel)
  | [], new => .ok (new, [])
  | cf :: rest, new => do
    let (new, first) ← handleChannel cfg setup p ioc records del old cf new
    let (new, later) ← handleChannels del old rest new
    return (new, first ++ later)

end Handle

/-- An element of `channels`: a channel of its own, or one of the objects in
`existing_channels`, which later turns of the loop may still change. -/
inductive Pending where
  | fresh (ch : CFChannel)
  | existing (name : String)

/-- The state of the loop of `_process_new_channels`. -/
structure NewChannels where
  existing : Py.Dict String CFEntry
  pending : List Pending := []

section Process

variable (cfg : CFConfig) (setup : Setup) (ioc : IOCInfo) (records : Py.Dict String RecordInfo)

/-- The properties that the create and the move path write for a record. -/
def newProperties (name : String) : List CFProperty :=
  createIocProperties ioc.owner ioc.time cfg.recceiverId ioc.hostname ioc.iocName ioc.iocIp
      ioc.id ++
    match records.get? name with
    | none => []
    | some info =>
      (if cfg.recordTypeEnabled then
        match info.recordType with
        | none => []
        | some ty => if ty = "" then [] else [property .recordType ioc.owner ty]
      else []) ++ info.infoProperties

def aliasProperties (name : String) : List CFProperty :=
  property .aliasFor ioc.owner name :: newProperties cfg ioc records name

/-- Merge into an object of `existing_channels` and append it to `channels`. -/
def overwriteExisting (properties : List CFProperty) (name : String) (e : CFEntry)
    (st : NewChannels) : NewChannels where
  existing := st.existing.set name
    { e with properties := mergePropertyLists properties e setup.managedProperties }
  pending := st.pending ++ [.existing name]

def createFresh (properties : List CFProperty) (name : String) (st : NewChannels) : NewChannels :=
  { st with pending := st.pending ++ [.fresh (channel name ioc.owner properties)] }

/-- One alias of a record that moves. Only names that were looked up can be in
`existing_channels`. -/
def moveAlias (name : String) (st : NewChannels) (aliasName : String) : NewChannels :=
  match st.existing.get? aliasName with
  | some ach => overwriteExisting setup (aliasProperties cfg ioc records name) aliasName ach st
  | none => createFresh ioc (aliasProperties cfg ioc records name) aliasName st

def updateExistingChannelDiffIocid (name : String) (e : CFEntry) (st : NewChannels) :
    NewChannels :=
  (aliasesOf cfg records name).foldl (moveAlias cfg setup ioc records name)
    (overwriteExisting setup (newProperties cfg ioc records name) name e st)

def createAlias (name : String) (st : NewChannels) (aliasName : String) : NewChannels :=
  createFresh ioc (aliasProperties cfg ioc records name) aliasName st

def createNewChannel (name : String) (st : NewChannels) : NewChannels :=
  (aliasesOf cfg records name).foldl (createAlias cfg ioc records name)
    (createFresh ioc (newProperties cfg ioc records name) name st)

/-- One turn of the loop of `_process_new_channels`. -/
def processNewChannel (st : NewChannels) (name : String) : NewChannels :=
  match st.existing.get? name with
  | some e => updateExistingChannelDiffIocid cfg setup ioc records name e st
  | none => createNewChannel cfg ioc records name st

/-- The channel that an element of `channels` stands for once the loop has ended. -/
def NewChannels.resolve (st : NewChannels) : Pending → CFChannel
  | .fresh ch => ch
  | .existing name => { (st.existing.get? name).getD ⟨"", []⟩ with name }

/-- `_process_new_channels`, with the list that it appends to `channels`. -/
def processNewChannels (env : Env) (new : List String) (existing : Py.Dict String CFEntry) :
    List CFChannel :=
  let st := (env.setOrder new).foldl (processNewChannel cfg setup ioc records) { existing }
  st.pending.map st.resolve

end Process

def ChannelFinderAdapter.getExistingChannels (client : ChannelFinderAdapter) (env : Env) (s : Store)
    (new : List String) : Py.Dict String CFEntry :=
  (client.findByNames env s (env.setOrder new)).foldl (fun d ch => d.set ch.name ch.toCFEntry) ∅

/-- `_cf_set_chunked`: the batches that it passes to `set_channels`. A step of zero makes
`range` raise and a negative step makes it empty. -/
def cfSetChunked (cfg : CFConfig) (channels : List CFChannel) :
    Except Error (List (List CFChannel)) :=
  if cfg.cfQueryLimit = 0 then .error .valueError
  else if cfg.cfQueryLimit < 0 then .ok []
  else .ok (Py.chunks cfg.cfQueryLimit.toNat channels)

/-- The request of an attempt that raises `RequestException`. A `set_channels` request may
have been carried out for some of its channels before it failed. -/
inductive Fault where
  | findByIocId
  | findByNames
  | setChannels (written : Nat) (torn : List CFChannel → List CFChannel)
      (part : ∀ l, torn l ⊆ l)

def failsFindByIocId : Option Fault → Bool
  | some .findByIocId => true
  | _ => false

def failsFindByNames : Option Fault → Bool
  | some .findByNames => true
  | _ => false

section Push

variable (client : ChannelFinderAdapter) (cfg : CFConfig) (setup : Setup) (env : Env)
  (p : Processor)
  (records : Py.Dict String RecordInfo) (del : List Key) (ioc : IOCInfo)

/-- What `_update_channelfinder` writes after the first query: the names it looks up and the
channels that are already decided. -/
def reconcileOld (old : List CFChannel) : Except Error (List String × List CFChannel) :=
  handleChannels cfg setup p ioc records del old old records.keys

/-- The batches that `_update_channelfinder` writes after the second query. -/
def batches (old : List CFChannel) (new : List String) (handled : List CFChannel)
    (existing : Py.Dict String CFEntry) : Except Error (List (List CFChannel)) :=
  let channels := handled ++ processNewChannels cfg setup ioc records env new existing
  if channels = [] ∧ old = [] then .ok [] else cfSetChunked cfg channels

/-- The writes of an attempt, up to the fault if there is one. -/
def writeBatches (bs : List (List CFChannel)) (fault : Option Fault) (s : Store) :
    Except Error Unit × Store :=
  match fault with
  | some (.setChannels written torn _) =>
    match bs[written]? with
    | some batch =>
      (.error .requestException,
        setChannels (setChannels s (bs.take written).flatten) (torn batch))
    | none => (.ok (), setChannels s bs.flatten)
  | _ => (.ok (), setChannels s bs.flatten)

def ChannelFinderAdapter.updateChannelfinder (fault : Option Fault) (s : Store) :
    Except Error Unit × Store :=
  if p.cancelled then (.error .cancelledError, s)
  else if failsFindByIocId fault then (.error .requestException, s)
  else
    let old := client.findByIocId env s ioc.id
    match reconcileOld cfg setup p records del ioc old with
    | .error e => (.error e, s)
    | .ok (new, handled) =>
      -- without names there is no second request
      if failsFindByNames fault ∧ new ≠ [] then (.error .requestException, s)
      else
        match batches cfg setup env records ioc old new handled
            (client.getExistingChannels env s new) with
        | .error e => (.error e, s)
        | .ok bs => writeBatches bs fault s

/-- `_push_to_cf`. The attempts meet the given faults in turn; after the last of them
ChannelFinder answers again. -/
def ChannelFinderAdapter.pushToCf : List Fault → Int → Store → Except Error Bool × Store
  | faults, count, s =>
    if ¬ (cfg.pushAlwaysRetry = true ∨ count < cfg.pushMaxRetries) then (.ok false, s)
    else if ¬ p.running then (.ok false, s)
    else
      match faults with
      | [] =>
        match client.updateChannelfinder cfg setup env p records del ioc none s with
        | (.ok (), s') => (.ok true, s')
        | (.error e, s') => (.error e, s')
      | fault :: rest =>
        match client.updateChannelfinder cfg setup env p records del ioc (some fault) s with
        | (.ok (), s') => (.ok true, s')
        | (.error .requestException, s') => pushToCf rest (count + 1) s'
        | (.error e, s') => (.error e, s')

end Push

/-- The processor together with the service it writes to. -/
structure World where
  proc : Processor := {}
  store : Store := ∅

/-- The warning about numeric names converts a string that is all digits. -/
def iocNameConverts (name : String) : Bool :=
  !Py.Text.isdigit name.toList || (Py.Text.int? name.toList).isSome

/-- The end of `_commit_with_thread`: a push that was given up evicts the IOC, unless it
is gone anyway. -/
def finishCommit (env : Env) (t : Transaction) (p : Processor) :
    Except Error Bool × Store → Except Error Unit × World
  | (.ok true, s) => (.ok (), ⟨p, s⟩)
  | (.ok false, s) =>
    if t.connected then
      match evictIoc env t.iocid p with
      | .ok _ q => (.error .cancelledError, ⟨q, s⟩)
      | .error e q => (.error e, ⟨q, s⟩)
    else (.error .cancelledError, ⟨p, s⟩)
  | (.error e, s) => (.error e, ⟨p, s⟩)

def ChannelFinderAdapter.commitWithThread (client : ChannelFinderAdapter) (cfg : CFConfig)
    (setup : Setup) (env : Env) (faults : List Fault) (t : Transaction) (w : World) :
    Except Error Unit × World :=
  let ioc := iocInfoOf cfg env t
  let records := recordsOf cfg setup env t
  if ¬ w.proc.running then (.error .cancelledError, w)
  else if ¬ iocNameConverts ioc.iocName then (.error .valueError, w)
  else if t.connected = false ∧ w.proc.iocs ioc.id = none then (.ok (), w)
  else
    match updateIocInfos cfg env t ioc records w.proc with
    | .error e p => (.error e, { w with proc := p })
    | .ok del p =>
      finishCommit env t p (client.pushToCf cfg setup env p records del ioc faults 0 w.store)

end Recsync.Cf
