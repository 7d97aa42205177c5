import Recsync.Lib.Collections
import Recsync.Lib.Program
import Recsync.Lib.Text

set_option autoImplicit false

namespace Recsync.Cf

inductive PVStatus where
  | active
  | inactive
  deriving DecidableEq, Repr

def PVStatus.value : PVStatus → String
  | .active => "Active"
  | .inactive => "Inactive"

/-- `CFPropertyName`: the property names that the processor itself uses. -/
inductive CFPropertyName where
  | hostname
  | iocName
  | iocId
  | iocIp
  | pvStatus
  | time
  | recceiverId
  | aliasFor
  | recordType
  | recordDesc
  | caPort
  | pvaPort
  deriving DecidableEq, Repr

def CFPropertyName.value : CFPropertyName → String
  | .hostname => "hostName"
  | .iocName => "iocName"
  | .iocId => "iocid"
  | .iocIp => "iocIP"
  | .pvStatus => "pvStatus"
  | .time => "time"
  | .recceiverId => "recceiverID"
  | .aliasFor => "alias"
  | .recordType => "recordType"
  | .recordDesc => "recordDesc"
  | .caPort => "caPort"
  | .pvaPort => "pvaPort"

theorem CFPropertyName.value_injective : Function.Injective CFPropertyName.value := by
  intro a b same
  cases a <;> cases b <;> first | rfl | exact absurd same (by decide)

/-- A property as `as_dict` sends it: a missing value travels as the empty string. -/
structure CFProperty where
  name : String
  owner : String
  value : String
  deriving DecidableEq, Repr

/-- What ChannelFinder stores under a channel name. -/
structure CFEntry where
  owner : String
  properties : List CFProperty
  deriving DecidableEq, Repr

structure CFChannel extends CFEntry where
  name : String
  deriving DecidableEq, Repr

/-- Some property `p` of the entry has the value `v`. -/
def CFEntry.has (e : CFEntry) (p : CFPropertyName) (v : String) : Prop :=
  ∃ q ∈ e.properties, q.name = p.value ∧ q.value = v

instance (e : CFEntry) (p : CFPropertyName) (v : String) : Decidable (e.has p v) :=
  inferInstanceAs (Decidable (∃ q ∈ e.properties, q.name = p.value ∧ q.value = v))

def CFEntry.valueOf (e : CFEntry) (name : String) : Option String :=
  (e.properties.find? fun q => q.name == name).map CFProperty.value

def CFEntry.Active (e : CFEntry) : Prop := e.has .pvStatus PVStatus.active.value

instance (e : CFEntry) : Decidable e.Active :=
  inferInstanceAs (Decidable (e.has .pvStatus PVStatus.active.value))

structure IOCInfo where
  host : String
  hostname : String
  iocName : String
  iocIp : String
  owner : String
  time : String
  port : Nat
  channelcount : Int := 0
  deriving DecidableEq, Repr

/-- The primary key of an IOC, `host:port`. -/
def iocidOf (host : String) (port : Nat) : String := host ++ ":" ++ toString port

def IOCInfo.id (i : IOCInfo) : String := iocidOf i.host i.port

structure RecordInfo where
  pvName : String
  recordType : Option String := none
  infoProperties : List CFProperty := []
  aliases : List String := []
  deriving DecidableEq, Repr

/-- `ITransaction`, with the endpoint of the connection split into host and port. -/
structure Transaction where
  host : String
  port : Nat
  connected : Bool := true
  initial : Bool := false
  /-- record id to name and type -/
  recordsToAdd : Py.Dict Nat (String × String) := ∅
  clientInfos : Py.Dict String String := ∅
  recordInfosToAdd : Py.Dict Nat (Py.Dict String String) := ∅
  aliases : Py.Dict Nat (List String) := ∅
  recordsToDelete : List Nat := []

def Transaction.iocid (t : Transaction) : String := iocidOf t.host t.port

/-- `CFConfig`, less the connection data of the HTTP client and the settings of the
status log. -/
structure CFConfig where
  aliasEnabled : Bool := false
  recordTypeEnabled : Bool := false
  environmentVariables : String := ""
  infoTags : String := ""
  iocConnectionInfo : Bool := true
  recordDescriptionEnabled : Bool := false
  cleanOnStart : Bool := true
  cleanOnStop : Bool := true
  username : String := "cfstore"
  envOwnerVariable : String := "ENGINEER"
  recceiverId : String
  cfQueryLimit : Int := 10000
  pushMaxRetries : Int := 10
  pushAlwaysRetry : Bool := false

/-- What `_setup_cf_properties` caches on the processor. -/
structure Setup where
  envVars : Py.Dict String String := ∅
  recordPropertyNamesList : List String := []
  managedProperties : List String := []

/-- The choices that Python and the service leave open in one commit: the clock, the
order in which a set is iterated and the order in which ChannelFinder lists its
answers. -/
structure Env where
  now : String := ""
  setOrder : List String → List String := id
  replyOrder : List CFChannel → List CFChannel := id
  setOrder_perm : ∀ l, (setOrder l).Perm l := by intro l; exact List.Perm.refl l
  replyOrder_perm : ∀ l, (replyOrder l).Perm l := by intro l; exact List.Perm.refl l

end Recsync.Cf
