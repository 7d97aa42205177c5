import Recsync.Client.Database
import Recsync.Lib.Additions

set_option autoImplicit false

/- The names that the shell commands add to the lists of the caster: `castinit.c`. -/
namespace Recsync.Client.Configure

open Additions Bytes

inductive CasterState where
  | init
  | listen
  | connect
  | upload
  | done
  deriving DecidableEq, Repr

/-- What the commands read and write of a `caster_t`, and the messages in the error log. -/
structure Configured where
  current : CasterState := .init
  shutdown : Bool := false
  envs : List CString := []
  excludePatterns : List CString := []
  errlog : List (List UInt8) := []

/-- The `ELLLIST` of a `caster_t` that a call extends. -/
inductive NameList where
  | envs
  | excludePatterns
  deriving DecidableEq, Repr

def Configured.names (self : Configured) : NameList → List CString
  | .envs => self.envs
  | .excludePatterns => self.excludePatterns

def Configured.setNames (self : Configured) (names : List CString) : NameList → Configured
  | .envs => { self with envs := names }
  | .excludePatterns => { self with excludePatterns := names }

def Configured.print (self : Configured) (msg : List UInt8) : Configured :=
  { self with errlog := self.errlog ++ [msg] }

/-- A round of the loop in `addToReccasterLinkedList`. -/
def addItem (reccastList : NameList) (funcName itemDesc : String) (self : Configured)
    (item : CString) : Configured :=
  if item.bytes = [] then self.print (encode ("Arg is empty for " ++ funcName ++ "\n"))
  else if item ∈ self.names reccastList then
    self.print (encode (itemDesc ++ " ") ++
      (item.bytes ++ encode (" already in list for " ++ funcName ++ "\n")))
  else self.setNames (self.names reccastList ++ [item]) reccastList

def addToReccasterLinkedList (self : Configured) (items : List CString) (reccastList : NameList)
    (funcName itemDesc : String) : Int × Configured :=
  if self.shutdown then (0, self)
  else if self.current ≠ .init then
    (-1, self.print (encode (funcName ++
      " called after iocInit() when reccaster might already be connected. Not supported\n")))
  else (0, items.foldl (addItem reccastList funcName itemDesc) self)

/-- The body of both commands. The first argument is the name of the command. -/
def addNames (self : Configured) (argv : List CString) (reccastList : NameList)
    (funcName itemDesc : String) : Int × Configured :=
  let argv := argv.drop 1
  if argv.length < 1 then
    (-1, self.print (encode ("At least one argument expected for " ++ funcName ++ "\n")))
  else addToReccasterLinkedList self argv reccastList funcName itemDesc

def addReccasterEnvVars (self : Configured) (argv : List CString) : Int × Configured :=
  addNames self argv .envs "addReccasterEnvVars" "Environment variable"

def addReccasterExcludePattern (self : Configured) (argv : List CString) : Int × Configured :=
  addNames self argv .excludePatterns "addReccasterExcludePattern" "Exclude pattern"

def literal (text : String) (noNul : (encode text).all (· != 0) = true) : CString where
  bytes := encode text
  noNul member := absurd (List.all_eq_true.mp noNul 0 member) (by decide)

def defaultEnvs : List CString :=
  [literal "HOSTNAME" (by decide +kernel), literal "EPICS_BASE" (by decide +kernel),
    literal "TOP" (by decide +kernel), literal "ARCH" (by decide +kernel),
    literal "IOC" (by decide +kernel), literal "EPICS_CA_ADDR_LIST" (by decide +kernel),
    literal "EPICS_CA_AUTO_ADDR_LIST" (by decide +kernel), literal "EPICS_CA_MAX_ARRAY_BYTES" (by decide +kernel),
    literal "RSRV_SERVER_PORT" (by decide +kernel), literal "PVAS_SERVER_PORT" (by decide +kernel),
    literal "PWD" (by decide +kernel), literal "EPICS_HOST_ARCH" (by decide +kernel),
    literal "IOCNAME" (by decide +kernel), literal "ENGINEER" (by decide +kernel),
    literal "LOCATION" (by decide +kernel)]

/-- `casterInit`, as far as it sets up the lists. -/
def casterInit : Configured :=
  (addToReccasterLinkedList {} defaultEnvs .envs "casterInit" "Default environment variable").2

/-- A call of one of the two commands. -/
inductive Command where
  | envVars (argv : List CString)
  | excludePattern (argv : List CString)

def Command.call (self : Configured) : Command → Int × Configured
  | .envVars argv => addReccasterEnvVars self argv
  | .excludePattern argv => addReccasterExcludePattern self argv

def Command.items (reccastList : NameList) : Command → List CString
  | .envVars argv => if reccastList = .envs then argv.drop 1 else []
  | .excludePattern argv => if reccastList = .excludePatterns then argv.drop 1 else []

def configure (self : Configured) (commands : List Command) : Configured :=
  commands.foldl (fun self command => (command.call self).2) self

/-- `items[i][0] != '\0'` -/
def nonEmpty (item : CString) : Bool := !item.bytes.isEmpty

section Lists

variable {self : Configured}

@[simp] theorem names_print (msg : List UInt8) (names : NameList) :
    (self.print msg).names names = self.names names := by
  cases names <;> rfl

theorem names_setNames (items : List CString) (changed names : NameList) :
    (self.setNames items changed).names names =
      if names = changed then items else self.names names := by
  cases changed <;> cases names <;> rfl

/-- A round leaves the state and the shutdown flag. -/
theorem addItem_keeps (names : NameList) (funcName itemDesc : String) (item : CString) :
    (addItem names funcName itemDesc self item).current = self.current ∧
      (addItem names funcName itemDesc self item).shutdown = self.shutdown := by
  rw [addItem]
  split
  · exact ⟨rfl, rfl⟩
  · split
    · exact ⟨rfl, rfl⟩
    · cases names <;> exact ⟨rfl, rfl⟩

theorem addItem_names (changed names : NameList) (funcName itemDesc : String) (item : CString) :
    (addItem changed funcName itemDesc self item).names names =
      if names = changed then extend nonEmpty (self.names changed) [item]
      else self.names names := by
  have unchanged : ∀ msg, (self.print msg).names names =
      if names = changed then self.names changed else self.names names := by
    intro msg
    rw [names_print]
    split
    · next same => rw [same]
    · rfl
  rw [addItem, extend]
  by_cases empty : item.bytes = []
  · have unwanted : nonEmpty item = false := by simp [nonEmpty, empty]
    rw [if_pos empty, if_pos unwanted, extend]
    exact unchanged _
  · have wanted : ¬ nonEmpty item = false := by simp [nonEmpty, empty]
    rw [if_neg empty, if_neg wanted]
    by_cases there : item ∈ self.names changed
    · rw [if_pos there, if_pos there, extend]
      exact unchanged _
    · rw [if_neg there, if_neg there, names_setNames, extend]

theorem addItems_names (changed names : NameList) (funcName itemDesc : String)
    (items : List CString) :
    (items.foldl (addItem changed funcName itemDesc) self).names names =
      if names = changed then extend nonEmpty (self.names changed) items
      else self.names names := by
  induction items generalizing self with
  | nil =>
    rw [List.foldl_nil, extend]
    split
    · next same => rw [same]
    · rfl
  | cons item rest ih =>
    rw [List.foldl_cons, ih, addItem_names, addItem_names]
    split
    · rw [if_pos rfl, ← extend_append, List.singleton_append]
    · rfl

theorem addItems_keeps (names : NameList) (funcName itemDesc : String) (items : List CString) :
    (items.foldl (addItem names funcName itemDesc) self).current = self.current ∧
      (items.foldl (addItem names funcName itemDesc) self).shutdown = self.shutdown := by
  induction items generalizing self with
  | nil => exact ⟨rfl, rfl⟩
  | cons item rest ih =>
    obtain ⟨current, shutdown⟩ := @addItem_keeps self names funcName itemDesc item
    rw [List.foldl_cons, ih.1, ih.2, current, shutdown]
    exact ⟨rfl, rfl⟩

end Lists

/-- The calls may still change the lists. -/
structure Open (caster : Configured) : Prop where
  current : caster.current = .init
  shutdown : caster.shutdown = false

section Commands

variable {self : Configured}

theorem addToReccasterLinkedList_open (ready : Open self) (items : List CString)
    (names : NameList) (funcName itemDesc : String) :
    addToReccasterLinkedList self items names funcName itemDesc =
      (0, items.foldl (addItem names funcName itemDesc) self) := by
  rw [addToReccasterLinkedList, ready.shutdown, if_neg (by decide),
    if_neg (not_not_intro ready.current)]

theorem addToReccasterLinkedList_closed (closed : self.current ≠ .init ∨ self.shutdown = true)
    (items : List CString) (changed names : NameList) (funcName itemDesc : String) :
    (addToReccasterLinkedList self items changed funcName itemDesc).2.names names =
      self.names names := by
  rw [addToReccasterLinkedList]
  split
  · rfl
  · next running =>
    have other : self.current ≠ .init := closed.resolve_right running
    rw [if_pos other, names_print]

theorem addNames_open (ready : Open self) (argv : List CString) (changed : NameList)
    (funcName itemDesc : String) : Open (addNames self argv changed funcName itemDesc).2 ∧
      ∀ names, (addNames self argv changed funcName itemDesc).2.names names =
        if names = changed then extend nonEmpty (self.names changed) (argv.drop 1)
        else self.names names := by
  rw [addNames]
  split
  · next none =>
    have empty : argv.drop 1 = [] := List.eq_nil_of_length_eq_zero (by omega)
    refine ⟨⟨ready.current, ready.shutdown⟩, fun names => ?_⟩
    rw [empty, extend, names_print]
    split
    · next same => rw [same]
    · rfl
  · rw [addToReccasterLinkedList_open ready]
    obtain ⟨current, shutdown⟩ := @addItems_keeps self changed funcName itemDesc (argv.drop 1)
    exact ⟨⟨current.trans ready.current, shutdown.trans ready.shutdown⟩,
      fun names => addItems_names changed names funcName itemDesc (argv.drop 1)⟩

theorem call_open (ready : Open self) (command : Command) : Open (command.call self).2 ∧
    ∀ names, (command.call self).2.names names =
      extend nonEmpty (self.names names) (command.items names) := by
  cases command with
  | envVars argv =>
    obtain ⟨still, changes⟩ := addNames_open ready argv .envs "addReccasterEnvVars"
      "Environment variable"
    refine ⟨still, fun names => ?_⟩
    rw [Command.call, addReccasterEnvVars, changes names]
    cases names <;> rfl
  | excludePattern argv =>
    obtain ⟨still, changes⟩ := addNames_open ready argv .excludePatterns
      "addReccasterExcludePattern" "Exclude pattern"
    refine ⟨still, fun names => ?_⟩
    rw [Command.call, addReccasterExcludePattern, changes names]
    cases names <;> rfl

theorem configure_names (ready : Open self) (commands : List Command) (names : NameList) :
    (configure self commands).names names =
      extend nonEmpty (self.names names) (commands.flatMap (Command.items names)) := by
  induction commands generalizing self with
  | nil => rfl
  | cons command rest ih =>
    obtain ⟨still, changes⟩ := call_open ready command
    rw [configure, List.foldl_cons, ← configure, ih still, changes, List.flatMap_cons,
      extend_append]

theorem call_closed (closed : self.current ≠ .init ∨ self.shutdown = true) (command : Command)
    (names : NameList) : (command.call self).2.names names = self.names names := by
  have unchanged : ∀ argv changed funcName itemDesc,
      (addNames self argv changed funcName itemDesc).2.names names = self.names names := by
    intro argv changed funcName itemDesc
    rw [addNames]
    split
    · rw [names_print]
    · exact addToReccasterLinkedList_closed closed _ changed names funcName itemDesc
  cases command with
  | envVars argv => exact unchanged argv _ _ _
  | excludePattern argv => exact unchanged argv _ _ _

end Commands

theorem casterInit_open : Open casterInit := by
  rw [casterInit, addToReccasterLinkedList_open ⟨rfl, rfl⟩]
  obtain ⟨current, shutdown⟩ :=
    @addItems_keeps {} .envs "casterInit" "Default environment variable" defaultEnvs
  exact ⟨current, shutdown⟩

/-- The lists that `casterInit` sets up. -/
def NameList.defaults : NameList → List CString
  | .envs => defaultEnvs
  | .excludePatterns => []

theorem casterInit_names (names : NameList) : casterInit.names names = names.defaults := by
  rw [casterInit, addToReccasterLinkedList_open ⟨rfl, rfl⟩, addItems_names]
  cases names with
  | envs => decide +kernel
  | excludePatterns => rfl

theorem defaults_nodup (names : NameList) : names.defaults.Nodup := by
  cases names with
  | envs => decide +kernel
  | excludePatterns => exact List.nodup_nil

/-- After any calls each list is its defaults and the new names in the order of the calls. -/
structure ListsInOrder (commands : List Command) (names : NameList) : Prop where
  appended : (configure casterInit commands).names names = names.defaults ++
    additions nonEmpty names.defaults (commands.flatMap (Command.items names))
  nodup : ((configure casterInit commands).names names).Nodup

section Split

variable {kind : List CString → Command} (command : kind = .envVars ∨ kind = .excludePattern)
include command

theorem items_append (funcName : CString) (first second : List CString) (names : NameList) :
    (kind (funcName :: (first ++ second))).items names =
      (kind (funcName :: first)).items names ++ (kind (funcName :: second)).items names := by
  cases command with
  | inl envVars =>
    rw [envVars]
    cases names <;> rfl
  | inr excludePattern =>
    rw [excludePattern]
    cases names <;> rfl

theorem items_flatten (funcName : CString) (parts : List (List CString)) (names : NameList) :
    (kind (funcName :: parts.flatten)).items names =
      (parts.map fun part => kind (funcName :: part)).flatMap (Command.items names) := by
  induction parts with
  | nil =>
    cases command with
    | inl envVars =>
      rw [envVars]
      cases names <;> rfl
    | inr excludePattern =>
      rw [excludePattern]
      cases names <;> rfl
  | cons part rest ih =>
    rw [List.flatten_cons, items_append command, ih, List.map_cons, List.flatMap_cons]

end Split

/-- The lists are in order, it makes no difference whether arguments are given in one call or in
several, and a call in another state or after the shutdown changes neither of them. -/
theorem names_listed : (∀ commands names, ListsInOrder commands names) ∧
    (∀ (before after : List Command) (kind : List CString → Command) (funcName : CString)
        (parts : List (List CString)) (names : NameList),
      (kind = Command.envVars ∨ kind = Command.excludePattern) →
      (configure casterInit (before ++ kind (funcName :: parts.flatten) :: after)).names names =
        (configure casterInit
          (before ++ (parts.map fun part => kind (funcName :: part)) ++ after)).names names) ∧
    ∀ self command names, (self.current ≠ .init ∨ self.shutdown = true) →
      (Command.call self command).2.names names = self.names names := by
  refine ⟨fun commands names => ?_, fun before after kind funcName parts names command => ?_,
    fun self command names closed => call_closed closed command names⟩
  · have listed := configure_names casterInit_open commands names
    rw [casterInit_names] at listed
    constructor
    · rw [listed, extend_eq]
    · rw [listed]
      exact extend_nodup (defaults_nodup names)
  · rw [configure_names casterInit_open, configure_names casterInit_open, List.flatMap_append,
      List.flatMap_cons, items_flatten command, List.flatMap_append, List.flatMap_append,
      List.append_assoc]

/-- A name that is given twice, once in a second call, and a call after the start. -/
theorem names_listed_twice :
    (configure casterInit [.envVars [⟨[65], by decide⟩, ⟨[66], by decide⟩, ⟨[66], by decide⟩]]).envs
        = (configure casterInit [.envVars [⟨[65], by decide⟩, ⟨[66], by decide⟩],
          .envVars [⟨[65], by decide⟩, ⟨[66], by decide⟩]]).envs ∧
      (Command.call { current := .listen } (.envVars [⟨[65], by decide⟩, ⟨[66], by decide⟩])).2.envs
        = [] :=
  ⟨names_listed.2.1 [] [] .envVars ⟨[65], by decide⟩
      [[⟨[66], by decide⟩], [⟨[66], by decide⟩]] .envs (Or.inl rfl),
    names_listed.2.2 { current := .listen } _ .envs (Or.inl nofun)⟩

end Recsync.Client.Configure
