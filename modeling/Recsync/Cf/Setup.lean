import Recsync.Cf.Model
import Mathlib.Data.List.Dedup

set_option autoImplicit false

namespace Recsync.Cf

open Py (Error)

/-- The set comprehension over `info_tags`: words, without commas and blanks around them. -/
def infoTagNames (cfg : CFConfig) : List String :=
  ((Py.Text.splitSpaces cfg.infoTags.toList).map fun word =>
    String.ofList (Py.Text.strip (fun c => c == ',' || c == ' ') word)).dedup

/-- One `NAME: property` item; without a colon the unpacking raises. -/
def parseEnvVar (item : List Char) : Except Error (String × String) :=
  match Py.Text.splitOnce? ':' item with
  | none => .error .valueError
  | some (k, v) =>
    .ok (String.ofList (Py.Text.strip Py.Text.isSpace k),
      String.ofList (Py.Text.strip Py.Text.isSpace v))

/-- The dictionary comprehension over `environment_variables`. -/
def parseEnvVars (cfg : CFConfig) : Except Error (Py.Dict String String) :=
  if cfg.environmentVariables = "" then .ok ∅
  else do
    let items ← (cfg.environmentVariables.toList.splitOn ',').mapM parseEnvVar
    return items.foldl (fun d item => d.set item.1 item.2) ∅

/-- The property names of the IOC itself, which every channel gets. -/
def iocPropertyNames : List CFPropertyName :=
  [.hostname, .iocName, .iocId, .iocIp, .pvStatus, .time, .recceiverId]

/-- `required_properties` of `_setup_cf_properties`. -/
def requiredProperties (cfg : CFConfig) (configured : Py.Dict String String) : List String :=
  iocPropertyNames.map CFPropertyName.value ++
    (if cfg.aliasEnabled then [CFPropertyName.aliasFor.value] else []) ++
    (if cfg.recordTypeEnabled then [CFPropertyName.recordType.value] else []) ++
    configured.values ++
    (if cfg.iocConnectionInfo then
      [CFPropertyName.caPort.value, CFPropertyName.pvaPort.value] else [])

def envVarsOf (cfg : CFConfig) (configured : Py.Dict String String) : Py.Dict String String :=
  if cfg.iocConnectionInfo then
    (configured.set "RSRV_SERVER_PORT" "caPort").set "PVAS_SERVER_PORT" "pvaPort"
  else configured

def recordPropertyNames (cfg : CFConfig) : List String :=
  if cfg.recordDescriptionEnabled then (infoTagNames cfg).insert CFPropertyName.recordDesc.value
  else infoTagNames cfg

/-- `_setup_cf_properties`: what it caches, and the names that it registers with
`set_property` because ChannelFinder does not have them yet. -/
def setupCfProperties (cfg : CFConfig) (env : Env) (cfProperties : List String) :
    Except Error (Setup × List String) := do
  let configured ← parseEnvVars cfg
  let managed := (requiredProperties cfg configured ++ recordPropertyNames cfg).dedup
  return ({ envVars := envVarsOf cfg configured
            recordPropertyNamesList := env.setOrder (recordPropertyNames cfg)
            managedProperties := managed },
    env.setOrder (managed.filter fun name => decide (name ∉ cfProperties)))

/-- The names under which the configuration stores info tags and environment variables. -/
def configuredNames (cfg : CFConfig) (configured : Py.Dict String String) : List String :=
  infoTagNames cfg ++ configured.values

/-- The configured names differ from the names that the processor uses itself. -/
def CFConfig.NamesApart (cfg : CFConfig) : Prop :=
  ∀ configured, parseEnvVars cfg = .ok configured →
    ∀ name ∈ configuredNames cfg configured, ∀ p : CFPropertyName, name ≠ p.value

/-- What the setup leads to: no tag and no environment variable is stored under `iocid`. -/
structure Setup.Apart (setup : Setup) : Prop where
  tags : ∀ tag ∈ setup.recordPropertyNamesList, tag ≠ CFPropertyName.iocId.value
  vars : ∀ var ∈ setup.envVars.entries, var.2 ≠ CFPropertyName.iocId.value

theorem setupCfProperties_ok {cfg : CFConfig} {env : Env} {cfProperties : List String}
    {setup : Setup} {registered : List String}
    (done : setupCfProperties cfg env cfProperties = .ok (setup, registered)) :
    ∃ configured, parseEnvVars cfg = .ok configured ∧
      setup.envVars = envVarsOf cfg configured ∧
      setup.recordPropertyNamesList = env.setOrder (recordPropertyNames cfg) ∧
      setup.managedProperties =
        (requiredProperties cfg configured ++ recordPropertyNames cfg).dedup := by
  unfold setupCfProperties at done
  cases parsed : parseEnvVars cfg with
  | error e => simp [parsed, bind, Except.bind] at done
  | ok configured =>
    simp only [parsed, bind, Except.bind, pure, Except.pure, Except.ok.injEq, Prod.mk.injEq] at done
    exact ⟨configured, rfl, by rw [← done.1], by rw [← done.1], by rw [← done.1]⟩

theorem mem_envVarsOf {cfg : CFConfig} {configured : Py.Dict String String} {var : String × String}
    (member : var ∈ (envVarsOf cfg configured).entries) :
    var ∈ configured.entries ∨ cfg.iocConnectionInfo = true ∧
      (var = ("RSRV_SERVER_PORT", "caPort") ∨ var = ("PVAS_SERVER_PORT", "pvaPort")) := by
  unfold envVarsOf at member
  split at member
  · rename_i enabled
    rw [Py.Dict.mem_entries_set] at member
    rcases member with pva | ⟨-, earlier⟩
    · exact Or.inr ⟨enabled, Or.inr pva⟩
    · rcases (Py.Dict.mem_entries_set _ _ _ _).mp earlier with ca | ⟨-, inside⟩
      · exact Or.inr ⟨enabled, Or.inl ca⟩
      · exact Or.inl inside
  · exact Or.inl member

theorem mem_recordPropertyNames {cfg : CFConfig} {tag : String}
    (member : tag ∈ recordPropertyNames cfg) :
    tag ∈ infoTagNames cfg ∨ tag = CFPropertyName.recordDesc.value := by
  unfold recordPropertyNames at member
  split at member
  · exact (List.mem_insert_iff.mp member).symm
  · exact Or.inl member

theorem setupCfProperties_apart {cfg : CFConfig} (apart : cfg.NamesApart) {env : Env}
    {cfProperties : List String} {setup : Setup} {registered : List String}
    (done : setupCfProperties cfg env cfProperties = .ok (setup, registered)) : setup.Apart := by
  obtain ⟨configured, parsed, vars, tags, -⟩ := setupCfProperties_ok done
  have named := apart configured parsed
  constructor
  · intro tag member
    rw [tags, (env.setOrder_perm _).mem_iff] at member
    rcases mem_recordPropertyNames member with plain | rfl
    · exact named tag (List.mem_append_left _ plain) .iocId
    · decide
  · intro var member
    rw [vars] at member
    rcases mem_envVarsOf member with plain | ⟨-, rfl | rfl⟩
    · exact named var.2 (List.mem_append_right _ (List.mem_map_of_mem plain)) .iocId
    · decide
    · decide

theorem setupCfProperties_managed {cfg : CFConfig} {env : Env} {cfProperties : List String}
    {setup : Setup} {registered : List String}
    (done : setupCfProperties cfg env cfProperties = .ok (setup, registered))
    {p : CFPropertyName} (builtin : p ∈ iocPropertyNames) : p.value ∈ setup.managedProperties := by
  obtain ⟨configured, -, -, -, managed⟩ := setupCfProperties_ok done
  rw [managed, List.mem_dedup]
  simp only [requiredProperties, List.append_assoc]
  exact List.mem_append_left _ (List.mem_map_of_mem builtin)

theorem setupCfProperties_alias {cfg : CFConfig} {env : Env} {cfProperties : List String}
    {setup : Setup} {registered : List String}
    (done : setupCfProperties cfg env cfProperties = .ok (setup, registered))
    (enabled : cfg.aliasEnabled = true) :
    CFPropertyName.aliasFor.value ∈ setup.managedProperties := by
  obtain ⟨configured, -, -, -, managed⟩ := setupCfProperties_ok done
  rw [managed, List.mem_dedup]
  simp [requiredProperties, enabled]

/-- Every name under which a commit writes a property is managed. -/
structure Setup.Covers (cfg : CFConfig) (setup : Setup) : Prop where
  ioc : ∀ p ∈ iocPropertyNames, p.value ∈ setup.managedProperties
  aliasFor : cfg.aliasEnabled = true → CFPropertyName.aliasFor.value ∈ setup.managedProperties
  recordType : cfg.recordTypeEnabled = true →
    CFPropertyName.recordType.value ∈ setup.managedProperties
  tags : ∀ tag ∈ setup.recordPropertyNamesList, tag ∈ setup.managedProperties
  vars : ∀ var ∈ setup.envVars.entries, var.2 ∈ setup.managedProperties

theorem setupCfProperties_covers {cfg : CFConfig} {env : Env} {cfProperties : List String}
    {setup : Setup} {registered : List String}
    (done : setupCfProperties cfg env cfProperties = .ok (setup, registered)) :
    setup.Covers cfg := by
  obtain ⟨configured, -, vars, tags, managed⟩ := setupCfProperties_ok done
  constructor
  · intro p builtin
    exact setupCfProperties_managed done builtin
  · exact setupCfProperties_alias done
  · intro enabled
    rw [managed, List.mem_dedup]
    simp [requiredProperties, enabled]
  · intro tag member
    rw [tags, (env.setOrder_perm _).mem_iff] at member
    rw [managed, List.mem_dedup]
    exact List.mem_append_right _ member
  · intro var member
    rw [vars] at member
    rw [managed, List.mem_dedup]
    rcases mem_envVarsOf member with inside | ⟨enabled, rfl | rfl⟩
    · have value : var.2 ∈ configured.values := List.mem_map_of_mem inside
      simp [requiredProperties, value]
    · simp [requiredProperties, enabled, CFPropertyName.value]
    · simp [requiredProperties, enabled, CFPropertyName.value]

/-- The names of info tags and environment variables and the names that the processor uses
itself are pairwise distinct. -/
structure CFConfig.NamesDistinct (cfg : CFConfig) : Prop where
  apart : cfg.NamesApart
  nodup : ∀ configured, parseEnvVars cfg = .ok configured → (configuredNames cfg configured).Nodup

/-- The names that no info tag and no environment variable has. -/
def reservedNames : List CFPropertyName := iocPropertyNames ++ [.recordType, .aliasFor]

/-- What the setup leads to when the configured names are distinct. -/
structure Setup.Distinct (setup : Setup) : Prop where
  tags : setup.recordPropertyNamesList.Nodup
  vars : (setup.envVars.entries.map Prod.snd).Nodup
  between : ∀ tag ∈ setup.recordPropertyNamesList, ∀ var ∈ setup.envVars.entries, tag ≠ var.2
  tagsApart : ∀ tag ∈ setup.recordPropertyNamesList, ∀ p ∈ reservedNames, tag ≠ p.value
  varsApart : ∀ var ∈ setup.envVars.entries, ∀ p ∈ reservedNames, var.2 ≠ p.value

theorem recordPropertyNames_nodup (cfg : CFConfig) : (recordPropertyNames cfg).Nodup := by
  have tags : (infoTagNames cfg).Nodup := List.nodup_dedup _
  unfold recordPropertyNames
  split
  · exact tags.insert
  · exact tags

/-- Two variables are stored under different names. -/
theorem envVarsOf_nodup {cfg : CFConfig} (distinct : cfg.NamesDistinct)
    {configured : Py.Dict String String} (parsed : parseEnvVars cfg = .ok configured) :
    ((envVarsOf cfg configured).entries.map Prod.snd).Nodup := by
  have named := distinct.apart configured parsed
  have values : (configured.entries.map Prod.snd).Nodup :=
    (List.nodup_append.mp (distinct.nodup configured parsed)).2.1
  have fresh : ∀ var ∈ configured.entries, var.2 ≠ "caPort" ∧ var.2 ≠ "pvaPort" := by
    intro var member
    have listed : var.2 ∈ configuredNames cfg configured :=
      List.mem_append_right _ (List.mem_map_of_mem member)
    exact ⟨named var.2 listed .caPort, named var.2 listed .pvaPort⟩
  have entries : (envVarsOf cfg configured).entries.Nodup :=
    (envVarsOf cfg configured).nodup.of_map _
  refine List.Nodup.map_on ?_ entries
  intro x xMember y yMember same
  rcases mem_envVarsOf xMember with xInside | ⟨-, rfl | rfl⟩
  · rcases mem_envVarsOf yMember with yInside | ⟨-, rfl | rfl⟩
    · exact List.inj_on_of_nodup_map values xInside yInside same
    · exact absurd same (fresh x xInside).1
    · exact absurd same (fresh x xInside).2
  · rcases mem_envVarsOf yMember with yInside | ⟨-, rfl | rfl⟩
    · exact absurd same.symm (fresh y yInside).1
    · rfl
    · exact absurd same (by decide)
  · rcases mem_envVarsOf yMember with yInside | ⟨-, rfl | rfl⟩
    · exact absurd same.symm (fresh y yInside).2
    · exact absurd same (by decide)
    · rfl

theorem setupCfProperties_distinct {cfg : CFConfig} (distinct : cfg.NamesDistinct) {env : Env}
    {cfProperties : List String} {setup : Setup} {registered : List String}
    (done : setupCfProperties cfg env cfProperties = .ok (setup, registered)) : setup.Distinct := by
  obtain ⟨configured, parsed, vars, tags, -⟩ := setupCfProperties_ok done
  have named := distinct.apart configured parsed
  have listed : ∀ tag ∈ setup.recordPropertyNamesList,
      tag ∈ infoTagNames cfg ∨ tag = CFPropertyName.recordDesc.value := by
    intro tag member
    rw [tags, (env.setOrder_perm _).mem_iff] at member
    exact mem_recordPropertyNames member
  have mapped : ∀ var ∈ setup.envVars.entries,
      var.2 ∈ configured.values ∨ var.2 = "caPort" ∨ var.2 = "pvaPort" := by
    intro var member
    rw [vars] at member
    rcases mem_envVarsOf member with inside | ⟨-, rfl | rfl⟩
    · exact Or.inl (List.mem_map_of_mem inside)
    · exact Or.inr (Or.inl rfl)
    · exact Or.inr (Or.inr rfl)
  have tagNamed : ∀ tag ∈ infoTagNames cfg, ∀ p : CFPropertyName, tag ≠ p.value :=
    fun tag inside => named tag (List.mem_append_left _ inside)
  have varNamed : ∀ var ∈ configured.values, ∀ p : CFPropertyName, var ≠ p.value :=
    fun var inside => named var (List.mem_append_right _ inside)
  refine ⟨?_, by rw [vars]; exact envVarsOf_nodup distinct parsed, ?_, ?_, ?_⟩
  · rw [tags, (env.setOrder_perm _).nodup_iff]
    exact recordPropertyNames_nodup cfg
  · intro tag tagMember var varMember same
    rcases listed tag tagMember with inside | rfl
    · rcases mapped var varMember with value | ca | pva
      · exact (List.nodup_append.mp (distinct.nodup configured parsed)).2.2 tag inside
          var.2 value same
      · exact tagNamed tag inside .caPort (same.trans ca)
      · exact tagNamed tag inside .pvaPort (same.trans pva)
    · rcases mapped var varMember with value | ca | pva
      · exact varNamed var.2 value .recordDesc same.symm
      · rw [ca] at same
        exact absurd same (by decide)
      · rw [pva] at same
        exact absurd same (by decide)
  · intro tag member p reserved
    rcases listed tag member with inside | rfl
    · exact tagNamed tag inside p
    · revert p
      decide
  · intro var member p reserved
    rcases mapped var member with value | ca | pva
    · exact varNamed var.2 value p
    · rw [ca]
      revert p
      decide
    · rw [pva]
      revert p
      decide

end Recsync.Cf
