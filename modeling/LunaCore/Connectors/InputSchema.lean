import LunaCore.Connectors.Placement

/-! The input schema of an operation, and what a call needs.

    parameters ─▶ properties: name ↦ schema     of several of a name the last
                  required: names of required   of several of a name any

    The schema does not say where a parameter goes. The path does not take a call without a value for
    each of its placeholders. -/

namespace LunaCore.Connectors
open LunaCore.Schemes LunaCore.Values
open LunaCore.Flow (isIdentifier)

def ParameterType.value : ParameterType → String
  | .string => "string"
  | .integer => "integer"
  | .number => "number"
  | .boolean => "boolean"
  | .array => "array"
  | .object => "object"

/-- The names of the required parameters. -/
def requiredNames (parameters : List ParameterDef) : List String :=
  (parameters.filter (·.required)).map (·.name)

/-- `if required: schema["required"] = required`. -/
def requiredKeyword (parameters : List ParameterDef) : Dict :=
  if (requiredNames parameters).isEmpty then []
  else [("required", .arr ((requiredNames parameters).map .str))]

mutual

/-- `_parameter_to_schema`. -/
def parameterToSchema : ParameterDef → Json
  | ⟨_, type, description, _, _, enumValues, itemType, properties, default⟩ => .obj (
      [("type", .str type.value)] ++
      (if description = "" then [] else [("description", .str description)]) ++
      (if type = .string ∧ enumValues.getD [] ≠ [] then
        [("enum", .arr ((enumValues.getD []).map .str))] else []) ++
      (if type = .array then
        [("items", .obj [("type", .str (itemType.getD .string).value)])] else []) ++
      (if type = .object then
        ("properties", .obj (subSchemas properties)) :: requiredKeyword (properties.getD [])
       else []) ++
      (if default = .null then [] else [("default", default)]))

def subSchemas : Option (List ParameterDef) → Dict
  | none => []
  | some parameters => schemaProperties parameters []

/-- `properties[p.name] = _parameter_to_schema(p)` for each. -/
def schemaProperties : List ParameterDef → Dict → Dict
  | [], out => out
  | p :: parameters, out => schemaProperties parameters (out.set p.name (parameterToSchema p))

end

/-- `parameters_to_input_schema`. -/
def parametersToInputSchema (parameters : List ParameterDef) : Json :=
  .obj ([("type", .str "object"), ("properties", .obj (schemaProperties parameters []))] ++
    requiredKeyword parameters)

/-! ### JSON Schema -/

/-- The `type` keyword. -/
def hasType : String → Json → Bool
  | "string", .str _ => true
  | "integer", .num q => q.den = 1
  | "number", .num _ => true
  | "boolean", .bool _ => true
  | "array", .arr _ => true
  | "object", .obj _ => true
  | "null", .null => true
  | _, _ => false

/-- A member of an object. -/
def member : Json → String → Option Json
  | .obj fields, key => Dict.get fields key
  | _, _ => none

mutual

/-- The value is valid against the schema, as far as the keywords go that parameters are rendered
    to; the others are annotations. -/
def accepts : Json → Json → Bool
  | .obj keywords, value => acceptsAll keywords value
  | _, _ => true

def acceptsAll : Dict → Json → Bool
  | [], _ => true
  | (keyword, argument) :: keywords, value =>
    acceptsKeyword keyword argument value && acceptsAll keywords value

def acceptsKeyword (keyword : String) : Json → Json → Bool
  | .str type, value => keyword ≠ "type" || hasType type value
  | .arr items, value =>
    (keyword ≠ "enum" || value ∈ items) &&
      (keyword ≠ "required" || match value with
        | .obj fields => items.all fun item => match item with
          | .str name => (Dict.get fields name).isSome
          | _ => true
        | _ => true)
  | .obj fields, value =>
    (keyword ≠ "properties" || acceptsProperties fields value) &&
      (keyword ≠ "items" || match value with
        | .arr items => items.all fun item => acceptsAll fields item
        | _ => true)
  | _, _ => true

def acceptsProperties : Dict → Json → Bool
  | [], _ => true
  | (name, schema) :: properties, value =>
    (match member value name with
      | some item => accepts schema item
      | none => true) && acceptsProperties properties value

end

/-! ### What the schema of an operation accepts -/

theorem acceptsAll_append (value : Json) : ∀ keywords more : Dict,
    acceptsAll (keywords ++ more) value = (acceptsAll keywords value && acceptsAll more value)
  | [], more => by simp [acceptsAll]
  | (keyword, argument) :: keywords, more => by
    rw [List.cons_append, acceptsAll, acceptsAll, acceptsAll_append value keywords more,
      Bool.and_assoc]

/-- Any other keyword takes every value. -/
theorem acceptsKeyword_annotation {keyword : String} (argument value : Json)
    (h : keyword ∉ ["type", "enum", "required", "properties", "items"]) :
    acceptsKeyword keyword argument value = true := by
  simp only [List.mem_cons, List.not_mem_nil, or_false, not_or] at h
  obtain ⟨htype, henum, hrequired, hproperties, hitems⟩ := h
  cases argument with
  | str type => simp [acceptsKeyword, htype]
  | arr items =>
    rw [acceptsKeyword.eq_def]
    simp [henum, hrequired]
  | obj fields =>
    rw [acceptsKeyword.eq_def]
    simp [hproperties, hitems]
  | _ => rw [acceptsKeyword] <;> nofun

theorem acceptsProperties_iff {value : Json} : ∀ {properties : Dict},
    acceptsProperties properties value = true ↔
      ∀ kv ∈ properties, ∀ item, member value kv.1 = some item → accepts kv.2 item = true
  | [] => by simp [acceptsProperties]
  | (name, schema) :: properties => by
    rw [acceptsProperties, Bool.and_eq_true, acceptsProperties_iff, List.forall_mem_cons]
    cases member value name <;> simp

/-- The fields of an object have all the names a list of parameters requires. -/
def HasRequired (parameters : List ParameterDef) (fields : Dict) : Prop :=
  ∀ p ∈ parameters, p.required = true → (fields.get p.name).isSome

theorem acceptsAll_requiredKeyword {parameters : List ParameterDef} {fields : Dict} :
    acceptsAll (requiredKeyword parameters) (.obj fields) = true ↔
      HasRequired parameters fields := by
  have hnames : HasRequired parameters fields ↔
      ∀ name ∈ requiredNames parameters, (fields.get name).isSome := by
    simp only [HasRequired, requiredNames, List.forall_mem_map, List.mem_filter, and_imp]
  rw [hnames, requiredKeyword]
  split
  case isTrue hnone => simp [List.isEmpty_iff.mp hnone, acceptsAll]
  case isFalse => simp [acceptsAll, acceptsKeyword]

/-- An input is valid when it has what is required, and each of its values fits. -/
theorem accepts_inputSchema {parameters : List ParameterDef} {input : Dict} :
    accepts (parametersToInputSchema parameters) (.obj input) = true ↔
      HasRequired parameters input ∧
        ∀ kv ∈ schemaProperties parameters [], ∀ item, input.get kv.1 = some item →
          accepts kv.2 item = true := by
  rw [parametersToInputSchema, accepts, acceptsAll_append, Bool.and_eq_true,
    acceptsAll_requiredKeyword, and_comm]
  refine and_congr_right fun _ => ?_
  simp [acceptsAll, acceptsKeyword, hasType, acceptsProperties_iff, member]

/-- Null has none of the types a parameter can have. -/
theorem not_accepts_null (p : ParameterDef) : accepts (parameterToSchema p) .null = false := by
  cases p with
  | mk name type description required in_ enumValues itemType properties default =>
    cases type <;> simp [parameterToSchema, accepts, acceptsAll, acceptsKeyword, hasType,
      ParameterType.value]

/-- A name that is declared has a schema, which is that of a parameter. -/
theorem get_schemaProperties {key : String} : ∀ {parameters : List ParameterDef} {out : Dict},
    (∃ p ∈ parameters, p.name = key) ∨ (∃ q, out.get key = some (parameterToSchema q)) →
      ∃ q, (schemaProperties parameters out).get key = some (parameterToSchema q)
  | [], out, h => by
    rw [schemaProperties]
    exact h.resolve_left nofun
  | p :: parameters, out, h => by
    rw [schemaProperties]
    refine get_schemaProperties ?_
    rw [List.exists_mem_cons_iff] at h
    rcases eq_or_ne p.name key with heq | hne
    · refine .inr ⟨p, ?_⟩
      rw [Dict.get_set, if_pos heq.symm]
    · rcases h with (hname | hrest) | hout
      · exact absurd hname hne
      · exact .inl hrest
      · refine .inr ?_
        rw [Dict.get_set, if_neg (Ne.symm hne)]
        exact hout

/-- A valid input has no null for a declared name. -/
theorem ne_null_of_accepts {parameters : List ParameterDef} {input : Dict} {p : ParameterDef}
    (h : accepts (parametersToInputSchema parameters) (.obj input) = true) (hp : p ∈ parameters)
    {value : Json} (hvalue : input.get p.name = some value) : value ≠ .null := by
  rintro rfl
  obtain ⟨q, hschema⟩ : ∃ q, (schemaProperties parameters []).get p.name =
      some (parameterToSchema q) := get_schemaProperties (.inl ⟨p, hp, rfl⟩)
  have hfits := (accepts_inputSchema.mp h).2 _ (Dict.mem_of_get hschema) _ hvalue
  rw [not_accepts_null] at hfits
  cases hfits

/-! ### A valid input with a value for every parameter -/

mutual

/-- A value that fits the parameter. -/
def sampleValue : ParameterDef → Json
  | ⟨_, type, _, _, _, enumValues, _, properties, _⟩ => match type with
    | .string => .str ((enumValues.getD []).headD "")
    | .integer => .num 0
    | .number => .num 0
    | .boolean => .bool false
    | .array => .arr []
    | .object => .obj (sampleObject properties)

def sampleObject : Option (List ParameterDef) → Dict
  | none => []
  | some parameters => sampleFields parameters []

def sampleFields : List ParameterDef → Dict → Dict
  | [], out => out
  | p :: parameters, out => sampleFields parameters (out.set p.name (sampleValue p))

end

/-- Each field fits the schema of its name. -/
def Fits (properties fields : Dict) : Prop :=
  ∀ name schema, properties.get name = some schema → ∀ item, fields.get name = some item →
    accepts schema item = true

theorem Fits.set {properties fields : Dict} (h : Fits properties fields) (name : String)
    {schema value : Json} (hvalue : accepts schema value = true) :
    Fits (properties.set name schema) (fields.set name value) := by
  intro key schema' hschema item hitem
  rw [Dict.get_set] at hschema hitem
  split at hschema
  case isTrue heq =>
    rw [if_pos heq] at hitem
    rw [← Option.some.inj hschema, ← Option.some.inj hitem]
    exact hvalue
  case isFalse hne =>
    rw [if_neg hne] at hitem
    exact h key schema' hschema item hitem

theorem distinct_schemaProperties : ∀ (parameters : List ParameterDef) {out : Dict},
    out.Distinct → (schemaProperties parameters out).Distinct
  | [], _, h => h
  | _ :: parameters, _, h => distinct_schemaProperties parameters (h.set _ _)

theorem fits_schemaProperties_iff {parameters : List ParameterDef} {fields : Dict} :
    Fits (schemaProperties parameters []) fields ↔
      ∀ kv ∈ schemaProperties parameters [], ∀ item, fields.get kv.1 = some item →
        accepts kv.2 item = true := by
  have hdistinct : (schemaProperties parameters []).Distinct :=
    distinct_schemaProperties parameters List.nodup_nil
  constructor
  · intro h kv hkv
    exact h kv.1 kv.2 (hdistinct.get_of_mem hkv)
  · intro h name schema hschema
    exact h (name, schema) (Dict.mem_of_get hschema)

theorem get_sampleFields_of_some {key : String} : ∀ {parameters : List ParameterDef} {out : Dict},
    (out.get key).isSome → ((sampleFields parameters out).get key).isSome
  | [], _, h => h
  | p :: parameters, out, h => by
    rw [sampleFields]
    refine get_sampleFields_of_some ?_
    rw [Dict.get_set]
    split
    · rfl
    · exact h

/-- Every parameter has a sample. -/
theorem get_sampleFields {p : ParameterDef} : ∀ {parameters : List ParameterDef} {out : Dict},
    p ∈ parameters → ((sampleFields parameters out).get p.name).isSome
  | q :: parameters, out, hp => by
    rw [sampleFields]
    rcases List.mem_cons.mp hp with rfl | hrest
    · refine get_sampleFields_of_some ?_
      rw [Dict.get_set_self]
      rfl
    · exact get_sampleFields hrest

mutual

theorem accepts_sampleValue : ∀ p : ParameterDef,
    accepts (parameterToSchema p) (sampleValue p) = true
  | ⟨_, type, description, _, _, enumValues, itemType, properties, default⟩ => by
    have hdescription (value : Json) : acceptsAll
        (if description = "" then [] else [("description", .str description)]) value = true := by
      split
      · simp [acceptsAll]
      · simp [acceptsAll, acceptsKeyword_annotation]
    have hdefault (value : Json) :
        acceptsAll (if default = .null then [] else [("default", default)]) value = true := by
      split
      · simp [acceptsAll]
      · simp [acceptsAll, acceptsKeyword_annotation]
    rw [parameterToSchema, accepts]
    simp only [acceptsAll_append, hdescription, hdefault, Bool.and_true]
    cases type with
    | string =>
      cases hvalues : enumValues.getD [] with
      | nil => simp [sampleValue, acceptsAll, acceptsKeyword, hasType, ParameterType.value]
      | cons first rest =>
        simp [sampleValue, acceptsAll, acceptsKeyword, hasType, ParameterType.value, hvalues]
    | integer => simp [sampleValue, acceptsAll, acceptsKeyword, hasType, ParameterType.value]
    | number => simp [sampleValue, acceptsAll, acceptsKeyword, hasType, ParameterType.value]
    | boolean => simp [sampleValue, acceptsAll, acceptsKeyword, hasType, ParameterType.value]
    | array => simp [sampleValue, acceptsAll, acceptsKeyword, hasType, ParameterType.value]
    | object =>
      have hfields := accepts_sampleObject properties
      simp [sampleValue, acceptsAll, acceptsKeyword, hasType, ParameterType.value,
        acceptsAll_requiredKeyword, hfields]

theorem accepts_sampleObject : ∀ properties : Option (List ParameterDef),
    acceptsProperties (subSchemas properties) (.obj (sampleObject properties)) = true ∧
      HasRequired (properties.getD []) (sampleObject properties)
  | none => ⟨by simp [subSchemas, acceptsProperties], nofun⟩
  | some parameters => by
    rw [subSchemas, sampleObject]
    refine ⟨?_, fun p hp _ => get_sampleFields hp⟩
    rw [acceptsProperties_iff]
    exact fits_schemaProperties_iff.mp (fits_sampleFields parameters nofun)

theorem fits_sampleFields : ∀ (parameters : List ParameterDef) {properties out : Dict},
    Fits properties out →
      Fits (schemaProperties parameters properties) (sampleFields parameters out)
  | [], _, _, h => h
  | p :: parameters, properties, out, h => by
    rw [schemaProperties, sampleFields]
    exact fits_sampleFields parameters (h.set p.name (accepts_sampleValue p))

end

theorem distinct_sampleFields : ∀ (parameters : List ParameterDef) {out : Dict},
    out.Distinct → (sampleFields parameters out).Distinct
  | [], _, h => h
  | _ :: parameters, _, h => distinct_sampleFields parameters (h.set _ _)

/-- The sample without a key that nothing requires is valid. -/
theorem accepts_without {parameters : List ParameterDef} {key : String}
    (h : ∀ p ∈ parameters, p.name = key → p.required = false) :
    accepts (parametersToInputSchema parameters)
      (.obj ((sampleFields parameters []).filter fun kv => kv.1 ≠ key)) = true := by
  have hget (name : String) : Dict.get
      ((sampleFields parameters []).filter fun kv => kv.1 ≠ key) name =
        if name ≠ key then (sampleFields parameters []).get name else none := by
    simpa using Dict.get_filter (fun name => name ≠ key) (sampleFields parameters []) name
  have hfits : Fits (schemaProperties parameters []) (sampleFields parameters []) :=
    fits_sampleFields parameters nofun
  rw [accepts_inputSchema, ← fits_schemaProperties_iff]
  constructor
  · intro p hp hrequired
    have hne : p.name ≠ key := fun heq => by simp [h p hp heq] at hrequired
    rw [hget, if_pos hne]
    exact get_sampleFields hp
  · intro name schema hschema item hitem
    rw [hget] at hitem
    split at hitem
    case isTrue => exact hfits name schema hschema item hitem
    case isFalse => cases hitem

/-! ### What the executor needs -/

/-- Defaults add no null. -/
theorem applyParameterDefaults_ne_null {key : String} : ∀ {parameters : List ParameterDef}
    {input : Dict}, input.get key ≠ some .null →
      (applyParameterDefaults parameters input).get key ≠ some .null
  | [], _, h => h
  | p :: parameters, input, h => by
    have hnext : (fillDefault input p).get key ≠ some .null := by
      rw [get_fillDefault]
      cases hinput : input.get key with
      | some value =>
        rw [hinput] at h
        exact h
      | none =>
        rw [Option.none_or]
        split
        case isTrue hdefault => exact fun heq => hdefault.2.2 (Option.some.inj heq)
        case isFalse => nofun
    have hrest : (applyParameterDefaults parameters (fillDefault input p)).get key ≠ some .null :=
      applyParameterDefaults_ne_null hnext
    exact hrest

theorem ne_empty_of_mem_pathPlaceholders {path key : String} (h : key ∈ pathPlaceholders path) :
    key ≠ "" := by
  rintro rfl
  have hname : isIdentifier "" = true := valid_of_mem_holes h
  revert hname
  decide

variable (repr : Json → String) (d : OperationDefinition) (baseUrl : String)

/-- From every input that the schema accepts, a request is made. -/
def SchemaSuffices : Prop :=
  ∀ input : Dict, input.Distinct →
    accepts (parametersToInputSchema d.parameters) (.obj input) = true →
      ∃ a, assemble repr d baseUrl input = .ok a

/-- The schema asks for what the executor needs just when each placeholder of the path has a
    parameter that is required or has a default. -/
theorem schemaSuffices_iff : SchemaSuffices repr d baseUrl ↔
    ∀ key ∈ pathPlaceholders d.path, ∃ p ∈ d.parameters,
      p.name = key ∧ (p.required = true ∨ p.default ≠ .null) := by
  constructor
  · intro h key hkey
    by_contra hnone
    -- the sample without the key is valid, and the path is left without a value
    have hnotRequired : ∀ p ∈ d.parameters, p.name = key → p.required = false := by
      intro p hp hname
      by_contra hrequired
      exact hnone ⟨p, hp, hname, .inl (by simpa using hrequired)⟩
    have hnoDefault : ¬ ∃ p ∈ d.parameters, p.name = key ∧ p.default ≠ .null :=
      fun ⟨p, hp, hname, hdefault⟩ => hnone ⟨p, hp, hname, .inr hdefault⟩
    have hsample : (sampleFields d.parameters []).Distinct :=
      distinct_sampleFields d.parameters List.nodup_nil
    obtain ⟨a, ha⟩ := h _ (hsample.filter _) (accepts_without hnotRequired)
    obtain ⟨value, hvalue, -⟩ := assemble_isOk_iff.mp ⟨a, ha⟩ key hkey
    have hthere := (get_applyParameterDefaults_ne_none (ne_empty_of_mem_pathPlaceholders hkey)).mp
      (Option.ne_none_iff_exists'.mpr ⟨value, hvalue⟩)
    rcases hthere with hinput | hdefault
    · have herased := Dict.get_filter (fun name => name ≠ key) (sampleFields d.parameters []) key
      simp only [ne_eq, not_true, decide_false, Bool.false_eq_true, if_false] at herased
      exact hinput herased
    · exact hnoDefault hdefault
  · intro h input _ hvalid
    rw [assemble_isOk_iff]
    intro key hkey
    obtain ⟨p, hp, rfl, hp'⟩ := h key hkey
    have hthere : (applyParameterDefaults d.parameters input).get p.name ≠ none := by
      rw [get_applyParameterDefaults_ne_none (ne_empty_of_mem_pathPlaceholders hkey)]
      rcases hp' with hrequired | hdefault
      · have hgiven := (accepts_inputSchema.mp hvalid).1 p hp hrequired
        exact .inl (Option.isSome_iff_ne_none.mp hgiven)
      · exact .inr ⟨p, hp, rfl, hdefault⟩
    obtain ⟨value, hvalue⟩ := Option.ne_none_iff_exists'.mp hthere
    have hnotNull : input.get p.name ≠ some .null :=
      fun hnull => ne_null_of_accepts hvalid hp hnull rfl
    refine ⟨value, hvalue, ?_⟩
    rintro rfl
    exact applyParameterDefaults_ne_null hnotNull hvalue

/-- The repositories of an owner who need not be given. -/
def listRepositories : OperationDefinition where
  method := .get
  path := "/repos/{owner}"
  parameters := [⟨"owner", .string, "", false, .path, none, none, none, .null⟩]
  fixedHeaders := []
  fixedBody := .null
  distinct := List.nodup_nil

/-- The empty input is valid, and the path has no value for `owner`. -/
theorem optional_owner_missing :
    ¬ SchemaSuffices (fun _ => "") listRepositories "https://api.test" := by
  intro h
  have hvalid : accepts (parametersToInputSchema listRepositories.parameters) (.obj []) = true := by
    rw [accepts_inputSchema]
    refine ⟨?_, nofun⟩
    intro p hp hrequired
    rw [List.mem_singleton.mp hp] at hrequired
    cases hrequired
  obtain ⟨a, ha⟩ := h [] List.nodup_nil hvalid
  obtain ⟨value, hvalue, -⟩ := assemble_isOk_iff.mp ⟨a, ha⟩ "owner" (by decide +kernel)
  cases hvalue

end LunaCore.Connectors
