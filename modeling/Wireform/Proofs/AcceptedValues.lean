import Wireform.JsonSchema.Check
import Wireform.OpenApi
import Wireform.Proofs.KeyMaps

set_option autoImplicit false

namespace Wireform

namespace Json

theorem depth_item {items : List Json} {item : Json} (inside : item ∈ items) :
    item.depth < (Json.arr items).depth := by
  suffices item.depth ≤ depth.depthOfItems items by simp only [depth]; omega
  induction items with
  | nil => cases inside
  | cons head rest ih =>
    simp only [depth.depthOfItems]
    rcases List.mem_cons.mp inside with rfl | there
    · exact Nat.le_max_left _ _
    · exact Nat.le_trans (ih there) (Nat.le_max_right _ _)

theorem depth_member {members : Entries Json} {key : String} {value : Json} (inside : (key, value) ∈ members) :
    value.depth < (Json.obj members).depth := by
  suffices value.depth ≤ depth.depthOfMembers members by simp only [depth]; omega
  induction members with
  | nil => cases inside
  | cons head rest ih =>
    simp only [depth.depthOfMembers]
    rcases List.mem_cons.mp inside with rfl | there
    · exact Nat.le_max_left _ _
    · exact Nat.le_trans (ih there) (Nat.le_max_right _ _)

theorem depth_pos (value : Json) : 0 < value.depth := by
  cases value <;> simp only [depth] <;> omega

end Json

namespace JsonSchema

section Keywords

variable {component : String → Json → List Violation} {value : Json}

@[simp] theorem violations_all (keywords : List JsonSchema) :
    violations component (.all keywords) value = violations.ofAll component value keywords := rfl

@[simp] theorem violations_type (kinds : List JsonKind) :
    violations component (.type kinds) value = expect (kinds.any (·.holds value)) value (.type kinds) := rfl

@[simp] theorem violations_format (name : String) : violations component (.format name) value = [] := rfl

@[simp] theorem violations_pattern (source text : String) :
    violations component (.pattern source) (.str text) =
      expect ((Pattern.parse? source).all (·.occursIn text)) (.str text) (.pattern source) := rfl

@[simp] theorem violations_pattern_null (source : String) : violations component (.pattern source) .null = [] := rfl

@[simp] theorem violations_enum (values : List Json) :
    violations component (.enum values) value = expect (values.any (Json.equal value)) value (.enum values) := rfl

@[simp] theorem violations_items (schema : JsonSchema) (items : List Json) :
    violations component (.items schema) (.arr items) = itemViolations (violations component schema) items := rfl

@[simp] theorem violations_properties (entries : List (String × JsonSchema)) (members : List (String × Json)) :
    violations component (.properties entries) (.obj members) = violations.ofEntries component members entries := rfl

@[simp] theorem violations_required (keys : List String) (members : List (String × Json)) :
    violations component (.required keys) (.obj members) =
      keys.flatMap fun key => expect (Entries.contains members key) (.obj members) (.member key) := rfl

@[simp] theorem violations_additionalProperties (keywords : List JsonSchema) (members : List (String × Json)) :
    violations component (.additionalProperties none (.all keywords)) (.obj members) =
      memberViolations (violations component (.all keywords))
        (members.filter fun member => !([] : List String).contains member.1) := rfl

@[simp] theorem violations_reference (name : String) :
    violations component (.reference name) value = component name value := rfl

theorem violations_oneOf {schemas : List JsonSchema} (one : violations.accepting component value schemas = 1) :
    violations component (.oneOf schemas) value = [] := by
  simp only [violations, one]

theorem accepting_pair (first second : JsonSchema) : violations.accepting component value [first, second] =
    (if (violations component first value).isEmpty then 1 else 0)
      + ((if (violations component second value).isEmpty then 1 else 0) + 0) := rfl

theorem ofAll_cons (keyword : JsonSchema) (rest : List JsonSchema) :
    violations.ofAll component value (keyword :: rest) =
      violations component keyword value ++ violations.ofAll component value rest := rfl

theorem ofAll_eq_nil {keywords : List JsonSchema} : violations.ofAll component value keywords = [] ↔
    ∀ keyword ∈ keywords, violations component keyword value = [] := by
  induction keywords with
  | nil => simp [show violations.ofAll component value [] = [] from rfl]
  | cons head rest ih => simp [ofAll_cons, ih]

theorem ofEntries_cons (members : List (String × Json)) (key : String) (schema : JsonSchema)
    (rest : List (String × JsonSchema)) : violations.ofEntries component members ((key, schema) :: rest) =
      (match Entries.get? members key with
        | some value => (violations component schema value).map (·.within key)
        | none => []) ++ violations.ofEntries component members rest := rfl

theorem ofEntries_eq_nil {members : Entries Json} {entries : List (String × JsonSchema)}
    (each : ∀ key schema, (key, schema) ∈ entries → ∀ value, members.get? key = some value →
      violations component schema value = []) : violations.ofEntries component members entries = [] := by
  induction entries with
  | nil => rfl
  | cons head rest ih =>
    obtain ⟨key, schema⟩ := head
    have later := ih fun key schema inside => each key schema (List.mem_cons_of_mem _ inside)
    rw [ofEntries_cons, later, List.append_nil]
    cases given : members.get? key with
    | none => rfl
    | some value => simp [each key schema List.mem_cons_self value given]

end Keywords

/-- The value violates nothing, if at least so many references are followed. -/
def Accepts (components : Entries JsonSchema) (least : Nat) (schema : JsonSchema) (value : Json) : Prop :=
  ∀ references, least ≤ references → violations (componentViolations components references) schema value = []

def Refuses (components : Entries JsonSchema) (least : Nat) (schema : JsonSchema) (value : Json) : Prop :=
  ∀ references, least ≤ references → violations (componentViolations components references) schema value ≠ []

namespace Accepts

variable {components : Entries JsonSchema} {least : Nat} {schema : JsonSchema} {value : Json}

theorem more {most : Nat} (fewer : least ≤ most) (accepts : Accepts components least schema value) :
    Accepts components most schema value :=
  fun references enough => accepts references (Nat.le_trans fewer enough)

theorem all_iff {keywords : List JsonSchema} : Accepts components least (.all keywords) value ↔
    ∀ keyword ∈ keywords, Accepts components least keyword value := by
  simp only [Accepts, violations_all, ofAll_eq_nil]
  exact ⟨fun each keyword inside references enough => each references enough keyword inside,
    fun each references enough keyword inside => each keyword inside references enough⟩

theorem type {kinds : List JsonKind} (holds : kinds.any (·.holds value) = true) :
    Accepts components least (.type kinds) value := by
  intro references _
  simp [expect, holds]

theorem format (name : String) : Accepts components least (.format name) value :=
  fun _ _ => violations_format name

theorem pattern {source text : String} (found : (Pattern.parse? source).all (·.occursIn text) = true) :
    Accepts components least (.pattern source) (.str text) := by
  intro references _
  simp [expect, found]

theorem enum {values : List Json} (listed : values.any (Json.equal value) = true) :
    Accepts components least (.enum values) value := by
  intro references _
  simp [expect, listed]

theorem items {items : List Json} (each : ∀ item ∈ items, Accepts components least schema item) :
    Accepts components least (.items schema) (.arr items) := by
  intro references enough
  simp only [violations_items, itemViolations, List.flatMap_eq_nil_iff, List.map_eq_nil_iff]
  rintro ⟨item, i⟩ inside
  exact each item (List.fst_mem_of_mem_zipIdx inside) references enough

theorem additionalProperties {keywords : List JsonSchema} {members : Entries Json}
    (each : ∀ key value, (key, value) ∈ members → Accepts components least (.all keywords) value) :
    Accepts components least (.additionalProperties none (.all keywords)) (.obj members) := by
  intro references enough
  simp only [violations_additionalProperties, memberViolations, List.flatMap_eq_nil_iff, List.map_eq_nil_iff]
  rintro ⟨key, value⟩ inside
  exact each key value (List.mem_of_mem_filter inside) references enough

theorem properties {entries : List (String × JsonSchema)} {members : Entries Json}
    (each : ∀ key schema, (key, schema) ∈ entries → ∀ value, members.get? key = some value →
      Accepts components least schema value) :
    Accepts components least (.properties entries) (.obj members) := by
  intro references enough
  rw [violations_properties]
  exact ofEntries_eq_nil fun key schema inside value given => each key schema inside value given references enough

theorem required {keys : List String} {members : Entries Json}
    (written : ∀ key ∈ keys, members.contains key = true) :
    Accepts components least (.required keys) (.obj members) := by
  intro references _
  simp only [violations_required, List.flatMap_eq_nil_iff]
  intro key inside
  simp [expect, written key inside]

theorem reference {name : String} (found : components.get? name = some schema)
    (accepts : Accepts components least schema value) :
    Accepts components (least + 1) (.reference name) value := by
  intro references enough
  obtain ⟨fewer, rfl⟩ : ∃ fewer, references = fewer + 1 := ⟨references - 1, by omega⟩
  rw [violations_reference, componentViolations, found]
  exact accepts fewer (by omega)

theorem oneOf_left {other : JsonSchema} (accepts : Accepts components least schema value)
    (refuses : Refuses components least other value) :
    Accepts components least (.oneOf [schema, other]) value := by
  intro references enough
  apply violations_oneOf
  simp [accepting_pair, accepts references enough, refuses references enough]

theorem oneOf_right {other : JsonSchema} (refuses : Refuses components least schema value)
    (accepts : Accepts components least other value) :
    Accepts components least (.oneOf [schema, other]) value := by
  intro references enough
  apply violations_oneOf
  simp [accepting_pair, accepts references enough, refuses references enough]

end Accepts

namespace Refuses

variable {components : Entries JsonSchema} {least : Nat} {schema : JsonSchema} {value : Json}

theorem all {keywords : List JsonSchema} {keyword : JsonSchema} (inside : keyword ∈ keywords)
    (refuses : Refuses components least keyword value) : Refuses components least (.all keywords) value := by
  intro references enough clean
  rw [violations_all, ofAll_eq_nil] at clean
  exact refuses references enough (clean keyword inside)

theorem type {kinds : List JsonKind} (other : kinds.any (·.holds value) = false) :
    Refuses components least (.type kinds) value := by
  intro references _
  simp [expect, other]

theorem reference {name : String} (found : components.get? name = some schema)
    (refuses : Refuses components least schema value) :
    Refuses components (least + 1) (.reference name) value := by
  intro references enough
  obtain ⟨fewer, rfl⟩ : ∃ fewer, references = fewer + 1 := ⟨references - 1, by omega⟩
  rw [violations_reference, componentViolations, found]
  exact refuses fewer (by omega)

end Refuses

section Null

variable {components : Entries JsonSchema} {least : Nat} {value : Json}

theorem refuses_null (other : value.isNull = false) : Refuses components least (ofKind .null) value := by
  refine .all (List.mem_singleton_self _) (.type ?_)
  cases value <;> simp [JsonKind.holds, Json.isNull] at other ⊢

theorem accepts_withNull {keyword : JsonSchema} (accepts : Accepts components least keyword value) :
    Accepts components least (withNull keyword) value := by
  unfold withNull
  split
  · rename_i kind
    refine .type ?_
    have holds := accepts least Nat.le.refl
    by_cases same : kind.holds value = true
    · simp [same]
    · simp [expect, same] at holds
  · exact accepts

theorem accepts_nullable {keywords : List JsonSchema} (accepts : Accepts components least (.all keywords) value)
    (other : value.isNull = false) : Accepts components least (JsonSchema.nullable (.all keywords)) value := by
  simp only [JsonSchema.nullable]
  split
  · rw [Accepts.all_iff]
    intro keyword inside
    obtain ⟨old, there, rfl⟩ := List.mem_map.mp inside
    exact accepts_withNull (Accepts.all_iff.mp accepts old there)
  · rw [Accepts.all_iff]
    intro keyword inside
    rw [List.mem_singleton] at inside
    rw [inside]
    exact .oneOf_left accepts (refuses_null other)

def takesNull : JsonSchema → Bool
  | .type [_] | .format _ | .pattern _ => true
  | _ => false

theorem nullable_of_takesNull {keywords : List JsonSchema} (single : keywords.any isSingleType = true)
    (others : keywords.all takesNull = true) :
    Accepts components least (JsonSchema.nullable (.all keywords)) .null := by
  simp only [JsonSchema.nullable, single, if_true]
  rw [Accepts.all_iff]
  intro keyword inside
  obtain ⟨old, there, rfl⟩ := List.mem_map.mp inside
  have takes := List.all_eq_true.mp others old there
  unfold takesNull at takes
  split at takes
  · exact .type (by simp [JsonKind.holds])
  · exact .format _
  · exact fun _ _ => violations_pattern_null _
  · cases takes

theorem nullable_of_refuses {keywords : List JsonSchema} (untyped : keywords.any isSingleType = false)
    (refuses : Refuses components least (.all keywords) .null) :
    Accepts components least (JsonSchema.nullable (.all keywords)) .null := by
  simp only [JsonSchema.nullable, untyped, Bool.false_eq_true, if_false]
  rw [Accepts.all_iff]
  intro keyword inside
  rw [List.mem_singleton] at inside
  rw [inside]
  refine .oneOf_right refuses (Accepts.all_iff.mpr fun keyword inside => ?_)
  rw [List.mem_singleton] at inside
  rw [inside]
  exact .type rfl

end Null

section Forms

variable {components : Entries JsonSchema} {least : Nat} {kind : JsonKind} {value : Json}

theorem accepts_ofKind (holds : kind.holds value = true) : Accepts components least (ofKind kind) value := by
  rw [ofKind, Accepts.all_iff]
  intro keyword inside
  cases List.mem_singleton.mp inside
  exact .type (by simp [holds])

theorem accepts_ofFormat (holds : kind.holds value = true) (format : String) :
    Accepts components least (ofFormat kind format) value := by
  rw [ofFormat, Accepts.all_iff]
  intro keyword inside
  simp only [List.mem_cons, List.not_mem_nil, or_false] at inside
  rcases inside with rfl | rfl
  · exact .type (by simp [holds])
  · exact .format format

theorem accepts_patterned {source text : String} (found : (Pattern.parse? source).all (·.occursIn text) = true)
    (format : String) :
    Accepts components least (.all [.type [.string], .format format, .pattern source]) (.str text) := by
  rw [Accepts.all_iff]
  intro keyword inside
  simp only [List.mem_cons, List.not_mem_nil, or_false] at inside
  rcases inside with rfl | rfl | rfl
  · exact .type rfl
  · exact .format format
  · exact .pattern found

theorem accepts_ofTexts {texts : List String} {text : String} (listed : text ∈ texts) :
    Accepts components least (ofTexts texts) (.str text) := by
  rw [ofTexts, Accepts.all_iff]
  intro keyword inside
  simp only [List.mem_cons, List.not_mem_nil, or_false] at inside
  rcases inside with rfl | rfl
  · exact .type rfl
  · exact .enum (List.any_eq_true.mpr ⟨.str text, List.mem_map.mpr ⟨text, listed, rfl⟩, by simp [Json.equal]⟩)

end Forms

theorem check_eq_nil {components : Entries JsonSchema} {name : String} {schema : JsonSchema} {value : Json}
    (found : components.get? name = some schema) {least : Nat} (shallow : least < value.depth)
    (accepts : Accepts components least schema value) : check components name value = [] := by
  have filled : 0 < components.length := by
    cases components with
    | nil => cases found
    | cons => exact Nat.zero_lt_succ _
  have enough : value.depth ≤ value.depth * components.length := Nat.le_mul_of_pos_right _ filled
  have more : Accepts components (least + 1) (.reference name) value := .reference found accepts
  have clean := more (value.depth * components.length) (by omega)
  rwa [violations_reference] at clean

end JsonSchema

end Wireform
