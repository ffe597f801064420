import Wireform.Proofs.NullProperties
import Wireform.TypeScript

set_option autoImplicit false

namespace Wireform

/-- What values are: of a kind, one of some texts, of a declared type, or containers. -/
inductive Category where
  | string
  | number
  | boolean
  | null
  | unknown
  | texts (values : List String)
  | reference (type : String)
  | array (element : Category)
  | record (value : Category)

inductive TypeScript.Shape.Is (context : TypeScript.Context) : TypeScript.Shape → Category → Prop
  | string : Is context .string .string
  | number : Is context .number .number
  | boolean : Is context .boolean .boolean
  | null : Is context .null .null
  | unknown : Is context .unknown .unknown
  | nothing : Is context .nothing (.record .unknown)
  | literals (texts : List String) : Is context (.literals texts) (.texts texts)
  | named {type ident file : String} (declared : context.declared? type = some (ident, file)) :
      Is context (.named ident) (.reference type)
  | array {element : Shape} {category : Category} (inner : Is context element category) :
      Is context (.array element) (.array category)
  | record {value : Shape} {category : Category} (inner : Is context value category) :
      Is context (.record value) (.record category)

namespace JsonSchema

def isDetail : JsonSchema → Bool
  | .format _ | .pattern _ => true
  | _ => false

inductive Is (context : OpenApi.Context) : JsonSchema → Category → Prop
  | string {details : List JsonSchema} (plain : details.all isDetail = true) :
      Is context (.all (.type [.string] :: details)) .string
  | integer {details : List JsonSchema} (plain : details.all isDetail = true) :
      Is context (.all (.type [.integer] :: details)) .number
  | number {details : List JsonSchema} (plain : details.all isDetail = true) :
      Is context (.all (.type [.number] :: details)) .number
  | numbers (values : List Int) : Is context (.all [.type [.integer], .enum (values.map Json.int)]) .number
  | boolean : Is context (.ofKind .boolean) .boolean
  | null : Is context (.ofKind .null) .null
  | unknown : Is context (.all []) .unknown
  | texts (values : List String) : Is context (.ofTexts values) (.texts values)
  | reference (type : String) : Is context (context.referenceTo type) (.reference type)
  | items {element : JsonSchema} {category : Category} (inner : Is context element category) :
      Is context (.array element) (.array category)
  | list : Is context (.ofKind .array) (.array .unknown)
  | values {value : JsonSchema} {category : Category} (inner : Is context value category) :
      Is context (.map value) (.record category)
  | object : Is context (.ofKind .object) (.record .unknown)

end JsonSchema

/-- A type of an interface and a schema of a component are of one category, and allow null beside it as often. -/
inductive Alike (ts : TypeScript.Context) (api : OpenApi.Context) : TypeScript.Shape → JsonSchema → Prop
  | same {shape : TypeScript.Shape} {schema : JsonSchema} (category : Category) (first : shape.Is ts category)
      (second : schema.Is api category) : Alike ts api shape schema
  | null {shape : TypeScript.Shape} {schema : JsonSchema} (inner : Alike ts api shape schema) :
      Alike ts api (.orNull shape) schema.nullable

namespace Text

theorem dropStarts_append {start rest : List Char} (some_start : 0 < start.length)
    (once : start.isPrefixOf rest = false) : dropStarts start (start ++ rest) = rest := by
  have first : 0 < start.length ∧ start.isPrefixOf (start ++ rest) = true :=
    ⟨some_start, List.isPrefixOf_iff_prefix.mpr (List.prefix_append start rest)⟩
  rw [dropStarts, if_pos first, List.drop_left, dropStarts, if_neg]
  rw [once]
  exact fun never => Bool.false_ne_true never.2

end Text

namespace WellKnown

def isDoubled (name : String) : Bool := "google.protobuf.google.protobuf.".toList.isPrefixOf name.toList

end WellKnown

section BuiltIn

variable {ts : TypeScript.Context} {api : OpenApi.Context} {name : String}

theorem exists_localName (inside : "google.protobuf.".toList.isPrefixOf name.toList = true)
    (single : WellKnown.isDoubled name = false) : ∃ localName, name = "google.protobuf." ++ localName ∧
      String.ofList (Text.dropStarts "google.protobuf.".toList name.toList) = localName := by
  obtain ⟨rest, same⟩ := List.isPrefixOf_iff_prefix.mp inside
  refine ⟨String.ofList rest, ?_, ?_⟩
  · rw [← String.toList_inj, String.toList_append, show (String.ofList rest).toList = rest from String.toList_ofList, same]
  · rw [← same, Text.dropStarts_append (by decide)]
    rw [← Bool.not_eq_true, List.isPrefixOf_iff_prefix]
    rintro ⟨more, again⟩
    rw [WellKnown.isDoubled, ← Bool.not_eq_true, List.isPrefixOf_iff_prefix] at single
    refine single ⟨more, ?_⟩
    rw [← same, ← again, ← List.append_assoc]
    rfl

theorem builtIn_alike (single : WellKnown.isDoubled name = false) :
    (TypeScript.wellKnownShape? name = none ∧ OpenApi.wellKnownSchema? name = none) ∨
      ∃ shape schema category, TypeScript.wellKnownShape? name = some shape ∧
        OpenApi.wellKnownSchema? name = some schema ∧ shape.Is ts category ∧ schema.Is api category := by
  -- Both tables speak of names of the package of the built-in types only.
  cases inside : "google.protobuf.".toList.isPrefixOf name.toList with
  | false =>
    refine .inl ⟨?_, ?_⟩
    · rw [TypeScript.wellKnownShape?]
      simp only [inside, Bool.false_eq_true, if_false]
    · unfold OpenApi.wellKnownSchema?
      split
      all_goals first | rfl | exact absurd inside (by decide)
  | true =>
    obtain ⟨localName, rfl, same⟩ := exists_localName inside single
    have named (other : String) (given : "google.protobuf." ++ localName = other) :
        String.ofList (other.toList.drop 16) = localName := by
      rw [← given, String.toList_append, List.drop_append_of_le_length (by decide)]
      exact String.ofList_toList
    simp only [TypeScript.wellKnownShape?, inside, same, if_true]
    split
    case h_1 | h_2 | h_3 | h_4 | h_5 | h_6 => exact .inr ⟨_, _, .string, rfl, rfl, .string, .string rfl⟩
    case h_7 | h_8 => exact .inr ⟨_, _, .number, rfl, rfl, .number, .number rfl⟩
    case h_9 | h_10 => exact .inr ⟨_, _, .number, rfl, rfl, .number, .integer rfl⟩
    case h_11 => exact .inr ⟨_, _, .boolean, rfl, rfl, .boolean, .boolean⟩
    case h_12 => exact .inr ⟨_, _, .record .unknown, rfl, rfl, .nothing, .object⟩
    case h_13 | h_14 => exact .inr ⟨_, _, .record .unknown, rfl, rfl, .record .unknown, .object⟩
    case h_15 => exact .inr ⟨_, _, .unknown, rfl, rfl, .unknown, .unknown⟩
    case h_16 => exact .inr ⟨_, _, .array .unknown, rfl, rfl, .array .unknown, .list⟩
    case h_17 =>
      refine .inl ⟨rfl, ?_⟩
      unfold OpenApi.wellKnownSchema?
      split
      all_goals first
        | rfl
        | have same := named _ (by assumption)
          subst same
          contradiction

end BuiltIn

section Scalars

variable (ts : TypeScript.Context) (api : OpenApi.Context)

theorem bytes_is_string (encoding : BytesEncoding) : (OpenApi.bytesSchema encoding).Is api .string := by
  cases encoding <;> exact .string rfl

theorem scalar_alike (asNumber : Bool) (encoding : BytesEncoding) (scalar : Scalar) : ∃ category,
    (TypeScript.scalarShape asNumber scalar).Is ts category ∧
      (OpenApi.scalarSchema asNumber encoding scalar).Is api category := by
  cases scalar with
  | bool => exact ⟨.boolean, .boolean, .boolean⟩
  | string => exact ⟨.string, .string, .string rfl⟩
  | bytes => exact ⟨.string, .string, bytes_is_string api encoding⟩
  | double | float => exact ⟨.number, .number, .number rfl⟩
  | int32 | uint32 | sint32 | fixed32 | sfixed32 => exact ⟨.number, .number, .integer rfl⟩
  | int64 | uint64 | sint64 | fixed64 | sfixed64 =>
    cases asNumber with
    | true => exact ⟨.number, .number, .integer rfl⟩
    | false => exact ⟨.string, .string, .string rfl⟩

theorem timestamp_alike (format : TimestampFormat) : ∃ category,
    (if format.isNumeric then TypeScript.Shape.number else .string).Is ts category ∧
      (OpenApi.timestampSchema format).Is api category := by
  cases format with
  | unixSeconds | unixMillis => exact ⟨.number, .number, .integer rfl⟩
  | date | rfc3339 | unspecified => exact ⟨.string, .string, .string rfl⟩

end Scalars

namespace Member

/-- A member is given one format of timestamps at most. -/
def OneFormat (member : Member) : Prop :=
  ∀ first second, .timestampAs first ∈ member.transforms → .timestampAs second ∈ member.transforms → first = second

theorem timestampFormat?_eq_some {member : Member} (one : member.OneFormat) {format : TimestampFormat}
    (given : .timestampAs format ∈ member.transforms) : member.timestampFormat? = some format := by
  refine findSome?_eq_some given rfl fun other there found picked => ?_
  cases other <;> cases picked
  exact one _ _ there given

theorem has_enumAsNumber (member : Member) : member.has .enumAsNumber = member.numberedValues?.isSome := by
  rw [Bool.eq_iff_iff, has, List.any_eq_true, numberedValues?, List.findSome?_isSome_iff]
  refine exists_congr fun t => and_congr_right fun _ => ?_
  cases t <;> simp [Transform.tag]

end Member

section Elements

variable {ts : TypeScript.Context} {api : OpenApi.Context} {member : Member} (one : member.OneFormat)

include one in
theorem timestampElement_alike (typed : member.field.type = .message WellKnown.timestamp) : ∃ category,
    (ts.elementShape member).Is ts category ∧ (api.elementSchema member).Is api category := by
  obtain ⟨category, shape, schema⟩ := timestamp_alike ts api (member.timestampFormat?.getD .rfc3339)
  refine ⟨category, ?_, ?_⟩
  · rw [TypeScript.Context.elementShape, typed]
    dsimp only
    rw [if_pos rfl]
    convert shape using 2
    rw [List.any_eq_true]
    constructor
    · rintro ⟨t, inside, numeric⟩
      cases t with
      | timestampAs format =>
        rw [Member.timestampFormat?_eq_some one inside]
        exact numeric
      | _ => cases numeric
    · intro numeric
      cases given : member.timestampFormat? with
      | none =>
        rw [given] at numeric
        cases numeric
      | some format =>
        obtain ⟨t, inside, picked⟩ := List.exists_of_findSome?_eq_some given
        rw [given] at numeric
        cases t <;> cases picked
        exact ⟨_, inside, numeric⟩
  · rw [OpenApi.Context.elementSchema, typed]
    dsimp only
    rw [if_pos rfl]
    exact schema

theorem named_is {type : String} (declared : ts.declared? type ≠ none) : (ts.named type).Is ts (.reference type) := by
  obtain ⟨⟨ident, file⟩, found⟩ := Option.ne_none_iff_exists'.mp declared
  rw [TypeScript.Context.named, found]
  exact .named found

theorem declared?_ne_none {type : String} (known : ts.index.message? type ≠ none ∨ ts.index.enum? type ≠ none) :
    ts.declared? type ≠ none := by
  rw [TypeScript.Context.declared?]
  split
  · simp
  · rename_i foreign
    simpa using known.resolve_left fun there => there foreign

theorem element_alike (one : member.OneFormat) (known : member.field.Known ts.index)
    (single : ∀ type ∈ member.field.message?, WellKnown.isDoubled type = false) : ∃ category,
      (ts.elementShape member).Is ts category ∧ (api.elementSchema member).Is api category := by
  cases typed : member.field.type with
  | scalar scalar =>
    rw [TypeScript.Context.elementShape, OpenApi.Context.elementSchema, typed]
    exact scalar_alike ts api _ _ scalar
  | enum name =>
    have declared := declared?_ne_none (.inr (known.2 name (by rw [Index.Field.enum?, typed]; rfl)))
    rw [TypeScript.Context.elementShape, OpenApi.Context.elementSchema, typed]
    dsimp only
    rw [Member.has_enumAsNumber]
    cases member.numberedValues? with
    | some table => exact ⟨.number, .number, .numbers _⟩
    | none =>
      -- The null value's enum is the one enum with a built-in form.
      by_cases null : name = WellKnown.nullValue
      · exact ⟨.null, by simpa [null] using .null, by simpa [null] using .null⟩
      · refine ⟨.reference name, ?_, ?_⟩
        · simpa [null] using named_is declared
        · simpa [null] using JsonSchema.Is.reference name
  | message name =>
    by_cases timestamp : name = WellKnown.timestamp
    · exact timestampElement_alike one (timestamp ▸ typed)
    · have held : member.field.message? = some name := by rw [Index.Field.message?, typed]; rfl
      rw [TypeScript.Context.elementShape, OpenApi.Context.elementSchema, typed]
      dsimp only
      rw [if_neg timestamp, if_neg timestamp]
      rcases builtIn_alike (single name held) with ⟨shape, schema⟩ | ⟨shape, schema, category, given, given', is, is'⟩
      · rw [shape, schema]
        exact ⟨.reference name, named_is (declared?_ne_none (.inl (known.1 name held))), .reference name⟩
      · rw [given, given']
        exact ⟨category, is, is'⟩

end Elements

structure Member.Plain (index : Index) (plans : PlanSet) (member : Member) : Prop where
  one : member.OneFormat
  known : member.field.Known index
  single : ∀ type ∈ member.field.message?, WellKnown.isDoubled type = false
  unwrapped : ∀ key ∈ member.unwrappedKey?, ∃ inner, Interface.unwrappedList? index plans member key = some inner ∧
    inner.OneFormat ∧ inner.field.Known index ∧ ∀ type ∈ inner.field.message?, WellKnown.isDoubled type = false

section Members

variable {index : Index} {plans : PlanSet} (file : Index.File) (package : String) {member : Member}
  (plain : member.Plain index plans)

include plain

theorem member_alike : ∃ category, (TypeScript.Context.memberShape ⟨index, plans, file⟩ member).Is
      ⟨index, plans, file⟩ category ∧
    (OpenApi.Context.memberSchema ⟨index, plans, package⟩ member).Is ⟨index, plans, package⟩ category := by
  rw [TypeScript.Context.memberShape, OpenApi.Context.memberSchema, TypeScript.Context.unwrapped?,
    OpenApi.Context.unwrapped?]
  obtain ⟨category, shape, schema⟩ :=
    @element_alike ⟨index, plans, file⟩ ⟨index, plans, package⟩ member plain.one plain.known plain.single
  cases map : member.field.isMap with
  | true =>
    simp only [if_true]
    cases given : member.unwrappedKey? with
    | none => exact ⟨.record category, .record shape, .values schema⟩
    | some key =>
      obtain ⟨inner, found, one, known, single⟩ := plain.unwrapped key given
      obtain ⟨category, shape, schema⟩ :=
        @element_alike ⟨index, plans, file⟩ ⟨index, plans, package⟩ inner one known single
      simp only [Option.bind_some, Option.map_some, found]
      exact ⟨.record (.array category), .record (.array shape), .values (.items schema)⟩
  | false =>
    simp only [Bool.false_eq_true, if_false]
    cases list : member.field.isList with
    | true => exact ⟨.array category, .array shape, .items schema⟩
    | false => exact ⟨category, shape, schema⟩

theorem property_alike : Alike ⟨index, plans, file⟩ ⟨index, plans, package⟩
    (TypeScript.Context.propertyShape ⟨index, plans, file⟩ member)
    (OpenApi.Context.propertySchema ⟨index, plans, package⟩ member) := by
  rw [TypeScript.Context.propertyShape, OpenApi.Context.propertySchema]
  obtain ⟨category, first, second⟩ := member_alike file package plain
  generalize TypeScript.Context.memberShape ⟨index, plans, file⟩ member = shape at first
  generalize OpenApi.Context.memberSchema ⟨index, plans, package⟩ member = schema at second
  have alike := Alike.same category first second
  clear first second
  induction member.transforms generalizing shape schema with
  | nil => exact alike
  | cons t rest ih =>
    rw [List.foldl_cons, List.foldl_cons]
    refine ih _ _ ?_
    cases t with
    | nullable => exact .null alike
    | emptyValueAs behavior =>
      cases behavior with
      | null => exact .null alike
      | _ => exact alike
    | _ => exact alike

theorem variant_alike (kept : ∀ t ∈ member.transforms, t ≠ .nullable ∧ t ≠ .emptyValueAs .null) :
    Alike ⟨index, plans, file⟩ ⟨index, plans, package⟩ (TypeScript.Context.propertyShape ⟨index, plans, file⟩ member)
      (OpenApi.Context.memberSchema ⟨index, plans, package⟩ member) := by
  obtain ⟨category, first, second⟩ := member_alike file package plain
  rw [TypeScript.Context.propertyShape, foldl_of_unchanged]
  · exact .same category first second
  · intro t inside shape
    obtain ⟨nullable, empty⟩ := kept t inside
    cases t with
    | nullable => exact absurd rfl nullable
    | emptyValueAs behavior =>
      cases behavior with
      | null => exact absurd rfl empty
      | _ => rfl
    | _ => rfl

end Members

end Wireform
