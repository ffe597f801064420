import Wireform.Proofs.PropertyTables
import Wireform.Proofs.ValueTransforms

set_option autoImplicit false

namespace Wireform

/-- Somewhere within a value, an object refers to a target: it has the text of the target as its member `$ref`. -/
inductive Json.PointsTo (target : String) : Json → Prop
  | here {entries : Entries Json} (inside : ("$ref", .str target) ∈ entries) : PointsTo target (.obj entries)
  | item {items : List Json} {item : Json} (inside : item ∈ items) (below : PointsTo target item) :
      PointsTo target (.arr items)
  | member {entries : Entries Json} {key : String} {v : Json} (inside : (key, v) ∈ entries)
      (below : PointsTo target v) : PointsTo target (.obj entries)

namespace Json.PointsTo

variable {target : String}

theorem of_obj {entries : Entries Json} (points : PointsTo target (.obj entries)) :
    ∃ entry ∈ entries, entry = ("$ref", .str target) ∨ entry.2.PointsTo target := by
  cases points with
  | here inside => exact ⟨_, inside, .inl rfl⟩
  | member inside below => exact ⟨_, inside, .inr below⟩

theorem of_nil : ¬PointsTo target (.obj []) := by
  intro points
  obtain ⟨_, never, _⟩ := points.of_obj
  cases never

theorem not_leaf {v : Json} (leaf : v.IsLeaf) : ¬v.PointsTo target := by
  intro points
  cases points <;> exact leaf

theorem not_leaves {items : List Json} (leaves : ∀ item ∈ items, item.IsLeaf) : ¬PointsTo target (.arr items) := by
  rintro (_ | ⟨inside, below⟩)
  exact not_leaf (leaves _ inside) below

theorem of_members {entries : Entries Json} (points : PointsTo target (.obj entries)) (other : "$ref" ∉ entries.keys) :
    ∃ entry ∈ entries, entry.2.PointsTo target := by
  obtain ⟨entry, inside, same | below⟩ := points.of_obj
  · exact absurd (List.mem_map.mpr ⟨entry, inside, congrArg Prod.fst same⟩) other
  · exact ⟨entry, inside, below⟩

theorem of_single {key : String} {v : Json} (points : PointsTo target (.obj [(key, v)])) (differ : key ≠ "$ref") :
    v.PointsTo target := by
  obtain ⟨entry, inside, below⟩ := points.of_members (by simpa [Entries.keys] using differ.symm)
  cases List.mem_singleton.mp inside
  exact below

theorem append {first second : Entries Json} (points : PointsTo target (.obj (first ++ second))) :
    PointsTo target (.obj first) ∨ PointsTo target (.obj second) := by
  cases points with
  | here inside => exact (List.mem_append.mp inside).imp .here .here
  | member inside below => exact (List.mem_append.mp inside).imp (.member · below) (.member · below)

end Json.PointsTo

namespace JsonSchema

def RefersTo (R : String → Prop) : JsonSchema → Prop
  | .constant _ | .type _ | .format _ | .pattern _ | .required _ => True
  | .enum values => ∀ v ∈ values, v.IsLeaf
  | .all keywords => ofList keywords
  | .properties entries => ofEntries entries
  | .items schema => RefersTo R schema
  | .additionalProperties _ schema => RefersTo R schema
  | .oneOf schemas => ofList schemas
  | .reference name => R name
where
  ofList : List JsonSchema → Prop
    | [] => True
    | schema :: rest => RefersTo R schema ∧ ofList rest
  ofEntries : List (String × JsonSchema) → Prop
    | [] => True
    | (_, schema) :: rest => RefersTo R schema ∧ ofEntries rest

variable {R : String → Prop}

theorem refersTo_list {schemas : List JsonSchema} :
    RefersTo.ofList R schemas ↔ ∀ schema ∈ schemas, schema.RefersTo R := by
  induction schemas with
  | nil => simp [RefersTo.ofList]
  | cons schema rest ih => simp [RefersTo.ofList, ih]

theorem refersTo_entries {entries : Entries JsonSchema} :
    RefersTo.ofEntries R entries ↔ ∀ entry ∈ entries, entry.2.RefersTo R := by
  induction entries with
  | nil => simp [RefersTo.ofEntries]
  | cons entry rest ih => simp [RefersTo.ofEntries, ih]

theorem refersTo_all {keywords : List JsonSchema} :
    (JsonSchema.all keywords).RefersTo R ↔ ∀ keyword ∈ keywords, keyword.RefersTo R := refersTo_list

theorem toJson_ne_str (schema : JsonSchema) (text : String) : schema.toJson ≠ .str text := by
  cases schema <;> exact nofun

theorem isLeaf_of_strings {texts : List String} : ∀ item ∈ texts.map Json.str, item.IsLeaf := by
  rintro _ listed
  obtain ⟨text, _, rfl⟩ := List.mem_map.mp listed
  trivial

variable {target : String}

theorem kindsJson_flat (kinds : List JsonKind) : ¬(kindsJson kinds).PointsTo target := by
  unfold kindsJson
  split
  · exact Json.PointsTo.not_leaf trivial
  · exact Json.PointsTo.not_leaves isLeaf_of_strings

mutual

theorem refers_of_points : ∀ (schema : JsonSchema), schema.RefersTo R → schema.toJson.PointsTo target →
    ∃ name, R name ∧ target = componentsPath ++ name
  | .constant _, _, points => absurd points (Json.PointsTo.not_leaf trivial)
  | .format _, _, points => absurd (points.of_single (by decide)) (Json.PointsTo.not_leaf trivial)
  | .pattern _, _, points => absurd (points.of_single (by decide)) (Json.PointsTo.not_leaf trivial)
  | .type kinds, _, points => absurd (points.of_single (by decide)) (kindsJson_flat kinds)
  | .required _, _, points => absurd (points.of_single (by decide)) (Json.PointsTo.not_leaves isLeaf_of_strings)
  | .enum _, leaves, points => absurd (points.of_single (by decide)) (Json.PointsTo.not_leaves leaves)
  | .all keywords, refers, points => refers_of_merged keywords refers points
  | .properties entries, refers, points => refers_of_entries entries refers (points.of_single (by decide))
  | .items schema, refers, points => refers_of_points schema refers (points.of_single (by decide))
  | .additionalProperties _ schema, refers, points => refers_of_points schema refers (points.of_single (by decide))
  | .oneOf schemas, refers, points => refers_of_list schemas refers (points.of_single (by decide))
  | .reference name, refers, points => by
    obtain ⟨entry, inside, same | below⟩ := points.of_obj
    all_goals cases List.mem_singleton.mp inside
    · cases same
      exact ⟨name, refers, rfl⟩
    · exact absurd below (Json.PointsTo.not_leaf trivial)

theorem refers_of_merged : ∀ (keywords : List JsonSchema), RefersTo.ofList R keywords →
    (Json.obj (toJson.merged keywords)).PointsTo target → ∃ name, R name ∧ target = componentsPath ++ name
  | [], _, points => absurd points Json.PointsTo.of_nil
  | keyword :: rest, refers, points => by
    rcases points.append with first | later
    · refine refers_of_points keyword refers.1 ?_
      cases made : keyword.toJson with
      | obj entries => rwa [made] at first
      | _ =>
        rw [made] at first
        exact absurd first Json.PointsTo.of_nil
    · exact refers_of_merged rest refers.2 later

theorem refers_of_entries : ∀ (entries : Entries JsonSchema), RefersTo.ofEntries R entries →
    (Json.obj (toJson.entriesJson entries)).PointsTo target → ∃ name, R name ∧ target = componentsPath ++ name
  | [], _, points => absurd points Json.PointsTo.of_nil
  | (key, schema) :: rest, refers, points => by
    obtain ⟨entry, inside, same | below⟩ := points.of_obj
    all_goals rcases List.mem_cons.mp inside with rfl | later
    -- A property of the name `$ref` holds a schema, so that it is no reference.
    · exact absurd (congrArg Prod.snd same) (toJson_ne_str schema target)
    · exact refers_of_entries rest refers.2 (.here (same ▸ later))
    · exact refers_of_points schema refers.1 below
    · exact refers_of_entries rest refers.2 (.member later below)

theorem refers_of_list : ∀ (schemas : List JsonSchema), RefersTo.ofList R schemas →
    (Json.arr (toJson.schemasJson schemas)).PointsTo target → ∃ name, R name ∧ target = componentsPath ++ name
  | [], _, points => absurd points (Json.PointsTo.not_leaves fun _ never => absurd never List.not_mem_nil)
  | schema :: rest, refers, .item inside below => by
    rcases List.mem_cons.mp inside with rfl | later
    · exact refers_of_points _ refers.1 below
    · exact refers_of_list rest refers.2 (.item later below)

end

end JsonSchema

namespace OpenApi

open JsonSchema

variable {R : String → Prop}

theorem refersTo_texts (texts : List String) : (JsonSchema.ofTexts texts).RefersTo R := by
  refine refersTo_all.mpr ?_
  simp [RefersTo, Json.IsLeaf]

theorem refersTo_bytes (encoding : BytesEncoding) : (bytesSchema encoding).RefersTo R := by
  cases encoding <;> exact refersTo_all.mpr (by simp [RefersTo])

theorem refersTo_integer64 (unsigned asNumber : Bool) : (integer64Schema unsigned asNumber).RefersTo R := by
  cases asNumber <;> exact refersTo_all.mpr (by simp [RefersTo])

theorem refersTo_scalar (asNumber : Bool) (bytes : BytesEncoding) (scalar : Scalar) :
    (scalarSchema asNumber bytes scalar).RefersTo R := by
  cases scalar
  case bytes => exact refersTo_bytes bytes
  case int64 | uint64 | sint64 | fixed64 | sfixed64 => exact refersTo_integer64 ..
  all_goals exact refersTo_all.mpr (by simp [RefersTo])

theorem refersTo_timestamp (format : TimestampFormat) : (timestampSchema format).RefersTo R := by
  cases format <;> exact refersTo_all.mpr (by simp [RefersTo])

theorem refersTo_wellKnown {name : String} {schema : JsonSchema} (builtIn : wellKnownSchema? name = some schema) :
    schema.RefersTo R := by
  unfold wellKnownSchema? at builtIn
  split at builtIn
  all_goals first
    | cases builtIn; exact refersTo_scalar ..
    | cases builtIn; exact refersTo_all.mpr (by simp [RefersTo])
    | cases builtIn

namespace Context

variable {context : Context} {member : Member}

theorem refersTo_element (each : ∀ type, elementReference? member = some type → R (context.componentName type)) :
    (context.elementSchema member).RefersTo R := by
  unfold elementSchema
  unfold elementReference? at each
  cases typed : member.field.type with
  | scalar s => exact refersTo_scalar ..
  | enum name =>
    simp only [typed] at each ⊢
    cases numbered : member.numberedValues? with
    | some table =>
      refine refersTo_all.mpr ?_
      simp [RefersTo, Json.IsLeaf, Json.int]
    | none =>
      simp only [numbered] at each ⊢
      split
      · exact refersTo_all.mpr (by simp [RefersTo])
      · next other => exact refersTo_all.mpr (by simpa [RefersTo, other] using each)
  | message name =>
    simp only [typed] at each ⊢
    split
    · exact refersTo_timestamp _
    · next other =>
      cases builtIn : wellKnownSchema? name with
      | some schema => exact refersTo_wellKnown builtIn
      | none => exact refersTo_all.mpr (by simpa [RefersTo, other, builtIn] using each)

theorem refersTo_member (each : ∀ type, context.memberReference? member = some type → R (context.componentName type)) :
    (context.memberSchema member).RefersTo R := by
  have array {schema : JsonSchema} (refers : schema.RefersTo R) : (JsonSchema.array schema).RefersTo R :=
    ⟨trivial, refers, trivial⟩
  have map {schema : JsonSchema} (refers : schema.RefersTo R) : (JsonSchema.map schema).RefersTo R :=
    ⟨trivial, refers, trivial⟩
  unfold memberSchema
  unfold memberReference? at each
  split
  · next inner unwrapped =>
    rw [unwrapped] at each
    exact map (array (refersTo_element each))
  · exact map ⟨trivial, trivial⟩
  · next whole =>
    rw [whole] at each
    have element := refersTo_element each
    split
    · exact map element
    · split
      · exact array element
      · exact element

theorem refersTo_nullable {schema : JsonSchema} (refers : schema.RefersTo R) : schema.nullable.RefersTo R := by
  have wrapped : (JsonSchema.all [.oneOf [schema, .ofKind .null]]).RefersTo R :=
    ⟨⟨refers, ⟨trivial, trivial⟩, trivial⟩, trivial⟩
  unfold JsonSchema.nullable
  split
  · split
    · refine refersTo_all.mpr fun keyword inside => ?_
      obtain ⟨original, there, rfl⟩ := List.mem_map.mp inside
      have kept := refersTo_all.mp refers original there
      unfold JsonSchema.withNull
      split
      · trivial
      · exact kept
    · exact wrapped
  · exact wrapped

theorem refersTo_property
    (each : ∀ type, context.memberReference? member = some type → R (context.componentName type)) :
    (context.propertySchema member).RefersTo R := by
  have refers := refersTo_member each
  unfold propertySchema
  generalize context.memberSchema member = schema at refers ⊢
  induction member.transforms generalizing schema with
  | nil => exact refers
  | cons transform rest ih =>
    refine ih _ ?_
    dsimp only
    split
    · exact refersTo_nullable refers
    · exact refersTo_nullable refers
    · exact refers

theorem refersTo_shown {shown : Shown}
    (each : ∀ type, shown.reference? context = some type → R (context.componentName type)) :
    (shown.schema context).RefersTo R := by
  match shown with
  | .tag values => exact refersTo_texts values
  | .member .plain seen => exact refersTo_property each
  | .member .variant seen | .member .stray seen => exact refersTo_member each

variable {m : Index.Message}

theorem refersTo_message (each : ∀ type ∈ context.messageReferences m, R (context.componentName type)) :
    (context.messageSchema m).RefersTo R := by
  unfold messageSchema
  unfold messageReferences at each
  rcases form : Interface.ofMessage context.index context.plans m with member | properties
  · simp only [form] at each ⊢
    exact refersTo_member fun type refers => each type (Option.mem_toList.mpr refers)
  · simp only [form] at each ⊢
    have declared : ∀ entry ∈ (Object.ofProperties context properties).properties, entry.2.RefersTo R := by
      rintro ⟨key, schema⟩ inside
      obtain ⟨p, listed, shown, shows, rfl⟩ := Object.shows_of_mem inside
      exact refersTo_shown fun type refers =>
        each type (List.mem_flatMap.mpr ⟨p, listed, mem_propertyReferences shows refers⟩)
    refine refersTo_all.mpr fun keyword inside => ?_
    rcases List.mem_append.mp inside with shape | required
    · rcases List.mem_cons.mp shape with rfl | shape
      · trivial
      · cases List.mem_singleton.mp shape
        exact refersTo_entries.mpr declared
    · split at required
      · cases required
      · cases List.mem_singleton.mp required
        trivial

theorem refersTo_type {name : String} {schema : JsonSchema} (typed : context.typeSchema? name = some schema)
    (each : ∀ type ∈ context.typeReferences name, R (context.componentName type)) : schema.RefersTo R := by
  unfold typeSchema? at typed
  unfold typeReferences at each
  split at typed
  · next m found =>
    cases typed
    rw [found] at each
    exact refersTo_message each
  · obtain ⟨e, _, rfl⟩ := Option.map_eq_some_iff.mp typed
    exact refersTo_texts _

end Context

end OpenApi

end Wireform
