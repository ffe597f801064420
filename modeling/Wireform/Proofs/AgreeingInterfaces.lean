import Wireform.Proofs.ApartProperties
import Wireform.Proofs.ResolvedReferences
import Wireform.Proofs.ValueCategories

set_option autoImplicit false

namespace Wireform

namespace Index

section References

variable {set : Schema.FileSet} {targets : List String} {settings : Settings} {index : Index}

theorem Declarations.knows_of_resolves {all : Declarations} {field holder : Schema.Field}
    (resolves : all.resolves field holder = true) : all.knows (namedType holder) = true := by
  cases typed : namedType holder <;> simp only [Declarations.resolves, Declarations.knows, typed, Bool.or_eq_true,
    Bool.and_eq_true] at resolves ⊢
  case enum => exact resolves.imp_right fun builtIn => builtIn.2
  case message => exact resolves

theorem known_of_resolved (run : build set targets settings = .ok index)
    (tidy : (declarations set (reachedFiles set targets)).Fields (declarations set (reachedFiles set targets)).TidyField)
    {name : String} {m : Message} (found : index.message? name = some m) {f : Field} (inside : f ∈ m.fields)
    (resolved : f.unresolved = false) : f.Known index := by
  have built := built_of_build run
  rcases declaration_of_found built found with ⟨d, declared, plain, rfl⟩ | ⟨_, bare⟩
  · obtain ⟨field, there, rfl⟩ := mem_resolved_fields.mp inside
    have orderly := tidy d (KeyMap.mem_values.mpr ⟨_, declared⟩) plain field there
    obtain ⟨holder, held⟩ := Option.isSome_iff_exists.mp orderly.held
    rcases resolveField_of_tidy orderly held with ⟨resolves, _, typed, _⟩ | ⟨_, unresolved, _⟩
    · have has := (has_iff_knows built (bareNames_namedType holder) fun name named => orderly.plain holder held name
        (by rw [named]; rfl)).mpr (Declarations.knows_of_resolves resolves)
      rw [← typed] at has
      refine ⟨fun type given => ?_, fun type given => ?_⟩
      · rw [type_of_message? given] at has
        exact has
      · rw [type_of_enum? given] at has
        exact has
    · exact absurd (resolved.symm.trans unresolved) Bool.false_ne_true
  · rw [bare] at inside
    cases inside

end References

section Members

variable {index : Index} (sound : index.Sound) (named : index.Named)
  (known : ∀ name m, index.message? name = some m → ∀ f ∈ m.fields, f.Known index)
  (single : ∀ m ∈ index.messages.values, WellKnown.isDoubled m.fullName = false) {name : String} {m : Message}
  (found : index.message? name = some m) {f : Field} (inside : f ∈ m.fields)

include sound named found inside

theorem oneFormat_memberOf : (Interface.memberOf index.plans m f).OneFormat := by
  intro first second given given'
  cases own : m.wellKnown with
  | true =>
    rw [Interface.memberOf, plan?_of_wellKnown sound.toKeyed found own] at given
    cases given
  | false =>
    have names := named.names m (KeyMap.mem_values.mpr ⟨_, found⟩)
    have gives (format : TimestampFormat)
        (given : .timestampAs format ∈ (Interface.memberOf index.plans m f).transforms) :
        format = f.annotations.timestamp := by
      obtain ⟨_, gives⟩ := (mem_transforms sound.toKeyed found own names inside (by simp [Transform.tag])).mp given
      cases gives
      rfl
    rw [gives first given, gives second given']

include known single

omit named in
theorem single_of_known : ∀ type ∈ f.message?, WellKnown.isDoubled type = false := by
  intro type typed
  obtain ⟨c, there⟩ := Option.ne_none_iff_exists'.mp ((known name m found f inside).1 type typed)
  obtain ⟨_, same⟩ := message?_type sound found inside typed there
  rw [← same]
  exact single c (KeyMap.mem_values.mpr ⟨_, there⟩)

theorem plain_memberOf : (Interface.memberOf index.plans m f).Plain index index.plans := by
  refine ⟨oneFormat_memberOf sound named found inside, ?_, ?_, fun key given => ?_⟩
  · rw [field_memberOf]
    exact known name m found f inside
  · rw [field_memberOf]
    exact single_of_known sound known single found inside
  · cases own : m.wellKnown with
    | true =>
      rw [Interface.memberOf, plan?_of_wellKnown sound.toKeyed found own] at given
      cases given
    | false =>
      have names := named.names m (KeyMap.mem_values.mpr ⟨_, found⟩)
      obtain ⟨child, element, typed, unwraps⟩ := (unwrappedKey?_memberOf sound.toKeyed found own names inside).mp given
      obtain ⟨value, inner, there, first, _, _, _, same⟩ := unwrapValues?_eq_some index f unwraps
      obtain ⟨_, rfl⟩ := Transform.unwrapValues.inj same
      have listed : (value.fields.find? (·.jsonName == inner.jsonName)).isSome = true :=
        List.find?_isSome.mpr ⟨inner, List.mem_of_find?_eq_some first, beq_self_eq_true _⟩
      obtain ⟨list, picked⟩ := Option.isSome_iff_exists.mp listed
      have among := List.mem_of_find?_eq_some picked
      refine ⟨Interface.memberOf index.plans value list, ?_, oneFormat_memberOf sound named there among, ?_, ?_⟩
      · simp [Interface.unwrappedList?, field_memberOf, typed, there, picked]
      · rw [field_memberOf]
        exact known child value there list among
      · rw [field_memberOf]
        exact single_of_known sound known single there among

end Members

section Nulls

variable {index : Index} (sound : index.Sound) (named : index.Named) {m : Message} (declares : index.Declares m)
  {f : Field} (inside : f ∈ m.fields)

include sound named declares inside

theorem nullable_memberOf : (Interface.memberOf index.plans m f).transforms.filter (· == .nullable) =
    if f.annotations.nullable then [.nullable] else [] := by
  have names := named.names m (mem_values_of_declares declares)
  obtain ⟨oneofs, tagged, transforms⟩ := transforms_memberOf sound.toKeyed declares.1 declares.2 names inside
  have without (steps : List Transform) (others : ∀ t ∈ steps, t ≠ .nullable) : steps.filter (· == .nullable) = [] :=
    List.filter_eq_nil_iff.mpr fun t there => by simpa using others t there
  rw [transforms]
  simp only [bodySteps, List.map_append, List.filter_append]
  -- No other part of the steps of a field makes it nullable.
  rw [without oneofs, without ((emptySteps f).map (·.transform)),
    without ((childSteps index index.planned.contains f).map (·.transform)),
    without ((liftSteps index f).map (·.transform)), without ((recodeSteps index f).map (·.transform)),
    without ((rootSteps m f).map (·.transform))]
  · rw [nullSteps]
    cases f.annotations.nullable <;> simp [Field.step]
  · intro t listed
    obtain ⟨step, there, rfl⟩ := List.mem_map.mp listed
    rw [(mem_rootSteps.mp there).2.2]
    rintro ⟨⟩
  · intro t listed
    obtain ⟨step, there, rfl⟩ := List.mem_map.mp listed
    obtain ⟨transform, rfl, recodes⟩ := recodes_of_mem index f there
    rintro rfl
    cases recodes
  · intro t listed
    obtain ⟨step, there, rfl⟩ := List.mem_map.mp listed
    obtain ⟨_, _, _, rfl⟩ := mem_liftSteps.mp there
    rintro ⟨⟩
  · intro t listed
    obtain ⟨step, there, rfl⟩ := List.mem_map.mp listed
    obtain ⟨child, _, ⟨_, rfl⟩ | ⟨t, given, rfl⟩⟩ := mem_childSteps.mp there
    · rintro ⟨⟩
    · obtain ⟨_, _, _, _, _, _, _, rfl⟩ := unwrapValues?_eq_some index f given
      rintro ⟨⟩
  · intro t listed
    obtain ⟨step, there, rfl⟩ := List.mem_map.mp listed
    obtain ⟨_, _, rfl⟩ := mem_emptySteps.mp there
    rintro ⟨⟩
  · rintro t listed rfl
    cases tagged _ listed

theorem has_nullable : (Interface.memberOf index.plans m f).has .nullable = f.annotations.nullable := by
  have names := named.names m (mem_values_of_declares declares)
  rw [Bool.eq_iff_iff, Member.has, List.any_eq_true]
  constructor
  · rintro ⟨t, listed, tagged⟩
    have tag := beq_iff_eq.mp tagged
    obtain ⟨container, gives⟩ :=
      (mem_transforms sound.toKeyed declares.1 declares.2 names inside (by simp [tag])).mp listed
    cases gives <;> cases tag
    assumption
  · intro marked
    exact ⟨_, (mem_transforms sound.toKeyed declares.1 declares.2 names inside (by simp [Transform.tag])).mpr
      ⟨_, .nullable marked⟩, rfl⟩

theorem kept_of_grouped {group : Oneof × OneofConfig} (grouped : m.groupOf? f = some group) :
    f.annotations.nullable = false ∧
      ∀ t ∈ (Interface.memberOf index.plans m f).transforms, t ≠ .nullable ∧ t ≠ .emptyValueAs .null := by
  have names := named.names m (mem_values_of_declares declares)
  have full : f.writesNull = false := by
    rw [← Bool.not_eq_true]
    intro writes
    cases grouped.symm.trans (keeps_key sound named declares inside writes).2.2
  rw [Field.writesNull, Bool.or_eq_false_iff] at full
  refine ⟨full.1, fun t listed => ⟨?_, ?_⟩⟩
  · rintro rfl
    obtain ⟨_, gives⟩ :=
      (mem_transforms sound.toKeyed declares.1 declares.2 names inside (by simp [Transform.tag])).mp listed
    cases gives with
    | nullable marked => cases full.1.symm.trans marked
  · rintro rfl
    obtain ⟨_, gives⟩ :=
      (mem_transforms sound.toKeyed declares.1 declares.2 names inside (by simp [Transform.tag])).mp listed
    generalize written : EmptyBehavior.null = behavior at gives
    cases gives
    simp [← written] at full

end Nulls

section Rows

def RowAgrees (index : Index) (file : File) (row : Row) : Prop :=
  Alike ⟨index, index.plans, file⟩ (index.context file.package) (row.declared ⟨index, index.plans, file⟩).shape
    (row.shown.schema (index.context file.package)) ∧
  row.required = if (row.declared ⟨index, index.plans, file⟩).optional then [] else [row.key]

theorem properties_of_ofMessage {index : Index} {m : Message} {properties : List Property}
    (form : Interface.ofMessage index index.plans m = .object properties) :
    Interface.properties index index.plans m = properties := by
  rw [Interface.ofMessage] at form
  split at form
  · split at form
    · cases form
    · exact Interface.object.inj form
  · exact Interface.object.inj form

theorem required_of_agreeing {index : Index} {file : File} {rows : List Row}
    (agree : ∀ row ∈ rows, RowAgrees index file row) :
    rows.flatMap Row.required =
      ((rows.map (Row.declared ⟨index, index.plans, file⟩)).filter fun d => !d.optional).map (·.key) := by
  induction rows with
  | nil => rfl
  | cons row rest ih =>
    rw [List.flatMap_cons, ih fun other there => agree other (List.mem_cons_of_mem row there),
      (agree row List.mem_cons_self).2, List.map_cons]
    cases optional : (row.declared ⟨index, index.plans, file⟩).optional with
    | true => rw [List.filter_cons_of_neg (by simp [optional])]; rfl
    | false => rw [List.filter_cons_of_pos (by simp [optional]), List.map_cons, Row.declared_key]; rfl

variable {index : Index} (sound : index.Sound) (named : index.Named)

include sound named

theorem origin_of_shows {m : Message} {f : Field} {key : String} {shown : Shown} (shows : index.Shows m f key shown)
    (declares : index.Declares m) (inside : f ∈ m.fields) : (∃ values, shown = .tag values) ∨
      ∃ c g, index.Declares c ∧ g ∈ c.fields ∧
        (shown = .member .plain (Interface.memberOf index.plans c g) ∨
          shown = .member .variant (Interface.memberOf index.plans c g) ∧ ∃ group, c.groupOf? g = some group) := by
  induction shows with
  | plain => exact .inr ⟨_, _, declares, inside, .inl rfl⟩
  | lifted alone lifted found among _ ih =>
    obtain ⟨_, type, c, typed, _, there, own, _⟩ :=
      target_of_lifted sound named declares inside (.inl (Option.isSome_of_mem lifted))
    cases typed.symm.trans (Index.lifted?_eq_some lifted).2.1
    cases there.symm.trans found
    exact ih (declares_of_found sound found own) among
  | tag => exact .inl ⟨_, rfl⟩
  | variant grouped _ _ member =>
    have there := (mem_of_groupOf? grouped).1
    obtain ⟨declared, owner⟩ := (resolved_of_named sound named declares _ _ there _).mp member
    exact .inr ⟨_, _, declares, declared, .inr ⟨rfl, _,
      groupOf?_of_mem (named.oneofs _ (mem_values_of_declares declares)) there owner⟩⟩
  | liftedVariant grouped _ flatten member typed found among _ ih =>
    obtain ⟨type, c, typed', there, own, _⟩ :=
      message_of_member sound declares.1 (mem_of_groupOf? grouped).1 flatten member
    cases typed.symm.trans typed'
    cases found.symm.trans there
    exact ih (declares_of_found sound found own) among

variable (known : ∀ name m, index.message? name = some m → ∀ f ∈ m.fields, f.Known index)
  (single : ∀ m ∈ index.messages.values, WellKnown.isDoubled m.fullName = false) (file : File)

include known single

theorem row_agrees {m : Message} (declares : index.Declares m) {f : Field} (inside : f ∈ m.fields) {key : String}
    {row : Row} (shows : index.Shows m f key row.shown) : RowAgrees index file row := by
  obtain ⟨k, shown, lifted⟩ := row
  rcases origin_of_shows sound named shows declares inside with ⟨values, rfl⟩ |
    ⟨c, g, declared, there, rfl | ⟨rfl, _, grouped⟩⟩
  · refine ⟨.same (.texts values) (.literals values) (.texts values), ?_⟩
    cases lifted <;> rfl
  · refine ⟨property_alike file file.package (plain_memberOf sound named known single declared.1 there), ?_⟩
    have nullable := nullable_memberOf sound named declared there
    have has := has_nullable sound named declared there
    cases lifted with
    | true => rfl
    | false =>
      simp only [Row.required, Row.declared, nullable, has, Bool.false_or]
      cases g.annotations.nullable <;> rfl
  · have plain := plain_memberOf sound named known single declared.1 there
    obtain ⟨full, kept⟩ := kept_of_grouped sound named declared there grouped
    refine ⟨variant_alike file file.package plain kept, ?_⟩
    have has := has_nullable sound named declared there
    simp only [Row.required, Row.declared, has, full, Bool.not_false, Bool.or_true, if_true]

theorem rows_agree {name : String} {m : Message} (found : index.message? name = some m) :
    ∀ row ∈ Row.ofProperties (Interface.properties index index.plans m), RowAgrees index file row := by
  intro row inside
  have apart := apart_of_message sound named found
  obtain ⟨p, listed, shows⟩ := (Row.shows_of_addAll _ apart.each [] inside).resolve_left (List.not_mem_nil ·)
  rw [Interface.properties] at listed
  cases own : m.wellKnown with
  | false =>
    have declares := declares_of_found sound found own
    obtain ⟨k, _, f, there, shows⟩ := shows_of_properties sound named _ m declares "" p listed _ _ shows
    exact row_agrees sound named known single file declares there shows
  | true =>
    have unplanned := plan?_of_wellKnown sound.toKeyed found own
    rw [properties_of_unplanned unplanned] at listed
    obtain ⟨f, there, rfl⟩ := List.mem_map.mp listed
    have plain := plain_memberOf sound named known single found there
    rw [Interface.memberOf, unplanned] at plain
    obtain ⟨key, shown, lifted⟩ := row
    generalize whole : "" ++ f.jsonName = given at shows
    cases shows
    refine ⟨property_alike file file.package plain, ?_⟩
    cases lifted <;> rfl

end Rows

end Index

/-- The interface and the component of a message say the same: both stand for its only field, or both have properties
under the same keys. -/
inductive SameForm (ts : TypeScript.Context) (api : OpenApi.Context) (m : Index.Message) : Prop
  | sole (member : Member) (category : Category)
      (text : ts.messageText m = "export type " ++ m.ident ++ " = " ++ (ts.memberShape member).text ++ ";\n")
      (shape : (ts.memberShape member).Is ts category) (schema : (api.messageSchema m).Is api category)
  | object (declared : List TypeScript.Declared) (o : OpenApi.Object)
      (text : ts.messageText m = TypeScript.interfaceText m.ident declared) (schema : api.messageSchema m = o.schema)
      (properties : List.Forall₂ (fun d entry => d.key = entry.1 ∧ Alike ts api d.shape entry.2) declared o.properties)
      (required : o.required = (declared.filter fun d => !d.optional).map (·.key))

namespace Run

open Index

variable {set : Schema.FileSet} {files : List String} {settings : Settings} {compiled : Compiled}

/-- Interfaces and components agree on every message, and aliases and components on every enum. -/
theorem interfaces_agree (run : compile set files settings = .ok compiled) (named : compiled.index.Named)
    (tidy : (declarations set (reachedFiles set files)).Fields (declarations set (reachedFiles set files)).TidyField)
    (single : ∀ m ∈ compiled.index.messages.values, WellKnown.isDoubled m.fullName = false) (file : File) :
    (∀ name m, compiled.index.message? name = some m →
      SameForm ⟨compiled.index, compiled.plans, file⟩ ⟨compiled.index, compiled.plans, file.package⟩ m) ∧
    ∀ e : Enum, ∃ texts, TypeScript.Context.enumText e =
        "export type " ++ e.ident ++ " = " ++ TypeScript.union texts ++ ";\n" ∧
      OpenApi.enumSchema e = .ofTexts texts := by
  refine ⟨fun name m found => ?_, fun e => ⟨_, rfl, rfl⟩⟩
  have sound := sound_of_compile run
  obtain ⟨built, _, plans⟩ := compile_spec run
  have known : ∀ name m, compiled.index.message? name = some m → ∀ f ∈ m.fields, f.Known compiled.index :=
    fun name m found f inside => known_of_resolved built tidy found inside (sound.resolved name m found f inside)
  rw [plans]
  rcases form : Interface.ofMessage compiled.index compiled.index.plans m with member | properties
  · obtain ⟨f, alone, _, rfl⟩ := alias_of_ofMessage form
    have inside : f ∈ m.fields := by rw [alone]; exact List.mem_singleton_self f
    obtain ⟨category, shape, schema⟩ :=
      member_alike file file.package (plain_memberOf sound named known single found inside)
    refine .sole _ category (Row.messageText_of_alias form) shape ?_
    rw [OpenApi.Context.messageSchema, form]
    exact schema
  · have same := properties_of_ofMessage form
    subst same
    have apart := apart_of_message sound named found
    have agree := rows_agree sound named known single file found
    refine .object _ (Row.object (compiled.index.context file.package)
      (Row.ofProperties (Interface.properties compiled.index compiled.index.plans m))) (Row.messageText_of_object form)
      ?_ ?_ ?_
    · rw [OpenApi.Context.messageSchema, form, ← Row.ofProperties_eq apart.each apart.pairs]
      rfl
    · rw [Row.object, List.forall₂_map_right_iff, List.forall₂_map_left_iff, List.forall₂_same]
      exact fun row inside => ⟨Row.declared_key row, (agree row inside).1⟩
    · exact required_of_agreeing agree

def slips : Schema.FileSet :=
  .ofTypes [.ofFields "Slip" [.ofMessage "due" ".google.protobuf.Timestamp" [("timestamp_format", .str "UNIX_SECONDS")],
      .repeating (.ofEnum "colors" ".t.Color" [("enum_encoding", .str "NUMBER")]),
      .ofMessage "box" ".t.Box" [("flatten", .bool true)]] [],
    .ofFields "Box" [.ofKind "size" .int64 []] []] [⟨"Color", [⟨"RED", 0, none⟩, ⟨"GREEN", 1, none⟩], none⟩]

theorem interfaces_agree_slip : ∃ compiled, compile slips [] .default = .ok compiled ∧
    ∃ m, compiled.index.message? "t.Slip" = some m ∧ ∃ file ∈ compiled.index.files,
      SameForm ⟨compiled.index, compiled.plans, file⟩ ⟨compiled.index, compiled.plans, file.package⟩ m := by
  obtain ⟨compiled, run, named, tidy, single, m, found, file, among, _⟩ := exists_compiled
    (fun compiled => compiled.index.Named ∧
      (declarations slips (reachedFiles slips [])).Fields (declarations slips (reachedFiles slips [])).TidyField ∧
      (∀ m ∈ compiled.index.messages.values, WellKnown.isDoubled m.fullName = false) ∧
      ∃ m ∈ compiled.index.message? "t.Slip", ∃ file ∈ compiled.index.files, file.package = "t")
    (show (compile slips [] .default).toOption.any _ = true by decide +kernel)
  exact ⟨compiled, run, m, found, file, among, (interfaces_agree run named tidy single file).1 _ m found⟩

def spans : Schema.FileSet :=
  ⟨[⟨"s.proto", "google.protobuf.google.protobuf", [], [.ofFields "Duration" [.ofKind "days" .int32 []] [],
    .ofFields "Trip" [.ofMessage "span" ".google.protobuf.google.protobuf.Duration" []] []], [], none, none⟩]⟩

/-- The interface takes it for a text, and the component refers to it. -/
theorem spans_differ : ∃ compiled, compile spans [] .default = .ok compiled ∧ compiled.index.Named ∧
    (declarations spans (reachedFiles spans [])).Fields (declarations spans (reachedFiles spans [])).TidyField ∧
    ∃ m ∈ compiled.index.message? "google.protobuf.google.protobuf.Trip", ∃ file ∈ compiled.index.files,
      m.fullName ∈ file.messages ∧
      TypeScript.Context.messageText ⟨compiled.index, compiled.plans, file⟩ m =
        TypeScript.interfaceText "Trip" [⟨"span", .string, true⟩] ∧
      ((OpenApi.Context.messageSchema ⟨compiled.index, compiled.plans, file.package⟩ m).property? "span").map
        JsonSchema.toJson = some (.obj [("$ref", .str "#/components/schemas/Duration")]) :=
  exists_compiled
    (fun compiled => compiled.index.Named ∧
      (declarations spans (reachedFiles spans [])).Fields (declarations spans (reachedFiles spans [])).TidyField ∧
      ∃ m ∈ compiled.index.message? "google.protobuf.google.protobuf.Trip", ∃ file ∈ compiled.index.files,
        m.fullName ∈ file.messages ∧
        TypeScript.Context.messageText ⟨compiled.index, compiled.plans, file⟩ m =
          TypeScript.interfaceText "Trip" [⟨"span", .string, true⟩] ∧
        ((OpenApi.Context.messageSchema ⟨compiled.index, compiled.plans, file.package⟩ m).property? "span").map
          JsonSchema.toJson = some (.obj [("$ref", .str "#/components/schemas/Duration")]))
    (show (compile spans [] .default).toOption.any _ = true by decide +kernel)

end Run

end Wireform
