import Wireform.Proofs.DeclaredProperties
import Wireform.Proofs.Evaluation

set_option autoImplicit false

namespace Wireform

namespace JsonSchema

def Plain (schema : JsonSchema) : Prop :=
  ∃ keywords, schema = .all keywords ∧ keywords.any isSingleType = true ∧ keywords.all takesNull = true

theorem plain_ofKind (kind : JsonKind) : (ofKind kind).Plain := ⟨_, rfl, rfl, rfl⟩

theorem plain_ofFormat (kind : JsonKind) (format : String) : (ofFormat kind format).Plain := ⟨_, rfl, rfl, rfl⟩

theorem plain_patterned (kind : JsonKind) (format source : String) :
    (JsonSchema.all [.type [kind], .format format, .pattern source]).Plain := ⟨_, rfl, rfl, rfl⟩

theorem Plain.nullable {components : Entries JsonSchema} {least : Nat} {schema : JsonSchema} (plain : schema.Plain) :
    Accepts components least schema.nullable .null := by
  obtain ⟨keywords, rfl, single, takes⟩ := plain
  exact nullable_of_takesNull single takes

end JsonSchema

namespace OpenApi

open JsonSchema

theorem plain_bytes (encoding : BytesEncoding) : (bytesSchema encoding).Plain := by
  cases encoding
  case hex | base64Raw | base64Url | base64UrlRaw => exact plain_patterned ..
  all_goals exact plain_ofFormat ..

theorem plain_integer64 (unsigned asNumber : Bool) : (integer64Schema unsigned asNumber).Plain := by
  cases asNumber
  · exact plain_patterned ..
  · exact plain_ofFormat ..

theorem plain_scalar (asNumber : Bool) (bytes : BytesEncoding) (scalar : Scalar) :
    (scalarSchema asNumber bytes scalar).Plain := by
  cases scalar
  case bool | string => exact plain_ofKind _
  case bytes => exact plain_bytes bytes
  case int64 | uint64 | sint64 | fixed64 | sfixed64 => exact plain_integer64 ..
  all_goals exact plain_ofFormat ..

theorem plain_timestamp (format : TimestampFormat) : (timestampSchema format).Plain := by
  cases format <;> exact plain_ofFormat ..

theorem plain_wellKnown {name : String} {schema : JsonSchema} (builtIn : wellKnownSchema? name = some schema)
    (other : name ≠ "google.protobuf.Value") : schema.Plain := by
  unfold wellKnownSchema? at builtIn
  split at builtIn
  case h_16 => exact absurd rfl other
  case h_17 => cases builtIn
  case h_1 => exact Option.some.inj builtIn ▸ ⟨_, rfl, rfl, rfl⟩
  case h_2 | h_12 | h_13 | h_14 | h_15 => exact Option.some.inj builtIn ▸ plain_ofKind _
  all_goals exact Option.some.inj builtIn ▸ plain_scalar ..

end OpenApi

namespace Index

open JsonSchema OpenApi

/-- What the schema of a nullable field does not go wrong on: an enum that is written by number or has null for
its only value, and a value of any kind. -/
structure Field.PassesNull (f : Field) : Prop where
  named : f.annotations.nullable = true → f.annotations.enumeration ≠ .number
  other : f.annotations.nullable = true → f.enum? ≠ some WellKnown.nullValue
  limited : f.message? ≠ some "google.protobuf.Value"

instance (f : Field) : Decidable f.PassesNull :=
  decidable_of_iff ((f.annotations.nullable = true → f.annotations.enumeration ≠ .number) ∧
      (f.annotations.nullable = true → f.enum? ≠ some WellKnown.nullValue) ∧
      f.message? ≠ some "google.protobuf.Value")
    ⟨fun ⟨named, other, limited⟩ => ⟨named, other, limited⟩, fun f => ⟨f.named, f.other, f.limited⟩⟩

theorem list_or_map {f : Field} (plural : f.isSingular = false) : f.isMap = true ∨ f.isList = true := by
  rw [Field.isSingular] at plural
  rw [Field.isMap, Field.isList]
  cases given : f.cardinality with
  | singular | optional => rw [given] at plural; cases plural
  | repeated => exact .inr rfl
  | map => exact .inl rfl

section Members

variable {context : Context} {member : Member} {components : Entries JsonSchema} {least : Nat}

theorem memberSchema_singular (singular : member.field.isSingular = true) :
    context.memberSchema member = context.elementSchema member := by
  rw [Field.isSingular] at singular
  rw [Context.memberSchema, Context.unwrapped?, Field.isMap, Field.isList]
  cases given : member.field.cardinality with
  | singular | optional => rfl
  | repeated | map => rw [given] at singular; cases singular

theorem memberReference?_singular (singular : member.field.isSingular = true) :
    context.memberReference? member = Context.elementReference? member := by
  rw [Field.isSingular] at singular
  rw [Context.memberReference?, Context.unwrapped?, Field.isMap]
  cases given : member.field.cardinality with
  | singular | optional => rfl
  | repeated | map => rw [given] at singular; cases singular

variable (context) in
theorem plain_or_reference (unnumbered : member.numberedValues? = none)
    (limited : member.field.message? ≠ some "google.protobuf.Value") :
    (context.elementSchema member).Plain ∨ ∃ type, context.elementSchema member = context.referenceTo type ∧
      Context.elementReference? member = some type := by
  rw [Context.elementSchema, Context.elementReference?]
  cases typed : member.field.type with
  | scalar scalar => exact .inl (plain_scalar ..)
  | enum name =>
    simp only [unnumbered, Option.isSome_none, Bool.false_or]
    by_cases alone : name = WellKnown.nullValue
    · rw [if_pos alone]
      exact .inl (plain_ofKind _)
    · rw [if_neg alone, if_neg (by simpa using alone)]
      exact .inr ⟨name, rfl, rfl⟩
  | message name =>
    have held : member.field.message? = some name := by rw [Field.message?, typed]; rfl
    dsimp only
    by_cases time : name = WellKnown.timestamp
    · rw [if_pos time]
      exact .inl (plain_timestamp _)
    · cases builtIn : wellKnownSchema? name with
      | some schema =>
        rw [if_neg time, Option.getD_some]
        exact .inl (plain_wellKnown builtIn fun same => limited (same ▸ held))
      | none =>
        rw [if_neg time, if_neg (by simpa using time), Option.getD_none]
        exact .inr ⟨name, rfl, rfl⟩

theorem refuses_plural (plural : member.field.isSingular = false) :
    Refuses components least (context.memberSchema member) .null := by
  have first {kind : JsonKind} (other : kind.holds .null = false) (rest : List JsonSchema) :
      Refuses components least (.all (.type [kind] :: rest)) .null :=
    .all List.mem_cons_self (.type (by simp [other]))
  rw [Context.memberSchema]
  split
  · exact first rfl _
  · exact first rfl _
  · rcases list_or_map plural with map | list
    · rw [map]
      exact first rfl _
    · rw [list]
      cases member.field.isMap <;> exact first rfl _

end Members

section Components

variable {index : Index} (sound : index.Sound) {components : Entries JsonSchema} {least : Nat}

include sound in
theorem refuses_component {package name : String} {schema : JsonSchema}
    (typed : (index.context package).typeSchema? name = some schema) : Refuses components least schema .null := by
  have first {kind : JsonKind} (other : kind.holds .null = false) (rest : List JsonSchema) :
      Refuses components least (.all (.type [kind] :: rest)) .null :=
    .all List.mem_cons_self (.type (by simp [other]))
  rw [Context.typeSchema?] at typed
  split at typed
  · rename_i m found
    cases typed
    rw [Context.messageSchema]
    simp only [context]
    split
    · rename_i member form
      obtain ⟨f, alone, unwrap, rfl⟩ := alias_of_ofMessage form
      have checked := Codec.checked_of_sound sound found f (by rw [alone]; exact List.mem_singleton_self f)
      apply refuses_plural
      rw [field_memberOf]
      exact (checked.unwrap unwrap).1
    · exact first rfl _
  · obtain ⟨e, _, rfl⟩ := Option.map_eq_some_iff.mp typed
    exact first rfl _

end Components

section Fields

variable {index : Index} (sound : index.Sound) (named : index.Named) {m : Message} (declares : index.Declares m)
  {f : Field} (inside : f ∈ m.fields) (writes : f.writesNull = true)

include sound named declares inside writes

theorem keeps_key : f.isSingular = true ∧ f.lifted? = none ∧ m.groupOf? f = none := by
  have checked := Codec.checked_of_sound sound declares.1 f inside
  have wellFormed := sound.wellFormed _ m declares.1
  have unlifted : f.lifted? = none := by
    rw [Option.eq_none_iff_forall_ne_some]
    rintro ⟨type, pre⟩ lifted
    obtain ⟨_, _, _, _, _, _, _, _, plain, filled⟩ := checked.flatten (Index.lifted?_eq_some lifted).1
    rw [Field.writesNull, plain, Bool.false_or, beq_iff_eq] at writes
    simp [Annotations.changesEmpty, writes] at filled
  rw [Field.writesNull, Bool.or_eq_true] at writes
  rcases writes with nullable | empty
  · obtain ⟨_, optional⟩ := checked.nullable nullable
    refine ⟨by rw [Field.isSingular, optional]; rfl, unlifted, ?_⟩
    rw [Message.groupOf?, wellFormed.presence f inside optional]
    rfl
  · have given := beq_iff_eq.mp empty
    refine ⟨(checked.empty (by simp [given])).1, unlifted, ?_⟩
    rw [Option.eq_none_iff_forall_ne_some]
    intro group grouped
    obtain ⟨there, owner⟩ := mem_of_groupOf? grouped
    obtain ⟨_, _, oneofErrors, _⟩ := Message.errors_parts (sound.errors _ m declares.1)
    have member := (resolved_of_named sound named declares group.1 group.2 there f).mpr ⟨inside, owner⟩
    have clean := Message.member_of_memberErrors (Message.memberErrors_of_oneofErrors oneofErrors there) f member
    simp [Annotations.changesEmpty, given] at clean

theorem unnumbered (passes : f.PassesNull) : (Interface.memberOf index.plans m f).numberedValues? = none := by
  have checked := Codec.checked_of_sound sound declares.1 f inside
  rw [Option.eq_none_iff_forall_ne_some]
  intro table numbered
  obtain ⟨number, target, _, typed, _⟩ := (numberedValues?_memberOf sound.toKeyed declares.1 declares.2
    (named.names m (mem_values_of_declares declares)) inside _).mp numbered
  rw [Field.writesNull, Bool.or_eq_true] at writes
  rcases writes with nullable | empty
  · exact passes.named nullable number
  · -- An enum is not a message, and only messages are empty.
    have held := (checked.empty (by simp [beq_iff_eq.mp empty])).2
    rw [Field.message?, type_of_enum? typed] at held
    cases held

theorem accepts_null_of_listed (passes : f.PassesNull) (known : f.Known index) {file : File} {document : Document}
    (describes : document.Describes index file)
    (listed : ∀ type, (index.context file.package).memberReference? (Interface.memberOf index.plans m f) = some type →
      type ∈ (index.context file.package).typesOf file) :
    Accepts document.components.entries 1
      ((index.context file.package).propertySchema (Interface.memberOf index.plans m f)) .null := by
  obtain ⟨singular, _⟩ := keeps_key sound named declares inside writes
  have single : (Interface.memberOf index.plans m f).field.isSingular = true := by rw [field_memberOf, singular]
  rw [memberReference?_singular single] at listed
  rw [propertySchema_memberOf sound declares.1 declares.2 (named.names m (mem_values_of_declares declares)) inside,
    if_pos writes, memberSchema_singular single]
  rcases plain_or_reference (index.context file.package)
    (unnumbered sound named declares inside writes passes) (by rw [field_memberOf]; exact passes.limited) with
    plain | ⟨type, reference, referred⟩
  · exact plain.nullable
  · have held := type_of_elementReference? referred
    rw [field_memberOf] at held
    obtain ⟨component, typed⟩ := exists_typeSchema file.package (held.imp (known.1 type) (known.2 type))
    rw [reference, Context.referenceTo]
    exact nullable_of_refuses rfl (.all (List.mem_singleton_self _)
      (.reference (describes.component (listed type referred) typed) (refuses_component sound typed)))

theorem accepts_null (passes : f.PassesNull) (known : f.Known index) {file : File} {document : Document}
    (describes : document.Describes index file)
    (listed : m.fullName ∈ (index.context file.package).typesOf file) :
    ∃ schema, ((index.context file.package).messageSchema m).property? f.jsonName = some schema ∧
      Accepts document.components.entries 1 schema .null := by
  have wellFormed := sound.wellFormed _ m declares.1
  obtain ⟨singular, unlifted, alone⟩ := keeps_key sound named declares inside writes
  have other : m.isRootUnwrap = false := by
    rw [← Bool.not_eq_true, Message.isRootUnwrap_iff]
    rintro ⟨g, only, unwrap⟩
    rw [only, List.mem_singleton] at inside
    subst inside
    have plural := ((Codec.checked_of_sound sound declares.1 f (by simp [only])).unwrap unwrap).1
    rw [singular] at plural
    cases plural
  obtain ⟨schema, declared, rfl, refers⟩ :=
    property_of_plain sound named declares file.package other inside alone unlifted
  refine ⟨_, declared, accepts_null_of_listed sound named declares inside writes passes known describes
    fun type referred => ?_⟩
  have held : f.message? = some type ∨ f.enum? = some type := by
    have single : (Interface.memberOf index.plans m f).field.isSingular = true := by rw [field_memberOf, singular]
    rw [memberReference?_singular single] at referred
    exact field_memberOf index.plans m f ▸ type_of_elementReference? referred
  exact mem_typesOf_of_reference (held.imp (known.1 type) (known.2 type))
    (held.elim (wellFormed.typeName f inside type) (wellFormed.enumName f inside type)) declares listed
    (refers type referred)

end Fields

end Index

namespace Run

open Index OpenApi

/-- Null is accepted where it stands for an absent value or an empty message. -/
theorem null_accepted {set : Schema.FileSet} {files : List String} {settings : Settings} {compiled : Compiled}
    (run : compile set files settings = .ok compiled) (named : compiled.index.Named) {file : File}
    (distinct : (((compiled.index.context file.package).typesOf file).map
      (compiled.index.componentName file.package)).Nodup)
    {name : String} {m : Message} (found : compiled.index.message? name = some m) (own : m.wellKnown = false)
    (listed : m.fullName ∈ file.messages) {f : Field} (inside : f ∈ m.fields)
    (writes : f.annotations.nullable = true ∨ f.annotations.empty = .null) (known : f.Known compiled.index)
    (passes : f.PassesNull) :
    ∃ document component schema, Document.ofFile? compiled.index compiled.plans file = some document ∧
      document.components.get? (compiled.index.componentName file.package m.fullName) = some component ∧
      component.property? f.jsonName = some schema ∧
      JsonSchema.Accepts document.components.entries 1 schema .null := by
  have sound := sound_of_compile run
  obtain ⟨_, _, plans⟩ := compile_spec run
  obtain ⟨document, made, describes, component⟩ :=
    Document.exists_describing sound.toKeyed found listed distinct
  obtain ⟨schema, declared, accepts⟩ := accepts_null sound named (declares_of_found sound found own) inside
    (by simpa [Field.writesNull] using writes) passes known describes
    (Context.mem_typesOf (List.mem_append_left _ listed))
  exact ⟨document, _, schema, plans ▸ made, component, declared, accepts⟩

def drafts : Schema.FileSet := .ofTypes [
  .ofFields "Child" [.ofKind "text" .string []] [],
  .ofFields "Draft" [{ Schema.Field.ofKind "note" .string [("nullable", .bool true)] with proto3Optional := true },
    { Schema.Field.ofEnum "state" "t.State" [("nullable", .bool true)] with proto3Optional := true },
    .ofMessage "child" "t.Child" [("empty_behavior", .str "NULL")]] []]
  [.ofNames "State" [("OPEN", "open"), ("SENT", "sent")]]

set_option synthInstance.maxSize 1000 in
theorem null_accepted_drafts : ∃ compiled, compile drafts [] .default = .ok compiled ∧
    ∃ file ∈ compiled.index.files, ∃ m ∈ compiled.index.messages.values, m.fullName = "t.Draft" ∧
      m.fields.map (·.jsonName) = ["note", "state", "child"] ∧
      ∀ f ∈ m.fields, ∃ document component schema,
        Document.ofFile? compiled.index compiled.plans file = some document ∧
        document.components.get? (compiled.index.componentName file.package m.fullName) = some component ∧
        component.property? f.jsonName = some schema ∧
        JsonSchema.Accepts document.components.entries 1 schema .null := by
  obtain ⟨compiled, run, named, file, among, distinct, m, inside, called, keys, own, listed, fields⟩ := exists_compiled
    (fun compiled => compiled.index.Named ∧ ∃ file ∈ compiled.index.files,
      (((compiled.index.context file.package).typesOf file).map
        (compiled.index.componentName file.package)).Nodup ∧
      ∃ m ∈ compiled.index.messages.values, m.fullName = "t.Draft" ∧
        m.fields.map (·.jsonName) = ["note", "state", "child"] ∧ m.wellKnown = false ∧
        m.fullName ∈ file.messages ∧ ∀ f ∈ m.fields,
          (f.annotations.nullable = true ∨ f.annotations.empty = .null) ∧ f.Known compiled.index ∧ f.PassesNull)
    (show (compile drafts [] .default).toOption.any _ = true by decide +kernel)
  have found : compiled.index.message? m.fullName = some m :=
    message?_of_mem_values (sound_of_compile run).toKeyed inside (by rw [called]; decide)
  refine ⟨compiled, run, file, among, m, inside, called, keys, fun f there => ?_⟩
  obtain ⟨writes, known, passes⟩ := fields f there
  exact null_accepted run named distinct found own listed there writes known passes

def swatches : Schema.FileSet := .ofTypes [
  .ofFields "Swatch" [{ Schema.Field.ofEnum "color" "t.Color" [("nullable", .bool true),
    ("enum_encoding", .str "NUMBER")] with proto3Optional := true }] []]
  [⟨"Color", [⟨"RED", 0, none⟩, ⟨"GREEN", 1, none⟩], none⟩]

set_option synthInstance.maxSize 1000 in
/-- The numbers of an enum stay all that is allowed, so that the null of an absent value is refused. -/
theorem numbered_refuses_null : ∃ compiled, compile swatches [] .default = .ok compiled ∧
    compiled.index.codec.encode "t.Swatch" (.obj []) = .ok (.obj [("color", .null)]) ∧
    ∃ file ∈ compiled.index.files, ∃ document, Document.ofFile? compiled.index compiled.plans file = some document ∧
      JsonSchema.check document.components.entries "Swatch" (.obj [("color", .null)]) ≠ [] := by
  obtain ⟨compiled, run, written, file, among, refused⟩ := exists_compiled
    (fun compiled => (compiled.index.codec.encode "t.Swatch" (.obj [])).toOption = some (.obj [("color", .null)]) ∧
      ∃ file ∈ compiled.index.files,
        ((Document.ofFile? compiled.index compiled.plans file).any fun (document : Document) =>
          !(JsonSchema.check document.components.entries "Swatch" (.obj [("color", .null)])).isEmpty) = true)
    (show (compile swatches [] .default).toOption.any _ = true by decide +kernel)
  obtain ⟨document, made, violated⟩ := (Option.any_eq_true _ _).mp refused
  exact ⟨compiled, run, ok_of_toOption written, file, among, document, made, by simpa using violated⟩

end Run

end Wireform
