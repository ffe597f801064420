import Wireform.Proofs.AdmittedValues
import Wireform.Proofs.TypedDocuments

set_option autoImplicit false

namespace Wireform

def Container.over (container : Container) (schema : JsonSchema) : JsonSchema :=
  match container with
  | .single => schema
  | .list => .array schema
  | .mapValues => .map schema

namespace OpenApi

open Index

section Schemas

variable {context : Context} {member : Member}

def Context.valueSchema (context : Context) (member : Member) : JsonSchema :=
  match context.unwrapped? member with
  | some (some inner) => .array (context.elementSchema inner)
  | some none => .ofKind .array
  | none => context.elementSchema member

theorem unwrapped?_map {inner : Option Member} (given : context.unwrapped? member = some inner) :
    member.field.isMap = true := by
  rw [Context.unwrapped?] at given
  split at given
  · assumption
  · cases given

theorem memberSchema_over : context.memberSchema member = member.field.container.over (context.valueSchema member) := by
  rw [Context.memberSchema, Context.valueSchema]
  cases given : context.unwrapped? member with
  | some inner =>
    rw [container_of_map (unwrapped?_map given)]
    cases inner <;> rfl
  | none =>
    have apart : member.field.isMap = true → member.field.isList = false := by
      rw [Field.isMap, Field.isList]
      cases member.field.cardinality <;> simp [Cardinality.isMap, Cardinality.isList]
    rw [Field.container]
    by_cases map : member.field.isMap = true
    · simp [map, apart map, Container.over]
    · by_cases list : member.field.isList = true <;> simp [map, list, Container.over]

theorem elementSchema_keywords (context : Context) (member : Member) :
    ∃ keywords, context.elementSchema member = .all keywords := by
  rw [Context.elementSchema]
  split
  · obtain ⟨keywords, same, _⟩ := plain_scalar (member.has .integerAsNumber) (member.bytesEncoding?.getD .base64) _
    exact ⟨keywords, same⟩
  · split
    · exact ⟨_, rfl⟩
    · split <;> exact ⟨_, rfl⟩
  · rename_i name _
    split
    · obtain ⟨keywords, same, _⟩ := plain_timestamp (member.timestampFormat?.getD .rfc3339)
      exact ⟨keywords, same⟩
    · cases builtIn : wellKnownSchema? name with
      | none => exact ⟨_, rfl⟩
      | some schema =>
        by_cases any : name = "google.protobuf.Value"
        · subst any
          cases builtIn
          exact ⟨_, rfl⟩
        · obtain ⟨keywords, same, _⟩ := plain_wellKnown builtIn any
          exact ⟨keywords, same⟩

theorem valueSchema_keywords (context : Context) (member : Member) :
    ∃ keywords, context.valueSchema member = .all keywords := by
  rw [Context.valueSchema]
  split
  · exact ⟨_, rfl⟩
  · exact ⟨_, rfl⟩
  · exact elementSchema_keywords context member

theorem memberSchema_keywords (context : Context) (member : Member) :
    ∃ keywords, context.memberSchema member = .all keywords := by
  rw [memberSchema_over]
  cases member.field.container with
  | single => exact valueSchema_keywords context member
  | list | mapValues => exact ⟨_, rfl⟩

theorem wellKnownSchema?_none {name : String} (own : WellKnown.isMessage name = false) : wellKnownSchema? name = none := by
  unfold wellKnownSchema?
  split
  case h_17 => rfl
  all_goals exact absurd own (by decide)

variable (context member) in
theorem elementSchema_message {name : String} (typed : member.field.type = .message name)
    (own : WellKnown.isMessage name = false) :
    context.elementSchema member = context.referenceTo name ∧ Context.elementReference? member = some name := by
  have other : name ≠ WellKnown.timestamp := by
    rintro rfl
    exact absurd own (by decide)
  rw [Context.elementSchema, Context.elementReference?, typed]
  simp [other, wellKnownSchema?_none own]

end Schemas

end OpenApi

namespace JsonSchema

variable {components : Entries JsonSchema} {container : Container} {keywords : List JsonSchema} {wire : Json}
  (shapes : container.Shapes wire)
  (each : ∀ y ∈ container.values wire, Accepts components y.depth (.all keywords) y)

include shapes each

theorem accepts_plural (plural : container ≠ .single) :
    Accepts components (wire.depth - 1) (container.over (.all keywords)) wire := by
  cases container with
  | single => exact absurd rfl plural
  | list =>
    cases wire with
    | arr items =>
      refine accepts_array fun item inside => (each item inside).more ?_
      have deeper := Json.depth_item inside
      omega
    | _ => exact shapes.elim
  | mapValues =>
    cases wire with
    | obj members =>
      refine accepts_map fun key value inside => (each value (List.mem_map.mpr ⟨_, inside, rfl⟩)).more ?_
      have deeper := Json.depth_member inside
      omega
    | _ => exact shapes.elim

theorem accepts_over : Accepts components wire.depth (container.over (.all keywords)) wire := by
  by_cases single : container = .single
  · subst single
    exact each wire (List.mem_singleton_self _)
  · exact (accepts_plural shapes each single).more (Nat.sub_le _ _)

end JsonSchema

namespace Index

open Codec JsonSchema OpenApi

/-- Types have one meaning each and are all there, and none of the built-in messages is unwrapped. -/
structure Complete (index : Index) : Prop where
  apart : ∀ e ∈ index.enums.values, index.message? e.fullName = none
  known : ∀ m ∈ index.messages.values, m.wellKnown = false → ∀ f ∈ m.fields, f.Known index
  kept : ∀ m ∈ index.messages.values, m.wellKnown = true → m.unwrapField? = none

instance (index : Index) : Decidable index.Complete :=
  decidable_of_iff ((∀ e ∈ index.enums.values, index.message? e.fullName = none) ∧
      (∀ m ∈ index.messages.values, m.wellKnown = false → ∀ f ∈ m.fields, f.Known index) ∧
      ∀ m ∈ index.messages.values, m.wellKnown = true → m.unwrapField? = none)
    ⟨fun ⟨apart, known, kept⟩ => ⟨apart, known, kept⟩, fun complete => ⟨complete.apart, complete.known, complete.kept⟩⟩

def documented (index : Index) (file : File) : List String := (index.context file.package).typesOf file

structure Conforms (index : Index) (file : File) (components : Entries JsonSchema) (m : Message) (w : Json) : Prop where
  whole : m.fullName ∈ index.documented file →
    Accepts components (w.depth - 1) ((index.context file.package).messageSchema m) w
  entries : ∀ wire : Doc, w = .obj wire → m.isRootUnwrap = false → ∀ k v, wire.get? k = some v →
    ∀ f ∈ m.fields, ∀ shown, index.Shows m f k shown →
      (∀ type, shown.reference? (index.context file.package) = some type → type ∈ index.documented file) →
      Accepts components v.depth (shown.schema (index.context file.package)) v

section Values

variable {index : Index} (sound : index.Sound) (named : index.Named) (complete : index.Complete) {m : Message}
  (declares : index.Declares m) {f : Field} (inside : f ∈ m.fields) {file : File} {document : Document}
  (describes : document.Describes index file) {encode : String → Json → Result Json} {x y : Json}

section Unwrapped

include sound named declares inside

theorem unwrapped?_of_whole (whole : ∀ type, f.message? = some type → unwrapValues? index f type = none) :
    (index.context file.package).unwrapped? (Interface.memberOf index.plans m f) = none := by
  have names := named.names m (mem_values_of_declares declares)
  have keyless : (Interface.memberOf index.plans m f).unwrappedKey? = none := by
    rw [Option.eq_none_iff_forall_ne_some]
    intro key given
    obtain ⟨type, element, typed, unwraps⟩ :=
      (unwrappedKey?_memberOf sound.toKeyed declares.1 declares.2 names inside).mp given
    rw [whole type typed] at unwraps
    cases unwraps
  rw [Context.unwrapped?, keyless]
  simp

variable (file) in
theorem unwrapped?_of_unwraps {type : String} (typed : f.message? = some type) {t : Transform}
    (unwraps : unwrapValues? index f type = some t) : ∃ c inner, index.message? type = some c ∧
      c.isRootUnwrap = false ∧ inner ∈ c.fields ∧ c.unwrapField? = some inner ∧ inner.isList = true ∧
      t = .unwrapValues inner.message? inner.jsonName ∧
      (index.context file.package).unwrapped? (Interface.memberOf index.plans m f) =
        some (some (Interface.memberOf index.plans c inner)) := by
  obtain ⟨c, inner, known, first, map, plain, list, rfl⟩ := unwrapValues?_eq_some index f unwraps
  have among : inner ∈ c.fields := List.mem_of_find?_eq_some first
  refine ⟨c, inner, known, plain, among, first, list, rfl, ?_⟩
  have names := named.names m (mem_values_of_declares declares)
  have key := (unwrappedKey?_memberOf sound.toKeyed declares.1 declares.2 names inside).mpr ⟨type, _, typed, unwraps⟩
  have itself := find?_of_nodup (named.jsonNames c (KeyMap.mem_values.mpr ⟨_, known⟩)) among
  rw [Context.unwrapped?, field_memberOf, if_pos map, key, Option.map_some, Interface.unwrappedList?, field_memberOf,
    typed]
  simp only [context, Option.bind_some, known, Option.bind_eq_bind, itself]
  rfl

end Unwrapped

section Children

variable {name : String} {c : Message} (typed : f.message? = some name) (known : index.message? name = some c)
  (own : c.wellKnown = false)

include sound declares inside typed known own

theorem child_of_turned (present : x.isNull = false)
    (turned : Turned encode (childSteps index index.planned.contains f ++ recodeSteps index f) x y) :
    ∃ z, ChildWire index.planned.contains encode name x z ∧ (unwrapValues? index f name = none → y = z) ∧
      ∀ element inner, unwrapValues? index f name = some (.unwrapValues element inner) → z.isNull = false →
        y = unwrapValue inner z := by
  have checked := checked_of_sound sound declares.1 f inside
  rw [recodeSteps_nil checked typed (ne_timestamp_of_own sound.toKeyed known own), List.append_nil,
    childSteps_some typed] at turned
  -- The unwrapping step comes last whether or not the child has a plan of its own.
  have last {z : Json} (later : Turned encode ((unwrapValues? index f name).toList.map fun t => f.step .mapValues t) z y) :
      (unwrapValues? index f name = none → y = z) ∧
      ∀ element inner, unwrapValues? index f name = some (.unwrapValues element inner) → z.isNull = false →
        y = unwrapValue inner z := by
    refine ⟨fun whole => ?_, fun element inner unwraps full => ?_⟩
    · rw [whole] at later
      exact turned_nil later
    · rw [unwraps] at later
      cases later with
      | cons first later =>
        cases later
        cases first with
        | unwrapped made => exact (Except.ok.inj (by rwa [unlessNull, full] at made)).symm
        | recoded recodes => cases recodes
  cases planned : index.planned.contains name with
  | false =>
    rw [planned] at turned
    exact ⟨x, by rw [ChildWire, planned]; simp, last turned⟩
  | true =>
    rw [planned] at turned
    cases turned with
    | cons first later =>
      cases first with
      | nested made =>
        rw [unlessNull, present] at made
        exact ⟨_, by rw [ChildWire, planned]; exact made, last later⟩
      | recoded recodes => cases recodes

end Children

section Lists

include sound named declares inside

variable (file) in
theorem list_property (list : f.isList = true) : m.groupOf? f = none ∧ f.lifted? = none ∧
    (index.context file.package).propertySchema (Interface.memberOf index.plans m f) =
      .array ((index.context file.package).elementSchema (Interface.memberOf index.plans m f)) ∧
    (index.context file.package).memberReference? (Interface.memberOf index.plans m f) =
      Context.elementReference? (Interface.memberOf index.plans m f) := by
  have plural : f.isSingular = false := by
    rw [Field.isList] at list
    rw [Field.isSingular]
    cases given : f.cardinality <;> rw [given] at list <;> first | rfl | cases list
  have single : f.isMap = false := by
    rw [Field.isList] at list
    rw [Field.isMap]
    cases given : f.cardinality <;> rw [given] at list <;> first | rfl | cases list
  have unwritten : f.writesNull = false := by
    rw [← Bool.not_eq_true]
    intro writes
    rw [(keeps_key sound named declares inside writes).1] at plural
    cases plural
  have whole : (index.context file.package).unwrapped? (Interface.memberOf index.plans m f) = none := by
    rw [Context.unwrapped?, field_memberOf, single]
    rfl
  -- Grouped and lifted fields are singular ones, and only a map's values are unwrapped in place.
  refine ⟨?_, ?_, ?_, ?_⟩
  · rw [Option.eq_none_iff_forall_ne_some]
    intro group grouped
    have owner := (mem_of_groupOf? grouped).2
    rw [named.members m (mem_values_of_declares declares) f inside (by rw [owner]; simp)] at plural
    cases plural
  · rw [Option.eq_none_iff_forall_ne_some]
    rintro ⟨type, pre⟩ lifted
    rw [(lifted?_eq_some lifted).2.2] at plural
    cases plural
  · rw [propertySchema_memberOf sound declares.1 declares.2 (named.names m (mem_values_of_declares declares)) inside,
      unwritten, if_neg (by simp), Context.memberSchema, whole, field_memberOf, single, list]
    rfl
  · rw [Context.memberReference?, whole]

end Lists

section References

include sound named complete

theorem known_of_memberReference? (declares : index.Declares m) (inside : f ∈ m.fields) {type : String}
    (refers : (index.context file.package).memberReference? (Interface.memberOf index.plans m f) = some type) :
    (index.message? type ≠ none ∨ index.enum? type ≠ none) ∧ bareName type = type := by
  have element {m : Message} {f : Field} (declares : index.Declares m) (inside : f ∈ m.fields)
      (refers : Context.elementReference? (Interface.memberOf index.plans m f) = some type) :
      (index.message? type ≠ none ∨ index.enum? type ≠ none) ∧ bareName type = type := by
    have known := complete.known m (mem_values_of_declares declares) declares.2 f inside
    have wellFormed := sound.wellFormed _ m declares.1
    have held := type_of_elementReference? refers
    rw [field_memberOf] at held
    exact ⟨held.imp (known.1 type) (known.2 type),
      held.elim (wellFormed.typeName f inside type) (wellFormed.enumName f inside type)⟩
  by_cases whole : ∀ name, f.message? = some name → unwrapValues? index f name = none
  · rw [Context.memberReference?, unwrapped?_of_whole sound named declares inside whole] at refers
    exact element declares inside refers
  · simp only [not_forall] at whole
    obtain ⟨name, typed, unwraps⟩ := whole
    obtain ⟨t, unwraps⟩ := Option.ne_none_iff_exists'.mp unwraps
    obtain ⟨c, inner, known, _, among, first, _, _, unwrapped⟩ :=
      unwrapped?_of_unwraps sound named declares inside file typed unwraps
    have own : c.wellKnown = false := by
      rw [← Bool.not_eq_true]
      intro builtIn
      rw [complete.kept c (KeyMap.mem_values.mpr ⟨_, known⟩) builtIn] at first
      cases first
    rw [Context.memberReference?, unwrapped] at refers
    exact element (declares_of_found sound known own) among refers

theorem known_of_shows {key : String} {shown : Shown} (shows : index.Shows m f key shown) {type : String}
    (refers : shown.reference? (index.context file.package) = some type) : index.Declares m → f ∈ m.fields →
      (index.message? type ≠ none ∨ index.enum? type ≠ none) ∧ bareName type = type := by
  induction shows with
  | plain => exact fun declares inside => known_of_memberReference? sound named complete declares inside refers
  | tag => cases refers
  | variant _ _ _ member =>
    intro declares _
    obtain ⟨_, _, declared⟩ := mem_oneofMembers.mp member
    exact known_of_memberReference? sound named complete declares (mem_of_field? declared).1 refers
  | lifted _ lifted known among _ ih =>
    intro declares inside
    obtain ⟨_, c, typed, known', _, own, _⟩ :=
      (checked_of_sound sound declares.1 _ inside).flatten (lifted?_eq_some lifted).1
    cases typed.symm.trans (lifted?_eq_some lifted).2.1
    cases known.symm.trans known'
    exact ih refers (declares_of_found sound known own) among
  | liftedVariant grouped _ flatten member typed known among _ ih =>
    intro declares _
    obtain ⟨_, c, typed', known', own, _⟩ :=
      message_of_member sound declares.1 (mem_of_groupOf? grouped).1 flatten member
    cases typed.symm.trans typed'
    cases known.symm.trans known'
    exact ih refers (declares_of_found sound known own) among

end References

section Accepted

variable {name : String} {c : Message}

include sound named declares inside describes

theorem accepts_child (typed : f.message? = some name) (known : index.message? name = some c)
    (own : c.wellKnown = false) (present : x.isNull = false)
    (conforms : ∀ z, ChildWire index.planned.contains encode name x z →
      Conforms index file document.components.entries c z ∧ (c.isRootUnwrap = false → ∃ wire : Doc, z = .obj wire))
    (turned : Turned encode (childSteps index index.planned.contains f ++ recodeSteps index f) x y)
    (listed : ∀ type, (index.context file.package).memberReference? (Interface.memberOf index.plans m f) = some type →
      type ∈ index.documented file) :
    Accepts document.components.entries y.depth
      ((index.context file.package).valueSchema (Interface.memberOf index.plans m f)) y := by
  have bare := (sound.wellFormed _ m declares.1).typeName f inside name typed
  obtain ⟨z, below, whole, list⟩ := child_of_turned sound declares inside typed known own present turned
  obtain ⟨matched, object⟩ := conforms z below
  -- The value refers to the component of its message, or is the list that is left of it.
  cases unwraps : unwrapValues? index f name with
  | none =>
    cases whole unwraps
    have kept : (index.context file.package).unwrapped? (Interface.memberOf index.plans m f) = none :=
      unwrapped?_of_whole sound named declares inside fun other typed' => by
        cases typed.symm.trans typed'
        exact unwraps
    have foreign : WellKnown.isMessage name = false := by
      rw [← bare, ← sound.wellKnown _ c known, own]
    obtain ⟨schema, reference⟩ := elementSchema_message (index.context file.package)
      (Interface.memberOf index.plans m f) (by rw [field_memberOf]; exact type_of_message? typed) foreign
    rw [Context.memberReference?, kept] at listed
    have among := listed name reference
    have component := describes.component among
      (show (index.context file.package).typeSchema? name = some ((index.context file.package).messageSchema c) by
        rw [Context.typeSchema?, show (index.context file.package).index.message? name = some c from known])
    rw [Context.valueSchema, kept, schema, Context.referenceTo, Accepts.all_iff]
    intro keyword only
    cases List.mem_singleton.mp only
    have same := fullName_eq sound bare known
    refine (Accepts.reference component (matched.whole (same ▸ among))).more ?_
    have deep := Json.depth_pos y
    omega
  | some t =>
    obtain ⟨c', inner, known', plain, among, _, isList, rfl, unwrapped⟩ :=
      unwrapped?_of_unwraps sound named declares inside file typed unwraps
    cases known.symm.trans known'
    obtain ⟨wire, rfl⟩ := object plain
    obtain ⟨alone, unlifted, property, refers⟩ :=
      list_property sound named (declares_of_found sound known own) among file isList
    rw [Context.memberReference?, unwrapped] at listed
    rw [Context.valueSchema, unwrapped, list _ _ unwraps rfl, unwrapValue, Json.get?]
    cases given : Entries.get? wire inner.jsonName with
    | none => exact accepts_array fun item never => (List.not_mem_nil never).elim
    | some v =>
      have shows : index.Shows c inner inner.jsonName (.member .plain (Interface.memberOf index.plans c inner)) :=
        .plain alone unlifted
      have accepts := matched.entries wire rfl plain inner.jsonName v given inner among _ shows fun type refers' =>
        listed type (refers.symm.trans refers')
      rw [Shown.schema, property] at accepts
      exact accepts

include complete in
theorem accepts_leaf (admits : index.Admits f.type x)
    (foreign : ∀ type c, f.message? = some type → index.message? type = some c → c.wellKnown = true)
    (named_null : f.enum? = some WellKnown.nullValue → f.annotations.enumeration ≠ .number)
    (turned : Turned encode (childSteps index index.planned.contains f ++ recodeSteps index f) x y)
    (listed : ∀ type, (index.context file.package).memberReference? (Interface.memberOf index.plans m f) = some type →
      type ∈ index.documented file) :
    Accepts document.components.entries y.depth
      ((index.context file.package).valueSchema (Interface.memberOf index.plans m f)) y := by
  have names := named.names m (mem_values_of_declares declares)
  have kept (type : String) (c : Message) (typed : f.message? = some type) (found : index.message? type = some c) :
      c.unwrapField? = none :=
    complete.kept c (KeyMap.mem_values.mpr ⟨_, found⟩) (foreign type c typed found)
  -- The message of a leaf is built in, and these are never unwrapped to a list.
  have whole : (index.context file.package).unwrapped? (Interface.memberOf index.plans m f) = none :=
    unwrapped?_of_whole sound named declares inside fun type typed => by
      rw [Option.eq_none_iff_forall_ne_some]
      intro t unwraps
      obtain ⟨c, inner, found, first, _⟩ := unwrapValues?_eq_some index f unwraps
      rw [kept type c typed found] at first
      cases first
  rw [Context.memberReference?, whole] at listed
  rw [Context.valueSchema, whole]
  dsimp only at listed ⊢
  generalize type : f.type = held at admits
  cases admits with
  | scalar fits =>
    rw [childSteps_nil (by rw [Field.message?, type]; rfl), List.nil_append] at turned
    exact accepts_scalarField sound named declares inside type fits turned
  | null =>
    cases turned_null turned rfl
    have unnumbered : (Interface.memberOf index.plans m f).numberedValues? = none := by
      rw [Option.eq_none_iff_forall_ne_some]
      intro table numbered
      exact named_null (by rw [Field.enum?, type]; rfl)
        ((numberedValues?_memberOf sound.toKeyed declares.1 declares.2 names inside _).mp numbered).1
    rw [Context.elementSchema, field_memberOf, type]
    simp only [unnumbered, if_true]
    exact accepts_ofKind rfl
  | enum other known =>
    rename_i name text
    have held : f.enum? = some name := by rw [Field.enum?, type]; rfl
    obtain ⟨e, found⟩ := Option.ne_none_iff_exists'.mp
      ((complete.known m (mem_values_of_declares declares) declares.2 f inside).2 name held)
    obtain ⟨v, among, called⟩ := known e found
    rw [childSteps_nil (by rw [Field.message?, type]; rfl), List.nil_append] at turned
    refine (accepts_enumField sound named declares inside type other found among called turned fun refers => ?_).more
      (Json.depth_pos y)
    have untyped : index.message? name = none := by
      have alone := complete.apart e (mem_enums_of_enum? found)
      rwa [show e.fullName = bareName name from sound.enumNamed _ e found, message?, bareName_idempotent] at alone
    refine describes.component (listed name refers) ?_
    rw [Context.typeSchema?, show (index.context file.package).index.message? name = none from untyped]
    exact Option.map_eq_some_iff.mpr ⟨e, found, rfl⟩
  | builtIn builtIn fits =>
    rename_i name
    have held : f.message? = some name := by rw [Field.message?, type]; rfl
    rw [childSteps_of_builtIn sound declares inside held builtIn fun c found => kept name c held found,
      List.nil_append] at turned
    exact accepts_builtInField sound named declares inside type builtIn fits turned

end Accepted

end Values

end Index

end Wireform
