import Wireform.Proofs.ShownKeys

set_option autoImplicit false

namespace Wireform

namespace Index

def Field.Known (index : Index) (f : Field) : Prop :=
  (∀ type ∈ f.message?, index.message? type ≠ none) ∧ ∀ type ∈ f.enum?, index.enum? type ≠ none

instance (index : Index) (f : Field) : Decidable (f.Known index) := inferInstanceAs (Decidable (_ ∧ _))

variable {index : Index} (sound : index.Sound) (named : index.Named) {m : Message} (declares : index.Declares m)
  (package : String)

theorem ofMessage_object (other : m.isRootUnwrap = false) :
    Interface.ofMessage index index.plans m = .object (Interface.properties index index.plans m) := by
  unfold Interface.ofMessage
  split
  · rw [other]
    rfl
  · rfl

theorem alias_of_ofMessage {member : Member} (form : Interface.ofMessage index index.plans m = .alias member) :
    ∃ f, m.fields = [f] ∧ f.annotations.unwrap = true ∧ member = Interface.memberOf index.plans m f := by
  cases root : m.isRootUnwrap with
  | false =>
    rw [ofMessage_object root] at form
    cases form
  | true =>
    obtain ⟨f, alone, unwrap⟩ := Message.isRootUnwrap_iff.mp root
    refine ⟨f, alone, unwrap, ?_⟩
    rw [Interface.ofMessage, alone] at form
    dsimp only at form
    by_cases planned : (m.isRootUnwrap && (index.plans.plan? m.fullName).isSome) = true
    · rw [if_pos planned] at form
      exact (Interface.alias.inj form).symm
    · rw [if_neg planned] at form
      cases form

include sound declares in
theorem ofMessage_alias {f : Field} (alone : m.fields = [f]) (unwrap : f.annotations.unwrap = true) :
    Interface.ofMessage index index.plans m = .alias (Interface.memberOf index.plans m f) := by
  have root : m.isRootUnwrap = true := Message.isRootUnwrap_iff.mpr ⟨f, alone, unwrap⟩
  have inside : f ∈ m.fields := by rw [alone]; exact List.mem_singleton_self f
  have planned : m.fullName ∈ index.planned :=
    planned_of_direct (mem_ownMessages declares.1 declares.2)
      (hasDirectTransform_iff.mpr (.inr ⟨f, inside, _, _, .root unwrap root⟩))
  have given := (plan?_eq_some sound.toKeyed).mpr ⟨m, declares.1, planned, rfl⟩
  unfold Interface.ofMessage
  rw [alone]
  dsimp only
  rw [root, given]
  rfl

section Object

variable (other : m.isRootUnwrap = false)

include other in
theorem messageSchema_object : (index.context package).messageSchema m =
    (OpenApi.Object.ofProperties (index.context package) (Interface.properties index index.plans m)).schema := by
  rw [OpenApi.Context.messageSchema]
  simp only [context, ofMessage_object other]

include other in
theorem mem_messageReferences {p : Property} (listed : p ∈ Interface.properties index index.plans m) {key : String}
    {shown : Shown} (shows : p.Shows key shown) {type : String}
    (refers : shown.reference? (index.context package) = some type) :
    type ∈ (index.context package).messageReferences m := by
  rw [OpenApi.Context.messageReferences]
  simp only [context, ofMessage_object other]
  exact List.mem_flatMap.mpr ⟨p, listed, OpenApi.mem_propertyReferences shows refers⟩

include sound named declares other

theorem shown_of_declared {key : String} {schema : JsonSchema}
    (declared : (key, schema) ∈ (OpenApi.Object.ofProperties (index.context package)
      (Interface.properties index index.plans m)).properties) :
    ∃ f ∈ m.fields, ∃ shown, index.Shows m f key shown ∧ schema = shown.schema (index.context package) ∧
      ∀ type, shown.reference? (index.context package) = some type →
        type ∈ (index.context package).messageReferences m := by
  obtain ⟨p, listed, shown, shows, rfl⟩ := OpenApi.Object.shows_of_mem declared
  obtain ⟨k, same, f, inside, there⟩ := shows_of_properties sound named _ m declares "" p listed key shown shows
  rw [String.empty_append] at same
  exact ⟨f, inside, shown, same ▸ there, rfl, fun type refers =>
    mem_messageReferences package other listed shows refers⟩

theorem shown_of_property {key : String} {schema : JsonSchema}
    (declared : ((index.context package).messageSchema m).property? key = some schema) :
    ∃ f ∈ m.fields, ∃ shown, index.Shows m f key shown ∧ schema = shown.schema (index.context package) ∧
      ∀ type, shown.reference? (index.context package) = some type →
        type ∈ (index.context package).messageReferences m := by
  rw [messageSchema_object package other, JsonSchema.property?_object] at declared
  exact shown_of_declared sound named declares package other (Entries.mem_of_get? declared)

theorem property_of_plain {f : Field} (inside : f ∈ m.fields) (alone : m.groupOf? f = none)
    (unlifted : f.lifted? = none) : ∃ schema,
      ((index.context package).messageSchema m).property? f.jsonName = some schema ∧
      schema = (index.context package).propertySchema (Interface.memberOf index.plans m f) ∧
      ∀ type, (index.context package).memberReference? (Interface.memberOf index.plans m f) = some type →
        type ∈ (index.context package).messageReferences m := by
  have values := mem_values_of_declares declares
  have own (child : Message → String → List Property) :
      .own f.jsonName .plain (Interface.memberOf index.plans m f) ∈
        m.fields.flatMap (Interface.fieldProperties index index.plans child m "") := by
    refine List.mem_flatMap.mpr ⟨f, inside, ?_⟩
    rw [Interface.fieldProperties, group?_eq sound.toKeyed declares.1 declares.2 (named.names m values)
      (named.oneofs m values) (resolved_of_named sound named declares) inside, alone]
    simp only [Option.map_none, flattened?_memberOf sound.toKeyed declares.1 declares.2 (named.names m values) inside,
      unlifted, String.empty_append, List.mem_singleton]
  have listed : .own f.jsonName .plain (Interface.memberOf index.plans m f) ∈
      Interface.properties index index.plans m := by
    rw [Interface.properties]
    cases index.maxDepth <;> exact own _
  obtain ⟨schema, given⟩ := OpenApi.Object.exists_property (index.context package) listed
    (.own f.jsonName (Interface.memberOf index.plans m f) (by decide))
  rw [← JsonSchema.property?_object, ← messageSchema_object package other] at given
  obtain ⟨h, there, shown, shows, rfl, refers⟩ := shown_of_property sound named declares package other given
  have places := places_of_names sound declares.1 (named.jsonNames m values)
  cases shown_plain sound declares.1 places inside there alone unlifted shows
  exact ⟨_, given, rfl, refers⟩

end Object

section Types

variable {file : File} {name : String} (there : index.message? name ≠ none ∨ index.enum? name ≠ none)

include there

theorem exists_typeSchema : ∃ schema, (index.context package).typeSchema? name = some schema := by
  rw [OpenApi.Context.typeSchema?]
  split
  · exact ⟨_, rfl⟩
  · rename_i foreign
    obtain ⟨e, found⟩ := Option.ne_none_iff_exists'.mp (there.resolve_left fun given => given foreign)
    exact ⟨OpenApi.enumSchema e, Option.map_eq_some_iff.mpr ⟨e, found, rfl⟩⟩

theorem mem_known_of_found (bare : bareName name = name) : name ∈ (index.context package).known := by
  rw [message?, enum?, bare] at there
  exact OpenApi.Context.mem_known.mpr (there.imp Option.ne_none_iff_exists'.mp Option.ne_none_iff_exists'.mp)

theorem mem_typesOf_of_reference (bare : bareName name = name) (declares : index.Declares m)
    (listed : m.fullName ∈ (index.context file.package).typesOf file)
    (refers : name ∈ (index.context file.package).messageReferences m) :
    name ∈ (index.context file.package).typesOf file := by
  refine OpenApi.Context.typesOf_closed listed ?_ (mem_known_of_found file.package there bare)
  simp only [OpenApi.Context.typeReferences, show (index.context file.package).index.message? m.fullName = some m from
    declares.1]
  exact refers

end Types

end Index

namespace OpenApi.Document

open Index

structure Describes (document : Document) (index : Index) (file : File) : Prop where
  made : ofFile? index index.plans file = some document
  distinct : (((index.context file.package).typesOf file).map (index.context file.package).componentName).Nodup

theorem Describes.component {index : Index} {file : File} {document : Document}
    (describes : document.Describes index file) {name : String}
    (inside : name ∈ (index.context file.package).typesOf file) {schema : JsonSchema}
    (typed : (index.context file.package).typeSchema? name = some schema) :
    document.components.entries.get? ((index.context file.package).componentName name) = some schema :=
  get?_component describes.made describes.distinct inside typed

theorem exists_describing {index : Index} (keyed : index.Keyed) {file : File} {name : String} {m : Message}
    (found : index.message? name = some m) (listed : m.fullName ∈ file.messages)
    (distinct : (((index.context file.package).typesOf file).map (index.componentName file.package)).Nodup) :
    ∃ document, ofFile? index index.plans file = some document ∧ document.Describes index file ∧
      document.components.get? (index.componentName file.package m.fullName) =
        some ((index.context file.package).messageSchema m) := by
  obtain ⟨document, made⟩ := exists_of_listed index index.plans listed
  have describes : document.Describes index file := ⟨made, distinct⟩
  refine ⟨document, made, describes, describes.component (Context.mem_typesOf (List.mem_append_left _ listed)) ?_⟩
  rw [Context.typeSchema?, show (index.context file.package).index.message? m.fullName = some m from
    message?_fullName keyed found]

end OpenApi.Document

end Wireform
