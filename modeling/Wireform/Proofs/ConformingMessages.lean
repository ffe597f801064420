import Wireform.Proofs.ConformingValues
import Wireform.Proofs.RequiredKeys

set_option autoImplicit false

namespace Wireform

namespace Index

open Codec JsonSchema OpenApi

/-- What the schema of a field does not go wrong on: null that is a value of an enum written by number, and what is
wrong with null where it stands for something absent or empty. -/
structure Field.Describable (f : Field) : Prop where
  named : f.enum? = some WellKnown.nullValue → f.annotations.enumeration ≠ .number
  passes : f.writesNull = true → f.PassesNull

instance (f : Field) : Decidable f.Describable :=
  decidable_of_iff ((f.enum? = some WellKnown.nullValue → f.annotations.enumeration ≠ .number) ∧
      (f.writesNull = true → f.PassesNull))
    ⟨fun ⟨named, passes⟩ => ⟨named, passes⟩, fun suits => ⟨suits.named, suits.passes⟩⟩

/-- Members of a oneof that lift the same key declare it alike. -/
def Agrees (index : Index) (package : String) (m : Message) : Prop :=
  ∀ group ∈ m.discriminated, group.2.flatten = true → ∀ f ∈ m.oneofMembers group.1, ∀ g ∈ m.oneofMembers group.1,
    f ≠ g → ∀ type c, f.message? = some type → index.message? type = some c → ∀ type' c', g.message? = some type' →
    index.message? type' = some c' → ∀ key, ∀ h ∈ c.fields, ∀ shown, index.Shows c h key shown →
    ∀ h' ∈ c'.fields, ∀ shown', index.Shows c' h' key shown' →
      shown.schema (index.context package) = shown'.schema (index.context package) ∧
      shown.reference? (index.context package) = shown'.reference? (index.context package)

/-- Documents of which encoding writes what the component of their message describes. -/
structure Describable (index : Index) (package : String) (m : Message) (doc : Doc) : Prop where
  settled : index.Settled m doc
  suits : ∀ f ∈ m.fields, f.Describable
  agrees : index.Agrees package m

section Fields

variable {index : Index} (sound : index.Sound) (named : index.Named) (complete : index.Complete) {m : Message}
  (declares : index.Declares m) {f : Field} (inside : f ∈ m.fields) {file : File} {document : Document}
  (describes : document.Describes index file) {rule : Message → Doc → Prop} {lower : Nat}

def Encodes (index : Index) (file : File) (components : Entries JsonSchema) (type : ValueType) (x : Json) : Prop :=
  ∀ name c, type = .message name → index.message? name = some c → c.wellKnown = false →
    ∀ levels w, encodeWithin index.codec levels name x = .ok w → Conforms index file components c w ∧
      (c.isRootUnwrap = false → ∃ wire : Doc, w = .obj wire)

include sound named complete declares inside describes

theorem accepts_value (suits : f.Describable) {x y : Json} (typed : Typed index index.Admits rule f.type x)
    (encodes : Encodes index file document.components.entries f.type x)
    (turned : Turned (encodeWithin index.codec lower) (childSteps index index.planned.contains f ++ recodeSteps index f)
      x y)
    (listed : ∀ type, (index.context file.package).memberReference? (Interface.memberOf index.plans m f) = some type →
      type ∈ index.documented file) :
    Accepts document.components.entries y.depth
      ((index.context file.package).valueSchema (Interface.memberOf index.plans m f)) y := by
  generalize held : f.type = type at typed encodes
  cases typed with
  | leaf foreign admits =>
    refine accepts_leaf sound named complete declares inside describes (held ▸ admits)
      (fun name c message found => foreign name c ?_ found) suits.named turned listed
    rw [← held, type_of_message? message]
  | message found own =>
    rename_i name c doc _ _ _ _
    have message : f.message? = some name := by rw [Field.message?, held]; rfl
    refine accepts_child sound named declares inside describes message found own rfl (fun z below => ?_) turned listed
    obtain ⟨levels, encoded⟩ := encoded_of_childWire found sound
      ((sound.wellFormed _ m declares.1).typeName f inside name message) below
    exact encodes name c rfl found own levels z encoded

variable (suits : f.Describable) {o : Option Json} {v : Json}
  (typed : ∀ value, o = some value → ∀ x ∈ f.container.values value, Typed index index.Admits rule f.type x)
  (encodes : ∀ value, o = some value → ∀ x ∈ f.container.values value,
    Encodes index file document.components.entries f.type x)
  (left : Left index index.planned.contains (encodeWithin index.codec lower) f o v)
  (listed : ∀ type, (index.context file.package).memberReference? (Interface.memberOf index.plans m f) = some type →
    type ∈ index.documented file)

include suits typed encodes left listed

theorem accepts_member (full : f.writesNull = true → v ≠ .null) :
    Accepts document.components.entries v.depth
      ((index.context file.package).memberSchema (Interface.memberOf index.plans m f)) v ∧
    (f.container ≠ .single → Accepts document.components.entries (v.depth - 1)
      ((index.context file.package).memberSchema (Interface.memberOf index.plans m f)) v) := by
  obtain ⟨keywords, same⟩ :=
    valueSchema_keywords (index.context file.package) (Interface.memberOf index.plans m f)
  rw [memberSchema_over, field_memberOf, same]
  cases left with
  | null written writes => exact absurd written (full writes)
  | values given shapes each =>
    have values : ∀ y ∈ f.container.values v, Accepts document.components.entries y.depth (.all keywords) y := by
      intro y there
      obtain ⟨x, among, turned⟩ := each y there
      exact same ▸ accepts_value sound named complete declares inside describes suits (typed _ given x among)
        (encodes _ given x among) turned listed
    exact ⟨accepts_over shapes values, accepts_plural shapes values⟩

theorem accepts_property : Accepts document.components.entries v.depth
    ((index.context file.package).propertySchema (Interface.memberOf index.plans m f)) v := by
  have known := complete.known m (mem_values_of_declares declares) declares.2 f inside
  by_cases null : f.writesNull = true ∧ v = .null
  · obtain ⟨writes, rfl⟩ := null
    exact (accepts_null_of_listed sound named declares inside writes (suits.passes writes) known describes listed).more
      (Json.depth_pos _)
  · obtain ⟨accepts, _⟩ := accepts_member sound named complete declares inside describes suits typed encodes left listed
      fun writes same => null ⟨writes, same⟩
    rw [propertySchema_memberOf sound declares.1 declares.2 (named.names m (mem_values_of_declares declares)) inside]
    split
    · rename_i writes
      obtain ⟨keywords, same⟩ :=
        memberSchema_keywords (index.context file.package) (Interface.memberOf index.plans m f)
      rw [same] at accepts ⊢
      refine accepts_nullable accepts ?_
      cases v with
      | null => exact absurd ⟨writes, rfl⟩ null
      | _ => rfl
    · exact accepts

end Fields

section Variants

variable {index : Index} (sound : index.Sound) (named : index.Named) {m : Message} (declares : index.Declares m)
  {file : File} {components : Entries JsonSchema}

include sound named declares

theorem shown_by_member {group : Oneof × OneofConfig} (grouped : group ∈ m.discriminated) {f : Field}
    (member : f ∈ m.oneofMembers group.1) {k : String} (own : (group.2.flatten = false ∧ k = f.jsonName) ∨
      (group.2.flatten = true ∧ ∃ type, f.message? = some type ∧ k ∈ index.laidKeys type))
    {h : Field} (there : h ∈ m.fields) {shown : Shown} (shows : index.Shows m h k shown) :
    (group.2.flatten = false ∧ ∃ v ∈ m.oneofMembers group.1, v.jsonName = k ∧
      shown = .member .variant (Interface.memberOf index.plans m v)) ∨
    (group.2.flatten = true ∧ ∃ v ∈ m.oneofMembers group.1, ∃ type c, v.message? = some type ∧
      index.message? type = some c ∧ ∃ g ∈ c.fields, index.Shows c g k shown) := by
  have found := declares.1
  have among := mem_values_of_declares declares
  have places := places_of_names sound found (named.jsonNames m among)
  obtain ⟨first, here, at_first, head⟩ := exists_place (sound.wellFormed _ m found) (named.oneofs m among) grouped
  obtain ⟨variants, laid, names, lifted⟩ := fieldLaid_group (places.each first here) at_first head
  have inside : k ∈ variants := by
    rcases own with ⟨beside, rfl⟩ | ⟨flatten, type, typed, key⟩
    · rw [names beside]
      exact List.mem_map.mpr ⟨f, member, rfl⟩
    · exact lifted flatten f member type typed k key
  have nodup := places.nodup first here
  rw [laid, List.nodup_cons] at nodup
  exact shown_variant sound found places here there at_first head (by rw [laid]; exact List.mem_cons_of_mem _ inside)
    (fun same => nodup.1 (same ▸ inside)) shows

theorem accepts_variant (agrees : index.Agrees file.package m) {group : Oneof × OneofConfig}
    (grouped : group ∈ m.discriminated) (flatten : group.2.flatten = true) {f : Field}
    (member : f ∈ m.oneofMembers group.1) {type : String} (typed : f.message? = some type) {c : Message}
    (known : index.message? type = some c) (plain : c.isRootUnwrap = false) {child : Doc}
    (conforms : Conforms index file components c (.obj child)) (laid : ∀ k ∈ child.keys, k ∈ index.laidKeys type)
    {k : String} {v : Json} (given : child.get? k = some v) {h : Field} (there : h ∈ m.fields) {shown : Shown}
    (shows : index.Shows m h k shown)
    (listed : ∀ type, shown.reference? (index.context file.package) = some type → type ∈ index.documented file) :
    Accepts components v.depth (shown.schema (index.context file.package)) v := by
  have own_key := laid k (Entries.mem_keys_iff.mpr ⟨v, given⟩)
  rcases shown_by_member sound named declares grouped member (.inr ⟨flatten, type, typed, own_key⟩) there shows with
    ⟨beside, _⟩ | ⟨_, other, other_member, type', c', typed', known', g, among', shows'⟩
  · rw [flatten] at beside
    cases beside
  · by_cases same : f = other
    · subst same
      cases typed.symm.trans typed'
      cases known.symm.trans known'
      exact conforms.entries child rfl plain k v given g among' shown shows' listed
    · -- The component declares the key as another member does, which declares it as this one.
      obtain ⟨g', there', shown', shows''⟩ := shown_of_laid sound known own_key
      obtain ⟨schema, refers⟩ := agrees group grouped flatten f member other other_member same type c typed
        known type' c' typed' known' k g' there' shown' shows'' g among' shown shows'
      rw [← schema]
      exact conforms.entries child rfl plain k v given g' there' shown' shows''
        fun name referred => listed name (refers ▸ referred)

end Variants

section Messages

variable {index : Index} (sound : index.Sound) (named : index.Named) (complete : index.Complete) {m : Message}
  (declares : index.Declares m) {file : File} {document : Document} (describes : document.Describes index file)
  {rule : Message → Doc → Prop} {lower : Nat} {doc wire : Doc}
  (shapes : ∀ f ∈ m.fields, ∀ value, doc.get? f.jsonName = some value → f.container.Shapes value)
  (values : ∀ f ∈ m.fields, ∀ value, doc.get? f.jsonName = some value →
    ∀ x ∈ f.container.values value, Typed index index.Admits rule f.type x)
  (encodes : ∀ f ∈ m.fields, ∀ value, doc.get? f.jsonName = some value →
    ∀ x ∈ f.container.values value, Encodes index file document.components.entries f.type x)
  (objects : ∀ f ∈ m.fields, f.lifted?.isSome = true ∨ m.LiftedMember f → ∀ type, f.message? = some type →
    ∀ value, doc.get? f.jsonName = some value →
      WritesObject index index.planned.contains (encodeWithin index.codec lower) type value)

section Children

variable {f : Field} (inside : f ∈ m.fields)

include sound named declares inside encodes objects in
theorem conforms_of_child (lifts : f.lifted?.isSome = true ∨ m.LiftedMember f) {type : String}
    (typed : f.message? = some type) {value : Json} (given : doc.get? f.jsonName = some value) {child : Doc}
    (below : ChildWire index.planned.contains (encodeWithin index.codec lower) type value (.obj child)) :
    ∃ c, index.message? type = some c ∧ c.isRootUnwrap = false ∧
      Conforms index file document.components.entries c (.obj child) ∧ ∀ k ∈ child.keys, k ∈ index.laidKeys type := by
  obtain ⟨singular, _, c, typed', bare, known, own, plain⟩ := target_of_lifted sound named declares inside lifts
  cases typed.symm.trans typed'
  obtain ⟨child', same, _, laid⟩ := (objects f inside lifts type typed value given).2 _ below
  cases same
  obtain ⟨levels, encoded⟩ := encoded_of_childWire known sound bare below
  have alone : value ∈ f.container.values value := by
    rw [container_of_singular singular]
    exact List.mem_singleton_self _
  exact ⟨c, known, plain, (encodes f inside value given value alone type c (type_of_message? typed) known own levels _
    encoded).1, laid⟩

variable (describable : index.Describable file.package m doc)

include sound named complete declares describes shapes values encodes inside describable

theorem accepts_own (unlifted : f.lifted? = none) (kept : ¬ m.LiftedMember f) {v : Json}
    (run : encodeBlock (encodeWithin index.codec lower) (planOf index index.planned m)
      (bodySteps index index.planned.contains f) (doc.get? f.jsonName) = .ok (some v)) {h : Field}
    (there : h ∈ m.fields) {shown : Shown} (shows : index.Shows m h f.jsonName shown)
    (listed : ∀ type, shown.reference? (index.context file.package) = some type → type ∈ index.documented file) :
    Accepts document.components.entries v.depth (shown.schema (index.context file.package)) v := by
  have jsonNames := named.jsonNames m (mem_values_of_declares declares)
  have resolved := resolved_of_named sound named declares
  have left := left_of_block unlifted (shapes f inside) run
  cases grouped : m.groupOf? f with
  | none =>
    cases shown_plain sound declares.1 (places_of_names sound declares.1 jsonNames) inside there grouped unlifted shows
    exact accepts_property sound named complete declares inside describes (describable.suits f inside)
      (values f inside) (encodes f inside) left listed
  | some group =>
    obtain ⟨discriminated, owner⟩ := mem_of_groupOf? grouped
    have member := (resolved group.1 group.2 discriminated f).mpr ⟨inside, owner⟩
    have beside : group.2.flatten = false := by
      rw [← Bool.not_eq_true]
      exact fun flatten => kept ⟨group.1, group.2, discriminated, flatten, member⟩
    rcases shown_by_member sound named declares discriminated member (.inl ⟨beside, rfl⟩) there shows with
      ⟨_, g, listed', same, rfl⟩ | ⟨flatten, _⟩
    · cases eq_of_nodup jsonNames ((resolved group.1 group.2 discriminated g).mp listed').1 inside same
      refine (accepts_member sound named complete declares inside describes (describable.suits f inside)
        (values f inside) (encodes f inside) left listed fun writes => ?_).1
      rw [(keeps_key sound named declares inside writes).2.2] at grouped
      cases grouped
    · rw [beside] at flatten
      cases flatten

include objects

theorem accepts_written {k : String} {v : Json} (writes : Writes index index.planned.contains
      (encodeWithin index.codec lower) (planOf index index.planned m) m doc f k v)
    {h : Field} (there : h ∈ m.fields) {shown : Shown} (shows : index.Shows m h k shown)
    (listed : ∀ type, shown.reference? (index.context file.package) = some type → type ∈ index.documented file) :
    Accepts document.components.entries v.depth (shown.schema (index.context file.package)) v := by
  have found := declares.1
  have among := mem_values_of_declares declares
  have places := places_of_names sound found (named.jsonNames m among)
  -- Each key has one place, so that what wrote it tells what declares it.
  cases writes with
  | own unlifted kept run =>
    exact accepts_own sound named complete declares describes shapes values encodes inside describable unlifted kept run
      there shows listed
  | lifted lifts =>
    obtain ⟨lifted, given, below, listed_key⟩ := lifts
    rename_i type pre key value child
    have target : f.lifted?.isSome = true := by rw [lifted]; rfl
    obtain ⟨c, known, plain, conforms, laid⟩ := conforms_of_child sound named declares encodes objects inside
      (.inl target) (lifted?_eq_some lifted).2.1 given below
    have alone : m.groupOf? f = none := by
      rw [Message.groupOf?, oneof_of_lifted (places.checked f inside) target]
      rfl
    obtain ⟨g, among', shows'⟩ := shown_lifted sound found places inside there alone lifted known
      (laid key (Entries.mem_keys_iff.mpr ⟨v, listed_key⟩)) shows
    exact conforms.entries child rfl plain key v listed_key g among' shown shows' listed
  | tag grouped member =>
    rename_i group
    obtain ⟨first, here, at_first, head⟩ :=
      exists_place (sound.wellFormed _ m found) (named.oneofs m among) grouped
    cases shown_tag sound found places here there at_first head shows
    exact accepts_ofTexts (List.mem_map.mpr ⟨f, member, rfl⟩)
  | variant grouped flatten member typed given below listed_key =>
    rename_i group type value child
    obtain ⟨c, known, plain, conforms, laid⟩ := conforms_of_child sound named declares encodes objects inside
      (.inr ⟨group.1, group.2, grouped, flatten, member⟩) typed given below
    exact accepts_variant sound named declares describable.agrees grouped flatten member typed known plain conforms laid
      listed_key there shows listed

end Children

section Whole

include sound named complete declares in
theorem accepts_object_of_entries (plain : m.isRootUnwrap = false) {w : Json} (written : ObjectWritten index m w)
    (entries : ∀ wire : Doc, w = .obj wire → ∀ k v, wire.get? k = some v → ∀ f ∈ m.fields, ∀ shown,
      index.Shows m f k shown →
      (∀ type, shown.reference? (index.context file.package) = some type → type ∈ index.documented file) →
      Accepts document.components.entries v.depth (shown.schema (index.context file.package)) v)
    (listed : m.fullName ∈ index.documented file) :
    Accepts document.components.entries (w.depth - 1) ((index.context file.package).messageSchema m) w := by
  obtain ⟨wire, rfl, _, _, required⟩ := written
  have requires := requires_of_component sound named declares.1 file.package plain
  rw [messageSchema_object file.package plain] at requires ⊢
  refine accepts_object (fun key schema declared v given => ?_) fun key inside => ?_
  · obtain ⟨f, inside, shown, shows, rfl, refers⟩ := shown_of_declared sound named declares file.package plain declared
    have accepts := entries wire rfl key v given f inside shown shows fun type referred => by
      obtain ⟨known, bare⟩ := known_of_shows sound named complete shows referred declares inside
      exact mem_typesOf_of_reference known bare declares listed (refers type referred)
    refine accepts.more ?_
    have deeper := Json.depth_member (Entries.mem_of_get? given)
    omega
  · exact required key (requires key (by rw [requiredKeys_object]; exact inside)).2

include sound named complete declares describes shapes values encodes in
theorem accepts_root {f : Field} (alone : m.fields = [f]) (unwrap : f.annotations.unwrap = true)
    (suits : f.Describable) {o : Option Json} (run : encodeBlock (encodeWithin index.codec lower)
      (planOf index index.planned m) (bodySteps index index.planned.contains f) (doc.get? f.jsonName) = .ok o)
    (listed : m.fullName ∈ index.documented file) :
    Accepts document.components.entries ((o.getD (emptyContainer f.isMap)).depth - 1)
      ((index.context file.package).messageSchema m) (o.getD (emptyContainer f.isMap)) := by
  have inside : f ∈ m.fields := by rw [alone]; exact List.mem_singleton_self f
  have plural := ((checked_of_sound sound declares.1 f inside).unwrap unwrap).1
  have form := ofMessage_alias sound declares alone unwrap
  have unlifted : f.lifted? = none := by
    rw [Option.eq_none_iff_forall_ne_some]
    rintro ⟨type, pre⟩ lifted
    rw [(lifted?_eq_some lifted).2.2] at plural
    cases plural
  have container : f.container ≠ .single := by
    rcases list_or_map plural with map | list
    · rw [container_of_map map]
      simp
    · simp [Field.container, list]
  have refers (type : String) (referred : (index.context file.package).memberReference?
      (Interface.memberOf index.plans m f) = some type) : type ∈ index.documented file := by
    obtain ⟨known, bare⟩ := known_of_memberReference? sound named complete declares inside referred
    refine mem_typesOf_of_reference known bare declares listed ?_
    rw [Context.messageReferences]
    simp only [context] at referred ⊢
    simp [form, referred]
  rw [Context.messageSchema]
  simp only [context, form]
  -- A field that leaves nothing is written as an empty container, which has no values to match.
  cases o with
  | some v =>
    refine (accepts_member sound named complete declares inside describes suits (values f inside) (encodes f inside)
      (left_of_block unlifted (shapes f inside) run) refers fun writes => ?_).2 container
    rw [(keeps_key sound named declares inside writes).1] at plural
    cases plural
  | none =>
    obtain ⟨keywords, same⟩ :=
      valueSchema_keywords (index.context file.package) (Interface.memberOf index.plans m f)
    show Accepts _ _ ((index.context file.package).memberSchema (Interface.memberOf index.plans m f)) _
    rw [memberSchema_over, field_memberOf, same, Option.getD_none]
    have empty : f.container.Shapes (emptyContainer f.isMap) ∧ f.container.values (emptyContainer f.isMap) = [] := by
      by_cases map : f.isMap = true
      · rw [container_of_map map, map]
        exact ⟨trivial, rfl⟩
      · have list := (list_or_map plural).resolve_left map
        simp [Field.container, list, map, emptyContainer, Container.Shapes, Container.values]
    refine accepts_plural empty.1 (fun y there => ?_) container
    rw [empty.2] at there
    cases there

end Whole

end Messages

section Properties

variable {index : Index} (sound : index.Sound) (named : index.Named) (complete : index.Complete)
  {file : File} {m : Message}
  (declares : index.Declares m) (plain : m.isRootUnwrap = false) (listed : m.fullName ∈ index.documented file)

include sound named complete declares plain listed

theorem shown_of_documented {k : String} {schema : JsonSchema}
    (declared : ((index.context file.package).messageSchema m).property? k = some schema) :
    ∃ f ∈ m.fields, ∃ shown, index.Shows m f k shown ∧ schema = shown.schema (index.context file.package) ∧
      ∀ type, shown.reference? (index.context file.package) = some type → type ∈ index.documented file := by
  obtain ⟨f, inside, shown, shows, same, refers⟩ := shown_of_property sound named declares file.package plain declared
  refine ⟨f, inside, shown, shows, same, fun type referred => ?_⟩
  obtain ⟨known, bare⟩ := known_of_shows sound named complete shows referred declares inside
  exact mem_typesOf_of_reference known bare declares listed (refers type referred)

end Properties

section Documents

variable {index : Index} (sound : index.Sound) (named : index.Named) (complete : index.Complete) {file : File}
  {document : Document} (describes : document.Describes index file)

include sound named complete describes

theorem encodes_of_typed {type : ValueType} {value : Json}
    (typed : Typed index index.Admits (index.Describable file.package) type value) (distinct : value.Distinct) :
    Encodes index file document.components.entries type value := by
  -- By induction on the document.
  induction typed with
  | leaf foreign fits =>
    intro name m same found own
    rw [foreign name m same found] at own
    cases own
  | message found own known shapes values allowed ih =>
    rename_i name m doc
    rintro _ _ same found' own' levels w encoded
    cases same
    cases found.symm.trans found'
    have declares := declares_of_found sound found own
    obtain ⟨keys, distincts⟩ := Json.distinct_obj.mp distinct
    have encodes (f : Field) (inside : f ∈ m.fields) (value : Json) (given : doc.get? f.jsonName = some value)
        (x : Json) (there : x ∈ f.container.values value) :
        Encodes index file document.components.entries f.type x :=
      ih f inside value given x there (Container.distinct_of_mem (distincts _ _ given) there)
    -- An unwrapped message takes the form of its only field, any other writes its keys.
    cases plain : m.isRootUnwrap with
    | true =>
      obtain ⟨f, alone, unwrap⟩ := Message.isRootUnwrap_iff.mp plain
      obtain ⟨lower, o, block, rfl⟩ := run_of_root found own sound named alone unwrap keys encoded
      refine ⟨⟨accepts_root sound named complete declares describes shapes values encodes alone unwrap
        (allowed.suits f (by rw [alone]; exact List.mem_singleton_self f)) block, fun _ _ other => ?_⟩, fun other => ?_⟩
      · rw [plain] at other
        cases other
      · cases other
    | false =>
      have object (f : Field) (inside : f ∈ m.fields) (type : String) (typed : f.message? = some type) (value : Json)
          (given : doc.get? f.jsonName = some value) (lifts : f.lifted?.isSome = true ∨ m.LiftedMember f) :=
        have single := (target_of_lifted sound named declares inside lifts).1
        objectWritten_of_typed sound named (fun _ _ describable => describable.settled)
          (values f inside value given value (by rw [container_of_singular single]; exact List.mem_singleton_self _))
          (distincts _ _ given) type (type_of_message? typed)
      obtain ⟨lower, wire, rfl, written, objectWritten⟩ :=
        messageWritten_of_typed sound named found own plain allowed.settled known keys object encoded
      have objects (f : Field) (inside : f ∈ m.fields) (lifts : f.lifted?.isSome = true ∨ m.LiftedMember f)
          (type : String) (typed : f.message? = some type) (value : Json) (given : doc.get? f.jsonName = some value) :=
        writesObject_of_written sound named declares inside lifts typed (object f inside type typed value given lifts)
          lower
      have entries : ∀ other : Doc, Json.obj wire = .obj other → ∀ k v, other.get? k = some v → ∀ f ∈ m.fields, ∀ shown,
          index.Shows m f k shown →
          (∀ type, shown.reference? (index.context file.package) = some type → type ∈ index.documented file) →
          Accepts document.components.entries v.depth (shown.schema (index.context file.package)) v := by
        intro other same k v there f inside shown shows listed
        cases same
        obtain ⟨g, among, writes⟩ := written.origin k v there
        exact accepts_written sound named complete declares describes shapes values encodes objects among allowed writes
          inside shows listed
      exact ⟨⟨accepts_object_of_entries sound named complete declares plain objectWritten entries,
        fun other same _ => entries other same⟩, fun _ => ⟨wire, rfl⟩⟩

omit describes in
theorem exists_conforming (distinct : ((index.documented file).map (index.componentName file.package)).Nodup)
    {name : String} {m : Message} (found : index.message? name = some m) (own : m.wellKnown = false)
    (listed : m.fullName ∈ file.messages) {value : Json} (keys : value.Distinct)
    (typed : Typed index index.Admits (index.Describable file.package) (.message name) value) {w : Json}
    (encoded : encode index.codec name value = .ok w) :
    ∃ document, Document.ofFile? index index.plans file = some document ∧
      document.components.get? (index.componentName file.package m.fullName) =
        some ((index.context file.package).messageSchema m) ∧
      m.fullName ∈ index.documented file ∧ Conforms index file document.components.entries m w := by
  obtain ⟨document, made, describes, component⟩ := Document.exists_describing sound.toKeyed found listed distinct
  exact ⟨document, made, component, Context.mem_typesOf (List.mem_append_left _ listed),
    (encodes_of_typed sound named complete describes typed keys name m rfl found own _ w encoded).1⟩

end Documents

end Index

end Wireform
