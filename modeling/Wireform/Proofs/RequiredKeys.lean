import Wireform.Proofs.DeclaredProperties
import Wireform.Proofs.LiftedRoundTrip
import Wireform.Proofs.TypedDocuments

set_option autoImplicit false

namespace Wireform

namespace Index

/-- A document of which nothing that the steps write gets lost or goes unwritten: one member at most of each oneof
is set, no lifted key is read by a later step, and no flattened message that requires keys is left out. -/
structure Settled (index : Index) (m : Message) (doc : Codec.Doc) : Prop where
  single : m.OneMember doc
  clear : index.Clear m
  filled : ∀ f ∈ m.fields, ∀ type pre c key, f.lifted? = some (type, pre) → index.message? type = some c →
    index.Requires c key → doc.get? f.jsonName ≠ none

section Lookup

variable {index : Index} (sound : index.Sound) (named : index.Named) {m : Message} (declares : index.Declares m)

include sound named declares in
theorem orderly_of_named (clear : index.Clear m) : index.Orderly m :=
  have values := mem_values_of_declares declares
  orderly_of_places (places_of_names sound declares.1 (named.jsonNames m values)) (named.oneofs m values)
    (resolved_of_named sound named declares) clear (named.jsonNames m values)

include sound named declares in
theorem target_of_lifted {f : Field} (inside : f ∈ m.fields) (lifts : f.lifted?.isSome = true ∨ m.LiftedMember f) :
    f.isSingular = true ∧ ∃ type c, f.message? = some type ∧ bareName type = type ∧
      index.message? type = some c ∧ c.wellKnown = false ∧ c.isRootUnwrap = false := by
  have wellFormed := sound.wellFormed _ m declares.1
  rcases lifts with lifted | member
  · obtain ⟨⟨type, pre⟩, lifted⟩ := Option.isSome_iff_exists.mp lifted
    obtain ⟨flatten, typed, singular⟩ := lifted?_eq_some lifted
    obtain ⟨_, c, typed', known, _, own, plain, _⟩ := (Codec.checked_of_sound sound declares.1 f inside).flatten flatten
    cases typed.symm.trans typed'
    exact ⟨singular, type, c, typed, wellFormed.typeName f inside type typed, known, own, plain⟩
  · obtain ⟨_, singular⟩ := Codec.not_lifted_of_liftedMember sound named declares inside member
    obtain ⟨oneof, config, grouped, flatten, listed⟩ := member
    obtain ⟨type, c, typed, known, own, plain⟩ := message_of_member sound declares.1 grouped flatten listed
    exact ⟨singular, type, c, typed, wellFormed.typeName f inside type typed, known, own, plain⟩

theorem plan?_of_wellKnown {index : Index} (keyed : index.Keyed) {name : String} {m : Message}
    (found : index.message? name = some m) (builtIn : m.wellKnown = true) : index.plans.plan? m.fullName = none := by
  rw [Option.eq_none_iff_forall_ne_some]
  intro plan given
  obtain ⟨c, there, planned, _⟩ := (plan?_eq_some keyed).mp given
  rw [message?_fullName keyed found] at there
  cases there
  rw [wellKnown_of_planned keyed found planned] at builtIn
  cases builtIn

theorem properties_of_unplanned {m : Message} (unplanned : index.plans.plan? m.fullName = none) (levels : Nat)
    (pre : String) : Interface.propertiesWithin index index.plans levels m pre =
      m.fields.map fun f => .own (pre ++ f.jsonName) .plain ⟨f, []⟩ := by
  have each (child : Message → String → List Property) (f : Field) :
      Interface.fieldProperties index index.plans child m pre f = [.own (pre ++ f.jsonName) .plain ⟨f, []⟩] := by
    have alone : Interface.group? index.plans m f = none := by
      rw [Interface.group?, unplanned]
      simp
    have seen : Interface.memberOf index.plans m f = ⟨f, []⟩ := by rw [Interface.memberOf, unplanned]
    rw [Interface.fieldProperties, alone, seen]
    rfl
  cases levels <;> rw [Interface.propertiesWithin, List.flatMap_congr fun f _ => each _ f, List.map_eq_flatMap]

include sound named in
theorem requires_of_fieldProperties {child : Message → String → List Property}
    (below : ∀ c, index.Declares c → ∀ pre key member, .own key .plain member ∈ child c pre →
      Transform.nullable ∈ member.transforms → ∃ k, key = pre ++ k ∧ index.Requires c k)
    {m : Message} (declares : index.Declares m) {f : Field} (inside : f ∈ m.fields) {pre key : String} {member : Member}
    (listed : .own key .plain member ∈ Interface.fieldProperties index index.plans child m pre f)
    (nullable : Transform.nullable ∈ member.transforms) : ∃ k, key = pre ++ k ∧ index.Requires m k := by
  have names := named.names m (mem_values_of_declares declares)
  cases grouped : m.groupOf? f with
  | some group =>
    -- Nothing that comes of a oneof is required.
    by_cases first : group.1.members.head? = some f.name
    · rw [fieldProperties_group sound named declares inside grouped first] at listed
      rcases List.mem_cons.mp listed with never | later
      · cases never
      · obtain ⟨variant, _, given⟩ := List.mem_flatMap.mp later
        rw [Interface.variantProperties] at given
        split at given
        · cases List.mem_singleton.mp given
        · split at given
          · cases List.mem_singleton.mp given
          · cases given
    · rw [fieldProperties_later sound named declares inside grouped first] at listed
      cases listed
  | none =>
    cases lifted : f.lifted? with
    | none =>
      rw [fieldProperties_plain sound named declares inside grouped lifted] at listed
      cases List.mem_singleton.mp listed
      obtain ⟨_, gives⟩ :=
        (mem_transforms sound.toKeyed declares.1 declares.2 names inside (by decide)).mp nullable
      cases gives with
      | nullable marked => exact ⟨f.jsonName, rfl, .own inside marked⟩
    | some target =>
      obtain ⟨type, childPre⟩ := target
      obtain ⟨c, known, declared, same⟩ := fieldProperties_lifted sound named declares inside grouped lifted
      rw [same] at listed
      obtain ⟨k, rfl, requires⟩ := below c declared _ key member listed nullable
      exact ⟨childPre ++ k, String.append_assoc .., .lifted inside lifted known requires⟩

include sound named in
theorem requires_of_properties (levels : Nat) : ∀ m, index.Declares m → ∀ pre key member,
    .own key .plain member ∈ Interface.propertiesWithin index index.plans levels m pre →
      Transform.nullable ∈ member.transforms → ∃ k, key = pre ++ k ∧ index.Requires m k := by
  induction levels with
  | zero =>
    intro m declares pre key member listed nullable
    obtain ⟨f, inside, listed⟩ := List.mem_flatMap.mp listed
    exact requires_of_fieldProperties sound named (fun _ _ _ _ _ never => (List.not_mem_nil never).elim) declares inside
      listed nullable
  | succ levels ih =>
    intro m declares pre key member listed nullable
    obtain ⟨f, inside, listed⟩ := List.mem_flatMap.mp listed
    exact requires_of_fieldProperties sound named ih declares inside listed nullable

include sound named in
theorem requires_of_component {name : String} {m : Message} (found : index.message? name = some m) (package : String)
    (other : m.isRootUnwrap = false) (key : String)
    (listed : key ∈ ((index.context package).messageSchema m).requiredKeys) :
    m.wellKnown = false ∧ index.Requires m key := by
  rw [messageSchema_object package other, JsonSchema.requiredKeys_object, OpenApi.Object.mem_required] at listed
  obtain ⟨member, listed, nullable⟩ := listed
  have own : m.wellKnown = false := by
    rw [← Bool.not_eq_true]
    intro builtIn
    rw [Interface.properties, properties_of_unplanned (plan?_of_wellKnown sound.toKeyed found builtIn)] at listed
    obtain ⟨f, _, same⟩ := List.mem_map.mp listed
    cases same
    cases nullable
  obtain ⟨k, rfl, requires⟩ :=
    requires_of_properties sound named _ m (declares_of_found sound found own) "" key member listed nullable
  rw [String.empty_append]
  exact ⟨own, requires⟩

end Lookup

end Index

namespace Codec

open Index

def ObjectWritten (index : Index) (m : Message) (w : Json) : Prop :=
  ∃ wire : Doc, w = .obj wire ∧ wire.Distinct ∧ (∀ k ∈ wire.keys, k ∈ index.laidKeys m.fullName) ∧
    ∀ k, index.Requires m k → wire.contains k = true

theorem present_of_nullable {index : Index} {f : Field} (nullable : f.annotations.nullable = true)
    (unlifted : f.lifted? = none) {planned : String → Bool} {encode : String → Json → Result Json} {plan : Plan}
    {o p : Option Json} (run : encodeBlock encode plan (bodySteps index planned f) o = .ok p) : p ≠ none := by
  rw [bodySteps_of_unlifted unlifted, encodeBlock_append, nullSteps, if_pos nullable] at run
  obtain ⟨between, _, later⟩ := bind_eq_ok run
  obtain ⟨last, step, done⟩ := bind_eq_ok later
  cases Except.ok.inj done
  cases Except.ok.inj step
  exact Option.some_ne_none _

section Message

variable {index : Index} (sound : index.Sound) (named : index.Named) {m : Message} (declares : index.Declares m)

include sound named declares

theorem writesObject_of_written {f : Field} (inside : f ∈ m.fields)
    (lifts : f.lifted?.isSome = true ∨ m.LiftedMember f) {type : String} (typed : f.message? = some type) {value : Json}
    (object : ∀ c, index.message? type = some c → c.wellKnown = false → c.isRootUnwrap = false →
      value.isNull = false ∧ ∀ levels w, encodeWithin index.codec levels type value = .ok w → ObjectWritten index c w)
    (lower : Nat) :
    WritesObject index index.planned.contains (encodeWithin index.codec lower) type value := by
  obtain ⟨_, _, c, typed', bare, known, own, plain⟩ := target_of_lifted sound named declares inside lifts
  cases typed.symm.trans typed'
  obtain ⟨present, written⟩ := object c known own plain
  refine ⟨present, fun w below => ?_⟩
  obtain ⟨levels, encoded⟩ := encoded_of_childWire known sound bare below
  obtain ⟨wire, rfl, distinct, laid, _⟩ := written levels w encoded
  exact ⟨wire, rfl, distinct, fun k inside => fullName_eq sound bare known ▸ laid k inside⟩

theorem contains_of_requires {doc wire : Doc} (settled : index.Settled m doc) {lower : Nat}
    (written : MessageWritten index index.planned.contains (encodeWithin index.codec lower)
      (planOf index index.planned m) m doc wire)
    (object : ∀ f ∈ m.fields, ∀ type, f.message? = some type → ∀ value, doc.get? f.jsonName = some value →
      f.lifted?.isSome = true ∨ m.LiftedMember f → ∀ c, index.message? type = some c → c.wellKnown = false →
      c.isRootUnwrap = false → value.isNull = false ∧
        ∀ levels w, encodeWithin index.codec levels type value = .ok w → ObjectWritten index c w) :
    ∀ k, index.Requires m k → wire.contains k = true := by
  intro k requires
  -- A key is required of the message itself or of one that it lifts, which is there and writes it.
  cases requires with
  | own inside nullable =>
    rename_i f
    obtain ⟨_, optional⟩ := (checked_of_sound sound declares.1 f inside).nullable nullable
    have alone := (sound.wellFormed _ m declares.1).presence f inside optional
    have unlifted : f.lifted? = none := by
      rw [Option.eq_none_iff_forall_ne_some]
      rintro ⟨type, pre⟩ lifted
      obtain ⟨_, _, _, _, _, _, _, _, plain, _⟩ :=
        (checked_of_sound sound declares.1 f inside).flatten (lifted?_eq_some lifted).1
      rw [nullable] at plain
      cases plain
    have kept : ¬ m.LiftedMember f := by
      rintro ⟨oneof, config, grouped, _, listed⟩
      have owner := ((resolved_of_named sound named declares oneof config grouped f).mp listed).2
      rw [alone] at owner
      cases owner
    have there := present_of_nullable nullable unlifted (written.own f inside unlifted kept)
    rw [Entries.contains]
    exact Option.isSome_iff_ne_none.mpr there
  | lifted inside lifted known below =>
    rename_i c f type pre k
    have target : f.lifted?.isSome = true := by rw [lifted]; rfl
    have typed := (lifted?_eq_some lifted).2.1
    obtain ⟨_, _, c', typed', bare, known', own, plain⟩ := target_of_lifted sound named declares inside (.inl target)
    cases typed.symm.trans typed'
    cases known.symm.trans known'
    obtain ⟨value, given⟩ := Option.ne_none_iff_exists'.mp (settled.filled f inside type pre c k lifted known below)
    obtain ⟨child, below_wire⟩ := written.children f inside type pre lifted value given
    obtain ⟨levels, encoded⟩ := encoded_of_childWire known sound bare below_wire
    obtain ⟨wire', same, _, _, required⟩ :=
      (object f inside type typed value given (.inl target) c known own plain).2 levels _ encoded
    cases same
    obtain ⟨v, there⟩ := Option.isSome_iff_exists.mp (required k below)
    rw [Entries.contains, written.lifted f inside _ v ⟨lifted, given, below_wire, there⟩]
    rfl

end Message

section Documents

variable {index : Index} {leaf : ValueType → Json → Prop} {rule : Message → Doc → Prop} (sound : index.Sound)
  (named : index.Named)

include sound named

theorem messageWritten_of_typed {name : String} {m : Message} (found : index.message? name = some m)
    (own : m.wellKnown = false) (plain : m.isRootUnwrap = false) {doc : Doc} (settled : index.Settled m doc)
    (known : ∀ k, doc.get? k ≠ none → ∃ f ∈ m.fields, f.jsonName = k) (distinct : doc.Distinct)
    (object : ∀ f ∈ m.fields, ∀ type, f.message? = some type → ∀ value, doc.get? f.jsonName = some value →
      f.lifted?.isSome = true ∨ m.LiftedMember f → ∀ c, index.message? type = some c → c.wellKnown = false →
      c.isRootUnwrap = false → value.isNull = false ∧
        ∀ levels w, encodeWithin index.codec levels type value = .ok w → ObjectWritten index c w)
    {levels : Nat} {w : Json} (encoded : encodeWithin index.codec levels name (.obj doc) = .ok w) :
    ∃ lower wire, w = .obj wire ∧ MessageWritten index index.planned.contains (encodeWithin index.codec lower)
      (planOf index index.planned m) m doc wire ∧ ObjectWritten index m w := by
  have declares := declares_of_found sound found own
  have orderly := orderly_of_named sound named declares settled.clear
  obtain ⟨lower, wire, rfl, run⟩ := run_of_encodeWithin found own sound plain encoded
  have objects : ∀ f ∈ m.fields, f.lifted?.isSome = true ∨ m.LiftedMember f → ∀ type, f.message? = some type →
      ∀ value, doc.get? f.jsonName = some value →
        WritesObject index index.planned.contains (encodeWithin index.codec lower) type value :=
    fun f inside lifts type typed value given =>
      writesObject_of_written sound named declares inside lifts typed (object f inside type typed value given lifts) lower
  have written := messageWritten_of_run sound named declares orderly objects distinct known settled.single run
  exact ⟨lower, wire, rfl, written, wire, rfl, written.distinct, written.laid sound named declares orderly objects,
    contains_of_requires sound named declares settled written object⟩

theorem objectWritten_of_typed (settles : ∀ m doc, rule m doc → index.Settled m doc) {type : ValueType} {value : Json}
    (typed : Typed index leaf rule type value) (distinct : value.Distinct) :
    ∀ name, type = .message name → ∀ m, index.message? name = some m → m.wellKnown = false → m.isRootUnwrap = false →
      value.isNull = false ∧
        ∀ levels w, encodeWithin index.codec levels name value = .ok w → ObjectWritten index m w := by
  -- By induction on the document.
  induction typed with
  | leaf foreign fits =>
    intro name same m found own
    rw [foreign name m same found] at own
    cases own
  | message found own known shapes values allowed ih =>
    rintro name same m found' own' plain
    cases same
    cases found.symm.trans found'
    have declares := declares_of_found sound found own
    refine ⟨rfl, fun levels w encoded => ?_⟩
    obtain ⟨keys, distincts⟩ := Json.distinct_obj.mp distinct
    have settled := settles _ _ allowed
    have object (f : Field) (inside : f ∈ _) (type : String) (typed : f.message? = some type) (value : Json)
        (given : Entries.get? _ f.jsonName = some value) (lifts : f.lifted?.isSome = true ∨ Message.LiftedMember _ f) :=
      have single := (target_of_lifted sound named declares inside lifts).1
      ih f inside value given value (by rw [container_of_singular single]; exact List.mem_singleton_self _)
        (distincts _ _ given) type (type_of_message? typed)
    obtain ⟨_, _, _, _, written⟩ :=
      messageWritten_of_typed sound named found own plain settled known keys object encoded
    exact written

end Documents

end Codec

namespace Run

open Index Codec OpenApi

/-- Every key that the component of a message requires is written, whatever the values are. -/
theorem required_written {set : Schema.FileSet} {files : List String} {settings : Settings} {compiled : Compiled}
    (run : compile set files settings = .ok compiled) (named : compiled.index.Named) {file : File}
    (distinct : (((compiled.index.context file.package).typesOf file).map
      (compiled.index.componentName file.package)).Nodup)
    {name : String} {m : Message} (found : compiled.index.message? name = some m) (plain : m.isRootUnwrap = false)
    (listed : m.fullName ∈ file.messages) {value w : Json} (keys : value.Distinct)
    (typed : Typed compiled.index (fun _ _ => True) compiled.index.Settled (.message name) value)
    (encoded : encode ⟨compiled.index, compiled.plans⟩ name value = .ok w) :
    ∃ document component, Document.ofFile? compiled.index compiled.plans file = some document ∧
      document.components.get? (compiled.index.componentName file.package m.fullName) = some component ∧
      ∀ key ∈ component.requiredKeys, w.get? key ≠ none := by
  have sound := sound_of_compile run
  obtain ⟨_, _, plans⟩ := compile_spec run
  rw [plans] at encoded ⊢
  obtain ⟨document, made, _, component⟩ := Document.exists_describing sound.toKeyed found listed distinct
  refine ⟨document, _, made, component, fun key required => ?_⟩
  obtain ⟨own, requires⟩ := requires_of_component sound named found file.package plain key required
  obtain ⟨_, written⟩ :=
    objectWritten_of_typed sound named (fun _ _ settled => settled) typed keys name rfl m found own plain
  obtain ⟨wire, rfl, _, _, contains⟩ := written _ w encoded
  exact Option.isSome_iff_ne_none.mp (contains key requires)

def pages : Schema.FileSet := .ofMessages [
  .ofFields "Note" [{ Schema.Field.ofKind "text" .string [("nullable", .bool true)] with proto3Optional := true }] [],
  .ofFields "Page" [.ofKind "title" .string [], .ofMessage "note" "t.Note" [("flatten", .bool true),
    ("flatten_prefix", .str "note_")]] []]

def page : Doc := [("note", .obj [])]

theorem settled_of_lifts {compiled : Compiled}
    (alone : ∀ m ∈ compiled.index.messages.values, m.discriminated.isEmpty = true)
    (fields : ∀ m ∈ compiled.index.messages.values, m.fields.Pairwise fun f g =>
      f.lifted?.isSome = true → g.lifted?.isSome = true → g.jsonName ∉ compiled.index.ownKeys f)
    {name : String} {doc : Doc} (single : ∀ m ∈ compiled.index.messages.values, m.OneMember doc)
    {lifts : List (String × String)} (lifted : (compiled.index.message? name).map Message.lifts = some lifts)
    (filled : ∀ entry ∈ lifts, doc.get? entry.1 ≠ none) :
    ∀ m, compiled.index.message? name = some m → compiled.index.Settled m doc := by
  intro m found
  have listed : m ∈ compiled.index.messages.values := KeyMap.mem_values.mpr ⟨_, found⟩
  rw [found] at lifted
  cases Option.some.inj lifted
  exact ⟨single m listed, clear_of_fields (alone m listed) (fields m listed),
    fun f inside type pre c key target _ _ => filled _ (mem_lifts inside target)⟩

set_option synthInstance.maxSize 1000 in
theorem required_written_page : ∃ compiled, compile pages [] .default = .ok compiled ∧
    ∃ w, encode ⟨compiled.index, compiled.plans⟩ "t.Page" (.obj page) = .ok w ∧
      ∃ file ∈ compiled.index.files, ∃ document component,
        Document.ofFile? compiled.index compiled.plans file = some document ∧
        document.components.get? "Page" = some component ∧ component.requiredKeys = ["note_text"] ∧
        ∀ key ∈ component.requiredKeys, w.get? key ≠ none := by
  obtain ⟨compiled, run, named, singular, alone, fields, shape, inner, single, single', lifts, none_lifted, encoded, file,
    among, distinct, requires, m, inside, called, plain, listed, component_name⟩ := exists_compiled
    (fun compiled => compiled.index.Named ∧
      (∀ m ∈ compiled.index.messages.values, ∀ f ∈ m.fields, f.isSingular = true) ∧
      (∀ m ∈ compiled.index.messages.values, m.discriminated.isEmpty = true) ∧
      (∀ m ∈ compiled.index.messages.values, m.fields.Pairwise fun f g =>
        f.lifted?.isSome = true → g.lifted?.isSome = true → g.jsonName ∉ compiled.index.ownKeys f) ∧
      compiled.index.shape? "t.Page" = some [("title", .scalar .string), ("note", .message "t.Note")] ∧
      compiled.index.shape? "t.Note" = some [("text", .scalar .string)] ∧
      (∀ m ∈ compiled.index.messages.values, m.OneMember page) ∧
      (∀ m ∈ compiled.index.messages.values, m.OneMember []) ∧
      (compiled.index.message? "t.Page").map Message.lifts = some [("note", "t.Note")] ∧
      (compiled.index.message? "t.Note").map Message.lifts = some [] ∧
      (encode ⟨compiled.index, compiled.plans⟩ "t.Page" (.obj page)).toOption = some (.obj [("note_text", .null)]) ∧
      ∃ file ∈ compiled.index.files, (((compiled.index.context file.package).typesOf file).map
        (compiled.index.componentName file.package)).Nodup ∧
      ((Document.ofFile? compiled.index compiled.plans file).any fun (document : Document) =>
        (document.components.get? "Page").any fun component => component.requiredKeys == ["note_text"]) = true ∧
      ∃ m ∈ compiled.index.messages.values, m.fullName = "t.Page" ∧ m.isRootUnwrap = false ∧
        m.fullName ∈ file.messages ∧ compiled.index.componentName file.package m.fullName = "Page")
    (show (compile pages [] .default).toOption.any _ = true by decide +kernel)
  have sound := sound_of_compile run
  have found : compiled.index.message? "t.Page" = some m := by
    rw [← called]
    exact message?_of_mem_values sound.toKeyed inside (by rw [called]; decide)
  have typed_note : Typed compiled.index (fun _ _ => True) compiled.index.Settled (.message "t.Note") (.obj []) :=
    typed_of_shape sound singular (by decide +kernel) inner (by decide) (fun _ _ _ never => nomatch never)
      (settled_of_lifts alone fields single' none_lifted (by simp))
  have typed : Typed compiled.index (fun _ _ => True) compiled.index.Settled (.message "t.Page") (.obj page) := by
    refine typed_of_shape sound singular (by decide +kernel) shape (by decide) (fun entry inside value given => ?_)
      (settled_of_lifts alone fields single lifts (by decide))
    simp only [List.mem_cons, List.not_mem_nil, or_false] at inside
    rcases inside with rfl | rfl <;> cases given
    exact typed_note
  have encoded := ok_of_toOption encoded
  obtain ⟨document, component, made, there, written⟩ := required_written run named distinct found plain listed
    (show (Json.obj page).Distinct from ⟨by decide, Json.distinct_empty, trivial⟩) typed encoded
  rw [component_name] at there
  rw [made, Option.any_some, there, Option.any_some, beq_iff_eq] at requires
  exact ⟨compiled, run, _, encoded, file, among, document, component, made, there, requires, written⟩

set_option synthInstance.maxSize 1000 in
/-- A message that is left out is not visited, so that the null it would have written is missing. -/
theorem page_lacks_required : ∃ compiled, compile pages [] .default = .ok compiled ∧
    encode ⟨compiled.index, compiled.plans⟩ "t.Page" (.obj []) = .ok (.obj []) ∧
    ∃ file ∈ compiled.index.files, ∃ document,
      Document.ofFile? compiled.index compiled.plans file = some document ∧
      ∃ component, document.components.get? "Page" = some component ∧ "note_text" ∈ component.requiredKeys := by
  obtain ⟨compiled, run, encoded, file, among, requires⟩ := exists_compiled
    (fun compiled => (encode ⟨compiled.index, compiled.plans⟩ "t.Page" (.obj [])).toOption = some (.obj []) ∧
      ∃ file ∈ compiled.index.files,
        ((Document.ofFile? compiled.index compiled.plans file).any fun (document : Document) =>
          (document.components.get? "Page").any fun component => component.requiredKeys == ["note_text"]) = true)
    (show (compile pages [] .default).toOption.any _ = true by decide +kernel)
  obtain ⟨document, made, there⟩ := (Option.any_eq_true _ _).mp requires
  obtain ⟨component, given, keys⟩ := (Option.any_eq_true _ _).mp there
  exact ⟨compiled, run, ok_of_toOption encoded, file, among, document, made, component, given,
    by rw [beq_iff_eq.mp keys]; exact List.mem_singleton_self _⟩

end Run

end Wireform
