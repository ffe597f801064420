import Wireform.Proofs.ApartProperties
import Wireform.Proofs.Evaluation

set_option autoImplicit false

namespace Wireform

namespace JsonSchema

def propertyKeys : JsonSchema → List String
  | .all keywords => keywords.flatMap fun keyword =>
    match keyword with
    | .properties entries => Entries.keys entries
    | _ => []
  | _ => []

theorem propertyKeys_object (o : OpenApi.Object) : o.schema.propertyKeys = o.properties.keys := by
  rw [OpenApi.Object.schema, propertyKeys]
  by_cases free : o.required.isEmpty = true <;> simp [free]

end JsonSchema

namespace Index

/-- Keys are lifted over so many levels at most. -/
def LiftsWithin (index : Index) : Nat → Message → Prop
  | 0, m => m.liftedTypes = []
  | levels + 1, m => ∀ type ∈ m.liftedTypes, ∀ c ∈ index.message? type, LiftsWithin index levels c

instance (index : Index) : (levels : Nat) → (m : Message) → Decidable (index.LiftsWithin levels m)
  | 0, m => inferInstanceAs (Decidable (m.liftedTypes = []))
  | levels + 1, m =>
    have (c : Message) : Decidable (index.LiftsWithin levels c) := instDecidableLiftsWithin index levels c
    inferInstanceAs (Decidable (∀ type ∈ m.liftedTypes, ∀ c ∈ index.message? type, LiftsWithin index levels c))

end Index

namespace Row

theorem addAll_append (rows : List Row) (first second : List Property) :
    add.addAll rows (first ++ second) = add.addAll (add.addAll rows first) second := by
  induction first generalizing rows with
  | nil => rfl
  | cons p rest ih => exact ih _

theorem keys_addAll_own {α : Type} (items : List α) (key : α → String) (role : Role) (member : α → Member)
    (rows : List Row) :
    (add.addAll rows (items.map fun item => .own (key item) role (member item))).map (·.key) =
      rows.map (·.key) ++ items.map key := by
  induction items generalizing rows with
  | nil => simp [add.addAll]
  | cons item rest ih =>
    rw [List.map_cons, add.addAll, ih, add]
    simp

theorem keys_addLifted (rows lifted : List Row) :
    (addLifted rows lifted).map (·.key) = Index.addNew (rows.map (·.key)) (lifted.map (·.key)) := by
  unfold addLifted Index.addNew
  induction lifted generalizing rows with
  | nil => rfl
  | cons row rest ih =>
    have known : (rows.map (·.key)).contains row.key = rows.any (·.key == row.key) := by
      rw [Bool.eq_iff_iff, List.contains_iff_mem, List.mem_map, List.any_eq_true]
      simp only [beq_iff_eq]
    rw [List.map_cons, List.foldl_cons, List.foldl_cons, ih, known]
    split
    · rfl
    · rw [List.map_append, List.map_singleton]

end Row

namespace Index

theorem addNew_append {base before more : List String} (fresh : ∀ key ∈ more, key ∉ base) :
    addNew (base ++ before) more = base ++ addNew before more := by
  unfold addNew
  induction more generalizing before with
  | nil => rfl
  | cons key rest ih =>
    have absent : (base ++ before).contains key = before.contains key := by
      rw [Bool.eq_iff_iff]
      simp [fresh key List.mem_cons_self]
    have later := fun other there => fresh other (List.mem_cons_of_mem key there)
    rw [List.foldl_cons, List.foldl_cons, absent]
    split
    · exact ih later
    · rw [List.append_assoc]
      exact ih later

def LaysKeys (rows : List Row) (properties : List Property) (pre : String) (keys : List String) : Prop :=
  (∀ key ∈ keys, pre ++ key ∉ rows.map (·.key)) →
    (Row.add.addAll rows properties).map (·.key) = rows.map (·.key) ++ keys.map (pre ++ ·)

variable {index : Index} (sound : index.Sound) (named : index.Named)

include sound named

section Fields

variable {child : Message → String → List Property} {m : Message} (declares : index.Declares m)
  (below : ∀ type ∈ m.liftedTypes, ∀ c, index.message? type = some c → index.Declares c → ∀ rows pre,
    LaysKeys rows (child c pre) pre (index.laidKeys c.fullName))
  {f : Field} (inside : f ∈ m.fields) (pre : String) (rows : List Row)

include declares below

theorem keys_of_liftedVariants {group : Oneof × OneofConfig} (there : group ∈ m.discriminated)
    (flatten : group.2.flatten = true) {members : List Field} (listed : ∀ v ∈ members, v ∈ m.oneofMembers group.1)
    {base before keys : List String} (run : variantKeys index.childLayout true "" before members = .ok keys)
    (fresh : ∀ key ∈ keys, pre ++ key ∉ base) {rows : List Row}
    (known : rows.map (·.key) = base ++ before.map (pre ++ ·)) :
    (Row.add.addAll rows (members.flatMap fun v => Interface.variantProperties index index.plans child m pre
      (index.seenGroup m group) (index.variantOf group.2 v))).map (·.key) = base ++ keys.map (pre ++ ·) := by
  -- By induction on the variants: a key that an earlier one has is not laid out again.
  induction members generalizing before rows with
  | nil =>
    cases Except.ok.inj run
    exact known
  | cons v rest ih =>
    obtain ⟨member, later⟩ := List.forall_mem_cons.mp listed
    obtain ⟨type, c, typed, found, declared, same⟩ :=
      @variantProperties_lifted _ sound child _ declares pre _ there _ member flatten
    have declaration := (resolved_of_named sound named declares group.1 group.2 there v).mp member
    have type_name := (message?_type sound declares.1 declaration.1 typed found).2
    have lifts : type ∈ m.liftedTypes := List.mem_append_right _ (List.mem_flatMap.mpr
      ⟨group, List.mem_filter.mpr ⟨there, flatten⟩, List.mem_filterMap.mpr ⟨v, member, typed⟩⟩)
    have all := (mem_variantKeys run).2 v List.mem_cons_self type typed
    rw [variantKeys_lifted typed] at run
    obtain ⟨lifted, laid, run⟩ := bind_eq_ok run
    have own : lifted = index.laidKeys type := by
      obtain ⟨keys, found, rfl⟩ := map_eq_ok (show (List.map _ <$> index.flattenedKeys type) = .ok _ from laid)
      rw [laidKeys_of_ok found]
      simp
    subst own
    rw [List.flatMap_cons, same, Row.addAll_append]
    refine ih later run ?_
    have inner := below type lifts c found declared [] pre (by simp)
    rw [Row.add.addAll, Row.add.addAll, Row.add, Row.keys_addLifted, inner, known, List.map_nil, List.nil_append,
      type_name, addNew_append, addNew_behind]
    intro key laid
    obtain ⟨k, among, rfl⟩ := List.mem_map.mp laid
    have there := all k among
    rw [String.empty_append] at there
    exact fresh k there

include inside

theorem keys_of_ungrouped (alone : m.groupOf? f = none) :
    LaysKeys rows (Interface.fieldProperties index index.plans child m pre f) pre (index.ownKeys f) := by
  intro fresh
  cases lifted : f.lifted? with
  | none =>
    rw [fieldProperties_plain sound named declares inside alone lifted, ownKeys_of_unlifted lifted]
    exact List.map_append
  | some target =>
    obtain ⟨type, childPre⟩ := target
    obtain ⟨c, found, declared, same⟩ :=
      @fieldProperties_lifted _ sound named child _ declares _ inside pre alone _ _ lifted
    have type_name := (message?_type sound declares.1 inside (Index.lifted?_eq_some lifted).2.1 found).2
    have lifts : type ∈ m.liftedTypes := List.mem_append_left _ (List.mem_map.mpr
      ⟨_, List.mem_filterMap.mpr ⟨f, inside, lifted⟩, rfl⟩)
    simp only [ownKeys, lifted, List.forall_mem_map, List.map_map] at fresh ⊢
    rw [same, below type lifts c found declared rows (pre ++ childPre), type_name]
    · simp only [Function.comp_def, String.append_assoc]
    · intro key laid
      rw [String.append_assoc]
      exact fresh key (type_name ▸ laid)

theorem keys_of_group {oneof : Oneof} {config : OneofConfig} (grouped : m.groupOf? f = some (oneof, config))
    (first : oneof.members.head? = some f.name) :
    LaysKeys rows (Interface.fieldProperties index index.plans child m pre f) pre (index.fieldLaid m f) := by
  intro fresh
  have places := places_of_names sound declares.1 (named.jsonNames m (mem_values_of_declares declares))
  have each := places.each f inside
  have there := (mem_of_groupOf? grouped).1
  rw [fieldKeys, grouped] at each
  dsimp only at each
  rw [if_pos first] at each
  obtain ⟨variants, run, laid⟩ := bind_eq_ok each
  replace laid : index.fieldLaid m f = config.discriminator :: variants := by
    rw [← Except.ok.inj laid, String.empty_append]
  have nodup := places.nodup f inside
  rw [laid] at nodup fresh ⊢
  rw [fieldProperties_group sound named declares inside grouped first, Row.add.addAll, Row.add]
  cases flatten : config.flatten with
  | true =>
    rw [flatten] at run
    -- Before the variants' rows stand the earlier fields' rows and the tag's own.
    have apart (key : String) (laid : key ∈ variants) :
        pre ++ key ∉ rows.map (·.key) ++ [pre ++ config.discriminator] := by
      intro there
      rcases List.mem_append.mp there with before | tag
      · exact fresh key (List.mem_cons_of_mem _ laid) before
      · exact (List.nodup_cons.mp nodup).1 (Codec.prefix_injective pre _ _ (List.mem_singleton.mp tag) ▸ laid)
    rw [keys_of_liftedVariants sound named declares below pre there flatten (fun _ member => member) run apart
      (by simp)]
    simp
  | false =>
    rw [flatten, variantKeys_names, List.nil_append] at run
    rw [List.flatMap_congr fun v member => variantProperties_beside sound named declares there member flatten,
      ← List.map_eq_flatMap, Row.keys_addAll_own, ← Except.ok.inj run]
    simp

theorem keys_of_fieldProperties : LaysKeys rows (Interface.fieldProperties index index.plans child m pre f) pre
    (index.fieldLaid m f) := by
  have each := (places_of_names sound declares.1 (named.jsonNames m (mem_values_of_declares declares))).each f inside
  -- A field has a place of its own, but for the members of a oneof, of which the first has that of the oneof.
  cases grouped : m.groupOf? f with
  | none =>
    rw [fieldLaid_own each grouped]
    exact keys_of_ungrouped sound named declares below inside pre rows grouped
  | some group =>
    obtain ⟨oneof, config⟩ := group
    by_cases first : oneof.members.head? = some f.name
    · exact keys_of_group sound named declares below inside pre rows grouped first
    · intro _
      rw [fieldProperties_later sound named declares inside grouped first]
      rw [fieldKeys, grouped] at each
      dsimp only at each
      rw [if_neg first] at each
      rw [← Except.ok.inj each]
      simp [Row.add.addAll]

omit inside in
theorem keys_of_fields (rows : List Row) :
    LaysKeys rows (m.fields.flatMap (Interface.fieldProperties index index.plans child m pre)) pre
      (index.laidKeys m.fullName) := by
  have values := mem_values_of_declares declares
  have places := places_of_names sound declares.1 (named.jsonNames m values)
  have apart : m.fields.Pairwise fun f g => List.Disjoint (index.fieldLaid m f) (index.fieldLaid m g) :=
    List.Pairwise.imp_of_mem (fun {f g} first second differ =>
      places.apart f first g second fun same => differ (congrArg _ same))
      (List.pairwise_map.mp (named.names m values))
  rw [places.laid]
  -- The rows written so far grow along the fields, so the claim is generalized over both.
  suffices ∀ fields : List Field, (∀ f ∈ fields, f ∈ m.fields) →
      (fields.Pairwise fun f g => List.Disjoint (index.fieldLaid m f) (index.fieldLaid m g)) → ∀ rows,
        LaysKeys rows (fields.flatMap (Interface.fieldProperties index index.plans child m pre)) pre
          (fields.flatMap (index.fieldLaid m)) from
    this m.fields (fun _ inside => inside) apart rows
  intro fields listed pairs
  induction fields with
  | nil => exact fun rows _ => by simp [Row.add.addAll]
  | cons f rest ih =>
    intro rows fresh
    obtain ⟨apart, later⟩ := List.pairwise_cons.mp pairs
    have own := keys_of_fieldProperties sound named declares below (listed f List.mem_cons_self) pre rows
      fun key laid => fresh key (List.mem_append_left _ laid)
    rw [List.flatMap_cons, List.flatMap_cons, Row.addAll_append,
      ih (fun g there => listed g (List.mem_cons_of_mem f there)) later _ fun key laid => ?_, own, List.map_append,
      List.append_assoc]
    rw [own, List.mem_append]
    rintro (before | here)
    · exact fresh key (List.mem_append_right _ laid) before
    · obtain ⟨k, at_f, same⟩ := List.mem_map.mp here
      obtain ⟨g, there, at_g⟩ := List.mem_flatMap.mp laid
      exact apart g there at_f (Codec.prefix_injective pre _ _ same ▸ at_g)

end Fields

theorem keys_of_properties (levels : Nat) : ∀ m, index.Declares m → index.LiftsWithin levels m → ∀ rows pre,
    LaysKeys rows (Interface.propertiesWithin index index.plans levels m pre) pre (index.laidKeys m.fullName) := by
  induction levels with
  | zero =>
    intro m declares within rows pre
    refine keys_of_fields sound named declares (fun type lifts => ?_) pre rows
    rw [show m.liftedTypes = [] from within] at lifts
    cases lifts
  | succ levels ih =>
    intro m declares within rows pre
    exact keys_of_fields sound named declares
      (fun type lifts c found declared => ih c declared (within type lifts c found)) pre rows

theorem propertyKeys_messageSchema {name : String} {m : Message} (found : index.message? name = some m)
    (object : m.isRootUnwrap = false) (package : String) :
    ((index.context package).messageSchema m).propertyKeys =
      (Row.ofProperties (Interface.properties index index.plans m)).map (·.key) := by
  have apart := apart_of_message sound named found
  rw [messageSchema_object package object, JsonSchema.propertyKeys_object, Row.ofProperties_eq apart.each apart.pairs,
    Row.object]
  simp [Entries.keys, Row.entry]

theorem keys_of_message {name : String} {m : Message} (found : index.message? name = some m)
    (within : index.LiftsWithin index.maxDepth m) (own : m.wellKnown = true → m.lifting? = none) :
    (Row.ofProperties (Interface.properties index index.plans m)).map (·.key) = index.laidKeys m.fullName := by
  rw [Interface.properties, Row.ofProperties]
  cases builtIn : m.wellKnown with
  | true =>
    obtain ⟨flat, plain⟩ := lifting?_none (own builtIn)
    have laid : index.flattenedKeys m.fullName = .ok (m.fields.map (·.jsonName)) := by
      rw [flattenedKeys, levels, keysWithin, if_neg (by simp), message?_fullName sound.toKeyed found]
      exact fieldsKeys_plain plain flat
    rw [properties_of_unplanned (plan?_of_wellKnown sound.toKeyed found builtIn), Row.keys_addAll_own,
      laidKeys_of_ok laid]
    simp
  | false =>
    have all := keys_of_properties sound named index.maxDepth m (declares_of_found sound found builtIn) within [] ""
      (by simp)
    rw [all]
    simp

end Index

namespace Run

open Index

variable {set : Schema.FileSet} {files : List String} {settings : Settings} {compiled : Compiled}

theorem maxDepth_of_compile (run : compile set files settings = .ok compiled) :
    compiled.index.maxDepth = settings.maxDepth := by
  obtain ⟨built, _⟩ := compile_spec run
  exact maxDepth_of_build built

/-- Every key that a message occupies on the wire is declared, in order, by its component and by its interface, unless it
is lifted over more levels than the depth that a run is given. -/
theorem keys_documented (run : compile set files settings = .ok compiled) (named : compiled.index.Named)
    {name : String} {m : Message} (found : compiled.index.message? name = some m) (object : m.isRootUnwrap = false)
    (within : compiled.index.LiftsWithin settings.maxDepth m) (own : m.wellKnown = true → m.lifting? = none)
    (package : String) (file : File) : ∃ (keys : List String) (declared : List TypeScript.Declared),
      compiled.index.flattenedKeys m.fullName = .ok keys ∧
      (OpenApi.Context.messageSchema ⟨compiled.index, compiled.plans, package⟩ m).propertyKeys = keys ∧
      TypeScript.Context.messageText ⟨compiled.index, compiled.plans, file⟩ m =
        TypeScript.interfaceText m.ident declared ∧
      declared.map TypeScript.Declared.key = keys := by
  have sound := sound_of_compile run
  obtain ⟨_, _, plans⟩ := compile_spec run
  have same : m.fullName = bareName name := sound.named _ m found
  obtain ⟨keys, laid, _⟩ :=
    flattenedKeys_ok sound (by rw [same, bareName_idempotent]) (message?_fullName sound.toKeyed found)
  rw [← maxDepth_of_compile run] at within
  have rows := keys_of_message sound named found within own
  rw [laidKeys_of_ok laid] at rows
  rw [plans]
  exact ⟨keys, _, laid, (propertyKeys_messageSchema sound named found object package).trans rows,
    Row.messageText_of_object (ofMessage_object object), (Row.declared_keys _ _).trans rows⟩

def crates : Schema.FileSet :=
  .ofMessages [.ofFields "Crate" [.ofKind "weight" .int32 [], .ofMessage "box" ".t.Box"
      [("flatten", .bool true), ("flatten_prefix", .str "box_")]] [],
    .ofFields "Box" [.ofMessage "content" ".t.Content" [("flatten", .bool true)], .ofKind "sealed" .bool []] [],
    .ofFields "Content" [.ofKind "text" .string []] []]

theorem keys_documented_crate : ∃ compiled, compile crates [] .default = .ok compiled ∧
    ∃ m, compiled.index.message? "t.Crate" = some m ∧
      (OpenApi.Context.messageSchema ⟨compiled.index, compiled.plans, "t"⟩ m).propertyKeys =
        ["weight", "box_text", "box_sealed"] ∧
      ∃ file ∈ compiled.index.files, ∃ declared, TypeScript.Context.messageText ⟨compiled.index, compiled.plans, file⟩ m =
        TypeScript.interfaceText m.ident declared ∧
          declared.map TypeScript.Declared.key = ["weight", "box_text", "box_sealed"] := by
  obtain ⟨compiled, run, named, m, found, object, within, own, laid, file, among, _⟩ := exists_compiled
    (fun compiled => compiled.index.Named ∧ ∃ m ∈ compiled.index.message? "t.Crate", m.isRootUnwrap = false ∧
      compiled.index.LiftsWithin Settings.default.maxDepth m ∧ m.wellKnown = false ∧
      (compiled.index.flattenedKeys "t.Crate").toOption = some ["weight", "box_text", "box_sealed"] ∧
      ∃ file ∈ compiled.index.files, file.package = "t")
    (show (compile crates [] .default).toOption.any _ = true by decide +kernel)
  obtain ⟨keys, declared, layout, schema, text, same⟩ :=
    keys_documented run named found object within (by rw [own]; exact nofun) "t" file
  have name : m.fullName = "t.Crate" := (sound_of_compile run).named _ m found
  rw [name] at layout
  cases layout.symm.trans (ok_of_toOption laid)
  exact ⟨compiled, run, m, found, schema, file, among, declared, text, same⟩

/-- A crate lifts a key over two levels, and documents of depth one leave it out. -/
theorem crate_lacks_key : ∃ compiled, compile crates [] { Settings.default with maxDepth := 1 } = .ok compiled ∧
    compiled.index.Named ∧ ∃ m ∈ compiled.index.message? "t.Crate", m.isRootUnwrap = false ∧
      (compiled.index.flattenedKeys "t.Crate").toOption = some ["weight", "box_text", "box_sealed"] ∧
      (OpenApi.Context.messageSchema ⟨compiled.index, compiled.plans, "t"⟩ m).propertyKeys = ["weight", "box_sealed"] :=
  exists_compiled
    (fun compiled => compiled.index.Named ∧ ∃ m ∈ compiled.index.message? "t.Crate", m.isRootUnwrap = false ∧
      (compiled.index.flattenedKeys "t.Crate").toOption = some ["weight", "box_text", "box_sealed"] ∧
      (OpenApi.Context.messageSchema ⟨compiled.index, compiled.plans, "t"⟩ m).propertyKeys = ["weight", "box_sealed"])
    (show (compile crates [] { Settings.default with maxDepth := 1 }).toOption.any _ = true by decide +kernel)

end Run

end Wireform
