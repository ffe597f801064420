import Wireform.Proofs.AcceptedIndex
import Wireform.Proofs.ClosedDocuments

set_option autoImplicit false

namespace Wireform.Index

def place? (index : Index) (name : String) : Option (String × String) :=
  match index.message? name with
  | some m => some (m.package, m.localName)
  | none => (index.enum? name).map fun e => (e.package, e.localName)

structure Qualified (index : Index) : Prop where
  message : ∀ key m, index.messages.get? key = some m → qualify m.package m.localName = key
  enum : ∀ key e, index.enums.get? key = some e → qualify e.package e.localName = key

theorem qualify_localName : ∀ entry ∈ WellKnown.messages ++ WellKnown.enums,
    qualify WellKnown.package (WellKnown.localName entry.1) = entry.1 := by
  decide +kernel

theorem BuiltFrom.qualified {index : Index} {set : Schema.FileSet} {files : List Schema.File} {roots : List String}
    {package : String} (built : index.BuiltFrom set files roots package) : index.Qualified where
  message key m found := by
    rw [built.messages_eq] at found
    rcases mem_messages found with ⟨d, rfl, _, _, full, _⟩ | ⟨file, listed, rfl⟩
    · exact full
    · exact qualify_localName (key, file) (List.mem_append_left _ listed)
  enum key e found := by
    rw [built.enums_eq] at found
    rcases WellKnown.get?_addTo found with declared | ⟨file, listed, rfl⟩
    · obtain ⟨⟨e, findings⟩, inside, same⟩ := List.mem_map.mp (KeyMap.mem_of_get?_ofList declared)
      obtain ⟨rfl, rfl⟩ := Prod.mk.inj same
      obtain ⟨⟨name, d⟩, entry, made⟩ := List.mem_map.mp inside
      obtain ⟨rfl, rfl⟩ := Prod.mk.inj made
      exact (mem_declared_enums (KeyMap.mem_entries.mp entry)).1
    · exact qualify_localName (key, file) (List.mem_append_right _ listed)

theorem qualified_of_compile {set : Schema.FileSet} {files : List String} {settings : Settings}
    {compiled : Run.Compiled} (run : Run.compile set files settings = .ok compiled) : compiled.index.Qualified :=
  (built_of_build (Run.compile_spec run).1).qualified

section Places

variable {index : Index} {name other package localName : String}

theorem place?_bareName : index.place? (bareName name) = index.place? name := by
  simp only [place?, message?, enum?, bareName_idempotent]

theorem componentName_eq_of_place (placed : index.place? name = some (package, localName)) (about : String) :
    index.componentName about name = if package = about then localName else bareName name := by
  rw [place?] at placed
  rw [componentName]
  cases found : index.message? name with
  | some m =>
    rw [found] at placed
    cases placed
    rfl
  | none =>
    simp only [found] at placed
    simp only [placed]

variable (qualified : index.Qualified)

include qualified

theorem qualify_of_place (placed : index.place? name = some (package, localName)) :
    qualify package localName = bareName name := by
  unfold place? at placed
  split at placed
  · next m found =>
    cases placed
    exact qualified.message _ m found
  · obtain ⟨e, found, same⟩ := Option.map_eq_some_iff.mp placed
    cases same
    exact qualified.enum _ e found

theorem bareName_eq_of_place (first : index.place? name = some (package, localName))
    (second : index.place? other = some (package, localName)) : bareName name = bareName other :=
  (qualify_of_place qualified first).symm.trans (qualify_of_place qualified second)

end Places

end Wireform.Index

namespace Wireform

namespace Index

/-- No type of the document's package has a local name that is the full name of a type of another package. -/
def LocalNamesApart (index : Index) (file : File) : Prop :=
  ∀ own ∈ (index.context file.package).typesOf file, ∀ foreign ∈ (index.context file.package).typesOf file,
    ∀ here ∈ index.place? own, ∀ there ∈ index.place? foreign,
      here.1 = file.package → there.1 ≠ file.package → here.2 ≠ bareName foreign

instance (index : Index) (file : File) : Decidable (index.LocalNamesApart file) := by
  unfold LocalNamesApart
  infer_instance

theorem typeSchema?_isSome (index : Index) (package name : String) :
    ((index.context package).typeSchema? name).isSome = (index.place? name).isSome := by
  rw [OpenApi.Context.typeSchema?, place?, context]
  cases index.message? name <;> simp

section Keys

variable {index : Index} {file : File} {name other : String}

theorem bareName_eq_of_key (qualified : index.Qualified) (apart : index.LocalNamesApart file)
    (inside : name ∈ (index.context file.package).typesOf file)
    (there : other ∈ (index.context file.package).typesOf file) {own foreign : String × String}
    (placed : index.place? name = some own) (otherPlaced : index.place? other = some foreign)
    (same : index.componentName file.package name = index.componentName file.package other) :
    bareName name = bareName other := by
  rw [componentName_eq_of_place placed, componentName_eq_of_place otherPlaced] at same
  -- Of a type inside the package and one outside, a local name would have to be a full name.
  by_cases here : own.1 = file.package <;> by_cases away : foreign.1 = file.package
  · simp only [here, away, if_true] at same
    cases (Prod.ext (here.trans away.symm) same : own = foreign)
    exact bareName_eq_of_place qualified placed otherPlaced
  · simp only [here, away, if_true, if_false] at same
    exact absurd same (apart name inside other there own placed foreign otherPlaced here away)
  · simp only [here, away, if_true, if_false] at same
    exact absurd same.symm (apart other there name inside foreign otherPlaced own placed away here)
  · simpa only [here, away, if_false] using same

theorem shared_key {own foreign : String × String} (placed : index.place? name = some own)
    (otherPlaced : index.place? other = some foreign) (here : own.1 = file.package) (away : foreign.1 ≠ file.package)
    (same : own.2 = bareName other) :
    index.componentName file.package name = index.componentName file.package other ∧
      bareName name ≠ bareName other := by
  refine ⟨?_, fun equal => ?_⟩
  · rw [componentName_eq_of_place placed, componentName_eq_of_place otherPlaced, if_pos here, if_neg away, same]
  · -- One name has one place, but the places are in different packages.
    rw [← place?_bareName, equal, place?_bareName, otherPlaced] at placed
    cases placed
    exact away here

end Keys

end Index

namespace OpenApi.Document

open Index

/-- Keys tell the types of a document apart: each type keeps its own schema, and references lead to it. -/
structure Unambiguous (index : Index) (file : File) (document : Document) : Prop where
  keys : ∀ name ∈ (index.context file.package).typesOf file, ∀ other ∈ (index.context file.package).typesOf file,
    ((index.context file.package).typeSchema? name).isSome = true →
      ((index.context file.package).typeSchema? other).isSome = true →
        index.componentName file.package name = index.componentName file.package other → bareName name = bareName other
  kept : ∀ name ∈ (index.context file.package).typesOf file, ∀ schema,
    (index.context file.package).typeSchema? name = some schema →
      document.components.get? (index.componentName file.package name) = some schema
  leads : ∀ target, document.toJson.PointsTo target → ∃ name ∈ (index.context file.package).typesOf file,
    ∃ type ∈ (index.context file.package).typeReferences name,
      target = JsonSchema.componentsPath ++ index.componentName file.package type ∧
        ∀ schema, (index.context file.package).typeSchema? type = some schema →
          document.components.get? (index.componentName file.package type) = some schema
  members : ∀ member target, ((index.context file.package).memberSchema member).toJson.PointsTo target →
    ∃ type ∈ (index.context file.package).memberReference? member,
      target = JsonSchema.componentsPath ++ index.componentName file.package type

section Components

variable {index : Index} {file : File}

theorem kept_of_apart (qualified : index.Qualified) (apart : index.LocalNamesApart file) {name : String}
    (inside : name ∈ (index.context file.package).typesOf file) {schema : JsonSchema}
    (typed : (index.context file.package).typeSchema? name = some schema) :
    (index.componentsOf file).get? (index.componentName file.package name) = some schema := by
  refine KeyMap.get?_ofList_of_unique (List.mem_filterMap.mpr
    ⟨name, inside, Option.map_eq_some_iff.mpr ⟨schema, typed, rfl⟩⟩) fun other listed => ?_
  obtain ⟨namesake, there, made⟩ := List.mem_filterMap.mp listed
  obtain ⟨found, otherTyped, same⟩ := Option.map_eq_some_iff.mp made
  obtain ⟨shared, rfl⟩ := Prod.mk.inj same
  obtain ⟨own, placed⟩ := Option.isSome_iff_exists.mp
    ((typeSchema?_isSome index file.package name).symm.trans (by rw [typed]; rfl))
  obtain ⟨foreign, otherPlaced⟩ := Option.isSome_iff_exists.mp
    ((typeSchema?_isSome index file.package namesake).symm.trans (by rw [otherTyped]; rfl))
  -- The namesake is the same type, perhaps with points in front.
  have equal := bareName_eq_of_key qualified apart there inside otherPlaced placed shared
  rw [← typeSchema?_bareName, equal, typeSchema?_bareName, typed] at otherTyped
  exact (Option.some.inj otherTyped).symm

theorem references_of_points (keyed : index.Keyed) {target : String}
    (points : (⟨file.name, index.componentsOf file⟩ : Document).toJson.PointsTo target) :
    ∃ name ∈ (index.context file.package).typesOf file, ∃ type ∈ (index.context file.package).typeReferences name,
      target = JsonSchema.componentsPath ++ index.componentName file.package type ∧
        (index.Finds type → type ∈ (index.context file.package).typesOf file) := by
  obtain ⟨key, schema, given, points⟩ := points_of_document points
  obtain ⟨name, inside, rfl, typed⟩ := of_component given
  have refers : schema.RefersTo fun key => ∃ type ∈ (index.context file.package).typeReferences name,
      (index.context file.package).componentName type = key :=
    Context.refersTo_type typed fun type refers => ⟨type, refers, rfl⟩
  obtain ⟨_, ⟨type, refers, rfl⟩, leads⟩ := JsonSchema.refers_of_points schema refers points
  refine ⟨name, inside, type, refers, leads, fun found => ?_⟩
  have reached := reached_of_typesOf keyed file inside
  have bare := (((shares_reached keyed file).typeReferences_eq file.package reached).2 type refers).1
  exact Context.typesOf_closed inside refers (mem_known_of_found file.package found bare)

theorem points_of_member {member : Member} {target : String}
    (points : ((index.context file.package).memberSchema member).toJson.PointsTo target) :
    ∃ type ∈ (index.context file.package).memberReference? member,
      target = JsonSchema.componentsPath ++ index.componentName file.package type := by
  have refers : ((index.context file.package).memberSchema member).RefersTo fun key =>
      ∃ type ∈ (index.context file.package).memberReference? member,
        (index.context file.package).componentName type = key :=
    Context.refersTo_member fun type refers => ⟨type, refers, rfl⟩
  obtain ⟨_, ⟨type, refers, rfl⟩, leads⟩ := JsonSchema.refers_of_points _ refers points
  exact ⟨type, refers, leads⟩

end Components

end OpenApi.Document

namespace Run

open Index OpenApi

/-- The keys of a document are unambiguous exactly where local names and full names do not meet. -/
theorem document_unambiguous {set : Schema.FileSet} {files : List String} {settings : Settings} {compiled : Compiled}
    (run : compile set files settings = .ok compiled) {file : File} {document : Document}
    (made : Document.ofFile? compiled.index compiled.plans file = some document) :
    document.Unambiguous compiled.index file ↔ compiled.index.LocalNamesApart file := by
  have keyed := (sound_of_compile run).toKeyed
  have qualified := qualified_of_compile run
  obtain ⟨_, _, plans⟩ := compile_spec run
  have components : document = ⟨file.name, compiled.index.componentsOf file⟩ := by
    rw [Document.ofFile?, plans] at made
    split at made
    · cases made
    · exact (Option.some.inj made).symm
  subst components
  constructor
  · intro unambiguous own inside foreign there here placed away otherPlaced home abroad same
    obtain ⟨shared, differ⟩ := shared_key placed otherPlaced home abroad same
    have typed {name : String} {place : String × String} (placed : compiled.index.place? name = some place) :
        ((compiled.index.context file.package).typeSchema? name).isSome = true := by
      rw [typeSchema?_isSome, placed]
      rfl
    exact differ (unambiguous.keys own inside foreign there (typed placed) (typed otherPlaced) shared)
  · intro apart
    refine ⟨fun name inside other there typed otherTyped same => ?keys,
      fun name inside schema => Document.kept_of_apart qualified apart inside, fun target points => ?leads,
      fun member target => Document.points_of_member⟩
    case keys =>
      rw [typeSchema?_isSome] at typed otherTyped
      obtain ⟨own, placed⟩ := Option.isSome_iff_exists.mp typed
      obtain ⟨foreign, otherPlaced⟩ := Option.isSome_iff_exists.mp otherTyped
      exact bareName_eq_of_key qualified apart inside there placed otherPlaced same
    case leads =>
      -- A type that has a schema has had its turn, so its own schema stands under its key.
      obtain ⟨name, inside, type, refers, leads, turn⟩ := Document.references_of_points keyed points
      exact ⟨name, inside, type, refers, leads, fun schema typed =>
        Document.kept_of_apart qualified apart (turn (finds_of_typeSchema typed)) typed⟩

def marketWith (package : String) (item : String) : Schema.FileSet :=
  ⟨[⟨"a.proto", "a", ["b.proto"],
      [.ofFields "Item" [.ofKind "id" .string []] [],
        .ofFields "Order" [.ofMessage "own" ".a.Item" [], .repeating (.ofMessage "others" item [])] []],
      [], none, none⟩,
    ⟨"b.proto", package, [], [.ofFields "Item" [.ofKind "count" .int32 []] []], [], none, none⟩]⟩

set_option synthInstance.maxSize 1000 in
theorem document_unambiguous_market : ∃ compiled,
    compile (marketWith "b" ".b.Item") ["a.proto"] .default = .ok compiled ∧
    ∃ file ∈ compiled.index.targets, ∃ document,
      Document.ofFile? compiled.index compiled.plans file = some document ∧
      document.components.keys = ["Item", "Order", "b.Item"] ∧ document.Unambiguous compiled.index file := by
  obtain ⟨compiled, run, file, among, apart, keys⟩ := exists_compiled
    (fun compiled => ∃ file ∈ compiled.index.targets, compiled.index.LocalNamesApart file ∧
      (Document.ofFile? compiled.index compiled.plans file).map (·.components.keys) =
        some ["Item", "Order", "b.Item"])
    (show (compile (marketWith "b" ".b.Item") ["a.proto"] .default).toOption.any _ = true by decide +kernel)
  obtain ⟨document, made, keys⟩ := Option.map_eq_some_iff.mp keys
  exact ⟨compiled, run, file, among, document, made, keys, (document_unambiguous run made).mpr apart⟩

/-- A document has the schema of one type under the key that another type has too, with another schema. -/
def Loses (index : Index) (file : File) (document : Document) (kept lost : String) : Prop :=
  kept ∈ (index.context file.package).typesOf file ∧ lost ∈ (index.context file.package).typesOf file ∧
    bareName kept ≠ bareName lost ∧
    index.componentName file.package kept = index.componentName file.package lost ∧
    (document.components.get? (index.componentName file.package lost)).map JsonSchema.toJson =
      ((index.context file.package).typeSchema? kept).map JsonSchema.toJson ∧
    ((index.context file.package).typeSchema? lost).isSome = true ∧
    ((index.context file.package).typeSchema? lost).map JsonSchema.toJson ≠
      ((index.context file.package).typeSchema? kept).map JsonSchema.toJson

instance (index : Index) (file : File) (document : Document) (kept lost : String) :
    Decidable (Loses index file document kept lost) :=
  inferInstanceAs (Decidable (_ ∧ _))

set_option synthInstance.maxSize 1000 in
/-- If the other file has no package, its item takes the key of the own one, whose schema is lost. -/
theorem item_overwritten : ((marketWith "" ".Item").files.flatMap typeNames).Nodup ∧
    ∃ compiled, compile (marketWith "" ".Item") ["a.proto"] .default = .ok compiled ∧
      ∃ file ∈ compiled.index.targets, ∃ document ∈ Document.ofFile? compiled.index compiled.plans file,
        document.components.keys = ["Item", "Order"] ∧ Loses compiled.index file document "Item" "a.Item" :=
  ⟨by decide +kernel, exists_compiled
    (fun compiled => ∃ file ∈ compiled.index.targets, ∃ document ∈ Document.ofFile? compiled.index compiled.plans file,
      document.components.keys = ["Item", "Order"] ∧ Loses compiled.index file document "Item" "a.Item")
    (show (compile (marketWith "" ".Item") ["a.proto"] .default).toOption.any _ = true by decide +kernel)⟩

end Run

end Wireform
