import Wireform.Proofs.DistinctTypes
import Wireform.Proofs.AcceptedIndex
import Wireform.Proofs.SharedDocuments

set_option autoImplicit false

namespace Wireform

def ValueType.Names (type : ValueType) (name : String) : Prop := type.message? = some name ∨ type.enum? = some name

namespace Index

def Declared.value? (entry : Declared Schema.Message) : Option Schema.Field :=
  entry.declaration.fields.find? (·.number == 2)

namespace Declarations

/-- A type that a field depends on: that which it names, or that which the entries of a map name. -/
inductive Needs (all : Declarations) (field : Schema.Field) : String → Prop
  | own {name : String} (named : (namedType field).Names name) : Needs all field name
  | value {entry : Declared Schema.Message} {value : Schema.Field} {name : String} (map : all.entry? field = some entry)
      (held : entry.value? = some value) (named : (namedType value).Names name) : Needs all field name

structure Alike (all other : Declarations) (name : String) : Prop where
  message : all.messages.get? name = other.messages.get? name
  enum : all.enums.get? name = other.enums.get? name

theorem found_of_entry {all : Declarations} {field : Schema.Field} {entry : Declared Schema.Message}
    (map : all.entry? field = some entry) :
    ∃ name, namedType field = .message name ∧ all.messages.get? name = some entry := by
  rw [Declarations.entry?] at map
  split at map
  · rename_i name typed
    split at map
    · exact ⟨name, typed, (Option.filter_eq_some_iff.mp map).1⟩
    · cases map
  · cases map

section Alike

variable {all other : Declarations}

theorem entry?_alike {field : Schema.Field} (alike : ∀ name, (namedType field).Names name → Alike all other name) :
    all.entry? field = other.entry? field := by
  rw [Declarations.entry?, Declarations.entry?]
  split
  · rename_i name typed
    rw [(alike name (.inl (by rw [typed]; rfl))).message]
  · rfl

theorem Alike.hasMessage {name : String} (alike : Alike all other name) : all.hasMessage name = other.hasMessage name := by
  rw [Declarations.hasMessage, Declarations.hasMessage, KeyMap.contains, KeyMap.contains, alike.message]

theorem Alike.contains {name : String} (alike : Alike all other name) :
    all.enums.contains name = other.enums.contains name := by
  rw [KeyMap.contains, KeyMap.contains, alike.enum]

variable (defined : all.definedIn = other.definedIn)

include defined

theorem unresolved_alike (name : String) : all.unresolved name = other.unresolved name := by
  rw [unresolved, unresolved, defined]

theorem mapShape_alike {entry : Declared Schema.Message}
    (alike : ∀ value, entry.value? = some value → ∀ name, (namedType value).Names name → Alike all other name) :
    mapShape all entry = mapShape other entry := by
  rw [mapShape, mapShape]
  cases held : entry.declaration.fields.find? (·.number == 2) with
  | none => rfl
  | some value =>
    have same := alike value held
    simp only [namedType] at same
    cases kind : value.kind <;>
      simp only [kind, Scalar.ofKind?, reduceIte, reduceCtorEq] at same <;>
      simp only [kind, pure_bind, unresolved_alike defined]
    case enum => rw [(same _ (.inr rfl)).contains]
    case message | group => rw [(same _ (.inl rfl)).hasMessage]

theorem shapeOf_alike {field : Schema.Field} (alike : ∀ name, all.Needs field name → Alike all other name) :
    shapeOf all field = shapeOf other field := by
  have entries := entry?_alike fun name named => alike name (.own named)
  have resolves : all.resolves field field = other.resolves field field := by
    rw [Declarations.resolves, Declarations.resolves, ← entries]
    split
    · rfl
    · rename_i name typed
      rw [(alike name (.own (.inr (by rw [typed]; rfl)))).contains]
    · rename_i name typed
      rw [(alike name (.own (.inl (by rw [typed]; rfl)))).hasMessage]
  cases map : all.entry? field with
  | none => rw [shapeOf_plain map, shapeOf_plain (entries ▸ map), resolves, unresolved_alike defined]
  | some entry =>
    rw [shapeOf_map map, shapeOf_map (entries ▸ map)]
    exact mapShape_alike defined fun value held name named => alike name (.value map held named)

end Alike

variable {all : Declarations}

theorem value_of_mapShape {entry : Declared Schema.Message} {shape : Shape} (shaped : mapShape all entry = .ok shape) :
    ∃ value, entry.value? = some value ∧ shape.2 = namedType value ∧ all.knows (namedType value) = true := by
  rw [mapShape] at shaped
  cases keyed : (entry.declaration.fields.find? (·.number == 1)).bind fun f => Scalar.ofKind? f.kind with
  | none =>
    rw [keyed] at shaped
    cases shaped
  | some key =>
    cases held : entry.declaration.fields.find? (·.number == 2) with
    | none =>
      rw [keyed, held] at shaped
      cases shaped
    | some value =>
      refine ⟨value, held, ?_⟩
      simp only [keyed, held, pure_bind] at shaped
      rw [namedType]
      -- Scalars name no type; an enum or a message is checked against the known names before it is taken.
      cases kind : value.kind <;>
        simp only [kind, Scalar.ofKind?, reduceIte, reduceCtorEq] at shaped ⊢
      case enum =>
        split at shaped
        · rename_i known
          cases shaped
          exact ⟨rfl, Bool.or_eq_true_iff.mpr (.inl known)⟩
        · cases shaped
      case message | group =>
        split at shaped
        · rename_i known
          cases shaped
          exact ⟨rfl, known⟩
        · cases shaped
      all_goals
        cases shaped
        exact ⟨rfl, rfl⟩

section Shaped

variable {field : Schema.Field} {shape : Shape} (shaped : shapeOf all field = .ok shape)

include shaped

theorem knows_of_shapeOf : all.knows (namedType field) = true := by
  cases map : all.entry? field with
  | none =>
    rw [shapeOf_plain map] at shaped
    split at shaped
    · rename_i resolved
      rw [resolves, map] at resolved
      exact resolved
    · cases shaped
  | some entry =>
    obtain ⟨name, typed, found⟩ := found_of_entry map
    rw [typed, knows, hasMessage, KeyMap.contains, found]
    rfl

theorem type_of_plain (alone : all.entry? field = none) : shape.2 = namedType field := by
  rw [shapeOf_plain alone] at shaped
  split at shaped <;> cases shaped
  rfl

theorem value_of_shapeOf {entry : Declared Schema.Message} (map : all.entry? field = some entry) :
    ∃ value, entry.value? = some value ∧ shape.2 = namedType value ∧ all.knows (namedType value) = true :=
  value_of_mapShape ((shapeOf_map map).symm.trans shaped)

theorem needs_of_shapeOf {name : String} (named : shape.2.Names name) : all.Needs field name := by
  cases map : all.entry? field with
  | none => exact .own (type_of_plain shaped map ▸ named)
  | some entry =>
    obtain ⟨value, held, typed, _⟩ := value_of_shapeOf shaped map
    exact .value map held (typed ▸ named)

end Shaped

end Declarations

end Index

namespace KeyMap

theorem get?_ofList_entries {α β : Type} (m : KeyMap α) (f : String → α → β) (key : String) :
    (ofList (m.entries.map fun (name, value) => (name, f name value))).get? key = (m.get? key).map (f key) := by
  have origin {other : β} (inside : (key, other) ∈ m.entries.map fun (name, value) => (name, f name value)) :
      ∃ value, m.get? key = some value ∧ f key value = other := by
    obtain ⟨⟨name, value⟩, entry, same⟩ := List.mem_map.mp inside
    obtain ⟨rfl, rfl⟩ := Prod.mk.inj same
    exact ⟨value, mem_entries.mp entry, rfl⟩
  cases found : m.get? key with
  | none =>
    refine Option.eq_none_iff_forall_ne_some.mpr fun other made => ?_
    obtain ⟨value, there, _⟩ := origin (mem_of_get?_ofList made)
    rw [found] at there
    cases there
  | some value =>
    refine get?_ofList_of_unique (List.mem_map.mpr ⟨(key, value), mem_entries.mpr found, rfl⟩) fun other made => ?_
    obtain ⟨value', there, rfl⟩ := origin made
    rw [Option.some.inj (found.symm.trans there)]

end KeyMap

namespace WellKnown

theorem get?_addTo_congr {α : Type} {make : String → String → α} {builtIn : List (String × String)}
    {declared other : KeyMap α} {key : String} (same : declared.get? key = other.get? key) :
    (addTo make builtIn declared).get? key = (addTo make builtIn other).get? key := by
  induction builtIn generalizing declared other with
  | nil => exact same
  | cons entry rest ih =>
    obtain ⟨name, file⟩ := entry
    rw [addTo, addTo, List.foldl_cons, List.foldl_cons]
    refine ih ?_
    have added (all : KeyMap α) : (if all.contains name then all else all.insert name (make name file)).get? key =
        (all.get? key).or (if name = key then some (make name file) else none) := by
      by_cases here : name = key
      · subst here
        rw [KeyMap.contains]
        cases there : all.get? name <;> simp [there, KeyMap.get?_insert]
      · split <;> simp [here, KeyMap.get?_insert]
    refine (added declared).trans ?_
    rw [same]
    exact (added other).symm

end WellKnown

namespace Index

/-- A field refers to a built-in type that some file declares only if its own file imports that file, at any remove. -/
def ImportsBuiltIns (set : Schema.FileSet) : Prop :=
  ∀ f ∈ set.files, ∀ d ∈ messagesOf f, ∀ field ∈ d.declaration.fields, ∀ g ∈ set.files, ∀ name ∈ typeNames g,
    (namedType field).message? = some name ∨ (namedType field).enum? = some name →
      WellKnown.isMessage name = true ∨ WellKnown.isEnum name = true → g.name ∈ Imports.closure set [f.name]

instance (set : Schema.FileSet) : Decidable (ImportsBuiltIns set) :=
  inferInstanceAs (Decidable (∀ f ∈ set.files, ∀ d ∈ messagesOf f, ∀ field ∈ d.declaration.fields, ∀ g ∈ set.files,
    ∀ name ∈ typeNames g, _ ∨ _ → _ ∨ _ → _ ∈ Imports.closure set _))

def Common (set : Schema.FileSet) (targets targets' : List String) (name : String) : Prop :=
  ∀ g ∈ set.files, name ∈ typeNames g → g ∈ reachedFiles set targets ∧ g ∈ reachedFiles set targets'

section Reached

variable {set : Schema.FileSet} {targets : List String}

theorem mem_reachedFiles {f : Schema.File} : f ∈ reachedFiles set targets ↔
    f ∈ set.files ∧ f.name ∈ Imports.closure set (rootsOf set targets) := by
  rw [reachedFiles, List.mem_filter, List.contains_iff_mem]

theorem part_reachedFiles : ∀ f ∈ reachedFiles set targets, f ∈ set.files :=
  fun _ inside => (mem_reachedFiles.mp inside).1

theorem reached_of_imported {f g : Schema.File} (reached : f ∈ reachedFiles set targets) (inside : g ∈ set.files)
    (imported : g.name ∈ Imports.closure set [f.name]) : g ∈ reachedFiles set targets :=
  mem_reachedFiles.mpr ⟨inside, Imports.closure_trans (mem_reachedFiles.mp reached).2 imported⟩

end Reached

theorem file_of_declared {file : Schema.File} {d : Declared Schema.Message} (inside : d ∈ messagesOf file) :
    d.file = file := by
  obtain ⟨m, _, inside⟩ := List.mem_flatMap.mp inside
  refine declaredMessages.induct
    (fun depth localName ms => d ∈ declaredMessages.nestedMessages file depth localName ms → d.file = file)
    (fun parent depth m => d ∈ declaredMessages file parent depth m → d.file = file) ?_ ?_ ?_ "" 1 m inside
  · intro parent depth name fields nested enums oneofs options localName ih inside
    rw [declaredMessages] at inside
    rcases List.mem_cons.mp inside with rfl | below
    · rfl
    · exact ih below
  · intro _ _ never
    cases never
  · intro depth localName m rest first others inside
    rw [declaredMessages.nestedMessages] at inside
    exact (List.mem_append.mp inside).elim first others

section Resolved

variable {all other : Declarations} {package fullName : String} {d : Declared Schema.Message}

theorem resolveMessage_alike (shapes : ∀ field ∈ d.declaration.fields, shapeOf all field = shapeOf other field) :
    resolveMessage all package fullName d = resolveMessage other package fullName d := by
  have fields : d.declaration.fields.map (resolveField all package d.declaration) =
      d.declaration.fields.map (resolveField other package d.declaration) :=
    List.map_congr_left fun field inside => by rw [resolveField, resolveField, shapes field inside]
  rw [resolveMessage, resolveMessage, fields]

theorem shapes_of_clean (clean : (resolveMessage all package fullName d).2 = []) :
    ∀ field ∈ d.declaration.fields, ∃ shape, shapeOf all field = .ok shape ∧
      (resolveField all package d.declaration field).1.type = shape.2 := by
  intro field inside
  simp only [resolveMessage, List.append_eq_nil_iff, List.flatMap_eq_nil_iff, List.map_eq_nil_iff] at clean
  have issues := clean.1 _ (List.mem_map.mpr ⟨field, inside, rfl⟩)
  simp only [resolveField, List.append_eq_nil_iff] at issues ⊢
  cases shaped : shapeOf all field with
  | ok shape => exact ⟨shape, rfl, rfl⟩
  | error issue =>
    rw [shaped] at issues
    cases issues.1

theorem get?_enums (set : Schema.FileSet) (files : List Schema.File) (package key : String) :
    (KeyMap.ofList ((resolvedEnums set files package).map fun (e, _) => (e.fullName, e))).get? key =
      ((declarations set files).enums.get? key).map fun d => (resolveEnum package key d).1 := by
  rw [resolvedEnums, List.map_map]
  exact KeyMap.get?_ofList_entries _ (fun name d => (resolveEnum package name d).1) key

end Resolved

structure Resolves (set : Schema.FileSet) (targets : List String) (settings : Settings) (index : Index) : Prop where
  built : build set targets settings = .ok index
  problems : index.problems = []

theorem Resolves.shapes {set : Schema.FileSet} {targets : List String} {settings : Settings} {index : Index}
    (run : Resolves set targets settings index) {key : String} {d : Declared Schema.Message}
    (found : (declarations set (reachedFiles set targets)).messages.get? key = some d)
    (plain : d.declaration.isMapEntry = false) :
    ∀ field ∈ d.declaration.fields, ∃ shape, shapeOf (declarations set (reachedFiles set targets)) field = .ok shape ∧
      (resolveField (declarations set (reachedFiles set targets)) settings.extensionPackage d.declaration field).1.type =
        shape.2 := by
  have none_left := problems_of_build run.built
  rw [run.problems, List.nil_eq, List.append_eq_nil_iff, List.append_eq_nil_iff, List.flatMap_eq_nil_iff] at none_left
  exact shapes_of_clean (none_left.1.2 _ (mem_resolvedMessages.mpr ⟨key, d, found, plain, rfl⟩))

section Names

variable {set : Schema.FileSet} (types : (set.files.flatMap typeNames).Nodup) {targets targets' : List String}

include types

theorem declarations_alike {name : String} (common : Common set targets targets' name) :
    (declarations set (reachedFiles set targets)).Alike (declarations set (reachedFiles set targets')) name := by
  have reached (g : Schema.File) (inside : name ∈ typeNames g) :
      g ∈ reachedFiles set targets ↔ g ∈ reachedFiles set targets' :=
    ⟨fun there => (common g (part_reachedFiles g there) inside).2,
      fun there => (common g (part_reachedFiles g there) inside).1⟩
  constructor
  · refine Option.ext fun d => ?_
    rw [declarations, declarations, found_iff sublist_messages types part_reachedFiles,
      found_iff sublist_messages types part_reachedFiles]
    refine and_congr_right fun same => exists_congr fun g => and_congr_left fun inside => ?_
    exact reached g (mem_typeNames.mpr (.inl ⟨d, inside, same⟩))
  · refine Option.ext fun d => ?_
    rw [declarations, declarations, found_iff sublist_enums types part_reachedFiles,
      found_iff sublist_enums types part_reachedFiles]
    refine and_congr_right fun same => exists_congr fun g => and_congr_left fun inside => ?_
    exact reached g (mem_typeNames.mpr (.inr ⟨d, inside, same⟩))

theorem reached_of_knows {type : ValueType} (known : (declarations set (reachedFiles set targets)).knows type = true)
    {name : String} (named : type.Names name)
    (own : ¬ (WellKnown.isMessage name = true ∨ WellKnown.isEnum name = true)) {g : Schema.File} (inside : g ∈ set.files)
    (declared : name ∈ typeNames g) : g ∈ reachedFiles set targets := by
  have origin {f : Schema.File} (reached : f ∈ reachedFiles set targets) (there : name ∈ typeNames f) :
      g ∈ reachedFiles set targets := by
    rw [eq_of_mem_flatMap types inside (part_reachedFiles f reached) declared there]
    exact reached
  cases type with
  | scalar => rcases named with never | never <;> cases never
  | message own_name =>
    obtain ⟨rfl⟩ : own_name = name := by
      rcases named with same | never
      · exact Option.some.inj same
      · cases never
    rcases Bool.or_eq_true_iff.mp known with found | builtIn
    · obtain ⟨d, found⟩ := KeyMap.contains_iff.mp found
      obtain ⟨same, f, reached, there⟩ := mem_declared_messages found
      exact origin reached (mem_typeNames.mpr (.inl ⟨d, there, same⟩))
    · exact absurd (.inl builtIn) own
  | enum own_name =>
    obtain ⟨rfl⟩ : own_name = name := by
      rcases named with never | same
      · cases never
      · exact Option.some.inj same
    rcases Bool.or_eq_true_iff.mp known with found | builtIn
    · obtain ⟨d, found⟩ := KeyMap.contains_iff.mp found
      obtain ⟨same, f, reached, there⟩ := mem_declared_enums found
      exact origin reached (mem_typeNames.mpr (.inr ⟨d, there, same⟩))
    · exact absurd (.inr builtIn) own

variable (imports : ImportsBuiltIns set)

include imports

theorem common_of_knows {f : Schema.File} (reached : f ∈ reachedFiles set targets) (reached' : f ∈ reachedFiles set targets')
    {d : Declared Schema.Message} (declared : d ∈ messagesOf f) {field : Schema.Field} (inside : field ∈ d.declaration.fields)
    (known : (declarations set (reachedFiles set targets)).knows (namedType field) = true)
    (known' : (declarations set (reachedFiles set targets')).knows (namedType field) = true) {name : String}
    (named : (namedType field).Names name) : Common set targets targets' name := by
  intro g there declares
  by_cases builtIn : WellKnown.isMessage name = true ∨ WellKnown.isEnum name = true
  · have imported := imports f (part_reachedFiles f reached) d declared field inside g there name declares named builtIn
    exact ⟨reached_of_imported reached there imported, reached_of_imported reached' there imported⟩
  · exact ⟨reached_of_knows types known named builtIn there declares,
      reached_of_knows types known' named builtIn there declares⟩

theorem common_of_needs {f : Schema.File} (reached : f ∈ reachedFiles set targets) (reached' : f ∈ reachedFiles set targets')
    {d : Declared Schema.Message} (declared : d ∈ messagesOf f) {field : Schema.Field} (inside : field ∈ d.declaration.fields)
    {shape shape' : Shape} (shaped : shapeOf (declarations set (reachedFiles set targets)) field = .ok shape)
    (shaped' : shapeOf (declarations set (reachedFiles set targets')) field = .ok shape') {name : String}
    (needs : (declarations set (reachedFiles set targets)).Needs field name) : Common set targets targets' name := by
  have own {name : String} (named : (namedType field).Names name) : Common set targets targets' name :=
    common_of_knows types imports reached reached' declared inside (Declarations.knows_of_shapeOf shaped)
      (Declarations.knows_of_shapeOf shaped') named
  cases needs with
  | own named => exact own named
  | @value entry value _ map held named =>
    obtain ⟨entryName, typed, found⟩ := Declarations.found_of_entry map
    have common : Common set targets targets' entryName := own (.inl (by rw [typed]; rfl))
    have map' := map
    rw [Declarations.entry?_alike fun name named => declarations_alike types (own named)] at map'
    obtain ⟨same, g, reached_g, there⟩ := mem_declared_messages found
    have both := common g (part_reachedFiles g reached_g) (mem_typeNames.mpr (.inl ⟨entry, there, same⟩))
    obtain ⟨_, held', _, known⟩ := Declarations.value_of_shapeOf shaped map
    cases held.symm.trans held'
    obtain ⟨_, held', _, known'⟩ := Declarations.value_of_shapeOf shaped' map'
    cases held.symm.trans held'
    exact common_of_knows types imports both.1 both.2 there (List.mem_of_find?_eq_some held) known known' named

end Names

section TwoRuns

variable {set : Schema.FileSet} {targets targets' : List String} {settings : Settings} {index other : Index}
  (first : Resolves set targets settings index) (second : Resolves set targets' settings other)

include first second

section Types

variable (types : (set.files.flatMap typeNames).Nodup)

include types

theorem enum_alike {name : String} (common : Common set targets targets' name) :
    index.enums.get? name = other.enums.get? name := by
  rw [(built_of_build first.built).enums_eq, (built_of_build second.built).enums_eq]
  refine WellKnown.get?_addTo_congr ?_
  rw [get?_enums, get?_enums, (declarations_alike types common).enum]

variable (imports : ImportsBuiltIns set) {name : String} (common : Common set targets targets' name)

include imports common

section Declared

variable {d : Declared Schema.Message}
  (found : (declarations set (reachedFiles set targets)).messages.get? name = some d)
  (plain : d.declaration.isMapEntry = false) {field : Schema.Field} (inside : field ∈ d.declaration.fields)

include found plain inside

theorem common_of_field {needed : String}
    (needs : (declarations set (reachedFiles set targets)).Needs field needed) : Common set targets targets' needed := by
  obtain ⟨same, g, reached, there⟩ := mem_declared_messages found
  have both := common g (part_reachedFiles g reached) (mem_typeNames.mpr (.inl ⟨d, there, same⟩))
  obtain ⟨_, shaped, _⟩ := first.shapes found plain field inside
  obtain ⟨_, shaped', _⟩ := second.shapes ((declarations_alike types common).message ▸ found) plain field inside
  exact common_of_needs types imports both.1 both.2 there inside shaped shaped' needs

theorem shape_alike : shapeOf (declarations set (reachedFiles set targets)) field =
    shapeOf (declarations set (reachedFiles set targets')) field := by
  refine Declarations.shapeOf_alike ?_ fun _ needs =>
    declarations_alike types (common_of_field first second types imports common found plain inside needs)
  rw [declarations, declarations]

end Declared

theorem message_alike : index.messages.get? name = other.messages.get? name := by
  rw [(built_of_build first.built).messages_eq, (built_of_build second.built).messages_eq]
  refine WellKnown.get?_addTo_congr ?_
  rw [get?_resolvedMessages, get?_resolvedMessages, ← (declarations_alike types common).message]
  cases declared : ((declarations set (reachedFiles set targets)).messages.get? name).filter
      (!·.declaration.isMapEntry) with
  | none => rw [Option.map_none, Option.map_none]
  | some d =>
    obtain ⟨found, plain⟩ := Option.filter_eq_some_iff.mp declared
    rw [Option.map_some, Option.map_some, resolveMessage_alike fun field inside =>
      shape_alike first second types imports common found (by simpa using plain) inside]

end Types

/-- Two runs over one set share the types of the files that both reach. -/
theorem shares_of_runs (types : (set.files.flatMap typeNames).Nodup) (imports : ImportsBuiltIns set) :
    index.Shares other (Common set targets targets') where
  keyed := keyed_of_build first.built
  other_keyed := keyed_of_build second.built
  messages _ common := message_alike first second types imports common
  enums _ common := enum_alike first second types common
  closed name m common found f inside type refers := by
    rcases declaration_of_found (built_of_build first.built) found with ⟨d, declared, plain, rfl⟩ | ⟨_, none_left⟩
    · obtain ⟨field, there, rfl⟩ := mem_resolved_fields.mp inside
      obtain ⟨shape, shaped, typed⟩ := first.shapes declared plain field there
      refine common_of_field first second types imports common declared plain there
        (Declarations.needs_of_shapeOf shaped ?_)
      rw [← typed]
      exact refers
    · rw [none_left] at inside
      cases inside
  maxDepth := (maxDepth_of_build first.built).trans (maxDepth_of_build second.built).symm

section Files

variable (names : (set.files.map (·.name)).Nodup) (types : ((set.files.flatMap typeNames).map bareName).Nodup)
  {f : Schema.File} (reached : f ∈ reachedFiles set targets) (reached' : f ∈ reachedFiles set targets')

omit first second in
include types reached reached' in
theorem common_of_typeNames {name other : String} (declares : name ∈ typeNames f) (same : bareName other = bareName name) :
    Common set targets targets' other := by
  intro g inside there
  rw [List.map_flatMap] at types
  rw [eq_of_mem_flatMap types inside (part_reachedFiles f reached) (List.mem_map.mpr ⟨other, there, same⟩)
    (List.mem_map_of_mem declares)]
  exact ⟨reached, reached'⟩

include types reached reached'

theorem seesAll_of_runs (imports : ImportsBuiltIns set) (roots : List String) :
    SeesAll index other (Common set targets targets') (resolveFile roots f) := by
  have single : (set.files.flatMap typeNames).Nodup := types.of_map
  intro name inside
  have declares : name ∈ typeNames f := by
    rcases List.mem_append.mp inside with message | enum
    · obtain ⟨d, listed, rfl⟩ := List.mem_map.mp message
      exact mem_typeNames.mpr (.inl ⟨d, (List.mem_filter.mp listed).1, rfl⟩)
    · exact mem_typeNames.mpr (.inr (List.mem_map.mp enum))
  have common := common_of_typeNames types reached reached' declares rfl
  exact ⟨common_of_typeNames types reached reached' declares (bareName_idempotent name),
    message_alike first second single imports common, enum_alike first second single common⟩

theorem plan?_of_runs (imports : ImportsBuiltIns set) {d : Declared Schema.Message} (declared : d ∈ messagesOf f) :
    index.plans.plan? d.fullName = other.plans.plan? d.fullName :=
  (shares_of_runs first second types.of_map imports).plan?_eq
    (common_of_typeNames types reached reached' (mem_typeNames.mpr (.inl ⟨d, declared, rfl⟩)) (bareName_idempotent _))

end Files

section Places

variable (names : (set.files.map (·.name)).Nodup)

omit second in
include names in
theorem file?_of_reached {g : Schema.File} (reached : g ∈ reachedFiles set targets) :
    index.file? g.name = some (resolveFile (rootsOf set targets) g) := by
  have files := (built_of_build first.built).files_eq
  have distinct : (index.files.map (·.name)).Nodup := by
    rw [files, List.map_map]
    exact (List.filter_sublist.map _).nodup names
  have listed : resolveFile (rootsOf set targets) g ∈ index.files := files ▸ List.mem_map.mpr ⟨g, reached, rfl⟩
  exact find?_of_nodup distinct listed

include names

theorem placesAlike_of_runs (file : File) : PlacesAlike index other (Common set targets targets') file := by
  intro name m common found own
  rw [message?, (built_of_build first.built).messages_eq] at found
  rcases mem_messages found with ⟨d, rfl, _, _, same, g, reached, there⟩ | ⟨_, _, rfl⟩
  · have both := common g (part_reachedFiles g reached) (mem_typeNames.mpr (.inl ⟨d, there, same⟩))
    have placed : (resolveMessage (declarations set (reachedFiles set targets)) settings.extensionPackage (bareName name)
        d).1.file = g.name := congrArg Schema.File.name (file_of_declared there)
    rw [GoCode.Context.foreignPackage?, GoCode.Context.foreignPackage?, placed, file?_of_reached first names both.1,
      file?_of_reached second names both.2]
    rfl
  · cases own

end Places

end TwoRuns

end Index

namespace Run

open Index

theorem resolves_of_generate {set : Schema.FileSet} {targets : List String} {settings : Settings} {output : Output}
    (run : generate set targets settings = .ok output) : ∃ index, Resolves set targets settings index ∧
      output.plans = index.plans ∧
      output.artifacts = Emit.artifacts settings.effectiveTargets index index.plans settings := by
  rw [generate_eq] at run
  cases built : build set targets settings with
  | error fault =>
    rw [built] at run
    cases run
  | ok index =>
    rw [built] at run
    dsimp only at run
    cases clean : index.report.errors with
    | cons first rest =>
      rw [clean] at run
      cases run
    | nil =>
      rw [clean, Emit.emitWith_emitters] at run
      cases run
      exact ⟨index, ⟨built, problems_of_report clean⟩, rfl, rfl⟩

section Selected

variable {set : Schema.FileSet} (names : (set.files.map (·.name)).Nodup)
  (types : ((set.files.flatMap typeNames).map bareName).Nodup) (imports : ImportsBuiltIns set)
  {targets targets' : List String} {settings : Settings} {first second : Output}
  (run : generate set targets settings = .ok first) (run' : generate set targets' settings = .ok second)
  {f : Schema.File} (inside : f ∈ set.files) (asked : f.name ∈ rootsOf set targets)
  (asked' : f.name ∈ rootsOf set targets')

include names types imports run run' inside asked asked'

/-- Two runs that are asked for a file plan the messages that it leads to alike, and make the same of it. -/
theorem made_alike : ∃ index other, build set targets settings = .ok index ∧ build set targets' settings = .ok other ∧
    first.artifacts = Emit.artifacts settings.effectiveTargets index first.plans settings ∧
    second.artifacts = Emit.artifacts settings.effectiveTargets other second.plans settings ∧
    resolveFile (rootsOf set targets) f ∈ index.targets ∧ resolveFile (rootsOf set targets') f ∈ other.targets ∧
    (∀ g ∈ set.files, g.name ∈ Imports.closure set [f.name] → ∀ d ∈ messagesOf g,
      first.plans.plan? d.fullName = second.plans.plan? d.fullName) ∧
    ∀ target, Emit.render target index first.plans settings (resolveFile (rootsOf set targets) f) =
      Emit.render target other second.plans settings (resolveFile (rootsOf set targets') f) := by
  obtain ⟨index, resolves, plans, artifacts⟩ := resolves_of_generate run
  obtain ⟨other, resolves', plans', artifacts'⟩ := resolves_of_generate run'
  have reached {targets : List String} (asked : f.name ∈ rootsOf set targets) : f ∈ reachedFiles set targets :=
    mem_reachedFiles.mpr ⟨inside, Imports.mem_closure.mpr ⟨Imports.mem_fileNames.mpr ⟨f, inside, rfl⟩, f.name, asked, .refl⟩⟩
  have targeted {targets : List String} {index : Index} (resolves : Resolves set targets settings index)
      (asked : f.name ∈ rootsOf set targets) : resolveFile (rootsOf set targets) f ∈ index.targets := by
    refine List.mem_filter.mpr ⟨?_, List.contains_iff_mem.mpr asked⟩
    rw [(built_of_build resolves.built).files_eq]
    exact List.mem_map_of_mem (reached asked)
  have same : resolveFile (rootsOf set targets) f = resolveFile (rootsOf set targets') f := by
    rw [resolveFile, resolveFile, List.contains_iff_mem.mpr asked, List.contains_iff_mem.mpr asked']
  rw [plans, plans']
  refine ⟨index, other, resolves.built, resolves'.built, artifacts, artifacts', targeted resolves asked,
    targeted resolves' asked', fun g there imported d declared => ?_, fun target => ?_⟩
  · exact plan?_of_runs resolves resolves' types (reached_of_imported (reached asked) there imported)
      (reached_of_imported (reached asked') there imported) imports declared
  · rw [← same]
    exact (shares_of_runs resolves resolves' types.of_map imports).render_eq
      (placesAlike_of_runs resolves resolves' names _)
      (seesAll_of_runs resolves resolves' types (reached asked) (reached asked') imports _) target settings

end Selected

def stamps : Schema.File :=
  ⟨"b.proto", "b", [], [.ofFields "Stamp" [.ofKind "cents" .int64 [("int64_encoding", .str "NUMBER")]] []], [], none, none⟩

def letters : Schema.FileSet :=
  ⟨[⟨"a.proto", "a", ["b.proto"], [.ofFields "Letter" [.ofMessage "stamp" ".b.Stamp" []] []], [], none, none⟩, stamps,
    ⟨"c.proto", "c", [], [.ofFields "Parcel" [.ofKind "weight" .int64 []] []], [], none, none⟩]⟩

theorem stamps_alike : ∃ first second, generate letters ["a.proto"] .default = .ok first ∧
    generate letters [] .default = .ok second ∧ first.plans.plan? "b.Stamp" = second.plans.plan? "b.Stamp" ∧
    (first.plans.plan? "b.Stamp").isSome = true := by
  obtain ⟨first, run, planned⟩ := exists_ok (x := generate letters ["a.proto"] .default)
    (fun output => (output.plans.plan? "b.Stamp").isSome = true) (by decide +kernel)
  obtain ⟨second, run', _⟩ := exists_ok (x := generate letters [] .default) (fun _ => True) (by decide +kernel)
  obtain ⟨_, _, _, _, _, _, _, _, plans, _⟩ := made_alike (by decide) (by decide +kernel) (by decide +kernel) run run'
    (show _ ∈ letters.files from List.mem_cons_self) (by decide +kernel) (by decide +kernel)
  obtain ⟨d, declared, named⟩ := List.mem_map.mp
    (show "b.Stamp" ∈ (messagesOf stamps).map (·.fullName) from by decide +kernel)
  have same := plans stamps (List.mem_cons_of_mem _ List.mem_cons_self) (by decide +kernel) d declared
  rw [named] at same
  exact ⟨first, second, run, run', same, planned⟩

def redeclared : Schema.FileSet :=
  ⟨[⟨"a.proto", "t", [], [.ofFields "M" [.ofEnum "n" ".google.protobuf.NullValue" [("enum_encoding", .str "NUMBER")]] []],
      [], none, none⟩,
    ⟨"google/protobuf/struct.proto", "google.protobuf", [], [], [⟨"NullValue", [⟨"A", 5, none⟩], none⟩], none, none⟩]⟩

def shadowed : Schema.FileSet :=
  ⟨[⟨"a.proto", "", [], [.ofFields ".x" [.ofKind "n" .int64 []] []], [], none, none⟩,
    ⟨"b.proto", "", [], [.ofFields "x" [.ofKind "m" .string []] []], [], none, none⟩]⟩

theorem redeclared_apart :
    ((redeclared.files.map (·.name)).Nodup ∧ (redeclared.files.flatMap typeNames).Nodup ∧
      "a.proto" ∈ rootsOf redeclared ["a.proto"] ∧ "a.proto" ∈ rootsOf redeclared [] ∧
      ∃ first second, generate redeclared ["a.proto"] .default = .ok first ∧
        generate redeclared [] .default = .ok second ∧ first.plans.plan? "t.M" ≠ second.plans.plan? "t.M") ∧
    (shadowed.files.map (·.name)).Nodup ∧ (shadowed.files.flatMap typeNames).Nodup ∧
      "a.proto" ∈ rootsOf shadowed ["a.proto"] ∧ "a.proto" ∈ rootsOf shadowed [] ∧
      ∃ first second, generate shadowed ["a.proto"] .default = .ok first ∧ generate shadowed [] .default = .ok second ∧
        (first.artifacts.find? (·.name == "a.wire.ts")) ≠ second.artifacts.find? (·.name == "a.wire.ts") := by
  obtain ⟨first, run, builtIn⟩ := exists_ok (x := generate redeclared ["a.proto"] .default)
    (fun output => output.plans.plan? "t.M" = some ⟨"t.M", [⟨"n", "n", .single,
      .enumAsNumber WellKnown.nullValue [⟨"NULL_VALUE", 0, "0"⟩]⟩]⟩) (by decide +kernel)
  obtain ⟨second, run', declared⟩ := exists_ok (x := generate redeclared [] .default)
    (fun output => output.plans.plan? "t.M" = some ⟨"t.M", [⟨"n", "n", .single,
      .enumAsNumber WellKnown.nullValue [⟨"A", 5, "5"⟩]⟩]⟩) (by decide +kernel)
  obtain ⟨alone, run_alone, bare⟩ := exists_ok (x := generate shadowed ["a.proto"] .default)
    (fun output => (output.artifacts.find? (·.name == "a.wire.ts")).map (·.content.length) = some 64) (by decide +kernel)
  obtain ⟨both, run_both, filled⟩ := exists_ok (x := generate shadowed [] .default)
    (fun output => (output.artifacts.find? (·.name == "a.wire.ts")).map (·.content.length) = some 102) (by decide +kernel)
  refine ⟨⟨by decide, by decide +kernel, by decide, by decide, first, second, run, run', ?_⟩,
    by decide, by decide +kernel, by decide, by decide, alone, both, run_alone, run_both, ?_⟩
  · rw [builtIn, declared]
    decide +kernel
  · intro same
    rw [same, filled] at bare
    cases bare

end Run

end Wireform
