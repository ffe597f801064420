import Wireform.Proofs.DeclaredPaths
import Wireform.Proofs.RearrangedFiles
import Wireform.Proofs.SelectedTargets

set_option autoImplicit false

namespace Wireform

namespace WellKnown

variable {α : Type} {make : String → String → α} {builtIn : List (String × String)} {declared : KeyMap α}

theorem get?_addTo_iff (distinct : (builtIn.map (·.1)).Nodup) {key : String} {value : α} :
    (addTo make builtIn declared).get? key = some value ↔ declared.get? key = some value ∨
      declared.get? key = none ∧ ∃ file, (key, file) ∈ builtIn ∧ value = make key file := by
  constructor
  · intro found
    cases there : declared.get? key with
    | some other => exact .inl ((get?_addTo_of_declared there).symm.trans found)
    | none => exact .inr ⟨rfl, (get?_addTo found).resolve_left fun declared => by rw [there] at declared; cases declared⟩
  · rintro (there | ⟨none_there, file, listed, rfl⟩)
    · exact get?_addTo_of_declared there
    · have some_there : ((addTo make builtIn declared).get? key).isSome = true :=
        get?_addTo_isSome.mpr (.inr (List.any_eq_true.mpr ⟨(key, file), listed, beq_self_eq_true key⟩))
      obtain ⟨value, found⟩ := Option.isSome_iff_exists.mp some_there
      rcases get?_addTo found with there | ⟨other, again, rfl⟩
      · rw [none_there] at there
        cases there
      · cases eq_of_nodup distinct again listed rfl
        exact found

end WellKnown

namespace Imports

def Leads (set : Schema.FileSet) (name other : String) : Prop :=
  ∃ f ∈ set.files, f.name = name ∧ other ∈ f.dependencies ∧ ∃ g ∈ set.files, g.name = other

def Reached (set : Schema.FileSet) (targets : List String) (name : String) : Prop :=
  ∃ root ∈ Index.rootsOf set targets, Relation.ReflTransGen (Leads set) root name

def danglingOf (set : Schema.FileSet) (f : Schema.File) : List String :=
  f.dependencies.filter fun path => !(fileNames set).contains path && !WellKnown.isFile path

section Distinct

variable {set : Schema.FileSet} (names : (set.files.map (·.name)).Nodup)

include names

theorem mem_known {name other : String} : other ∈ known set name ↔ Leads set name other := by
  rw [known]
  split
  · rename_i nowhere
    refine iff_of_false List.not_mem_nil ?_
    rintro ⟨f, inside, named, _⟩
    rw [(fileOf?_iff names).mpr ⟨inside, named⟩] at nowhere
    cases nowhere
  · rename_i f found
    obtain ⟨inside, named⟩ := (fileOf?_iff names).mp found
    rw [List.mem_filter, List.contains_iff_mem, mem_fileNames]
    constructor
    · rintro ⟨imports, there⟩
      exact ⟨f, inside, named, imports, there⟩
    · rintro ⟨g, inside', named', imports, there⟩
      cases eq_of_nodup names inside' inside (named'.trans named.symm)
      exact ⟨imports, there⟩

theorem missing_eq {f : Schema.File} (inside : f ∈ set.files) : missing set f.name = danglingOf set f := by
  rw [missing, (fileOf?_iff names).mpr ⟨inside, rfl⟩, danglingOf]

end Distinct

end Imports

namespace Index

section Reached

variable {set : Schema.FileSet} {targets : List String} (names : (set.files.map (·.name)).Nodup)

include names

theorem reachedFiles_iff {f : Schema.File} (inside : f ∈ set.files) :
    f ∈ reachedFiles set targets ↔ Imports.Reached set targets f.name := by
  have leads : (fun a b => b ∈ Imports.known set a) = Imports.Leads set := by
    funext a b
    exact propext (Imports.mem_known names)
  rw [mem_reachedFiles, Imports.mem_closure, leads]
  exact ⟨fun reached => reached.2.2, fun reached => ⟨inside, Imports.mem_fileNames.mpr ⟨f, inside, rfl⟩, reached⟩⟩

theorem closure_perm_reachedFiles :
    (Imports.closure set (rootsOf set targets)).Perm ((reachedFiles set targets).map (·.name)) := by
  have distinct : ((reachedFiles set targets).map (·.name)).Nodup := (List.filter_sublist.map _).nodup names
  refine (List.perm_ext_iff_of_nodup (Imports.nodup_closure _) distinct).mpr fun name => ?_
  rw [List.mem_map]
  constructor
  · intro visited
    obtain ⟨f, inside, rfl⟩ := Imports.mem_fileNames.mp (Imports.mem_closure.mp visited).1
    exact ⟨f, mem_reachedFiles.mpr ⟨inside, visited⟩, rfl⟩
  · rintro ⟨f, reached, rfl⟩
    exact (mem_reachedFiles.mp reached).2

theorem importProblems_perm : (Imports.problems set (Imports.closure set (rootsOf set targets))).Perm
    ((reachedFiles set targets).flatMap fun f =>
      (Imports.danglingOf set f).map fun path => ⟨f.name, "", "", .missingImport path⟩) := by
  rw [Imports.problems]
  refine ((closure_perm_reachedFiles names).flatMap_right _).trans ?_
  rw [List.flatMap_map]
  refine List.Perm.flatMap_left _ fun f reached => ?_
  rw [Imports.missing_eq names (part_reachedFiles f reached)]
  exact (List.reverse_perm _).map _

end Reached

end Index

def Issue.isImport : Issue → Bool
  | .missingImport _ => true
  | _ => false

def Issue.isType : Issue → Bool
  | .undefinedType _ | .unimportedType _ _ | .badMapEntry _ _ => true
  | _ => false

theorem Issue.isImport_of_isType {issue : Issue} (about : issue.isType = true) : issue.isImport = false := by
  cases issue with
  | missingImport _ => cases about
  | _ => rfl

namespace Index

section Findings

variable {all : Declarations} {package fullName : String}

variable (all) in
theorem isType_unresolved (name : String) : (all.unresolved name).isType = true := by
  rw [Declarations.unresolved]
  split <;> rfl

theorem isType_of_mapShape {entry : Declared Schema.Message} {issue : Issue}
    (failed : mapShape all entry = .error issue) : issue.isType = true := by
  rw [mapShape] at failed
  cases keyed : (entry.declaration.fields.find? (·.number == 1)).bind fun f => Scalar.ofKind? f.kind with
  | none =>
    rw [keyed] at failed
    cases failed
    rfl
  | some key =>
    cases held : entry.declaration.fields.find? (·.number == 2) with
    | none =>
      rw [keyed, held] at failed
      cases failed
      rfl
    | some value =>
      simp only [keyed, held, pure_bind] at failed
      cases kind : value.kind <;> simp only [kind, Scalar.ofKind?] at failed
      case enum | message | group =>
        split at failed
        · cases failed
        · cases failed
          exact isType_unresolved all _
      all_goals cases failed

theorem isType_of_shapeOf {field : Schema.Field} {issue : Issue} (failed : shapeOf all field = .error issue) :
    issue.isType = true := by
  cases map : all.entry? field with
  | some entry => exact isType_of_mapShape ((shapeOf_map map).symm.trans failed)
  | none =>
    rw [shapeOf_plain map] at failed
    split at failed
    · cases failed
    · cases failed
      exact isType_unresolved all _

theorem isImport_of_message {d : Declared Schema.Message} {p : Finding}
    (inside : p ∈ (resolveMessage all package fullName d).2) : p.issue.isImport = false := by
  rcases List.mem_append.mp inside with fields | oneofs
  · obtain ⟨_, listed, there⟩ := List.mem_flatMap.mp fields
    obtain ⟨field, _, rfl⟩ := List.mem_map.mp listed
    obtain ⟨issue, found, rfl⟩ := List.mem_map.mp there
    rcases List.mem_append.mp found with shape | malformed
    · cases shaped : shapeOf all field with
      | ok => simp [shaped] at shape
      | error other =>
        rw [shaped] at shape
        cases List.mem_singleton.mp shape
        exact Issue.isImport_of_isType (isType_of_shapeOf shaped)
    · obtain ⟨m, _, rfl⟩ := List.mem_map.mp malformed
      rfl
  · obtain ⟨_, _, made⟩ := List.mem_filterMap.mp oneofs
    obtain ⟨m, _, rfl⟩ := Option.map_eq_some_iff.mp made
    rfl

theorem isImport_of_enum {d : Declared Schema.Enum} {p : Finding}
    (inside : p ∈ (resolveEnum package fullName d).2) : p.issue.isImport = false := by
  obtain ⟨v, _, made⟩ := List.mem_filterMap.mp inside
  obtain ⟨m, _, rfl⟩ := Option.map_eq_some_iff.mp made
  rfl

end Findings

section Types

variable {set : Schema.FileSet} (types : (set.files.flatMap typeNames).Nodup) {files : List Schema.File}
  (part : ∀ f ∈ files, f ∈ set.files) {package : String}

include types part

theorem get?_messages_iff {key : String} {m : Message} :
    (KeyMap.ofList ((resolvedMessages set files package).map fun (m, _) => (m.fullName, m))).get? key = some m ↔
      ∃ f ∈ files, ∃ path d, f.Declares path d ∧ d.isMapEntry = false ∧ (declaredAt f path d).fullName = key ∧
        m = (resolveMessage (declarations set files) package key (declaredAt f path d)).1 := by
  simp only [get?_resolvedMessages, Option.map_eq_some_iff, Option.filter_eq_some_iff, Bool.not_eq_true',
    declarations, found_iff sublist_messages types part]
  constructor
  · rintro ⟨d, ⟨⟨named, f, inside, there⟩, plain⟩, rfl⟩
    obtain ⟨path, declaration, declares, rfl⟩ := mem_messagesOf.mp there
    exact ⟨f, inside, path, declaration, declares, plain, named, rfl⟩
  · rintro ⟨f, inside, path, declaration, declares, plain, named, rfl⟩
    exact ⟨_, ⟨⟨named, f, inside, mem_messagesOf.mpr ⟨path, declaration, declares, rfl⟩⟩, plain⟩, rfl⟩

theorem get?_enums_iff {key : String} {e : Enum} :
    (KeyMap.ofList ((resolvedEnums set files package).map fun (e, _) => (e.fullName, e))).get? key = some e ↔
      ∃ f ∈ files, ∃ path d, DeclaresEnum f path d ∧ (declaredEnumAt f path d).fullName = key ∧
        e = (resolveEnum package key (declaredEnumAt f path d)).1 := by
  simp only [get?_enums, Option.map_eq_some_iff, declarations, found_iff sublist_enums types part]
  constructor
  · rintro ⟨d, ⟨named, f, inside, there⟩, rfl⟩
    obtain ⟨path, declaration, declares, rfl⟩ := mem_enumsOf.mp there
    exact ⟨f, inside, path, declaration, declares, named, rfl⟩
  · rintro ⟨f, inside, path, declaration, declares, named, rfl⟩
    exact ⟨_, ⟨named, f, inside, mem_enumsOf.mpr ⟨path, declaration, declares, rfl⟩⟩, rfl⟩

end Types

/-- A map holds what is declared, and what is built in and not declared. -/
def HoldsDeclared {α : Type} (map : KeyMap α) (Declared : String → α → Prop) (builtIn : List (String × String))
    (make : String → String → α) : Prop :=
  ∀ key value, map.get? key = some value ↔ Declared key value ∨
    (∀ other, ¬ Declared key other) ∧ ∃ file, (key, file) ∈ builtIn ∧ value = make key file

theorem holdsDeclared_addTo {α : Type} {Declared : String → α → Prop} {builtIn : List (String × String)}
    {make : String → String → α} {map : KeyMap α} (distinct : (builtIn.map (·.1)).Nodup)
    (declared : ∀ key value, map.get? key = some value ↔ Declared key value) :
    HoldsDeclared (WellKnown.addTo make builtIn map) Declared builtIn make := by
  intro key value
  rw [WellKnown.get?_addTo_iff distinct, declared, Option.eq_none_iff_forall_ne_some]
  simp only [ne_eq, declared]

/-- An index holds what some files of a set declare, and nothing else. -/
structure HoldsFiles (index : Index) (set : Schema.FileSet) (targets : List String) (package : String)
    (files : List Schema.File) : Prop where
  listed : index.files = files.map (resolveFile (rootsOf set targets))
  messages : HoldsDeclared index.messages (fun key m => ∃ f ∈ files, ∃ path d, f.Declares path d ∧
    d.isMapEntry = false ∧ (declaredAt f path d).fullName = key ∧
      m = (resolveMessage (declarations set files) package key (declaredAt f path d)).1)
    WellKnown.messages WellKnown.message
  enums : HoldsDeclared index.enums (fun key e => ∃ f ∈ files, ∃ path d, DeclaresEnum f path d ∧
    (declaredEnumAt f path d).fullName = key ∧ e = (resolveEnum package key (declaredEnumAt f path d)).1)
    WellKnown.enums WellKnown.enum
  imports : (index.problems.filter (·.issue.isImport)).Perm (files.flatMap fun f =>
    (Imports.danglingOf set f).map fun path => ⟨f.name, "", "", .missingImport path⟩)

/-- A list of names has those of the messages that a file declares, each once, an outer one before those nested in it;
entry types have no place in it. -/
structure ListsMessages (f : Schema.File) (names : List String) : Prop where
  once : names.Nodup
  all : ∀ name, name ∈ names ↔
    ∃ path d, f.Declares path d ∧ d.isMapEntry = false ∧ (declaredAt f path d).fullName = name
  outerFirst : ∀ path outer more inner, f.Declares path outer → outer.Holds more inner → more ≠ [] →
    outer.isMapEntry = false → inner.isMapEntry = false →
      [(declaredAt f path outer).fullName, (declaredAt f (path ++ more) inner).fullName].Sublist names

/-- How building ends: with an index of the files that the targets lead to, in the order of the set, unless a target is
not there or a message of these files is nested too deep. -/
def EndsWell (set : Schema.FileSet) (targets : List String) (settings : Settings) : Except BuildError Index → Prop
  | .error (.unknownTarget name) => name ∈ targets ∧ ∀ f ∈ set.files, f.name ≠ name
  | .error (.tooDeep type limit) => (∀ name ∈ targets, ∃ f ∈ set.files, f.name = name) ∧ limit = settings.maxDepth ∧
      ∃ f ∈ set.files, Imports.Reached set targets f.name ∧ ∃ path d, f.Declares path d ∧ limit < path.length ∧
        (declaredAt f path d).fullName = type
  | .ok index => (∀ name ∈ targets, ∃ f ∈ set.files, f.name = name) ∧
      ∃ files, files.Sublist set.files ∧ (∀ f ∈ set.files, f ∈ files ↔ Imports.Reached set targets f.name) ∧
        (∀ f ∈ files, ∀ path d, f.Declares path d → path.length ≤ settings.maxDepth) ∧
        (∀ f ∈ files, ListsMessages f (resolveFile (rootsOf set targets) f).messages) ∧
        index.HoldsFiles set targets settings.extensionPackage files

section Build

variable {set : Schema.FileSet} {targets : List String} {settings : Settings}

theorem unknown_of_build {name : String} (run : build set targets settings = .error (.unknownTarget name)) :
    name ∈ targets ∧ ∀ f ∈ set.files, f.name ≠ name := by
  rw [build] at run
  split at run
  · rename_i missing
    cases run
    have nowhere := List.find?_some missing
    simp only [Bool.not_eq_true', List.any_eq_false, beq_iff_eq] at nowhere
    exact ⟨List.mem_of_find?_eq_some missing, nowhere⟩
  · dsimp only at run
    split at run <;> cases run

theorem tooDeep_of_build {type : String} {limit : Nat} (run : build set targets settings = .error (.tooDeep type limit)) :
    (∀ name ∈ targets, ∃ f ∈ set.files, f.name = name) ∧ limit = settings.maxDepth ∧
      ∃ f ∈ reachedFiles set targets, ∃ d ∈ messagesOf f, limit < d.depth ∧ d.fullName = type := by
  rw [build] at run
  split at run
  · cases run
  · rename_i known
    dsimp only at run
    split at run
    · rename_i d deep
      cases run
      obtain ⟨f, reached, there⟩ := List.mem_flatMap.mp (List.mem_of_find?_eq_some deep)
      refine ⟨by simpa [List.find?_eq_none] using known, rfl, f, reached, d, there, ?_, rfl⟩
      simpa using List.find?_some deep
    · cases run

variable (names : (set.files.map (·.name)).Nodup) (types : (set.files.flatMap typeNames).Nodup)

omit names in
include types in
theorem listsMessages_of_file {f : Schema.File} (inside : f ∈ set.files) (roots : List String) :
    ListsMessages f (resolveFile roots f).messages where
  once := by
    have distinct := ((List.nodup_flatMap.mp types).1 f inside).sublist (sublist_messages f)
    exact (List.filter_sublist.map _).nodup distinct
  all name := by
    rw [resolveFile, List.mem_map]
    constructor
    · rintro ⟨d, listed, named⟩
      obtain ⟨there, plain⟩ := List.mem_filter.mp listed
      obtain ⟨path, declaration, declares, rfl⟩ := mem_messagesOf.mp there
      exact ⟨path, declaration, declares, by simpa [declaredAt] using plain, named⟩
    · rintro ⟨path, declaration, declares, plain, named⟩
      exact ⟨_, List.mem_filter.mpr ⟨mem_messagesOf.mpr ⟨path, declaration, declares, rfl⟩, by
        rw [declaredAt, plain]; rfl⟩, named⟩
  outerFirst path outer more inner declares below proper plain plain' := by
    have pair := (sublist_messagesOf declares below proper).filter fun d => !d.declaration.isMapEntry
    rw [List.filter_cons_of_pos (by rw [declaredAt, plain]; rfl),
      List.filter_cons_of_pos (by rw [declaredAt, plain']; rfl)] at pair
    exact pair.map _

include names types

theorem holdsFiles_of_build {index : Index} (run : build set targets settings = .ok index) :
    index.HoldsFiles set targets settings.extensionPackage (reachedFiles set targets) where
  listed := (built_of_build run).files_eq
  messages := by
    rw [(built_of_build run).messages_eq]
    exact holdsDeclared_addTo (by decide) fun key m => get?_messages_iff types part_reachedFiles
  enums := by
    rw [(built_of_build run).enums_eq]
    exact holdsDeclared_addTo (by decide) fun key e => get?_enums_iff types part_reachedFiles
  imports := by
    -- Only the findings of the walk are about imports: messages and enums have none.
    have apart {α : Type} (more : List (α × List Finding))
        (others : ∀ entry ∈ more, ∀ p ∈ entry.2, p.issue.isImport = false) :
        (more.flatMap (·.2)).filter (·.issue.isImport) = [] := by
      refine List.filter_eq_nil_iff.mpr fun p inside => ?_
      obtain ⟨entry, listed, there⟩ := List.mem_flatMap.mp inside
      rw [others entry listed p there]
      exact Bool.false_ne_true
    have about : ∀ p ∈ Imports.problems set (Imports.closure set (rootsOf set targets)), p.issue.isImport = true := by
      intro p inside
      obtain ⟨name, _, there⟩ := List.mem_flatMap.mp inside
      obtain ⟨path, _, rfl⟩ := List.mem_map.mp there
      rfl
    rw [problems_of_build run, List.filter_append, List.filter_append, List.filter_eq_self.mpr about, apart, apart,
      List.append_nil, List.append_nil]
    · exact importProblems_perm names
    · intro entry listed p there
      obtain ⟨⟨name, d⟩, _, rfl⟩ := List.mem_map.mp listed
      exact isImport_of_enum there
    · intro entry listed p there
      obtain ⟨name, d, _, _, rfl⟩ := mem_resolvedMessages.mp listed
      exact isImport_of_message there

/-- Building ends with exactly what the targets lead to, or says what is in the way. -/
theorem build_endsWell : EndsWell set targets settings (build set targets settings) := by
  have reached {f : Schema.File} (there : f ∈ reachedFiles set targets) : Imports.Reached set targets f.name :=
    (reachedFiles_iff names (part_reachedFiles f there)).mp there
  cases run : build set targets settings with
  | error fault =>
    cases fault with
    | unknownTarget name => exact unknown_of_build run
    | tooDeep type limit =>
      obtain ⟨known, rfl, f, there, d, listed, deep, rfl⟩ := tooDeep_of_build run
      obtain ⟨path, declaration, declares, rfl⟩ := mem_messagesOf.mp listed
      exact ⟨known, rfl, f, part_reachedFiles f there, reached there, path, declaration, declares, deep, rfl⟩
  | ok index =>
    obtain ⟨known, shallow⟩ := build_ok_iff.mp ⟨index, run⟩
    refine ⟨known, reachedFiles set targets, List.filter_sublist, fun f inside => reachedFiles_iff names inside,
      fun f there path d declares => ?_, fun f there => ?_, holdsFiles_of_build names types run⟩
    · exact shallow f there _ (mem_messagesOf.mpr ⟨path, d, declares, rfl⟩)
    · exact listsMessages_of_file types (part_reachedFiles f there) _

end Build

section Listed

variable {set : Schema.FileSet} {targets : List String} {settings : Settings} {index : Index}
  (run : build set targets settings = .ok index) (types : (set.files.flatMap typeNames).Nodup)
  (bare : ∀ name ∈ set.files.flatMap typeNames, bareName name = name) {file : File} (among : file ∈ index.files)
  {name : String}

include run types bare among

theorem message_of_listed (listed : name ∈ file.messages) :
    ∃ m, index.message? name = some m ∧ m.fullName = name ∧ m.file = file.name := by
  have built := built_of_build run
  rw [built.files_eq] at among
  obtain ⟨f, reached, rfl⟩ := List.mem_map.mp among
  obtain ⟨path, d, declares, plain, named⟩ :=
    ((listsMessages_of_file types (part_reachedFiles f reached) _).all name).mp listed
  have there : name ∈ typeNames f :=
    mem_typeNames.mpr (.inl ⟨_, mem_messagesOf.mpr ⟨path, d, declares, rfl⟩, named⟩)
  refine ⟨(resolveMessage (declarations set (reachedFiles set targets)) settings.extensionPackage name
    (declaredAt f path d)).1, ?_, rfl, rfl⟩
  rw [message?, bare name (List.mem_flatMap.mpr ⟨f, part_reachedFiles f reached, there⟩), built.messages_eq]
  exact WellKnown.get?_addTo_of_declared ((get?_messages_iff types part_reachedFiles).mpr
    ⟨f, reached, path, d, declares, plain, named, rfl⟩)

theorem enum_of_listed (listed : name ∈ file.enums) :
    ∃ e, index.enum? name = some e ∧ e.fullName = name ∧ e.file = file.name := by
  have built := built_of_build run
  rw [built.files_eq] at among
  obtain ⟨f, reached, rfl⟩ := List.mem_map.mp among
  obtain ⟨d, inside, named⟩ := List.mem_map.mp listed
  obtain ⟨path, e, declares, rfl⟩ := mem_enumsOf.mp inside
  have there : name ∈ typeNames f := mem_typeNames.mpr (.inr ⟨_, inside, named⟩)
  refine ⟨(resolveEnum settings.extensionPackage name (declaredEnumAt f path e)).1, ?_, rfl, rfl⟩
  rw [enum?, bare name (List.mem_flatMap.mpr ⟨f, part_reachedFiles f reached, there⟩), built.enums_eq]
  exact WellKnown.get?_addTo_of_declared ((get?_enums_iff types part_reachedFiles).mpr
    ⟨f, reached, path, e, declares, named, rfl⟩)

end Listed

def circle : Schema.FileSet :=
  ⟨[⟨"c.proto", "c", ["a.proto"], [.ofFields "Unused" [] []], [], none, none⟩,
    ⟨"a.proto", "a", ["b.proto", "google/protobuf/empty.proto"],
      [{ Schema.Message.ofFields "Outer" [.ofMessage "inner" ".b.Inner" []] [] with
        nested := [.ofEntry "TagsEntry" (.ofKind "value" .int32 []),
          { Schema.Message.ofFields "Middle" [] [] with nested := [.ofFields "Core" [] []] }]
        enums := [⟨"State", [⟨"OFF", 0, none⟩], none⟩] }], [], none, none⟩,
    ⟨"b.proto", "b", ["gone.proto", "a.proto"], [.ofFields "Inner" [] []], [], none, none⟩]⟩

theorem build_endsWell_circle : (circle.files.map (·.name)).Nodup ∧ (circle.files.flatMap typeNames).Nodup ∧
    (∃ index, build circle ["a.proto"] .default = .ok index ∧ index.files.map (·.name) = ["a.proto", "b.proto"] ∧
      index.files.map (·.messages) = [["a.Outer", "a.Outer.Middle", "a.Outer.Middle.Core"], ["b.Inner"]]) ∧
    EndsWell circle ["a.proto"] .default (build circle ["a.proto"] .default) :=
  have names : (circle.files.map (·.name)).Nodup := by decide
  have types : (circle.files.flatMap typeNames).Nodup := by decide +kernel
  ⟨names, types, exists_ok (fun index : Index => index.files.map (·.name) = ["a.proto", "b.proto"] ∧
    index.files.map (·.messages) = [["a.Outer", "a.Outer.Middle", "a.Outer.Middle.Core"], ["b.Inner"]])
    (by decide +kernel), build_endsWell names types⟩

end Index

end Wireform
