import Wireform.Proofs.Evaluation
import Wireform.Proofs.IndexContents
import Wireform.Proofs.ComponentKeys
import Wireform.TypeScript

set_option autoImplicit false

namespace Wireform

namespace TypeScript

def imported (imports : List Import) : List String :=
  (sortedTexts (imports.map (·.path))).flatMap fun path =>
    sortedTexts ((imports.filter (·.path == path)).map (·.ident))

section Sorted

variable {texts : List String}

theorem nodup_sortedTexts : (sortedTexts texts).Nodup := KeyMap.nodup_keys _

theorem mem_sortedTexts {text : String} : text ∈ sortedTexts texts ↔ text ∈ texts := by
  simp [sortedTexts, KeyMap.mem_keys_ofList]

end Sorted

section Imports

variable {imports : List Import}

theorem mem_imported {ident : String} : ident ∈ imported imports ↔ ∃ i ∈ imports, i.ident = ident := by
  simp only [imported, List.mem_flatMap, mem_sortedTexts, List.mem_map, List.mem_filter, beq_iff_eq]
  constructor
  · rintro ⟨path, _, i, ⟨inside, _⟩, rfl⟩
    exact ⟨i, inside, rfl⟩
  · rintro ⟨i, inside, rfl⟩
    exact ⟨i.path, ⟨i, inside, rfl⟩, i, ⟨inside, rfl⟩, rfl⟩

theorem nodup_imported (single : ∀ i ∈ imports, ∀ j ∈ imports, i.ident = j.ident → i.path = j.path) :
    (imported imports).Nodup := by
  refine List.nodup_flatMap.mpr ⟨fun path _ => nodup_sortedTexts, ?_⟩
  refine nodup_sortedTexts.imp fun {path other} differ ident here there => differ ?_
  simp only [mem_sortedTexts, List.mem_map, List.mem_filter, beq_iff_eq] at here there
  obtain ⟨i, ⟨inside, rfl⟩, rfl⟩ := here
  obtain ⟨j, ⟨among, rfl⟩, same⟩ := there
  exact single i inside j among same.symm

end Imports

namespace Context

variable (context : Context)

def references : List String :=
  (context.index.messagesIn context.file).flatMap fun m => context.messageReferences m

def declarations : List (String × String) :=
  (context.index.enumsIn context.file).map (fun e => (e.fullName, e.ident))
    ++ (context.index.messagesIn context.file).map fun m => (m.fullName, m.ident)

def identified : List (String × String) :=
  context.declarations ++ context.references.filterMap fun name =>
    (context.declared? name).map fun found => (Index.bareName name, found.1)

def places : List (String × String) :=
  (context.index.enumsIn context.file).map (fun e => (e.package, e.localName))
    ++ (context.index.messagesIn context.file).map (fun m => (m.package, m.localName))
    ++ context.references.filterMap context.index.place?

def introduced : List String := context.declarations.map (·.2) ++ imported context.imports

/-- Types that meet in a file and have the same local name are in the same package, and local names that differ do so
not only in where levels end. -/
structure NamesApart : Prop where
  packages : ∀ here ∈ context.places, ∀ there ∈ context.places, here.2 = there.2 → here.1 = there.1
  levels : ∀ here ∈ context.places, ∀ there ∈ context.places,
    Index.identOf here.2 = Index.identOf there.2 → here.2 = there.2

instance : Decidable context.NamesApart :=
  decidable_of_iff ((∀ here ∈ context.places, ∀ there ∈ context.places, here.2 = there.2 → here.1 = there.1) ∧
      ∀ here ∈ context.places, ∀ there ∈ context.places, Index.identOf here.2 = Index.identOf there.2 →
        here.2 = there.2)
    ⟨fun ⟨packages, levels⟩ => ⟨packages, levels⟩, fun apart => ⟨apart.packages, apart.levels⟩⟩

theorem declared?_eq_place (name : String) :
    (context.declared? name).map (·.1) = (context.index.place? name).map fun place => Index.identOf place.2 := by
  rw [declared?, Index.place?]
  cases context.index.message? name with
  | some m => rfl
  | none => cases context.index.enum? name <;> rfl

variable {context}

variable (keyed : context.index.Keyed) (qualified : context.index.Qualified)

include keyed qualified

theorem identified_eq :
    context.identified = context.places.map fun place => (Index.qualify place.1 place.2, Index.identOf place.2) := by
  rw [identified, declarations, places, List.map_append, List.map_append, List.map_map, List.map_map,
    List.map_filterMap]
  congr 1
  · congr 1
    · refine List.map_congr_left fun e inside => ?_
      obtain ⟨name, _, found⟩ := List.mem_filterMap.mp inside
      simp [keyed.enumNamed _ e found, qualified.enum _ e found, Index.Enum.ident]
    · refine List.map_congr_left fun m inside => ?_
      obtain ⟨name, _, found⟩ := List.mem_filterMap.mp inside
      simp [keyed.named _ m found, qualified.message _ m found, Index.Message.ident]
  · refine List.filterMap_congr fun name _ => ?_
    have same := congrArg (Option.map (Prod.mk (Index.bareName name))) (declared?_eq_place context name)
    rw [Option.map_map, Option.map_map] at same
    exact same.trans (Option.map_congr fun place placed => by simp [Index.qualify_of_place qualified placed])

theorem fullName_eq_of_ident (apart : context.NamesApart) {type other : String × String}
    (inside : type ∈ context.identified) (there : other ∈ context.identified) (same : type.2 = other.2) :
    type.1 = other.1 := by
  rw [identified_eq keyed qualified] at inside there
  obtain ⟨here, first, rfl⟩ := List.mem_map.mp inside
  obtain ⟨away, second, rfl⟩ := List.mem_map.mp there
  have localName := apart.levels here first away second same
  simp only [apart.packages here first away second localName, localName]

omit keyed qualified in
theorem declared?_bareName (name : String) : context.declared? (Index.bareName name) = context.declared? name := by
  simp only [declared?, Index.message?, Index.enum?, Index.bareName_idempotent]

omit keyed qualified in
theorem reference_of_import {i : Import} (inside : i ∈ context.imports) :
    ∃ name file, (Index.bareName name, i.ident) ∈ context.identified ∧ context.declared? name = some (i.ident, file) ∧
      file ≠ context.file.name ∧ i.path = ModulePath.relative context.file.name (Index.stemOf file ++ ".wire") := by
  obtain ⟨name, refers, given⟩ := List.mem_filterMap.mp inside
  rw [import?] at given
  split at given
  · cases given
  · next ident file found =>
    split at given
    · cases given
    · next other =>
      rw [← Option.some.inj given]
      refine ⟨name, file, List.mem_append_right _ (List.mem_filterMap.mpr ⟨name, refers, ?_⟩), found, other, ?_⟩
      · rw [found, Option.map_some]
      · dsimp only

theorem nodup_imports (apart : context.NamesApart) : (imported context.imports).Nodup := by
  refine nodup_imported fun i inside j among same => ?_
  obtain ⟨name, file, here, found, _, path⟩ := reference_of_import inside
  obtain ⟨other, module, there, found', _, path'⟩ := reference_of_import among
  have type : Index.bareName name = Index.bareName other :=
    fullName_eq_of_ident keyed qualified apart here there same
  rw [← declared?_bareName, type, declared?_bareName, found'] at found
  obtain ⟨_, rfl⟩ := Prod.mk.inj (Option.some.inj found)
  rw [path, path']

end Context

end TypeScript

namespace Index

open TypeScript

section Listed

variable {set : Schema.FileSet} {targets : List String} {settings : Settings} {index : Index}
  (run : build set targets settings = .ok index) (types : (set.files.flatMap typeNames).Nodup)
  (bare : ∀ name ∈ set.files.flatMap typeNames, bareName name = name) {file : File} (among : file ∈ index.files)

include run types among

theorem nodup_listed : (file.enums ++ file.messages).Nodup := by
  rw [(built_of_build run).files_eq] at among
  obtain ⟨f, reached, rfl⟩ := List.mem_map.mp among
  have distinct : (typeNames f).Nodup := (List.nodup_flatMap.mp types).1 f (part_reachedFiles f reached)
  refine (List.perm_append_comm.nodup_iff.mp distinct).sublist (List.Sublist.append_left ?_ _)
  exact List.filter_sublist.map _

include bare

theorem fullNames_declarations :
    (index.declarer file).declarations.map (·.1) = file.enums ++ file.messages := by
  rw [Context.declarations, List.map_append, List.map_map, List.map_map]
  simp only [declarer, enumsIn, messagesIn, List.map_filterMap]
  conv_rhs => rw [← List.filterMap_some (l := file.enums), ← List.filterMap_some (l := file.messages)]
  congr 1
  · refine List.filterMap_congr fun name listed => ?_
    obtain ⟨e, found, named, _⟩ := enum_of_listed run types bare among listed
    simp [found, named]
  · refine List.filterMap_congr fun name listed => ?_
    obtain ⟨m, found, named, _⟩ := message_of_listed run types bare among listed
    simp [found, named]

theorem message_of_messagesIn {m : Message} (inside : m ∈ index.messagesIn file) :
    index.message? m.fullName = some m ∧ m.file = file.name := by
  obtain ⟨name, listed, found⟩ := List.mem_filterMap.mp inside
  obtain ⟨other, there, rfl, home⟩ := message_of_listed run types bare among listed
  cases found.symm.trans there
  exact ⟨found, home⟩

theorem enum_of_enumsIn {e : Enum} (inside : e ∈ index.enumsIn file) :
    e.fullName ∈ file.enums ∧ index.enum? e.fullName = some e ∧ e.file = file.name := by
  obtain ⟨name, listed, found⟩ := List.mem_filterMap.mp inside
  obtain ⟨other, there, rfl, home⟩ := enum_of_listed run types bare among listed
  cases found.symm.trans there
  exact ⟨listed, found, home⟩

variable (unshadowed : ∀ name ∈ file.enums, index.message? name = none)

include unshadowed

theorem declared?_of_declarations {type : String × String} (declared : type ∈ (index.declarer file).declarations) :
    (index.declarer file).declared? type.1 = some (type.2, file.name) := by
  rw [Context.declared?, declarer]
  rcases List.mem_append.mp declared with enum | message
  · obtain ⟨e, inside, rfl⟩ := List.mem_map.mp enum
    obtain ⟨listed, found, home⟩ := enum_of_enumsIn run types bare among inside
    simp only [unshadowed _ listed, found, home, Option.map_some]
  · obtain ⟨m, inside, rfl⟩ := List.mem_map.mp message
    obtain ⟨found, home⟩ := message_of_messagesIn run types bare among inside
    simp only [found, home]

theorem nodup_introduced (keyed : index.Keyed) (qualified : index.Qualified)
    (apart : (index.declarer file).NamesApart) : (index.declarer file).introduced.Nodup := by
  have one {type other : String × String} (inside : type ∈ (index.declarer file).declarations)
      (there : other ∈ (index.declarer file).identified) (same : type.2 = other.2) : type.1 = other.1 :=
    Context.fullName_eq_of_ident keyed qualified apart (List.mem_append_left _ inside) there same
  refine List.nodup_append.mpr ⟨?declared, Context.nodup_imports keyed qualified apart, ?between⟩
  case declared =>
    have names : ((index.declarer file).declarations.map (·.1)).Nodup := by
      rw [fullNames_declarations run types bare among]
      exact nodup_listed run types among
    refine (List.Nodup.of_map _ names).map_on fun type inside other there same => ?_
    exact Prod.ext (one inside (List.mem_append_left _ there) same) same
  case between =>
    intro ident declared other imported same
    obtain ⟨type, inside, rfl⟩ := List.mem_map.mp declared
    obtain ⟨i, listed, rfl⟩ := mem_imported.mp imported
    obtain ⟨name, module, there, found, away, _⟩ := Context.reference_of_import listed
    have equal : type.1 = bareName name := one inside there same
    -- A type that the file declares is found there, and so needs no import.
    rw [← Context.declared?_bareName, ← equal,
      declared?_of_declarations run types bare among unshadowed inside] at found
    exact away (congrArg Prod.snd (Option.some.inj found)).symm

end Listed

end Index

namespace Run

open Index TypeScript

/-- Identifiers tell the types of a file apart. Where full names differ and have no points in front, and no enum of the
file goes by the name of a built-in message, the text introduces no identifier twice. -/
theorem type_names_unambiguous {set : Schema.FileSet} {files : List String} {settings : Settings} {compiled : Compiled}
    (run : compile set files settings = .ok compiled) {file : File} (among : file ∈ compiled.index.files)
    (apart : Context.NamesApart ⟨compiled.index, compiled.plans, file⟩) :
    (∀ type ∈ Context.identified ⟨compiled.index, compiled.plans, file⟩,
      ∀ other ∈ Context.identified ⟨compiled.index, compiled.plans, file⟩, type.2 = other.2 → type.1 = other.1) ∧
    ((set.files.flatMap typeNames).Nodup → (∀ name ∈ set.files.flatMap typeNames, bareName name = name) →
      (∀ name ∈ file.enums, compiled.index.message? name = none) →
        (Context.introduced ⟨compiled.index, compiled.plans, file⟩).Nodup) := by
  have keyed := (sound_of_compile run).toKeyed
  have qualified := qualified_of_compile run
  obtain ⟨built, _, plans⟩ := compile_spec run
  rw [plans] at apart ⊢
  exact ⟨fun type inside other there => Context.fullName_eq_of_ident keyed qualified apart inside there,
    fun types bare unshadowed => nodup_introduced built types bare among unshadowed keyed qualified apart⟩

def depotWith (part : String) : Schema.FileSet :=
  ⟨[⟨"a.proto", "a", ["b.proto"],
      [.ofFields part [.ofKind "text" .string []] [],
        .ofFields "Crate" [.ofMessage "part" (".a." ++ part) [], .repeating (.ofMessage "labels" ".b.Label" [])] []],
      [⟨"Size", [⟨"SMALL", 0, none⟩], none⟩], none, none⟩,
    ⟨"b.proto", "b", [], [.ofFields "Label" [.ofKind "size" .int32 []] []], [], none, none⟩]⟩

set_option synthInstance.maxSize 1000 in
theorem type_names_unambiguous_depot : ∃ compiled, compile (depotWith "Lid") [] .default = .ok compiled ∧
    ∃ file ∈ compiled.index.files,
      Context.identified ⟨compiled.index, compiled.plans, file⟩ =
        [("a.Size", "Size"), ("a.Lid", "Lid"), ("a.Crate", "Crate"), ("a.Lid", "Lid"), ("b.Label", "Label")] ∧
      (∀ type ∈ Context.identified ⟨compiled.index, compiled.plans, file⟩,
        ∀ other ∈ Context.identified ⟨compiled.index, compiled.plans, file⟩, type.2 = other.2 → type.1 = other.1) ∧
      (Context.introduced ⟨compiled.index, compiled.plans, file⟩).Nodup := by
  have types : ((depotWith "Lid").files.flatMap typeNames).Nodup := by decide +kernel
  have bare : ∀ name ∈ (depotWith "Lid").files.flatMap typeNames, bareName name = name := by decide +kernel
  obtain ⟨compiled, run, file, among, apart, unshadowed, identified⟩ := exists_compiled
    (fun compiled => ∃ file ∈ compiled.index.files, Context.NamesApart ⟨compiled.index, compiled.plans, file⟩ ∧
      (∀ name ∈ file.enums, (compiled.index.message? name).isNone = true) ∧
      Context.identified ⟨compiled.index, compiled.plans, file⟩ =
        [("a.Size", "Size"), ("a.Lid", "Lid"), ("a.Crate", "Crate"), ("a.Lid", "Lid"), ("b.Label", "Label")])
    (show (compile (depotWith "Lid") [] .default).toOption.any _ = true by decide +kernel)
  obtain ⟨unambiguous, once⟩ := type_names_unambiguous run among apart
  exact ⟨compiled, run, file, among, identified, unambiguous,
    once types bare fun name inside => Option.isNone_iff_eq_none.mp (unshadowed name inside)⟩

/-- Two types of a set meet in a file, where they have one identifier. -/
def Confuses (set : Schema.FileSet) (first second ident : String) : Prop :=
  (set.files.flatMap typeNames).Nodup ∧ first ≠ second ∧ ∃ compiled, compile set [] .default = .ok compiled ∧
    ∃ file ∈ compiled.index.targets,
      (first, ident) ∈ Context.identified ⟨compiled.index, compiled.plans, file⟩ ∧
      (second, ident) ∈ Context.identified ⟨compiled.index, compiled.plans, file⟩

set_option synthInstance.maxSize 1000 in
theorem confuses_of_run {set : Schema.FileSet} {first second ident : String}
    (types : (set.files.flatMap typeNames).Nodup) (differ : first ≠ second)
    (check : (compile set [] .default).toOption.any (fun compiled => decide
      (∃ file ∈ compiled.index.targets,
        (first, ident) ∈ Context.identified ⟨compiled.index, compiled.plans, file⟩ ∧
        (second, ident) ∈ Context.identified ⟨compiled.index, compiled.plans, file⟩)) = true) :
    Confuses set first second ident :=
  ⟨types, differ, exists_compiled _ check⟩

def boxes : Schema.FileSet :=
  .ofMessages [{ Schema.Message.ofFields "Box" [.ofMessage "lid" ".t.Box.Lid" []] [] with
      nested := [.ofFields "Lid" [.ofKind "text" .string []] []] },
    .ofFields "Box_Lid" [.ofKind "size" .int32 []] []]

/-- Types of one local name in different packages are confused, and so are local names in which a point stands against
an underscore. -/
theorem types_confused : Confuses (depotWith "Label") "a.Label" "b.Label" "Label" ∧
    Confuses boxes "t.Box.Lid" "t.Box_Lid" "Box_Lid" :=
  ⟨confuses_of_run (by decide +kernel) (by decide) (by decide +kernel),
    confuses_of_run (by decide +kernel) (by decide) (by decide +kernel)⟩

end Run

end Wireform
