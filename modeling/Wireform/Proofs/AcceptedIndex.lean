import Wireform.Proofs.Basic
import Wireform.Proofs.KeyMaps
import Wireform.Proofs.ResolvedMessages
import Wireform.Run

/-!
What is known of the index of a run that finds no errors: every type in it was resolved and checked, and goes by its
own name. What a run ends with follows from the index that is built and from what its report says.
-/

set_option autoImplicit false

namespace Wireform

namespace Index

structure Keyed (index : Index) : Prop where
  named : ∀ key m, index.messages.get? key = some m → m.fullName = key
  enumNamed : ∀ key e, index.enums.get? key = some e → e.fullName = key
  wellKnown : ∀ key m, index.messages.get? key = some m → m.wellKnown = WellKnown.isMessage key
  wellFormed : ∀ name m, index.message? name = some m → m.WellFormed

structure Sound (index : Index) : Prop extends Keyed index where
  resolved : ∀ name m, index.message? name = some m → ∀ f ∈ m.fields, f.unresolved = false
  errors : ∀ name m, index.message? name = some m → m.errors index = []
  enumErrors : ∀ name e, index.enum? name = some e → e.errors = []

section Declared

variable {set : Schema.FileSet} {files : List Schema.File} {package : String}

theorem mem_declared_messages {name : String} {d : Declared Schema.Message}
    (found : (declarations set files).messages.get? name = some d) :
    d.fullName = name ∧ ∃ file ∈ files, d ∈ messagesOf file := by
  obtain ⟨other, inside, same⟩ := List.mem_map.mp (KeyMap.mem_of_get?_ofList found)
  obtain ⟨rfl, rfl⟩ := Prod.mk.inj same
  exact ⟨rfl, List.mem_flatMap.mp inside⟩

theorem mem_declared_enums {name : String} {d : Declared Schema.Enum}
    (found : (declarations set files).enums.get? name = some d) :
    d.fullName = name ∧ ∃ file ∈ files, d ∈ enumsOf file := by
  obtain ⟨other, inside, same⟩ := List.mem_map.mp (KeyMap.mem_of_get?_ofList found)
  obtain ⟨rfl, rfl⟩ := Prod.mk.inj same
  exact ⟨rfl, List.mem_flatMap.mp inside⟩

def resolvedMessages (set : Schema.FileSet) (files : List Schema.File) (package : String) :
    List (Message × List Finding) :=
  ((declarations set files).messages.entries.filter fun (_, d) => !d.declaration.isMapEntry).map
    fun (name, d) => resolveMessage (declarations set files) package name d

def resolvedEnums (set : Schema.FileSet) (files : List Schema.File) (package : String) :
    List (Enum × List Finding) :=
  (declarations set files).enums.entries.map fun (name, d) => resolveEnum package name d

theorem mem_messages {key : String} {m : Message}
    (found : (WellKnown.addTo WellKnown.message WellKnown.messages
      (KeyMap.ofList ((resolvedMessages set files package).map fun (m, _) => (m.fullName, m)))).get? key =
        some m) :
    (∃ d, m = (resolveMessage (declarations set files) package key d).1 ∧
      (resolveMessage (declarations set files) package key d) ∈ resolvedMessages set files package ∧
      d.declaration.isMapEntry = false ∧ d.fullName = key ∧ ∃ file ∈ files, d ∈ messagesOf file) ∨
    ∃ file, (key, file) ∈ WellKnown.messages ∧ m = WellKnown.message key file := by
  rcases WellKnown.get?_addTo found with declared | ⟨file, listed, made⟩
  · refine .inl ?_
    obtain ⟨⟨other, findings⟩, inside, same⟩ := List.mem_map.mp (KeyMap.mem_of_get?_ofList declared)
    obtain ⟨rfl, rfl⟩ := Prod.mk.inj same
    obtain ⟨⟨name, d⟩, picked, resolved⟩ := List.mem_map.mp inside
    replace resolved : resolveMessage (declarations set files) package name d = (other, findings) := resolved
    obtain ⟨entry, plain⟩ := List.mem_filter.mp picked
    obtain ⟨full, there⟩ := mem_declared_messages (KeyMap.mem_entries.mp entry)
    have same : other = (resolveMessage (declarations set files) package name d).1 := by
      rw [resolved]
    have key : other.fullName = name := by rw [same]; rfl
    rw [key]
    exact ⟨d, same, resolved ▸ inside, by simpa using plain, full, there⟩
  · exact .inr ⟨file, listed, made⟩

theorem mem_enums {key : String} {e : Enum}
    (found : (WellKnown.addTo WellKnown.enum WellKnown.enums
      (KeyMap.ofList ((resolvedEnums set files package).map fun (e, _) => (e.fullName, e)))).get? key =
        some e) :
    (∃ d, e = (resolveEnum package key d).1 ∧ d.fullName = key ∧ ∃ file ∈ files, d ∈ enumsOf file) ∨
    ∃ file, e = WellKnown.enum key file := by
  rcases WellKnown.get?_addTo found with declared | ⟨file, _, made⟩
  · refine .inl ?_
    obtain ⟨⟨other, findings⟩, inside, same⟩ := List.mem_map.mp (KeyMap.mem_of_get?_ofList declared)
    obtain ⟨rfl, rfl⟩ := Prod.mk.inj same
    obtain ⟨⟨name, d⟩, entry, resolved⟩ := List.mem_map.mp inside
    replace resolved : resolveEnum package name d = (other, findings) := resolved
    obtain ⟨full, there⟩ := mem_declared_enums (KeyMap.mem_entries.mp entry)
    have same : other = (resolveEnum package name d).1 := by rw [resolved]
    have key : other.fullName = name := by rw [same]; rfl
    rw [key]
    exact ⟨d, same, full, there⟩
  · exact .inr ⟨file, made⟩

end Declared

structure BuiltFrom (index : Index) (set : Schema.FileSet) (files : List Schema.File)
    (roots : List String) (package : String) : Prop where
  files_eq : index.files = files.map (resolveFile roots)
  messages_eq : index.messages = WellKnown.addTo WellKnown.message WellKnown.messages
    (KeyMap.ofList ((resolvedMessages set files package).map fun (m, _) => (m.fullName, m)))
  enums_eq : index.enums = WellKnown.addTo WellKnown.enum WellKnown.enums
    (KeyMap.ofList ((resolvedEnums set files package).map fun (e, _) => (e.fullName, e)))
  problems : ∀ finding ∈ (resolvedMessages set files package).flatMap (·.2), finding ∈ index.problems

def reachedFiles (set : Schema.FileSet) (targets : List String) : List Schema.File :=
  set.files.filter fun f => (Imports.closure set (rootsOf set targets)).contains f.name

section Build

variable {set : Schema.FileSet} {targets : List String} {settings : Settings} {index : Index}
  (run : build set targets settings = .ok index)

include run

theorem problems_of_build : index.problems =
    Imports.problems set (Imports.closure set (rootsOf set targets))
      ++ (resolvedMessages set (reachedFiles set targets) settings.extensionPackage).flatMap (·.2)
      ++ (resolvedEnums set (reachedFiles set targets) settings.extensionPackage).flatMap (·.2) := by
  simp only [build] at run
  split at run
  · cases run
  · split at run
    · cases run
    · rw [← Except.ok.inj run]
      rfl

theorem built_of_build :
    index.BuiltFrom set (reachedFiles set targets) (rootsOf set targets) settings.extensionPackage := by
  have problems := problems_of_build run
  simp only [build] at run
  split at run
  · cases run
  · split at run
    · cases run
    · have made := Except.ok.inj run
      refine ⟨?_, ?_, ?_, fun finding inside => ?_⟩
      · rw [← made, reachedFiles]
      · rw [← made, resolvedMessages, reachedFiles]
      · rw [← made, resolvedEnums, reachedFiles]
      · rw [problems, List.mem_append, List.mem_append]
        exact .inl (.inr inside)

theorem maxDepth_of_build : index.maxDepth = settings.maxDepth := by
  simp only [build] at run
  split at run
  · cases run
  · split at run
    · cases run
    · rw [← Except.ok.inj run]

end Build

theorem resolved_of_problems {all : Declarations} {package fullName : String} {d : Declared Schema.Message}
    (clean : (resolveMessage all package fullName d).2 = []) :
    ∀ f ∈ (resolveMessage all package fullName d).1.fields, f.unresolved = false := by
  intro f inside
  obtain ⟨declared, declared_inside, rfl⟩ := mem_resolved_fields.mp inside
  simp only [resolveMessage, List.append_eq_nil_iff, List.flatMap_eq_nil_iff, List.map_eq_nil_iff] at clean
  have issues := clean.1 _ (List.mem_map.mpr ⟨declared, declared_inside, rfl⟩)
  simp only [resolveField, List.append_eq_nil_iff] at issues ⊢
  rw [issues.1]
  rfl

theorem builtIn_errors (index : Index) (name file : String) :
    (WellKnown.message name file).errors index = [] := rfl

theorem builtIn_wellFormed (name file : String) : (WellKnown.message name file).WellFormed where
  typeName _ inside := nomatch inside
  enumName _ inside := nomatch inside
  members _ inside := nomatch inside
  member _ inside := nomatch inside
  owned _ inside := nomatch inside
  presence _ inside := nomatch inside
  apart _ _ inside := nomatch inside

theorem builtIn_enum_errors (name file : String) : (WellKnown.enum name file).errors = [] := rfl

section Report

variable {index : Index}

theorem report_errors : index.report.errors = index.problems ++ index.files.flatMap fun file =>
    (index.messagesIn file).flatMap (Message.errors index)
      ++ (index.enumsIn file).flatMap Enum.errors := rfl

theorem problems_of_report (clean : index.report.errors = []) : index.problems = [] := by
  rw [report_errors] at clean
  exact (List.append_eq_nil_iff.mp clean).1

theorem message_errors_of_report (clean : index.report.errors = []) {file : File}
    (inside : file ∈ index.files) {m : Message} (there : m ∈ index.messagesIn file) :
    m.errors index = [] := by
  rw [report_errors] at clean
  have each := List.flatMap_eq_nil_iff.mp (List.append_eq_nil_iff.mp clean).2 file inside
  exact List.flatMap_eq_nil_iff.mp (List.append_eq_nil_iff.mp each).1 m there

theorem enum_errors_of_report (clean : index.report.errors = []) {file : File}
    (inside : file ∈ index.files) {e : Enum} (there : e ∈ index.enumsIn file) : e.errors = [] := by
  rw [report_errors] at clean
  have each := List.flatMap_eq_nil_iff.mp (List.append_eq_nil_iff.mp clean).2 file inside
  exact List.flatMap_eq_nil_iff.mp (List.append_eq_nil_iff.mp each).2 e there

end Report

theorem keyed_of_built {index : Index} {set : Schema.FileSet} {files : List Schema.File}
    {roots : List String} {package : String} (built : index.BuiltFrom set files roots package) :
    index.Keyed := by
  have message {key : String} {m : Message} (found : index.messages.get? key = some m) :=
    mem_messages (built.messages_eq ▸ found)
  have enum {key : String} {e : Enum} (found : index.enums.get? key = some e) :=
    mem_enums (built.enums_eq ▸ found)
  refine { named := ?_, enumNamed := ?_, wellKnown := ?_, wellFormed := ?_ }
  · intro key m found
    rcases message found with ⟨d, rfl, _⟩ | ⟨file, _, rfl⟩ <;> rfl
  · intro key e found
    rcases enum found with ⟨d, rfl, _⟩ | ⟨file, rfl⟩ <;> rfl
  · intro key m found
    rcases message found with ⟨d, rfl, _⟩ | ⟨file, listed, rfl⟩
    · rfl
    · exact (List.any_eq_true.mpr ⟨_, listed, by simp⟩).symm
  · intro name m found
    rcases message found with ⟨d, rfl, _⟩ | ⟨file, _, rfl⟩
    · exact resolveMessage_wellFormed
    · exact builtIn_wellFormed _ file

theorem keyed_of_build {set : Schema.FileSet} {targets : List String} {settings : Settings}
    {index : Index} (run : build set targets settings = .ok index) : index.Keyed :=
  keyed_of_built (built_of_build run)

theorem sound_of_built {index : Index} {set : Schema.FileSet} {files : List Schema.File}
    {roots : List String} {package : String} (built : index.BuiltFrom set files roots package)
    (clean : index.report.errors = []) : index.Sound := by
  have message {key : String} {m : Message} (found : index.messages.get? key = some m) :=
    mem_messages (built.messages_eq ▸ found)
  have enum {key : String} {e : Enum} (found : index.enums.get? key = some e) :=
    mem_enums (built.enums_eq ▸ found)
  -- A type of the index stems from a declaration, which was checked, or is built in and has nothing to check.
  refine { keyed_of_built built with resolved := ?_, errors := ?_, enumErrors := ?_ }
  · intro name m found
    rcases message found with ⟨d, rfl, inside, _⟩ | ⟨file, _, rfl⟩
    · refine resolved_of_problems (List.eq_nil_iff_forall_not_mem.mpr fun finding there => ?_)
      have problem := built.problems finding (List.mem_flatMap.mpr ⟨_, inside, there⟩)
      rw [problems_of_report clean] at problem
      cases problem
    · intro f inside
      cases inside
  · intro name m found
    rcases message found with ⟨d, _, _, plain, full, file, there, declared⟩ | ⟨file, _, rfl⟩
    · have listed : resolveFile roots file ∈ index.files := by
        rw [built.files_eq]
        exact List.mem_map.mpr ⟨file, there, rfl⟩
      refine message_errors_of_report clean listed (List.mem_filterMap.mpr ⟨d.fullName, ?_, ?_⟩)
      · simp only [resolveFile, List.mem_map, List.mem_filter]
        exact ⟨d, ⟨declared, by simp [plain]⟩, rfl⟩
      · rw [message?, full, bareName_idempotent]
        exact found
    · exact builtIn_errors index _ file
  · intro name e found
    rcases enum found with ⟨d, _, full, file, there, declared⟩ | ⟨file, rfl⟩
    · have listed : resolveFile roots file ∈ index.files := by
        rw [built.files_eq]
        exact List.mem_map.mpr ⟨file, there, rfl⟩
      refine enum_errors_of_report clean listed (List.mem_filterMap.mpr ⟨d.fullName, ?_, ?_⟩)
      · simp only [resolveFile, List.mem_map]
        exact ⟨d, declared, rfl⟩
      · rw [enum?, full, bareName_idempotent]
        exact found
    · exact builtIn_enum_errors _ file

end Index

namespace Run

theorem compile_spec {set : Schema.FileSet} {files : List String} {settings : Settings}
    {compiled : Compiled} (run : compile set files settings = .ok compiled) :
    Index.build set files settings = .ok compiled.index ∧ compiled.index.report.errors = [] ∧
      compiled.plans = compiled.index.plans := by
  rw [compile] at run
  obtain ⟨index, built, run⟩ := bind_eq_ok run
  split at run
  · rename_i warnings reported
    cases Except.ok.inj run
    exact ⟨mapError_eq_ok built, by rw [reported], rfl⟩
  · cases run

theorem compile_of_clean {set : Schema.FileSet} {files : List String} {settings : Settings} {index : Index}
    (built : Index.build set files settings = .ok index) (clean : index.report.errors = []) :
    compile set files settings = .ok ⟨index, index.plans, index.report.warnings⟩ := by
  rw [compile, built]
  dsimp only [Except.mapError]
  rw [ok_bind]
  generalize index.report = report at clean ⊢
  obtain ⟨errors, warnings⟩ := report
  cases clean
  rfl

theorem sound_of_compile {set : Schema.FileSet} {files : List String} {settings : Settings}
    {compiled : Compiled} (run : compile set files settings = .ok compiled) : compiled.index.Sound := by
  obtain ⟨built, clean, _⟩ := compile_spec run
  exact Index.sound_of_built (Index.built_of_build built) clean

end Run

namespace Emit

def artifacts (targets : List Target) (index : Index) (plans : PlanSet) (settings : Settings) : List Artifact :=
  targets.flatMap fun target => index.targets.filterMap (render target index plans settings)

theorem emitWith_emitters (targets : List Target) (index : Index) (plans : PlanSet) (settings : Settings) :
    emitWith (targets.map emitterOf) index plans settings = .ok (artifacts targets index plans settings) := by
  have supported : (targets.map emitterOf).flatMap (unsupported index plans) = [] := by
    simp [unsupported, emitterOf]
  rw [emitWith, supported, List.flatMap_map]
  rfl

end Emit

namespace Run

theorem generate_eq (set : Schema.FileSet) (files : List String) (settings : Settings) :
    generate set files settings =
      match Index.build set files settings with
      | .error fault => .error (.unresolved fault)
      | .ok index =>
        match index.report.errors with
        | [] => ((Emit.emitWith (settings.effectiveTargets.map Emit.emitterOf) index index.plans settings).mapError
            Error.invalid).map fun artifacts => ⟨artifacts, index.plans, index.report.warnings⟩
        | first :: rest => .error (.invalid (first :: rest)) := by
  rw [generate, compile]
  cases Index.build set files settings with
  | error fault => rfl
  | ok index =>
    dsimp only [Except.mapError]
    rw [ok_bind]
    obtain ⟨errors, warnings⟩ := index.report
    cases errors with
    | nil =>
      rw [pure_bind, Compiled.emit]
      cases Emit.emitWith (settings.effectiveTargets.map Emit.emitterOf) index index.plans settings <;> rfl
    | cons first rest => rfl

end Run

end Wireform
