import Mathlib.Data.List.Perm.Basic
import Wireform.Proofs.Evaluation
import Wireform.Proofs.IndexContents
import Wireform.Proofs.ReadDirectives

set_option autoImplicit false

namespace Wireform

namespace Index

def reportAt {α : Type} (d : Declared α) (element : String) (malformed : Malformed) : Finding :=
  ⟨d.file.name, d.fullName, element, .malformed malformed⟩

def messageReports (package : String) (d : Declared Schema.Message) : List Finding :=
  (d.declaration.fields.flatMap fun f =>
      (Directive.catalogue.filterMap (Directive.malformed? f.options package)).map (reportAt d f.name))
    ++ (realOneofs d.declaration).filterMap fun entry =>
      (Directive.malformed? entry.1.options package .oneofConfig).map (reportAt d entry.1.name)

def enumReports (package : String) (d : Declared Schema.Enum) : List Finding :=
  d.declaration.values.filterMap fun v =>
    (Directive.malformed? v.options package .enumValue).map (reportAt d v.name)

def malformedReports (files : List Schema.File) (package : String) : List Finding :=
  files.flatMap fun file =>
    ((messagesOf file).filter fun d => !d.declaration.isMapEntry).flatMap (messageReports package)
      ++ (enumsOf file).flatMap (enumReports package)

section Findings

variable (all : Declarations) (package : String)

theorem kind_of_isType {issue : Issue} (about : issue.isType = true) : issue.kind = .unresolvedReference := by
  cases issue with
  | undefinedType _ | unimportedType _ _ | badMapEntry _ _ => rfl
  | _ => cases about

theorem filter_field {α : Type} (d : Declared α) (message : Schema.Message) (field : Schema.Field) :
    ((resolveField all package message field).2.map fun issue =>
        (⟨d.file.name, d.fullName, field.name, issue⟩ : Finding)).filter (·.kind = .incompatibleDirective) =
      (Directive.catalogue.filterMap (Directive.malformed? field.options package)).map (reportAt d field.name) := by
  have malformed (ms : List Malformed) : ((ms.map Issue.malformed).map fun issue =>
      (⟨d.file.name, d.fullName, field.name, issue⟩ : Finding)).filter (·.kind = .incompatibleDirective) =
        ms.map (reportAt d field.name) := by
    rw [List.map_map, List.filter_eq_self.mpr]
    · rfl
    · intro finding inside
      obtain ⟨m, _, rfl⟩ := List.mem_map.mp inside
      rfl
  rw [← Annotations.problems_ofField, ← malformed, resolveField]
  cases shaped : shapeOf all field with
  | ok shape => rfl
  | error issue =>
    -- What else is found in a field is a problem with its type.
    have other : (⟨d.file.name, d.fullName, field.name, issue⟩ : Finding).kind ≠ .incompatibleDirective := by
      rw [Finding.kind, kind_of_isType (isType_of_shapeOf shaped)]
      decide
    simp only [List.singleton_append, List.map_cons]
    rw [List.filter_cons_of_neg (by simpa using other)]

theorem filter_reports {α β : Type} (d : Declared α) (elements : List β) {report? : β → Option Finding}
    (reports : ∀ x finding, report? x = some finding → ∃ name malformed, finding = reportAt d name malformed) :
    (elements.filterMap report?).filter (·.kind = .incompatibleDirective) = elements.filterMap report? := by
  refine List.filter_eq_self.mpr fun finding inside => ?_
  obtain ⟨x, _, made⟩ := List.mem_filterMap.mp inside
  obtain ⟨name, malformed, rfl⟩ := reports x finding made
  rfl

theorem filter_message (d : Declared Schema.Message) :
    (resolveMessage all package d.fullName d).2.filter (·.kind = .incompatibleDirective) =
      messageReports package d := by
  have problems : (resolveMessage all package d.fullName d).2 =
      (d.declaration.fields.flatMap fun f => (resolveField all package d.declaration f).2.map fun issue =>
          (⟨d.file.name, d.fullName, f.name, issue⟩ : Finding))
        ++ (realOneofs d.declaration).filterMap fun entry =>
          (Directive.malformed? entry.1.options package .oneofConfig).map (reportAt d entry.1.name) := by
    simp only [resolveMessage, List.flatMap_map, List.filterMap_map, Function.comp_def, OneofConfig.problem?_ofOneof]
    rfl
  rw [problems, List.filter_append, List.filter_flatMap, filter_reports d _ fun entry finding made => ?_]
  · simp only [filter_field, messageReports]
  · obtain ⟨m, _, rfl⟩ := Option.map_eq_some_iff.mp made
    exact ⟨_, _, rfl⟩

theorem filter_enum (d : Declared Schema.Enum) :
    (resolveEnum package d.fullName d).2.filter (·.kind = .incompatibleDirective) = enumReports package d := by
  have problems : (resolveEnum package d.fullName d).2 = enumReports package d := by
    simp only [resolveEnum, enumReports, List.filterMap_map, Function.comp_def, problem?_customName]
    rfl
  rw [problems, enumReports, filter_reports d _ fun v finding made => ?_]
  obtain ⟨m, _, rfl⟩ := Option.map_eq_some_iff.mp made
  exact ⟨_, _, rfl⟩

end Findings

section Build

variable {set : Schema.FileSet} {targets : List String} {settings : Settings} {index : Index}

theorem filter_imports (reached : List String) :
    (Imports.problems set reached).filter (·.kind = .incompatibleDirective) = [] := by
  refine List.filter_eq_nil_iff.mpr fun finding inside => ?_
  obtain ⟨_, _, there⟩ := List.mem_flatMap.mp inside
  obtain ⟨_, _, rfl⟩ := List.mem_map.mp there
  simp [Finding.kind, Issue.kind]

theorem reports_perm {α : Type} {of : Schema.File → List (Declared α)}
    (typed : ∀ f, ((of f).map (·.fullName)).Sublist (typeNames f)) {files : List Schema.File}
    (types : (files.flatMap typeNames).Nodup) (keep : Declared α → Bool) (found : String → Declared α → List Finding)
    {reports : Declared α → List Finding}
    (same : ∀ d, (found d.fullName d).filter (·.kind = .incompatibleDirective) = reports d) :
    ((((KeyMap.ofList ((files.flatMap of).map fun d => (d.fullName, d))).entries.filter
        fun entry => keep entry.2).flatMap fun entry => found entry.1 entry.2).filter
          (·.kind = .incompatibleDirective)).Perm
      (files.flatMap fun file => ((of file).filter keep).flatMap reports) := by
  have distinct : (((files.flatMap of).map fun d => (d.fullName, d)).map (·.1)).Nodup := by
    rw [List.map_map, List.map_flatMap]
    exact types.sublist (List.Sublist.flatMap_right _ fun f _ => typed f)
  rw [List.filter_flatMap]
  refine (((KeyMap.entries_ofList_perm distinct).filter _).flatMap_right _).trans (.of_eq ?_)
  simp only [List.filter_map, List.flatMap_map, List.filter_flatMap, List.flatMap_assoc, Function.comp_def, same]

theorem malformed_perm (run : build set targets settings = .ok index)
    (types : ((reachedFiles set targets).flatMap typeNames).Nodup) :
    (index.problems.filter (·.kind = .incompatibleDirective)).Perm
      (malformedReports (reachedFiles set targets) settings.extensionPackage) := by
  have messages := reports_perm sublist_messages types (fun d => !d.declaration.isMapEntry)
    (fun name d => (resolveMessage (declarations set (reachedFiles set targets)) settings.extensionPackage name d).2)
    (filter_message _ _)
  have enums := reports_perm sublist_enums types (fun _ => true)
    (fun name d => (resolveEnum settings.extensionPackage name d).2) (filter_enum _)
  rw [List.filter_true] at enums
  rw [problems_of_build run, List.filter_append, List.filter_append, filter_imports, List.nil_append, resolvedMessages,
    resolvedEnums, List.flatMap_map, List.flatMap_map]
  -- Problems are listed by messages and then by enums, reports by files.
  refine (messages.append enums).trans ?_
  simp only [List.filter_true]
  exact List.flatMap_append_perm _ _ _

end Build

/-- Malformed directives are isolated. Of a field, each is reported, in the order of the catalogue; it has its default,
and nothing else changes if its key is taken away; and other options do not matter. Building an index finds each once in
the files that the run reaches, at its field, oneof or enum value, except in the entry types of maps. -/
theorem malformed_directives_isolated (package : String) :
    (∀ field, (Annotations.ofField package field).2 =
      Directive.catalogue.filterMap (Directive.malformed? field.options package)) ∧
    (∀ field, ∀ directive ∈ Directive.catalogue, ∀ malformed,
      directive.malformed? field.options package = some malformed →
        (Annotations.ofField package field).1.SameAt .none directive ∧
        Annotations.ofField package (field.without package directive) =
          ((Annotations.ofField package field).1,
            (Annotations.ofField package field).2.filter (·.directive ≠ directive))) ∧
    (∀ a b : Schema.Field, (∀ directive ∈ Directive.catalogue,
        a.options.bind (·.get? (directive.key package)) = b.options.bind (·.get? (directive.key package))) →
      Annotations.ofField package a = Annotations.ofField package b) ∧
    ∀ set targets settings index, build set targets settings = .ok index →
      ((reachedFiles set targets).flatMap typeNames).Nodup →
        (index.problems.filter (·.kind = .incompatibleDirective)).Perm
          (malformedReports (reachedFiles set targets) settings.extensionPackage) := by
  refine ⟨Annotations.problems_ofField package, fun field directive _ malformed bad => ⟨?_, ?_⟩,
    fun a b => Annotations.ofField_congr package, fun set targets settings index run types => malformed_perm run types⟩
  · obtain ⟨raw, given, refused, _⟩ := Directive.malformed?_eq_some_iff.mp bad
    exact Annotations.sameAt_none package fun value there => by cases given.symm.trans there; exact refused
  · exact Annotations.ofField_without bad

def weight : Schema.Field := .ofKind "weight" .int64 [("int64_encoding", .str "WIDE"), ("nullable", .bool true)]

def notedWeight : Schema.Field :=
  .ofKind "weight" .int64 [("int64_encoding", .str "WIDE"), ("nullable", .bool true), ("note", .str "in grams")]

def toolbox : Schema.FileSet :=
  .ofTypes [.ofFields "Tool" [weight, .ofMember "handle" .string 0]
      [⟨"grip", some (KeyMap.ofList [("[sebuf.http.oneof_config]", .obj [("flatten", .bool true)])])⟩]]
    [.ofNames "Kind" [("HAMMER", ""), ("SAW", "saw")]]

set_option synthInstance.maxSize 1000 in
theorem toolbox_isolated : ∃ index, build toolbox [] .default = .ok index ∧
    ((reachedFiles toolbox []).flatMap typeNames).Nodup ∧
    (index.problems.filter (·.kind = .incompatibleDirective)).Perm
      (malformedReports (reachedFiles toolbox []) Settings.default.extensionPackage) ∧
    (malformedReports (reachedFiles toolbox []) Settings.default.extensionPackage).map
        (fun f => (f.message, f.field, f.directive)) =
      [("t.Tool", "weight", "int64_encoding"), ("t.Tool", "grip", "oneof_config"), ("t.Kind", "HAMMER", "enum_value")] ∧
    (Annotations.ofField "sebuf.http" weight).1.SameAt .none .int64Encoding ∧
    (Annotations.ofField "sebuf.http" (weight.without "sebuf.http" .int64Encoding)).1 =
      (Annotations.ofField "sebuf.http" weight).1 ∧
    (Annotations.ofField "sebuf.http" weight).1.nullable = true ∧
    Annotations.ofField "sebuf.http" notedWeight = Annotations.ofField "sebuf.http" weight := by
  obtain ⟨_, isolates, congr, reports⟩ := malformed_directives_isolated "sebuf.http"
  have types : ((reachedFiles toolbox []).flatMap typeNames).Nodup := by decide +kernel
  obtain ⟨index, run, _⟩ := exists_ok (fun _ => True)
    (show (build toolbox [] .default).toOption.any _ = true by decide +kernel)
  have refused : (Directive.malformed? weight.options "sebuf.http" .int64Encoding).isSome = true := by decide +kernel
  obtain ⟨malformed, bad⟩ := Option.isSome_iff_exists.mp refused
  obtain ⟨default, without⟩ := isolates weight .int64Encoding (by decide) malformed bad
  exact ⟨index, run, types, reports _ _ _ _ run types, by decide +kernel, default, by rw [without],
    by decide +kernel, congr _ _ (by decide +kernel)⟩

def strayFiles : Schema.FileSet :=
  let stray : Schema.Field := .ofKind "n" .int64 [("int64_encoding", .str "WIDE")]
  let entry : Schema.Message := ⟨"LabelsEntry", [.ofMember "key" .string 0, .ofMember "value" .string 0], [], [],
    [⟨"pick", some (KeyMap.ofList [("[sebuf.http.oneof_config]", .bool true)])⟩],
    some (KeyMap.ofList [("mapEntry", .bool true)])⟩
  ⟨[⟨"a.proto", "a", [], [⟨"Shelf", [], [entry], [], [], none⟩], [], none, none⟩,
    ⟨"b.proto", "b", [], [.ofFields "Stray" [stray] []], [], none, none⟩]⟩

set_option synthInstance.maxSize 1000 in
/-- Malformed directives on the oneof of an entry type and in a file that the targets do not reach are not reported. -/
theorem strays_unreported : (strayFiles.files.flatMap typeNames).Nodup ∧
    (strayFiles.files.flatMap messagesOf).map (fun d => (d.fullName, d.declaration.isMapEntry,
        d.declaration.fields.flatMap fun f =>
          (Directive.catalogue.filterMap (Directive.malformed? f.options "sebuf.http")).map (·.directive),
        (realOneofs d.declaration).filterMap fun entry =>
          (Directive.malformed? entry.1.options "sebuf.http" .oneofConfig).map (·.directive))) =
      [("a.Shelf", false, [], []), ("a.Shelf.LabelsEntry", true, [], [.oneofConfig]),
        ("b.Stray", false, [.int64Encoding], [])] ∧
    ∃ index, build strayFiles ["a.proto"] .default = .ok index ∧ index.problems.length = 0 :=
  ⟨by decide +kernel, by decide +kernel, exists_ok (fun index : Index => index.problems.length = 0)
    (show (build strayFiles ["a.proto"] .default).toOption.any _ = true by decide +kernel)⟩

end Index

end Wireform
