import Wireform.Proofs.AcceptedIndex
import Wireform.Proofs.Evaluation

set_option autoImplicit false

namespace Wireform

namespace WellKnown

theorem get?_addTo_isSome {α : Type} {make : String → String → α} {builtIn : List (String × String)} {declared : KeyMap α}
    {key : String} : ((addTo make builtIn declared).get? key).isSome = true ↔
      (declared.get? key).isSome = true ∨ builtIn.any (·.1 == key) = true := by
  induction builtIn generalizing declared with
  | nil => simp [addTo]
  | cons entry rest ih =>
    obtain ⟨name, file⟩ := entry
    rw [addTo, List.foldl_cons]
    refine ih.trans ?_
    rw [List.any_cons, Bool.or_eq_true, ← or_assoc]
    refine or_congr_left ?_
    dsimp only
    by_cases there : declared.contains name = true
    · rw [if_pos there]
      refine (or_iff_left_of_imp fun same => ?_).symm
      rw [← beq_iff_eq.mp same]
      exact there
    · rw [if_neg there, KeyMap.get?_insert]
      by_cases same : name = key <;> simp [same]

end WellKnown

def Issue.aboutType (issue : Issue) : Bool := issue.kind == .unresolvedReference && issue.directive == "type"

namespace Index

def namedType (field : Schema.Field) : ValueType :=
  match Scalar.ofKind? field.kind with
  | some scalar => .scalar scalar
  | none => if field.kind = .enum then .enum (field.typeRef?.getD "") else .message (field.typeRef?.getD "")

theorem bareNames_namedType (field : Schema.Field) : ValueType.BareNames (namedType field) := by
  rw [namedType]
  split
  · trivial
  · split <;> exact bareName_typeRef field

def Has (index : Index) : ValueType → Prop
  | .scalar _ => True
  | .enum name => index.enum? name ≠ none
  | .message name => index.message? name ≠ none

namespace Declarations

variable (all : Declarations)

def entry? (field : Schema.Field) : Option (Declared Schema.Message) :=
  match namedType field with
  | .message name =>
    if field.label = .repeated then (all.messages.get? name).filter (·.declaration.isMapEntry) else none
  | _ => none

def holder? (field : Schema.Field) : Option Schema.Field :=
  match all.entry? field with
  | some entry => entry.declaration.fields.find? (·.number == 2)
  | none => some field

/-- A map has a key and values, and entry types are those of maps only. -/
structure TidyField (field : Schema.Field) : Prop where
  keyed : ∀ entry ∈ all.entry? field,
    ((entry.declaration.fields.find? (·.number == 1)).bind fun f => Scalar.ofKind? f.kind).isSome = true
  held : (all.holder? field).isSome = true
  plain : ∀ holder ∈ all.holder? field, ∀ name ∈ (namedType holder).message?, ∀ target ∈ all.messages.get? name,
    target.declaration.isMapEntry = false

/-- Values of maps are no nulls, unless the type of nulls is declared by a file of the run. -/
def NullsDeclared (field : Schema.Field) : Prop :=
  (all.entry? field).isSome = true → ∀ holder ∈ all.holder? field,
    namedType holder = .enum WellKnown.nullValue → all.enums.contains WellKnown.nullValue = true

instance (field : Schema.Field) : Decidable (all.TidyField field) :=
  decidable_of_iff ((∀ entry ∈ all.entry? field,
        ((entry.declaration.fields.find? (·.number == 1)).bind fun f => Scalar.ofKind? f.kind).isSome = true) ∧
      (all.holder? field).isSome = true ∧
      ∀ holder ∈ all.holder? field, ∀ name ∈ (namedType holder).message?, ∀ target ∈ all.messages.get? name,
        target.declaration.isMapEntry = false)
    ⟨fun ⟨keyed, held, plain⟩ => ⟨keyed, held, plain⟩, fun tidy => ⟨tidy.keyed, tidy.held, tidy.plain⟩⟩

instance (field : Schema.Field) : Decidable (all.NullsDeclared field) :=
  inferInstanceAs (Decidable (_ → ∀ holder ∈ all.holder? field, _ → _))

def fieldsOf (name : String) : List Schema.Field :=
  match (all.messages.get? name).filter (!·.declaration.isMapEntry) with
  | some d => d.declaration.fields
  | none => []

def resolves (field holder : Schema.Field) : Bool :=
  match namedType holder with
  | .scalar _ => true
  | .enum name => all.enums.contains name || (all.entry? field).isNone && WellKnown.isEnum name
  | .message name => all.hasMessage name

def Fields (P : Schema.Field → Prop) : Prop :=
  ∀ d ∈ all.messages.values, d.declaration.isMapEntry = false → ∀ field ∈ d.declaration.fields, P field

instance (P : Schema.Field → Prop) [DecidablePred P] : Decidable (all.Fields P) :=
  inferInstanceAs (Decidable (∀ d ∈ all.messages.values, d.declaration.isMapEntry = false →
    ∀ field ∈ d.declaration.fields, P field))

def knows : ValueType → Bool
  | .scalar _ => true
  | .enum name => all.enums.contains name || WellKnown.isEnum name
  | .message name => all.hasMessage name

variable {all}

theorem resolves_of_nulls {field holder : Schema.Field} (held : all.holder? field = some holder)
    (nulls : all.NullsDeclared field) : all.resolves field holder = all.knows (namedType holder) := by
  cases typed : namedType holder <;> simp only [resolves, typed, knows]
  case enum name =>
    cases contained : all.enums.contains name with
    | true => rfl
    | false =>
      cases map : all.entry? field with
      | none => rfl
      | some entry =>
        have other : WellKnown.nullValue ≠ name := by
          rintro rfl
          rw [nulls (by rw [map]; rfl) holder held typed] at contained
          cases contained
        simp [WellKnown.isEnum, WellKnown.enums, other]

end Declarations

section Shapes

variable {all : Declarations} {field : Schema.Field}

theorem shapeOf_plain (alone : all.entry? field = none) : shapeOf all field =
    if all.resolves field field = true then .ok (plainCardinality field, namedType field)
    else .error (all.unresolved (field.typeRef?.getD "")) := by
  have message (name : String) (typed : namedType field = .message name) :
      (match all.messages.get? name with
        | some target =>
          if field.label = .repeated ∧ target.declaration.isMapEntry = true then mapShape all target
          else .ok (plainCardinality field, .message name)
        | none =>
          if WellKnown.isMessage name then .ok (plainCardinality field, .message name)
          else .error (all.unresolved name)) =
      (if all.hasMessage name = true then .ok (plainCardinality field, .message name)
        else .error (all.unresolved name) : Except Issue Shape) := by
    rw [Declarations.hasMessage, KeyMap.contains]
    rw [Declarations.entry?, typed] at alone
    dsimp only at alone
    cases found : all.messages.get? name with
    | none => simp
    | some target =>
      rw [found] at alone
      simp only [Option.isSome_some, Bool.true_or, if_true]
      refine if_neg fun map => ?_
      simp [map] at alone
  simp only [shapeOf]
  cases kind : field.kind <;> simp only [namedType, kind, Scalar.ofKind?, reduceIte, reduceCtorEq, Declarations.resolves,
    alone, Option.isNone_none, Bool.true_and]
  all_goals exact message _ (by simp [namedType, kind, Scalar.ofKind?])

theorem shapeOf_map {entry : Declared Schema.Message} (map : all.entry? field = some entry) :
    shapeOf all field = mapShape all entry := by
  rw [Declarations.entry?] at map
  split at map
  · rename_i name typed
    split at map
    · rename_i repeated
      obtain ⟨found, isEntry⟩ := Option.filter_eq_some_iff.mp map
      rw [namedType] at typed
      rw [shapeOf]
      cases kind : field.kind <;> simp only [kind, Scalar.ofKind?, reduceIte, reduceCtorEq] at typed ⊢
      all_goals
        cases typed
        rw [found]
        simp [repeated, isEntry]
    · cases map
  · cases map

theorem mapShape_of_tidy {entry : Declared Schema.Message} (map : all.entry? field = some entry)
    (tidy : all.TidyField field) {holder : Schema.Field} (held : all.holder? field = some holder) :
    ∃ key, mapShape all entry = if all.resolves field holder = true then .ok (.map key, namedType holder)
      else .error (all.unresolved (holder.typeRef?.getD "")) := by
  obtain ⟨key, keyed⟩ := Option.isSome_iff_exists.mp (tidy.keyed entry map)
  rw [Declarations.holder?, map] at held
  refine ⟨key, ?_⟩
  simp only [mapShape, keyed, held, pure_bind]
  cases kind : holder.kind <;> simp only [namedType, kind, Scalar.ofKind?, reduceIte, reduceCtorEq,
    Declarations.resolves, map, Option.isNone_some, Bool.false_and, Bool.or_false]
  case enum | message | group => split <;> rfl
  all_goals rfl

theorem unresolved_aboutType (name : String) : (all.unresolved name).aboutType = true := by
  rw [Declarations.unresolved]
  split <;> rfl

theorem shapeOf_of_tidy (tidy : all.TidyField field) {holder : Schema.Field} (held : all.holder? field = some holder) :
    if all.resolves field holder = true then ∃ cardinality, shapeOf all field = .ok (cardinality, namedType holder)
    else ∃ issue, shapeOf all field = .error issue ∧ issue.aboutType = true := by
  cases map : all.entry? field with
  | none =>
    rw [Declarations.holder?, map] at held
    cases held
    rw [shapeOf_plain map]
    split
    · exact ⟨_, rfl⟩
    · exact ⟨_, rfl, unresolved_aboutType _⟩
  | some entry =>
    obtain ⟨key, shape⟩ := mapShape_of_tidy map tidy held
    rw [shapeOf_map map, shape]
    split
    · exact ⟨_, rfl⟩
    · exact ⟨_, rfl, unresolved_aboutType _⟩

end Shapes

section Messages

variable {set : Schema.FileSet} {files : List Schema.File} {package key : String}

theorem mem_resolvedMessages {entry : Message × List Finding} : entry ∈ resolvedMessages set files package ↔
    ∃ name d, (declarations set files).messages.get? name = some d ∧ d.declaration.isMapEntry = false ∧
      resolveMessage (declarations set files) package name d = entry := by
  simp only [resolvedMessages, List.mem_map, List.mem_filter, Prod.exists, KeyMap.mem_entries, Bool.not_eq_true',
    and_assoc]

theorem get?_resolvedMessages :
    (KeyMap.ofList ((resolvedMessages set files package).map fun (m, _) => (m.fullName, m))).get? key =
      (((declarations set files).messages.get? key).filter (!·.declaration.isMapEntry)).map fun d =>
        (resolveMessage (declarations set files) package key d).1 := by
  have origin {m : Message} (inside : (key, m) ∈ (resolvedMessages set files package).map fun (m, _) => (m.fullName, m)) :
      ∃ d, (declarations set files).messages.get? key = some d ∧ d.declaration.isMapEntry = false ∧
        m = (resolveMessage (declarations set files) package key d).1 := by
    obtain ⟨resolved, there, same⟩ := List.mem_map.mp inside
    obtain ⟨name, d, found, plain, rfl⟩ := mem_resolvedMessages.mp there
    obtain ⟨rfl, rfl⟩ := Prod.mk.inj same
    exact ⟨d, found, plain, rfl⟩
  cases declared : ((declarations set files).messages.get? key).filter (!·.declaration.isMapEntry) with
  | none =>
    rw [Option.map_none, Option.eq_none_iff_forall_ne_some]
    intro m found
    obtain ⟨d, there, plain, _⟩ := origin (KeyMap.mem_of_get?_ofList found)
    rw [there] at declared
    simp [plain] at declared
  | some d =>
    obtain ⟨found, plain⟩ := Option.filter_eq_some_iff.mp declared
    refine KeyMap.get?_ofList_of_unique ?_ fun other inside => ?_
    · exact List.mem_map.mpr ⟨_, mem_resolvedMessages.mpr ⟨key, d, found, by simpa using plain, rfl⟩, rfl⟩
    · obtain ⟨d', found', _, rfl⟩ := origin inside
      cases found.symm.trans found'
      rfl

theorem resolvedMessages_nodup : ((resolvedMessages set files package).map (·.1.fullName)).Nodup := by
  have sorted := (declarations set files).messages.sorted.distinct
  rw [resolvedMessages, List.map_map]
  exact List.Nodup.sublist (List.Sublist.map _ List.filter_sublist) sorted

theorem get?_resolvedEnums :
    ((KeyMap.ofList ((resolvedEnums set files package).map fun (e, _) => (e.fullName, e))).get? key).isSome =
      (declarations set files).enums.contains key := by
  rw [Bool.eq_iff_iff, KeyMap.contains_iff, Option.isSome_iff_exists]
  constructor
  · rintro ⟨e, found⟩
    obtain ⟨resolved, there, same⟩ := List.mem_map.mp (KeyMap.mem_of_get?_ofList found)
    obtain ⟨⟨name, d⟩, entry, rfl⟩ := List.mem_map.mp there
    obtain ⟨rfl, rfl⟩ := Prod.mk.inj same
    exact ⟨d, KeyMap.mem_entries.mp entry⟩
  · rintro ⟨d, found⟩
    exact KeyMap.exists_get?_ofList
      (List.mem_map.mpr ⟨_, List.mem_map.mpr ⟨(key, d), KeyMap.mem_entries.mpr found, rfl⟩, rfl⟩)

variable {index : Index} {roots : List String} (built : index.BuiltFrom set files roots package)

include built

theorem has_iff_knows {type : ValueType} (bare : ValueType.BareNames type)
    (plain : ∀ name, type = .message name → ∀ target, (declarations set files).messages.get? name = some target →
      target.declaration.isMapEntry = false) :
    index.Has type ↔ (declarations set files).knows type = true := by
  cases type with
  | scalar => exact ⟨fun _ => rfl, fun _ => trivial⟩
  | enum name =>
    rw [Has, enum?, show bareName name = name from bare, ← Option.isSome_iff_ne_none, built.enums_eq,
      WellKnown.get?_addTo_isSome, get?_resolvedEnums, Declarations.knows, Bool.or_eq_true]
    rfl
  | message name =>
    rw [Has, message?, show bareName name = name from bare, ← Option.isSome_iff_ne_none, built.messages_eq,
      WellKnown.get?_addTo_isSome, get?_resolvedMessages, Declarations.knows, Declarations.hasMessage, Bool.or_eq_true,
      KeyMap.contains, Option.isSome_map]
    refine or_congr_left ?_
    cases found : (declarations set files).messages.get? name with
    | none => simp
    | some target => simp [plain name rfl target found]

theorem declaration_of_found {m : Message} (found : index.messages.get? key = some m) :
    (∃ d, (declarations set files).messages.get? key = some d ∧ d.declaration.isMapEntry = false ∧
      m = (resolveMessage (declarations set files) package key d).1) ∨
    ((declarations set files).messages.get? key).filter (!·.declaration.isMapEntry) = none ∧ m.fields = [] := by
  rw [built.messages_eq] at found
  cases declared : ((declarations set files).messages.get? key).filter (!·.declaration.isMapEntry) with
  | none =>
    refine .inr ⟨rfl, ?_⟩
    rcases WellKnown.get?_addTo found with before | ⟨file, _, rfl⟩
    · rw [get?_resolvedMessages, declared] at before
      cases before
    · rfl
  | some d =>
    have there : (KeyMap.ofList ((resolvedMessages set files package).map fun (m, _) => (m.fullName, m))).get? key =
        some (resolveMessage (declarations set files) package key d).1 := by
      rw [get?_resolvedMessages, declared]
      rfl
    rw [WellKnown.get?_addTo_of_declared there] at found
    obtain ⟨listed, plain⟩ := Option.filter_eq_some_iff.mp declared
    exact .inl ⟨d, listed, by simpa using plain, (Option.some.inj found).symm⟩

end Messages

section Findings

variable {all : Declarations} {package : String} {message : Schema.Message}

theorem resolveField_of_tidy {field : Schema.Field} (tidy : all.TidyField field) {holder : Schema.Field}
    (held : all.holder? field = some holder) :
    (all.resolves field holder = true ∧ (resolveField all package message field).1.unresolved = false ∧
      (resolveField all package message field).1.type = namedType holder ∧
      (resolveField all package message field).2.filter Issue.aboutType = []) ∨
    (all.resolves field holder = false ∧ (resolveField all package message field).1.unresolved = true ∧
      ∃ issue, (resolveField all package message field).2.filter Issue.aboutType = [issue]) := by
  have malformed (more : List Malformed) : (more.map Issue.malformed).filter Issue.aboutType = [] := by
    rw [List.filter_eq_nil_iff]
    intro issue inside
    obtain ⟨m, _, rfl⟩ := List.mem_map.mp inside
    exact Bool.false_ne_true
  have shape := shapeOf_of_tidy tidy held
  split at shape
  · rename_i known
    obtain ⟨cardinality, shape⟩ := shape
    refine .inl ⟨known, ?_, ?_, ?_⟩ <;> simp only [resolveField, shape]
    · rfl
    · exact malformed _
  · rename_i unknown
    obtain ⟨issue, shape, about⟩ := shape
    refine .inr ⟨by simpa using unknown, ?_, issue, ?_⟩ <;> simp only [resolveField, shape]
    · rfl
    · rw [List.filter_append, malformed, List.append_nil, List.filter_cons_of_pos about, List.filter_nil]

theorem message_of_finding {fullName : String} {d : Declared Schema.Message} {p : Finding}
    (inside : p ∈ (resolveMessage all package fullName d).2) : p.message = fullName := by
  rcases List.mem_append.mp inside with fields | oneofs
  · obtain ⟨entry, _, there⟩ := List.mem_flatMap.mp fields
    obtain ⟨issue, _, rfl⟩ := List.mem_map.mp there
    rfl
  · obtain ⟨entry, _, made⟩ := List.mem_filterMap.mp oneofs
    obtain ⟨m, _, rfl⟩ := Option.map_eq_some_iff.mp made
    rfl

theorem findings_of_fields {fields : List Schema.Field} {file fullName : String}
    (tidy : ∀ field ∈ fields, all.TidyField field) :
    (((fields.map (resolveField all package message)).flatMap fun r => r.2.map fun issue =>
        (⟨file, fullName, r.1.name, issue⟩ : Finding)).filter fun p => p.issue.aboutType).map
          (fun p => (p.file, p.message, p.field)) =
      ((fields.map fun field => (resolveField all package message field).1).filter (·.unresolved)).map
        fun f => (file, fullName, f.name) := by
  induction fields with
  | nil => rfl
  | cons field rest ih =>
    obtain ⟨orderly, later⟩ := List.forall_mem_cons.mp tidy
    obtain ⟨holder, held⟩ := Option.isSome_iff_exists.mp orderly.held
    have about (f : Field) (issues : List Issue) :
        (issues.map fun issue => (⟨file, fullName, f.name, issue⟩ : Finding)).filter (fun p => p.issue.aboutType) =
          (issues.filter Issue.aboutType).map fun issue => ⟨file, fullName, f.name, issue⟩ := List.filter_map
    simp only [List.map_cons, List.flatMap_cons, List.filter_append, List.map_append, ih later, about]
    rcases resolveField_of_tidy orderly held with ⟨_, resolved, _, nothing⟩ | ⟨_, unresolved, issue, one⟩
    · rw [nothing, List.filter_cons_of_neg (by simpa using resolved)]
      rfl
    · rw [one, List.filter_cons_of_pos unresolved]
      rfl

theorem findings_of_message {fullName : String} {d : Declared Schema.Message}
    (tidy : ∀ field ∈ d.declaration.fields, all.TidyField field) :
    ((resolveMessage all package fullName d).2.filter fun p => p.issue.aboutType).map
        (fun p => (p.file, p.message, p.field)) =
      ((resolveMessage all package fullName d).1.fields.filter (·.unresolved)).map
        fun f => (d.file.name, fullName, f.name) := by
  have oneofs (more : List (String × List String × Raw.Outcome (Option OneofConfig)))
      (share : String × List String × Raw.Outcome (Option OneofConfig) → Option Finding)
      (other : ∀ entry p, share entry = some p → p.issue.aboutType = false) :
      (more.filterMap share).filter (fun p => p.issue.aboutType) = [] := by
    rw [List.filter_eq_nil_iff]
    intro p inside
    obtain ⟨entry, _, made⟩ := List.mem_filterMap.mp inside
    simp [other entry p made]
  simp only [resolveMessage, List.filter_append]
  rw [oneofs, List.append_nil]
  · simpa only [List.map_map, Function.comp_def] using findings_of_fields tidy
  · rintro ⟨name, members, config⟩ p made
    obtain ⟨m, _, rfl⟩ := Option.map_eq_some_iff.mp made
    rfl

end Findings

section Run

variable {set : Schema.FileSet} {targets : List String} {settings : Settings} {index : Index}
  (run : build set targets settings = .ok index)

include run

theorem typeProblems_of_build {key : String} :
    index.problems.filter (fun p => p.issue.aboutType && p.message == key) =
      (resolvedMessages set (reachedFiles set targets) settings.extensionPackage).flatMap fun entry =>
        entry.2.filter fun p => p.issue.aboutType && p.message == key := by
  have imports (reached : List String) :
      (Imports.problems set reached).filter (fun p => p.issue.aboutType && p.message == key) = [] := by
    rw [List.filter_eq_nil_iff]
    intro p inside
    obtain ⟨name, _, there⟩ := List.mem_flatMap.mp inside
    obtain ⟨path, _, rfl⟩ := List.mem_map.mp there
    exact Bool.false_ne_true
  have enums (files : List Schema.File) (package : String) :
      ((resolvedEnums set files package).flatMap (·.2)).filter (fun p => p.issue.aboutType && p.message == key) = [] := by
    rw [List.filter_eq_nil_iff]
    intro p inside
    obtain ⟨entry, listed, there⟩ := List.mem_flatMap.mp inside
    obtain ⟨⟨name, d⟩, _, rfl⟩ := List.mem_map.mp listed
    obtain ⟨v, _, made⟩ := List.mem_filterMap.mp there
    obtain ⟨m, _, rfl⟩ := Option.map_eq_some_iff.mp made
    exact Bool.false_ne_true
  rw [problems_of_build run, List.filter_append, List.filter_append, imports, enums, List.nil_append, List.append_nil,
    List.filter_flatMap]

theorem typeProblems_of_message
    (tidy : (declarations set (reachedFiles set targets)).Fields (declarations set (reachedFiles set targets)).TidyField)
    {key : String} {m : Message} (found : index.messages.get? key = some m) :
    (index.problems.filter fun p => p.issue.aboutType && p.message == key).map
        (fun p => (p.file, p.message, p.field)) =
      (m.fields.filter (·.unresolved)).map fun f => (m.file, m.fullName, f.name) := by
  have others (entry : Message × List Finding)
      (inside : entry ∈ resolvedMessages set (reachedFiles set targets) settings.extensionPackage)
      (other : entry.1.fullName ≠ key) :
      (entry.2.filter fun p => p.issue.aboutType && p.message == key) = [] := by
    obtain ⟨name, d, _, _, rfl⟩ := mem_resolvedMessages.mp inside
    refine List.filter_eq_nil_iff.mpr fun p there => ?_
    rw [message_of_finding there]
    simp [show name ≠ key from other]
  rw [typeProblems_of_build run]
  rcases declaration_of_found (built_of_build run) found with ⟨d, declared, plain, rfl⟩ | ⟨undeclared, bare⟩
  · have inside : resolveMessage (declarations set (reachedFiles set targets)) settings.extensionPackage key d ∈
        resolvedMessages set (reachedFiles set targets) settings.extensionPackage :=
      mem_resolvedMessages.mpr ⟨key, d, declared, plain, rfl⟩
    rw [flatMap_of_nodup resolvedMessages_nodup inside _ others]
    refine Eq.trans (congrArg _ (List.filter_congr fun p there => ?_))
      (findings_of_message (tidy d (KeyMap.mem_values.mpr ⟨key, declared⟩) plain))
    rw [message_of_finding there, beq_self_eq_true, Bool.and_true]
  · rw [bare, List.flatMap_eq_nil_iff.mpr fun entry inside => others entry inside ?_]
    · rfl
    · rintro rfl
      obtain ⟨name, d, declared, plain, rfl⟩ := mem_resolvedMessages.mp inside
      rw [show (resolveMessage _ _ name d).1.fullName = name from rfl, declared,
        Option.filter_some_pos (by simpa using plain)] at undeclared
      cases undeclared

theorem resolved_iff_has
    (tidy : (declarations set (reachedFiles set targets)).Fields (declarations set (reachedFiles set targets)).TidyField)
    {key : String} {m : Message} (found : index.messages.get? key = some m) :
    List.Forall₂ (fun field (f : Field) => f.name = field.name ∧
        ∃ holder, (declarations set (reachedFiles set targets)).holder? field = some holder ∧
          ((declarations set (reachedFiles set targets)).NullsDeclared field →
            (f.unresolved = false ↔ index.Has (namedType holder))) ∧
          (f.unresolved = false → f.type = namedType holder))
      ((declarations set (reachedFiles set targets)).fieldsOf key) m.fields := by
  have built := built_of_build run
  rcases declaration_of_found built found with ⟨d, declared, plain, rfl⟩ | ⟨undeclared, bare⟩
  · rw [Declarations.fieldsOf, declared, Option.filter_some_pos (by simpa using plain)]
    simp only [resolveMessage, List.map_map, List.forall₂_map_right_iff, List.forall₂_same]
    intro field inside
    have orderly := tidy d (KeyMap.mem_values.mpr ⟨key, declared⟩) plain field inside
    obtain ⟨holder, held⟩ := Option.isSome_iff_exists.mp orderly.held
    have known (nulls : (declarations set (reachedFiles set targets)).NullsDeclared field) :
        index.Has (namedType holder) ↔
          (declarations set (reachedFiles set targets)).resolves field holder = true := by
      rw [Declarations.resolves_of_nulls held nulls]
      exact has_iff_knows built (bareNames_namedType holder) fun name named => orderly.plain holder held name
        (by rw [named]; rfl)
    refine ⟨resolveField_name .., holder, held, fun nulls => ?_, fun resolved => ?_⟩
    · rw [known nulls]
      rcases resolveField_of_tidy orderly held with ⟨yes, resolved, _⟩ | ⟨no, unresolved, _⟩
      · exact iff_of_true resolved yes
      · exact iff_of_false (ne_true_of_eq_false · unresolved) (by simp [no])
    · rcases resolveField_of_tidy orderly held with ⟨_, _, typed, _⟩ | ⟨_, unresolved, _⟩
      · exact typed
      · exact absurd (resolved.symm.trans unresolved) Bool.false_ne_true
  · rw [Declarations.fieldsOf, undeclared, bare]
    exact .nil

/-- No reference dangles: the type of a field resolves if the index has it, nulls in maps apart, and each field whose type
does not is found once. -/
theorem references_resolved
    (tidy : (declarations set (reachedFiles set targets)).Fields (declarations set (reachedFiles set targets)).TidyField)
    {key : String} {m : Message} (found : index.messages.get? key = some m) :
    List.Forall₂ (fun field (f : Field) => f.name = field.name ∧
        ∃ holder, (declarations set (reachedFiles set targets)).holder? field = some holder ∧
          ((declarations set (reachedFiles set targets)).NullsDeclared field →
            (f.unresolved = false ↔ index.Has (namedType holder))) ∧
          (f.unresolved = false → f.type = namedType holder))
      ((declarations set (reachedFiles set targets)).fieldsOf key) m.fields ∧
    (index.problems.filter fun p => p.issue.aboutType && p.message == key).map
        (fun p => (p.file, p.message, p.field)) =
      (m.fields.filter (·.unresolved)).map fun f => (m.file, m.fullName, f.name) :=
  ⟨resolved_iff_has run tidy found, typeProblems_of_message run tidy found⟩

end Run

def parcels : Schema.FileSet :=
  .ofMessages [{ Schema.Message.ofFields "Parcel"
      [.repeating (.ofMessage "weights" ".t.Parcel.WeightsEntry" []),
        .repeating (.ofMessage "labels" ".t.Parcel.LabelsEntry" []), .ofEnum "blank" ".google.protobuf.NullValue" [],
        .ofMessage "sender" ".t.Person" [], .ofMessage "due" ".google.protobuf.Timestamp" []] [] with
    nested := [.ofEntry "WeightsEntry" (.ofKind "value" .int32 []),
      .ofEntry "LabelsEntry" (.ofMessage "value" ".t.Label" [])] }]

theorem references_resolved_parcel : ∃ index, build parcels [] .default = .ok index ∧
    ∃ m, index.messages.get? "t.Parcel" = some m ∧
      List.Forall₂ (fun field (f : Field) => f.name = field.name ∧
          ∃ holder, (declarations parcels (reachedFiles parcels [])).holder? field = some holder ∧
            ((declarations parcels (reachedFiles parcels [])).NullsDeclared field →
              (f.unresolved = false ↔ index.Has (namedType holder))) ∧
            (f.unresolved = false → f.type = namedType holder))
        ((declarations parcels (reachedFiles parcels [])).fieldsOf "t.Parcel") m.fields ∧
      m.fields.map (·.unresolved) = [false, true, false, true, false] ∧
      (index.problems.filter fun p => p.issue.aboutType && p.message == "t.Parcel").map
        (fun p => (p.file, p.message, p.field)) =
          [("t.proto", "t.Parcel", "labels"), ("t.proto", "t.Parcel", "sender")] := by
  obtain ⟨index, run, tidy, m, found, unresolved, places⟩ := exists_ok
    (fun index : Index => (declarations parcels (reachedFiles parcels [])).Fields
        (declarations parcels (reachedFiles parcels [])).TidyField ∧
      ∃ m ∈ index.messages.get? "t.Parcel", m.fields.map (·.unresolved) = [false, true, false, true, false] ∧
        ((m.fields.filter (·.unresolved)).map fun f => (m.file, m.fullName, f.name)) =
          [("t.proto", "t.Parcel", "labels"), ("t.proto", "t.Parcel", "sender")])
    (show (build parcels [] .default).toOption.any _ = true by decide +kernel)
  obtain ⟨fields, problems⟩ := references_resolved run tidy found
  exact ⟨index, run, m, found, fields, unresolved, problems.trans places⟩

def ledgers : Schema.FileSet :=
  .ofMessages [{ Schema.Message.ofFields "Ledger" [.repeating (.ofMessage "gaps" ".t.Ledger.GapsEntry" [])] [] with
    nested := [.ofEntry "GapsEntry" (.ofEnum "value" ".google.protobuf.NullValue" [])] }]

/-- The values of a map do not resolve, although the index has their type. -/
theorem nulls_unresolved : ∃ index, build ledgers [] .default = .ok index ∧
    (declarations ledgers (reachedFiles ledgers [])).Fields
      (declarations ledgers (reachedFiles ledgers [])).TidyField ∧
    ∃ m ∈ index.messages.get? "t.Ledger", m.fields.map (·.unresolved) = [true] ∧
      ((declarations ledgers (reachedFiles ledgers [])).fieldsOf "t.Ledger").map
          ((declarations ledgers (reachedFiles ledgers [])).holder? · |>.map namedType) =
        [some (.enum "google.protobuf.NullValue")] ∧
      (index.enum? "google.protobuf.NullValue").isSome = true :=
  exists_ok
    (fun index : Index => (declarations ledgers (reachedFiles ledgers [])).Fields
        (declarations ledgers (reachedFiles ledgers [])).TidyField ∧
      ∃ m ∈ index.messages.get? "t.Ledger", m.fields.map (·.unresolved) = [true] ∧
        ((declarations ledgers (reachedFiles ledgers [])).fieldsOf "t.Ledger").map
            ((declarations ledgers (reachedFiles ledgers [])).holder? · |>.map namedType) =
          [some (.enum "google.protobuf.NullValue")] ∧
        (index.enum? "google.protobuf.NullValue").isSome = true)
    (show (build ledgers [] .default).toOption.any _ = true by decide +kernel)

end Index

end Wireform
