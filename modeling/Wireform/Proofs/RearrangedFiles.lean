import Wireform.Proofs.DistinctTypes
import Wireform.Proofs.AcceptedIndex
import Wireform.Proofs.SharedDocuments

set_option autoImplicit false

namespace Wireform

namespace Index

structure SameTypes (index other : Index) : Prop where
  keyed : index.Keyed
  messages : index.messages = other.messages
  enums : index.enums = other.enums
  maxDepth : index.maxDepth = other.maxDepth

namespace SameTypes

variable {index other : Index} (same : index.SameTypes other)

include same

theorem shares : index.Shares other fun _ => True where
  keyed := same.keyed
  other_keyed :=
    { named := fun key m found => same.keyed.named key m (same.messages ▸ found)
      enumNamed := fun key e found => same.keyed.enumNamed key e (same.enums ▸ found)
      wellKnown := fun key m found => same.keyed.wellKnown key m (same.messages ▸ found)
      wellFormed := fun name m found => same.keyed.wellFormed name m (by rw [message?, same.messages]; exact found) }
  messages _ _ := by rw [same.messages]
  enums _ _ := by rw [same.enums]
  closed _ _ _ _ _ _ _ _ := trivial
  maxDepth := same.maxDepth

theorem knowAlike (name : String) : KnowAlike index other name := same.shares.knowAlike trivial

theorem message?_eq : index.message? = other.message? := funext fun name => (same.knowAlike name).message

theorem enum?_eq : index.enum? = other.enum? := funext fun name => (same.knowAlike name).enum

theorem seesAll (file : File) : SeesAll index other (fun _ => True) file :=
  fun _ _ => ⟨trivial, by rw [same.messages], by rw [same.enums]⟩

theorem plans_eq : index.plans = other.plans := by
  have alike (m : Message) : ∀ f ∈ m.fields, ∀ type, f.RefersTo type → KnowAlike index other type :=
    fun _ _ type _ => same.knowAlike type
  have own : index.ownMessages = other.ownMessages := by rw [ownMessages, ownMessages, same.messages]
  have transformed : index.transformed = other.transformed := by
    rw [Index.transformed, Index.transformed, own, List.filter_congr fun m _ => hasDirectTransform_alike (alike m)]
  have holders : addHolders index = addHolders other := by
    funext names
    rw [addHolders, addHolders, own]
  have planned : index.planned = other.planned := by
    rw [Index.planned, Index.planned, transformed, holders, same.messages]
  have entry (m : Message) : (if index.planned.contains m.fullName then
        (index.message? m.fullName).map fun found => (m.fullName, planOf index index.planned found) else none) =
      if index.planned.contains m.fullName then
        (other.message? m.fullName).map fun found => (m.fullName, planOf other index.planned found) else none := by
    rw [same.message?_eq]
    congr 2
    funext found
    rw [planOf_alike (alike found) fun _ _ _ _ => rfl]
  rw [plans, plans, ← planned, ← same.messages]
  exact congrArg KeyMap.ofList (List.filterMap_congr fun m _ => entry m)

theorem errors_eq (m : Message) : m.errors index = m.errors other := by
  have types := same.message?_eq
  have issues (f : Field) : f.issues index m = f.issues other m := by
    simp only [Field.issues, Field.enumIssues, Field.flattenIssues, types, same.enum?_eq]
  have fields : m.fieldErrors index = m.fieldErrors other := by
    simp only [Message.fieldErrors, issues]
  have members (oneof : Oneof) (config : OneofConfig) (used : KeyMap String) (members : List Field) :
      m.memberErrors index oneof config used members = m.memberErrors other oneof config used members := by
    induction members generalizing used with
    | nil => rfl
    | cons member rest ih => simp only [Message.memberErrors, Message.variantIssues, types, ih]
  have oneofs : m.oneofErrors index = m.oneofErrors other := by
    simp only [Message.oneofErrors, members]
  have keys : m.keyErrors index = m.keyErrors other := by
    simp only [Message.keyErrors, (same.knowAlike m.fullName).keys]
  rw [Message.errors, Message.errors, fields, oneofs, keys]

theorem messagesIn_eq (file : File) : index.messagesIn file = other.messagesIn file := by
  rw [messagesIn, messagesIn, same.message?_eq]

theorem enumsIn_eq (file : File) : index.enumsIn file = other.enumsIn file := by
  rw [enumsIn, enumsIn, same.enum?_eq]

end SameTypes

structure Rearranged (index other : Index) : Prop extends SameTypes index other where
  files : index.files.Perm other.files
  problems : index.problems.Perm other.problems
  fileNames : (index.files.map (·.name)).Nodup

namespace Rearranged

variable {index other : Index} (rearranged : index.Rearranged other)

include rearranged

theorem errors : index.report.errors.Perm other.report.errors := by
  rw [report_errors, report_errors]
  refine rearranged.problems.append ((rearranged.files.flatMap_right _).trans (List.Perm.of_eq ?_))
  refine List.flatMap_congr fun file _ => ?_
  rw [rearranged.messagesIn_eq, rearranged.enumsIn_eq, List.flatMap_congr fun m _ => rearranged.errors_eq m]

theorem warnings : index.report.warnings.Perm other.report.warnings := by
  refine (rearranged.files.flatMap_right _).trans (List.Perm.of_eq ?_)
  exact List.flatMap_congr fun file _ => by rw [rearranged.messagesIn_eq]

theorem file?_eq (name : String) : index.file? name = other.file? name := by
  have distinct : (other.files.map (·.name)).Nodup :=
    (rearranged.files.map _).nodup_iff.mp rearranged.fileNames
  have origin {i : Index} {f : File} (found : i.file? name = some f) : f ∈ i.files ∧ f.name = name :=
    ⟨List.mem_of_find?_eq_some found, by simpa using List.find?_some found⟩
  refine Option.ext fun f => ⟨fun found => ?_, fun found => ?_⟩
  · obtain ⟨inside, rfl⟩ := origin found
    exact find?_of_nodup distinct (rearranged.files.subset inside)
  · obtain ⟨inside, rfl⟩ := origin found
    exact find?_of_nodup rearranged.fileNames (rearranged.files.symm.subset inside)

theorem artifacts (targets : List Target) (settings : Settings) :
    (Emit.artifacts targets index index.plans settings).Perm (Emit.artifacts targets other other.plans settings) := by
  have places (file : File) : PlacesAlike index other (fun _ => True) file := by
    intro name m _ _ _
    rw [GoCode.Context.foreignPackage?, GoCode.Context.foreignPackage?, rearranged.file?_eq]
  refine List.Perm.flatMap_left targets fun target _ => ?_
  refine ((rearranged.files.filter _).filterMap _).trans (List.Perm.of_eq ?_)
  exact List.filterMap_congr fun file _ =>
    rearranged.shares.render_eq (places file) (rearranged.seesAll file) target settings

end Rearranged

section Build

variable {set : Schema.FileSet} {targets : List String} {settings : Settings}

theorem build_ok_iff : (∃ index, build set targets settings = .ok index) ↔
    (∀ name ∈ targets, ∃ f ∈ set.files, f.name = name) ∧
      ∀ f ∈ reachedFiles set targets, ∀ d ∈ messagesOf f, d.depth ≤ settings.maxDepth := by
  have asked : (targets.find? fun name => !(set.files.any (·.name == name))) = none ↔
      ∀ name ∈ targets, ∃ f ∈ set.files, f.name = name := by
    simp [List.find?_eq_none]
  have shallow : ((reachedFiles set targets).flatMap messagesOf).find? (fun d => settings.maxDepth < d.depth) = none ↔
      ∀ f ∈ reachedFiles set targets, ∀ d ∈ messagesOf f, d.depth ≤ settings.maxDepth := by
    simp only [List.find?_eq_none, List.mem_flatMap, decide_eq_true_eq, Nat.not_lt]
    exact ⟨fun all f inside d there => all d ⟨f, inside, there⟩, fun all d ⟨f, inside, there⟩ => all f inside d there⟩
  rw [← asked, ← shallow, build]
  split
  · rename_i unknown
    simp [unknown]
  · rename_i known
    dsimp only
    split
    · rename_i deep
      have deep : ((reachedFiles set targets).flatMap messagesOf).find? (fun d => settings.maxDepth < d.depth) = some _ :=
        deep
      simp [deep]
    · rename_i shallow
      exact ⟨fun _ => ⟨known, shallow⟩, fun _ => ⟨_, rfl⟩⟩

end Build

section Rearranging

variable {set other : Schema.FileSet} (order : set.files.Perm other.files)
  (names : (set.files.map (·.name)).Nodup)

include order

theorem fileNames_perm (name : String) : name ∈ Imports.fileNames set ↔ name ∈ Imports.fileNames other := by
  rw [Imports.mem_fileNames, Imports.mem_fileNames]
  exact exists_congr fun f => and_congr_left fun _ => order.mem_iff

theorem roots_perm (targets : List String) (name : String) : name ∈ rootsOf set targets ↔ name ∈ rootsOf other targets := by
  rw [rootsOf, rootsOf]
  split
  · exact (order.map _).mem_iff
  · rfl

include names

theorem fileOf?_perm (name : String) : Imports.fileOf? set name = Imports.fileOf? other name := by
  have names' : (other.files.map (·.name)).Nodup := (order.map _).nodup_iff.mp names
  refine Option.ext fun f => ?_
  rw [Imports.fileOf?_iff names, Imports.fileOf?_iff names', order.mem_iff]

theorem known_perm (name : String) : Imports.known set name = Imports.known other name := by
  have contains : (Imports.fileNames set).contains = (Imports.fileNames other).contains := by
    funext path
    rw [Bool.eq_iff_iff, List.contains_iff_mem, List.contains_iff_mem, fileNames_perm order]
  rw [Imports.known, Imports.known, fileOf?_perm order names, contains]

theorem missing_perm (name : String) : Imports.missing set name = Imports.missing other name := by
  have contains (path : String) : (Imports.fileNames set).contains path = (Imports.fileNames other).contains path := by
    rw [Bool.eq_iff_iff, List.contains_iff_mem, List.contains_iff_mem, fileNames_perm order]
  simp only [Imports.missing, fileOf?_perm order names, contains]

variable (targets : List String)

theorem closure_perm : (Imports.closure set (rootsOf set targets)).Perm
    (Imports.closure other (rootsOf other targets)) := by
  refine (List.perm_ext_iff_of_nodup (Imports.nodup_closure _) (Imports.nodup_closure _)).mpr fun name => ?_
  rw [Imports.mem_closure, Imports.mem_closure, fileNames_perm order, funext (known_perm order names)]
  exact and_congr_right fun _ => exists_congr fun root => and_congr_left fun _ => roots_perm order targets root

theorem reachedFiles_perm : (reachedFiles set targets).Perm (reachedFiles other targets) := by
  have reached (f : Schema.File) : (Imports.closure set (rootsOf set targets)).contains f.name =
      (Imports.closure other (rootsOf other targets)).contains f.name := by
    rw [Bool.eq_iff_iff, List.contains_iff_mem, List.contains_iff_mem, (closure_perm order names targets).mem_iff]
  rw [reachedFiles, reachedFiles, List.filter_congr fun f _ => reached f]
  exact order.filter _

variable (types : (set.files.flatMap typeNames).Nodup) (holders : ∀ f ∈ set.files, NamesHolders f)

include types holders

omit names in
theorem declarations_perm {files others : List Schema.File} (part : ∀ f ∈ files, f ∈ set.files)
    (same : files.Perm others) : declarations set files = declarations other others := by
  have entries {α : Type} {of : Schema.File → List (Declared α)}
      (typed : ∀ f, ((of f).map (·.fullName)).Sublist (typeNames f)) :
      KeyMap.ofList ((files.flatMap of).map fun d => (d.fullName, d)) =
        KeyMap.ofList ((others.flatMap of).map fun d => (d.fullName, d)) := by
    refine KeyMap.ofList_perm ((same.flatMap_right of).map _) fun key d d' first second => ?_
    obtain ⟨d, listed, named⟩ := List.mem_map.mp first
    obtain ⟨d', listed', named'⟩ := List.mem_map.mp second
    obtain ⟨f, inside, there⟩ := List.mem_flatMap.mp listed
    obtain ⟨g, inside', there'⟩ := List.mem_flatMap.mp listed'
    obtain ⟨rfl, rfl⟩ := Prod.mk.inj named
    obtain ⟨same, rfl⟩ := Prod.mk.inj named'
    exact declared_unique typed types (part g inside') (part f inside) there' there same
  have defined : KeyMap.ofList (set.files.flatMap fun file =>
        (definedNames file.package "" file.enums file.messages).map fun name => (name, file.name)) =
      KeyMap.ofList (other.files.flatMap fun file =>
        (definedNames file.package "" file.enums file.messages).map fun name => (name, file.name)) := by
    refine KeyMap.ofList_perm (order.flatMap_right _) fun key path path' first second => ?_
    obtain ⟨f, inside, listed⟩ := List.mem_flatMap.mp first
    obtain ⟨g, inside', listed'⟩ := List.mem_flatMap.mp second
    obtain ⟨name, there, named⟩ := List.mem_map.mp listed
    obtain ⟨name', there', named'⟩ := List.mem_map.mp listed'
    obtain ⟨rfl, rfl⟩ := Prod.mk.inj named
    obtain ⟨rfl, rfl⟩ := Prod.mk.inj named'
    rw [eq_of_mem_flatMap types inside' inside (mem_typeNames_of_defined (holders g inside') there')
      (mem_typeNames_of_defined (holders f inside) there)]
  rw [declarations, declarations, entries sublist_messages, entries sublist_enums, defined]

theorem build_perm {settings : Settings} {index : Index} (built : build set targets settings = .ok index) :
    ∃ index', build other targets settings = .ok index' ∧ index.Rearranged index' := by
  have reached := reachedFiles_perm order names targets
  have part : ∀ f ∈ reachedFiles set targets, f ∈ set.files := fun f inside => (List.mem_filter.mp inside).1
  have declared := declarations_perm order types holders part reached
  obtain ⟨index', built'⟩ : ∃ index', build other targets settings = .ok index' := by
    rw [build_ok_iff]
    obtain ⟨asked, shallow⟩ := build_ok_iff.mp ⟨index, built⟩
    exact ⟨fun name inside => (asked name inside).imp fun f => And.imp_left order.mem_iff.mp,
      fun f inside => shallow f (reached.symm.subset inside)⟩
  -- Declarations are looked up by name, so both builds resolve one and the same list of them.
  have messages : resolvedMessages set (reachedFiles set targets) settings.extensionPackage =
      resolvedMessages other (reachedFiles other targets) settings.extensionPackage := by
    rw [resolvedMessages, resolvedMessages, declared]
  have enums : resolvedEnums set (reachedFiles set targets) settings.extensionPackage =
      resolvedEnums other (reachedFiles other targets) settings.extensionPackage := by
    rw [resolvedEnums, resolvedEnums, declared]
  have first := built_of_build built
  have second := built_of_build built'
  refine ⟨index', built', ⟨keyed_of_build built, ?_, ?_, ?_⟩, ?_, ?_, ?_⟩
  · rw [first.messages_eq, second.messages_eq, messages]
  · rw [first.enums_eq, second.enums_eq, enums]
  · rw [maxDepth_of_build built, maxDepth_of_build built']
  · have resolved (f : Schema.File) : resolveFile (rootsOf set targets) f = resolveFile (rootsOf other targets) f := by
      have asked : (rootsOf set targets).contains f.name = (rootsOf other targets).contains f.name := by
        rw [Bool.eq_iff_iff, List.contains_iff_mem, List.contains_iff_mem, roots_perm order]
      rw [resolveFile, resolveFile, asked]
    rw [first.files_eq, second.files_eq, List.map_congr_left fun f _ => resolved f]
    exact reached.map _
  · rw [problems_of_build built, problems_of_build built', messages, enums]
    refine .append_right _ (.append_right _ ?_)
    rw [Imports.problems, Imports.problems, funext (missing_perm order names)]
    exact (closure_perm order names targets).flatMap_right _
  · rw [first.files_eq, List.map_map]
    exact (List.filter_sublist.map _).nodup names

end Rearranging

end Index

namespace Run

open Index

/-- Runs that end alike: with the same plans, and with the same artifacts, warnings or findings in some order. -/
def EndAlike : Except Error Output → Except Error Output → Prop
  | .ok a, .ok b => a.plans = b.plans ∧ a.artifacts.Perm b.artifacts ∧ a.warnings.Perm b.warnings
  | .error (.invalid findings), .error (.invalid others) => findings.Perm others
  | .error (.unresolved _), .error (.unresolved _) => True
  | _, _ => False

def reasons : Except Error Output → List String
  | .ok _ => []
  | .error fault => fault.findings.map (·.reason)

theorem EndAlike.reasons {first second : Except Error Output} (alike : EndAlike first second) :
    (reasons first).Perm (reasons second) := by
  match first, second with
  | .ok _, .ok _ => exact .nil
  | .error (.invalid _), .error (.invalid _) => exact List.Perm.map _ alike
  | .error (.unresolved _), .error (.unresolved _) => exact .nil

/-- Runs over the same files in another order end alike. -/
theorem generate_perm {set other : Schema.FileSet} (order : set.files.Perm other.files)
    (names : (set.files.map (·.name)).Nodup) (types : (set.files.flatMap typeNames).Nodup)
    (holders : ∀ f ∈ set.files, NamesHolders f) (targets : List String) (settings : Settings) :
    EndAlike (generate set targets settings) (generate other targets settings) := by
  have names' : (other.files.map (·.name)).Nodup := (order.map _).nodup_iff.mp names
  have types' : (other.files.flatMap typeNames).Nodup := (order.flatMap_right _).nodup_iff.mp types
  rw [generate_eq, generate_eq]
  cases built : build set targets settings with
  | error fault =>
    cases built' : build other targets settings with
    | error fault' => trivial
    | ok index' =>
      obtain ⟨index, again, _⟩ := build_perm order.symm names' targets types'
        (fun f inside => holders f (order.symm.subset inside)) built'
      rw [built] at again
      cases again
  | ok index =>
    obtain ⟨index', built', rearranged⟩ := build_perm order names targets types holders built
    have errors := rearranged.errors
    rw [built']
    dsimp only
    cases clean : index.report.errors with
    | nil =>
      rw [clean] at errors
      rw [errors.nil_eq.symm, Emit.emitWith_emitters, Emit.emitWith_emitters]
      exact ⟨rearranged.plans_eq, rearranged.artifacts _ _, rearranged.warnings⟩
    | cons first rest =>
      rw [clean] at errors
      cases clean' : index'.report.errors with
      | nil =>
        rw [clean'] at errors
        exact absurd errors.eq_nil (List.cons_ne_nil _ _)
      | cons first' rest' =>
        rw [clean'] at errors
        exact errors

def shipments : List Schema.File :=
  [⟨"a.proto", "a", ["b.proto"], [.ofFields "Order" [.ofMessage "item" ".b.Item" []] []], [], none, none⟩,
    ⟨"b.proto", "b", [], [.ofFields "Item" [.ofKind "size" .int64 [("int64_encoding", .str "NUMBER")]] []], [], none,
      none⟩]

theorem generate_of_reversed : (shipments.map (·.name)).Nodup ∧ (shipments.flatMap typeNames).Nodup ∧
    (∀ f ∈ shipments, NamesHolders f) ∧
    EndAlike (generate ⟨shipments⟩ [] .default) (generate ⟨shipments.reverse⟩ [] .default) := by
  have names : (shipments.map (·.name)).Nodup := by decide
  have types : (shipments.flatMap typeNames).Nodup := by decide +kernel
  have holders : ∀ f ∈ shipments, NamesHolders f := by decide +kernel
  exact ⟨names, types, holders, generate_perm (shipments.reverse_perm).symm names types holders [] .default⟩

def nameless : List Schema.File :=
  [⟨"a.proto", "p", [], [⟨"", [], [], [.ofNames "E" []], [], none⟩], [], none, none⟩,
    ⟨"b.proto", "p", [], [], [.ofNames "E" []], none, none⟩,
    ⟨"c.proto", "q", [], [.ofFields "M" [.ofEnum "e" ".p.E" []] []], [], none, none⟩]

theorem findings_of_reversed : (nameless.map (·.name)).Nodup ∧ (nameless.flatMap typeNames).Nodup ∧
    ¬ EndAlike (generate ⟨nameless⟩ ["c.proto"] .default) (generate ⟨nameless.reverse⟩ ["c.proto"] .default) := by
  have first : reasons (generate ⟨nameless⟩ ["c.proto"] .default) =
      ["type 'p.E' is defined in 'b.proto', which is not imported by this run's files"] := by decide +kernel
  have second : reasons (generate ⟨nameless.reverse⟩ ["c.proto"] .default) =
      ["type 'p.E' is defined in 'a.proto', which is not imported by this run's files"] := by decide +kernel
  refine ⟨by decide, by decide +kernel, fun alike => ?_⟩
  have same := alike.reasons
  rw [first, second, List.perm_singleton] at same
  revert same
  decide

end Run

end Wireform
