import Wireform.Proofs.IndexContents
import Wireform.Proofs.ReorderedMessages

set_option autoImplicit false

namespace Wireform

namespace Schema

section Reorder

variable (order : List Field → List Field) (target package : String)

/-- The message, with the fields of the messages of the target's name in another order. Entry types are no messages of
their own. -/
def Message.reorder (parent : String) : Message → Message
  | ⟨name, fields, nested, enums, oneofs, options⟩ =>
    let localName := Index.join parent name
    let plain := !(Message.isMapEntry ⟨name, fields, nested, enums, oneofs, options⟩)
    ⟨name, if plain && Index.qualify package localName == target then order fields else fields,
      reorderAll localName nested, enums, oneofs, options⟩
where
  reorderAll (localName : String) : List Message → List Message
    | [] => []
    | m :: rest => reorder localName m :: reorderAll localName rest

def File.reorder (file : File) : File :=
  { file with messages := file.messages.map (Message.reorder order target file.package "") }

def FileSet.reorder (set : FileSet) : FileSet := ⟨set.files.map (File.reorder order target)⟩

end Reorder

end Schema

theorem WellKnown.addTo_related {α : Type} {R : α → α → Prop} (refl : ∀ a, R a a) {make : String → String → α}
    {builtIn : List (String × String)} {declared other : KeyMap α} {key : String}
    (related : Option.Rel R (declared.get? key) (other.get? key)) :
    Option.Rel R ((addTo make builtIn declared).get? key) ((addTo make builtIn other).get? key) := by
  generalize here : declared.get? key = first at related
  generalize there : other.get? key = second at related
  cases related with
  | none =>
    rw [get?_addTo_congr (here.trans there.symm)]
    cases (addTo make builtIn other).get? key with
    | none => exact .none
    | some a => exact .some (refl a)
  | some same =>
    rw [get?_addTo_of_declared here, get?_addTo_of_declared there]
    exact .some same

namespace Index

open Schema (FileSet)

structure Declared.Reordered (target : String) (d d' : Declared Schema.Message) : Prop where
  file : d.file.name = d'.file.name
  package : d.file.package = d'.file.package
  localName : d.localName = d'.localName
  depth : d.depth = d'.depth
  enums : d.declaration.enums = d'.declaration.enums
  oneofs : d.declaration.oneofs = d'.declaration.oneofs
  options : d.declaration.options = d'.declaration.options
  fields : d.declaration.fields.Perm d'.declaration.fields
  elsewhere : d.fullName ≠ target ∨ d.declaration.isMapEntry = true → d.declaration.fields = d'.declaration.fields

structure Declared.Stays (d d' : Declared Schema.Enum) : Prop where
  file : d.file.name = d'.file.name
  package : d.file.package = d'.file.package
  localName : d.localName = d'.localName
  declaration : d.declaration = d'.declaration

section Declarations

variable {order : List Schema.Field → List Schema.Field} (permutes : ∀ fields, (order fields).Perm fields)
  {target : String} (file : Schema.File)

include permutes

theorem declaredMessages_reorder (parent : String) (depth : Nat) (m : Schema.Message) :
    List.Forall₂ (Declared.Reordered target) (declaredMessages file parent depth m)
      (declaredMessages (file.reorder order target) parent depth (m.reorder order target file.package parent)) := by
  -- By the recursion of the declarations: messages below another are related whether or not that one is the target.
  refine declaredMessages.induct
    (fun depth localName ms => List.Forall₂ (Declared.Reordered target)
      (declaredMessages.nestedMessages file depth localName ms)
      (declaredMessages.nestedMessages (file.reorder order target) depth localName
        (Schema.Message.reorder.reorderAll order target file.package localName ms)))
    (fun parent depth m => List.Forall₂ (Declared.Reordered target) (declaredMessages file parent depth m)
      (declaredMessages (file.reorder order target) parent depth (m.reorder order target file.package parent)))
    ?message ?none ?more parent depth m
  case message =>
    intro parent depth name fields nested enums oneofs options localName ih
    rw [Schema.Message.reorder, declaredMessages, declaredMessages]
    refine .cons ?_ ih
    refine ⟨rfl, rfl, rfl, rfl, rfl, rfl, rfl, ?_, ?_⟩
    · dsimp only
      split
      · exact (permutes fields).symm
      · exact .refl _
    · rintro (elsewhere | entry)
      · have named : (qualify file.package localName == target) = false := by
          rw [beq_eq_false_iff_ne]
          exact elsewhere
        dsimp only
        rw [named, Bool.and_false, if_neg Bool.false_ne_true]
      · dsimp only at entry ⊢
        rw [entry, Bool.not_true, Bool.false_and, if_neg Bool.false_ne_true]
  case none => exact fun _ _ => .nil
  case more =>
    intro depth localName m rest first others
    rw [Schema.Message.reorder.reorderAll, declaredMessages.nestedMessages, declaredMessages.nestedMessages]
    exact List.rel_append first others

theorem messagesOf_reorder :
    List.Forall₂ (Declared.Reordered target) (messagesOf file) (messagesOf (file.reorder order target)) := by
  have each (ms : List Schema.Message) : List.Forall₂ (Declared.Reordered target)
      (ms.flatMap (declaredMessages file "" 1))
      ((ms.map (Schema.Message.reorder order target file.package "")).flatMap
        (declaredMessages (file.reorder order target) "" 1)) := by
    rw [List.flatMap_map]
    exact forall₂_flatMap fun m _ => declaredMessages_reorder permutes file "" 1 m
  exact each file.messages

theorem enumsOf_reorder :
    List.Forall₂ Declared.Stays (enumsOf file) (enumsOf (file.reorder order target)) := by
  refine List.rel_append ?_ ?_
  · refine List.rel_flatMap (messagesOf_reorder permutes file) fun d d' same => ?_
    have same : Declared.Reordered target d d' := same
    rw [same.enums, same.localName, same.depth, List.forall₂_map_left_iff, List.forall₂_map_right_iff, List.forall₂_same]
    exact fun _ _ => ⟨rfl, rfl, rfl, rfl⟩
  · change List.Forall₂ Declared.Stays (file.enums.map _) (file.enums.map _)
    rw [List.forall₂_map_left_iff, List.forall₂_map_right_iff, List.forall₂_same]
    exact fun _ _ => ⟨rfl, rfl, rfl, rfl⟩

omit permutes

theorem definedNames_reorder (parent : String) (enums : List Schema.Enum) (ms : List Schema.Message) :
    definedNames file.package parent enums (Schema.Message.reorder.reorderAll order target file.package parent ms) =
      definedNames file.package parent enums ms := by
  rw [definedNames, definedNames]
  congr 1
  refine definedNames.ofMessages.induct
    (fun parent m => definedNames.ofMessage file.package parent (m.reorder order target file.package parent) =
      definedNames.ofMessage file.package parent m)
    (fun parent ms => definedNames.ofMessages file.package parent
        (Schema.Message.reorder.reorderAll order target file.package parent ms) =
      definedNames.ofMessages file.package parent ms)
    ?message ?none ?more parent ms
  case message =>
    intro parent name fields nested enums oneofs options localName ih
    rw [Schema.Message.reorder, definedNames.ofMessage, definedNames.ofMessage]
    exact congrArg (_ ++ ·) ih
  case none => exact fun _ => rfl
  case more =>
    intro parent m rest first others
    rw [Schema.Message.reorder.reorderAll, definedNames.ofMessages, definedNames.ofMessages, first, others]

end Declarations

section Imports

variable {order : List Schema.Field → List Schema.Field} {target : String} (set : FileSet)

theorem fileOf?_reorder (name : String) : Imports.fileOf? (set.reorder order target) name =
    (Imports.fileOf? set name).map (Schema.File.reorder order target) := by
  rw [Imports.fileOf?, Imports.fileOf?, FileSet.reorder, List.filter_map, List.getLast?_map]
  rfl

theorem fileNames_reorder : Imports.fileNames (set.reorder order target) = Imports.fileNames set := by
  rw [Imports.fileNames, Imports.fileNames, FileSet.reorder, List.map_map]
  rfl

theorem known_reorder : Imports.known (set.reorder order target) = Imports.known set := by
  funext name
  rw [Imports.known, Imports.known, fileOf?_reorder, fileNames_reorder]
  cases Imports.fileOf? set name <;> rfl

theorem missing_reorder (name : String) : Imports.missing (set.reorder order target) name = Imports.missing set name := by
  rw [Imports.missing, Imports.missing, fileOf?_reorder, fileNames_reorder]
  cases Imports.fileOf? set name <;> rfl

theorem closure_reorder (roots : List String) :
    Imports.closure (set.reorder order target) roots = Imports.closure set roots := by
  rw [Imports.closure, Imports.closure, known_reorder, fileNames_reorder]

theorem importProblems_reorder (reached : List String) :
    Imports.problems (set.reorder order target) reached = Imports.problems set reached :=
  List.flatMap_congr fun name _ => by rw [missing_reorder]

theorem rootsOf_reorder (targets : List String) : rootsOf (set.reorder order target) targets = rootsOf set targets := by
  rw [rootsOf, rootsOf, FileSet.reorder, List.map_map]
  rfl

theorem reachedFiles_reorder (targets : List String) : reachedFiles (set.reorder order target) targets =
    (reachedFiles set targets).map (Schema.File.reorder order target) := by
  rw [reachedFiles, reachedFiles, closure_reorder, rootsOf_reorder]
  exact List.filter_map

end Imports

section Files

variable {order : List Schema.Field → List Schema.Field} (permutes : ∀ fields, (order fields).Perm fields)
  {target : String}

theorem Declared.Reordered.fullName {d d' : Declared Schema.Message} (same : d.Reordered target d') :
    d.fullName = d'.fullName := by
  rw [Declared.fullName, Declared.fullName, same.package, same.localName]

theorem Declared.Stays.fullName {d d' : Declared Schema.Enum} (same : d.Stays d') : d.fullName = d'.fullName := by
  rw [Declared.fullName, Declared.fullName, same.package, same.localName]

theorem Declared.Stays.resolveEnum_eq {d d' : Declared Schema.Enum} (same : d.Stays d') (package fullName : String) :
    resolveEnum package fullName d = resolveEnum package fullName d' := by
  rw [resolveEnum, resolveEnum, same.file, same.package, same.localName, same.declaration]

theorem Declared.Reordered.isMapEntry {d d' : Declared Schema.Message} (same : d.Reordered target d') :
    d.declaration.isMapEntry = d'.declaration.isMapEntry := by
  rw [Schema.Message.isMapEntry, Schema.Message.isMapEntry, same.options]

include permutes

theorem resolveFile_reorder (roots : List String) (file : Schema.File) :
    resolveFile roots (file.reorder order target) = resolveFile roots file := by
  have related : List.Forall₂ (Declared.Reordered target) (messagesOf file) (messagesOf (file.reorder order target)) :=
    messagesOf_reorder permutes file
  have messages : ((messagesOf file).filter fun d => !d.declaration.isMapEntry).map (·.fullName) =
      ((messagesOf (file.reorder order target)).filter fun d => !d.declaration.isMapEntry).map (·.fullName) := by
    refine map_eq_of_forall₂ (List.rel_filter (fun d d' same => ?_) related) fun _ _ same => same.fullName
    change (!d.declaration.isMapEntry) = true ↔ (!d'.declaration.isMapEntry) = true
    rw [same.isMapEntry]
  have enums : (enumsOf file).map (·.fullName) = (enumsOf (file.reorder order target)).map (·.fullName) :=
    map_eq_of_forall₂ (enumsOf_reorder permutes file) fun _ _ same => same.fullName
  rw [resolveFile, resolveFile, messages, enums]
  rfl

end Files

section Tables

theorem ofList_related {α β : Type} {R : α → β → Prop} {entries : List (String × α)} {others : List (String × β)}
    (each : List.Forall₂ (fun a b => a.1 = b.1 ∧ R a.2 b.2) entries others) (key : String) :
    Option.Rel R ((KeyMap.ofList entries).get? key) ((KeyMap.ofList others).get? key) := by
  have start : Option.Rel R ((KeyMap.empty : KeyMap α).get? key) ((KeyMap.empty : KeyMap β).get? key) := .none
  rw [KeyMap.ofList, KeyMap.ofList]
  generalize KeyMap.empty (α := α) = table at start ⊢
  generalize KeyMap.empty (α := β) = table' at start ⊢
  induction each generalizing table table' with
  | nil => exact start
  | @cons a b _ _ same _ ih =>
    rw [List.foldl_cons, List.foldl_cons]
    refine ih _ _ ?_
    rw [KeyMap.get?_insert, KeyMap.get?_insert, ← same.1]
    split
    · exact .some same.2
    · exact start

variable {order : List Schema.Field → List Schema.Field} (permutes : ∀ fields, (order fields).Perm fields)
  {target : String} (set : FileSet) (files : List Schema.File)

theorem reorderAll_eq (package localName : String) (ms : List Schema.Message) :
    Schema.Message.reorder.reorderAll order target package localName ms =
      ms.map (Schema.Message.reorder order target package localName) := by
  induction ms with
  | nil => rfl
  | cons m rest ih => rw [Schema.Message.reorder.reorderAll, ih, List.map_cons]

end Tables

structure Declarations.Reordered (target : String) (all other : Declarations) : Prop where
  messages : ∀ key, Option.Rel (Declared.Reordered target) (all.messages.get? key) (other.messages.get? key)
  enums : ∀ key, Option.Rel Declared.Stays (all.enums.get? key) (other.enums.get? key)
  definedIn : all.definedIn = other.definedIn

theorem declarations_reorder {order : List Schema.Field → List Schema.Field}
    (permutes : ∀ fields, (order fields).Perm fields) {target : String} (set : FileSet) (files : List Schema.File) :
    (declarations set files).Reordered target
      (declarations (set.reorder order target) (files.map (Schema.File.reorder order target))) where
  messages := by
    refine ofList_related ?_
    rw [List.forall₂_map_left_iff, List.forall₂_map_right_iff, List.flatMap_map]
    refine List.Forall₂.imp (fun d d' same => ⟨same.fullName, same⟩) ?_
    exact forall₂_flatMap fun file _ => messagesOf_reorder permutes file
  enums := by
    refine ofList_related ?_
    rw [List.forall₂_map_left_iff, List.forall₂_map_right_iff, List.flatMap_map]
    refine List.Forall₂.imp (fun d d' same => ⟨same.fullName, same⟩) ?_
    exact forall₂_flatMap fun file _ => enumsOf_reorder permutes file
  definedIn := by
    refine congrArg KeyMap.ofList ?_
    rw [FileSet.reorder, List.flatMap_map]
    refine List.flatMap_congr fun file _ => ?_
    have names : definedNames file.package "" file.enums
        (Schema.Message.reorder.reorderAll order target file.package "" file.messages) =
          definedNames file.package "" file.enums file.messages := definedNames_reorder file "" file.enums file.messages
    rw [← names, reorderAll_eq]
    rfl

namespace Declarations.Reordered

variable {target : String} {all other : Declarations} (reordered : all.Reordered target other)

include reordered

theorem hasMessage_eq (name : String) : all.hasMessage name = other.hasMessage name := by
  rw [hasMessage, hasMessage, KeyMap.contains, KeyMap.contains, isSome_eq_of_rel (reordered.messages name)]

theorem hasEnum_eq (name : String) : all.enums.contains name = other.enums.contains name :=
  isSome_eq_of_rel (reordered.enums name)

theorem unresolved_eq (name : String) : all.unresolved name = other.unresolved name := by
  rw [unresolved, unresolved, reordered.definedIn]

theorem mapShape_eq {entry entry' : Declared Schema.Message} (same : entry.Reordered target entry')
    (isEntry : entry.declaration.isMapEntry = true) : mapShape all entry = mapShape other entry' := by
  have fields := same.elsewhere (.inr isEntry)
  simp only [mapShape, same.localName, fields, reordered.hasMessage_eq, reordered.hasEnum_eq, reordered.unresolved_eq]

theorem entry?_related (field : Schema.Field) :
    Option.Rel (fun d d' => d.Reordered target d' ∧ d.declaration.isMapEntry = true) (all.entry? field)
      (other.entry? field) := by
  rw [Declarations.entry?, Declarations.entry?]
  split
  · rename_i name _
    split
    · have related := reordered.messages name
      generalize all.messages.get? name = first at related ⊢
      generalize other.messages.get? name = second at related ⊢
      cases related with
      | none => exact .none
      | @some d d' same =>
        rw [Option.filter_some, Option.filter_some, ← same.isMapEntry]
        split
        · rename_i isEntry
          exact .some ⟨same, isEntry⟩
        · exact .none
    · exact .none
  · exact .none

theorem shapeOf_eq (field : Schema.Field) : shapeOf all field = shapeOf other field := by
  have related := reordered.entry?_related field
  generalize here : all.entry? field = first at related
  generalize there : other.entry? field = second at related
  cases related with
  | some same => rw [shapeOf_map here, shapeOf_map there, reordered.mapShape_eq same.1 same.2]
  | none =>
    have resolves : all.resolves field field = other.resolves field field := by
      simp only [resolves, here, there, reordered.hasMessage_eq, reordered.hasEnum_eq]
    rw [shapeOf_plain here, shapeOf_plain there, resolves, reordered.unresolved_eq]

end Declarations.Reordered

section Resolved

theorem realOneofs_reordered {m m' : Schema.Message} (oneofs : m.oneofs = m'.oneofs) (fields : m.fields.Perm m'.fields) :
    List.Forall₂ (fun real real' => real.1 = real'.1 ∧ real.2.Perm real'.2) (realOneofs m) (realOneofs m') := by
  rw [realOneofs, realOneofs, ← oneofs]
  refine List.rel_filterMap (R := Eq) ?_ (List.forall₂_same.mpr fun _ _ => rfl)
  rintro ⟨oneof, i⟩ _ rfl
  have members : (m.fields.filter fun f => f.realOneof? = some i).Perm (m'.fields.filter fun f => f.realOneof? = some i) :=
    fields.filter _
  dsimp only
  rw [members.isEmpty_eq]
  split
  · exact .none
  · exact .some ⟨rfl, members.map _⟩

variable {target : String} {all other : Declarations} (reordered : all.Reordered target other)
  {d d' : Declared Schema.Message} (same : d.Reordered target d') (package fullName : String)

include reordered same

theorem resolveField_reordered (field : Schema.Field) :
    resolveField all package d.declaration field = resolveField other package d'.declaration field := by
  rw [resolveField, resolveField, reordered.shapeOf_eq, same.oneofs]

theorem resolveMessage_reordered :
    (resolveMessage all package fullName d).1.Reordered (resolveMessage other package fullName d').1 where
  fullName := rfl
  wellKnown := rfl
  fields := by
    simp only [resolveMessage, List.map_map]
    rw [funext (resolveField_reordered reordered same package)]
    exact same.fields.map _
  oneofs := by
    simp only [resolveMessage, List.map_map]
    rw [List.forall₂_map_left_iff, List.forall₂_map_right_iff]
    refine List.Forall₂.imp (fun real real' related => ?_) (realOneofs_reordered same.oneofs same.fields)
    obtain ⟨oneof, members⟩ := real
    obtain ⟨oneof', members'⟩ := real'
    obtain ⟨rfl, order⟩ := related
    exact ⟨rfl, rfl, order⟩

theorem resolveMessage_problems :
    (resolveMessage all package fullName d).2.Perm (resolveMessage other package fullName d').2 := by
  simp only [resolveMessage]
  rw [funext (resolveField_reordered reordered same package), same.file]
  refine ((same.fields.map _).flatMap_right _).append (List.Perm.of_eq ?_)
  have configured : (realOneofs d.declaration).map (·.1) = (realOneofs d'.declaration).map (·.1) :=
    map_eq_of_forall₂ (realOneofs_reordered same.oneofs same.fields) fun _ _ related => related.1
  let malformed (oneof : Schema.Oneof) : Option Finding :=
    (Raw.problem? .oneofConfig (OneofConfig.ofOneof package oneof)).map fun m =>
      ⟨d'.file.name, fullName, oneof.name, .malformed m⟩
  have found := congrArg (List.filterMap malformed) configured
  rw [List.filterMap_map, List.filterMap_map] at found ⊢
  exact found

theorem resolveMessage_elsewhere (elsewhere : d.fullName ≠ target) :
    resolveMessage all package fullName d = resolveMessage other package fullName d' := by
  have fields := same.elsewhere (.inl elsewhere)
  have oneofs : realOneofs d.declaration = realOneofs d'.declaration := by
    rw [realOneofs, realOneofs, same.oneofs, fields]
  rw [resolveMessage, resolveMessage, oneofs, fields, same.file, same.package, same.localName,
    funext (resolveField_reordered reordered same package)]

end Resolved

section Built

variable {order : List Schema.Field → List Schema.Field} (permutes : ∀ fields, (order fields).Perm fields)
  (target : String) {set : FileSet} {targets : List String} {settings : Settings} {index other : Index}

include permutes

theorem declarations_reached (set : FileSet) (targets : List String) :
    (declarations set (reachedFiles set targets)).Reordered target
      (declarations (set.reorder order target) (reachedFiles (set.reorder order target) targets)) := by
  rw [reachedFiles_reorder]
  exact declarations_reorder permutes set (reachedFiles set targets)

theorem resolved_reorder (set : FileSet) (targets : List String) (package key : String) :
    Option.Rel (fun m m' => m.Reordered m' ∧ (key ≠ target → m = m'))
      ((KeyMap.ofList ((resolvedMessages set (reachedFiles set targets) package).map
        fun (m, _) => (m.fullName, m))).get? key)
      ((KeyMap.ofList ((resolvedMessages (set.reorder order target) (reachedFiles (set.reorder order target) targets)
        package).map fun (m, _) => (m.fullName, m))).get? key) := by
  have reordered := declarations_reached permutes target set targets
  have related := reordered.messages key
  rw [get?_resolvedMessages, get?_resolvedMessages]
  generalize found : (declarations set (reachedFiles set targets)).messages.get? key = first at related
  generalize (declarations (set.reorder order target) _).messages.get? key = second at related
  cases related with
  | none => exact .none
  | @some d d' same =>
    rw [Option.filter_some, Option.filter_some, same.isMapEntry]
    split
    · -- A declaration goes by its key, so under another key its fields have not moved.
      have elsewhere (away : key ≠ target) :=
        resolveMessage_elsewhere reordered same package key ((mem_declared_messages found).1 ▸ away)
      exact .some ⟨resolveMessage_reordered reordered same package key, fun away => congrArg (·.1) (elsewhere away)⟩
    · exact .none

theorem build_reorder (built : build set targets settings = .ok index) :
    ∃ other, build (set.reorder order target) targets settings = .ok other := by
  -- Files keep their names and messages their depth, and building asks for no more.
  obtain ⟨asked, shallow⟩ := build_ok_iff.mp ⟨index, built⟩
  refine build_ok_iff.mpr ⟨fun name inside => ?_, ?_⟩
  · obtain ⟨f, there, named⟩ := asked name inside
    exact ⟨f.reorder order target, List.mem_map_of_mem there, named⟩
  · rw [reachedFiles_reorder]
    intro g reached d' declared
    obtain ⟨f, there, rfl⟩ := List.mem_map.mp reached
    obtain ⟨d, inside, same⟩ := exists_of_forall₂ (messagesOf_reorder permutes f) declared
    exact same.depth ▸ shallow f there d inside

variable (built : build set targets settings = .ok index)
  (built' : build (set.reorder order target) targets settings = .ok other)

include built built'

theorem files_reorder : index.files = other.files := by
  rw [(built_of_build built).files_eq, (built_of_build built').files_eq, reachedFiles_reorder, rootsOf_reorder,
    List.map_map]
  exact List.map_congr_left fun file _ => (resolveFile_reorder permutes _ file).symm

theorem enums_reorder : index.enums = other.enums := by
  refine KeyMap.ext_get? fun key => ?_
  rw [(built_of_build built).enums_eq, (built_of_build built').enums_eq]
  refine WellKnown.get?_addTo_congr ?_
  rw [get?_enums, get?_enums]
  exact map_eq_of_rel ((declarations_reached permutes target set targets).enums key) fun _ _ same =>
    congrArg (·.1) (same.resolveEnum_eq _ key)

theorem problems_reorder (clean : index.problems = []) : other.problems = [] := by
  -- What is found of the other order stems from a declaration, of whose counterpart nothing was found.
  have reordered := declarations_reached permutes target set targets
  rw [problems_of_build built, List.append_eq_nil_iff, List.append_eq_nil_iff, List.flatMap_eq_nil_iff,
    List.flatMap_eq_nil_iff] at clean
  obtain ⟨⟨imports, messages⟩, enums⟩ := clean
  rw [problems_of_build built', List.append_eq_nil_iff, List.append_eq_nil_iff, List.flatMap_eq_nil_iff,
    List.flatMap_eq_nil_iff]
  refine ⟨⟨?imports, ?messages⟩, ?enums⟩
  case imports => rw [importProblems_reorder, closure_reorder, rootsOf_reorder, imports]
  case messages =>
    intro resolved inside
    obtain ⟨name, d', found', plain, rfl⟩ := mem_resolvedMessages.mp inside
    obtain ⟨d, found, same⟩ := exists_of_rel_right (reordered.messages name) found'
    have none_there := messages _ (mem_resolvedMessages.mpr ⟨name, d, found, same.isMapEntry ▸ plain, rfl⟩)
    exact List.perm_nil.mp (none_there ▸ (resolveMessage_problems reordered same _ name).symm)
  case enums =>
    intro resolved inside
    obtain ⟨⟨name, d'⟩, entry, rfl⟩ := List.mem_map.mp inside
    obtain ⟨d, found, same⟩ := exists_of_rel_right (reordered.enums name) (KeyMap.mem_entries.mp entry)
    have none_there := enums _ (List.mem_map.mpr ⟨(name, d), KeyMap.mem_entries.mpr found, rfl⟩)
    dsimp only at none_there ⊢
    rw [← same.resolveEnum_eq, none_there]

theorem messages_reorder (key : String) :
    Option.Rel (fun m m' => m.Reordered m' ∧ (key ≠ target → m = m')) (index.messages.get? key)
      (other.messages.get? key) := by
  rw [(built_of_build built).messages_eq, (built_of_build built').messages_eq]
  exact WellKnown.addTo_related (fun m => ⟨.refl m, fun _ => rfl⟩) (resolved_reorder permutes target set targets _ key)

theorem index_reorder (sound : index.Sound)
    (names : ∀ m, index.messages.get? target = some m → (m.fields.map (·.name)).Nodup ∧ (m.oneofs.map (·.name)).Nodup) :
    index.Reordered other target where
  sound := sound
  keyed := keyed_of_build built'
  here := by
    refine rel_imp_mem (messages_reorder permutes target built built' target) fun m there m' same => ?_
    exact .moved same.1 (names m there).1 (names m there).2
  elsewhere key away := by
    have same := map_eq_of_rel (messages_reorder permutes target built built' key) fun _ _ same => same.2 away
    rwa [Option.map_id', Option.map_id'] at same
  enums := enums_reorder permutes target built built'

end Built

end Index

end Wireform
