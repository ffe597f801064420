import Wireform.Proofs.DeclaredProperties
import Wireform.Proofs.IndexContents
import Wireform.Proofs.SchemaReferences
import Wireform.Proofs.SharedDocuments

/-!
Documents are closed. The list of types that wait for a schema runs out, whatever cycles the types form. Then every
type of the file has a component, every reference points to one, and each is the schema of a type that the file leads
to.
-/

set_option autoImplicit false

namespace Wireform

namespace OpenApi

def Context.component? (context : Context) (name : String) : Option (String × JsonSchema) :=
  (context.typeSchema? name).map fun schema => (context.componentName name, schema)

/-- A document in the making: the types that wait for their turn, those that had it, and the components so far. -/
structure Worklist where
  pending : List String
  done : List String
  components : KeyMap JsonSchema

namespace Worklist

def start (file : Index.File) : Worklist := ⟨file.messages ++ file.enums, [], .empty⟩

def turn? (context : Context) : Worklist → Option Worklist
  | ⟨[], _, _⟩ => none
  | ⟨name :: rest, done, components⟩ =>
    if name ∈ done then some ⟨rest, done, components⟩
    else
      match context.typeSchema? name with
      | none => some ⟨rest, name :: done, components⟩
      | some schema =>
        some ⟨rest ++ context.typeReferences name, name :: done,
          components.insert (context.componentName name) schema⟩

def Comes (context : Context) : Worklist → Worklist → Prop :=
  Relation.ReflTransGen fun before after => before.turn? context = some after

section Turns

variable {context : Context} {name : String} {rest done : List String} {components : KeyMap JsonSchema}

theorem turn?_done (had : name ∈ done) :
    turn? context ⟨name :: rest, done, components⟩ = some ⟨rest, done, components⟩ := by
  rw [turn?, if_pos had]

theorem typeReferences_of_absent (absent : context.typeSchema? name = none) : context.typeReferences name = [] := by
  rw [Context.typeSchema?] at absent
  rw [Context.typeReferences]
  cases found : context.index.message? name with
  | none => rfl
  | some m => rw [found] at absent; cases absent

theorem turn?_fresh (fresh : name ∉ done) : turn? context ⟨name :: rest, done, components⟩ =
    some ⟨rest ++ context.typeReferences name, name :: done,
      (context.component? name).toList.foldl (fun all entry => all.insert entry.1 entry.2) components⟩ := by
  rw [turn?, if_neg fresh, Context.component?]
  cases typed : context.typeSchema? name with
  | none => rw [typeReferences_of_absent typed, List.append_nil]; rfl
  | some schema => rfl

theorem comes_past {skipped : List String} (passed : ∀ name ∈ skipped, name ∈ done ∨ context.typeSchema? name = none) :
    ∃ past, Comes context ⟨skipped ++ rest, done, components⟩ ⟨rest, past, components⟩ ∧
      ∀ name, name ∈ past ↔ name ∈ done ∨ name ∈ skipped := by
  induction skipped generalizing done with
  | nil => exact ⟨done, .refl, fun name => by simp⟩
  | cons first others ih =>
    by_cases had : first ∈ done
    · obtain ⟨past, comes, members⟩ := @ih done fun name inside => passed name (List.mem_cons_of_mem _ inside)
      refine ⟨past, .head (turn?_done had) comes, fun name => ?_⟩
      rw [members, List.mem_cons]
      constructor
      · exact Or.imp_right .inr
      · rintro (before | rfl | inside)
        · exact .inl before
        · exact .inl had
        · exact .inr inside
    · have absent := (passed first List.mem_cons_self).resolve_left had
      obtain ⟨past, comes, members⟩ := @ih (first :: done) fun name inside =>
        (passed name (List.mem_cons_of_mem _ inside)).imp_left (List.mem_cons_of_mem _)
      refine ⟨past, .head ?_ comes, fun name => ?_⟩
      · change turn? context ⟨first :: (others ++ rest), done, components⟩ = _
        rw [turn?_fresh had, typeReferences_of_absent absent, List.append_nil, Context.component?, absent]
        rfl
      · rw [members, List.mem_cons, List.mem_cons, or_assoc, or_left_comm]

end Turns

structure Beside (context : Context) (comes : String → Prop) (ahead waiting done : List String) : Prop where
  distinct : ahead.Nodup
  fresh : ∀ name ∈ ahead, name ∉ done
  covered : ∀ name, comes name → name ∈ ahead ∨ name ∈ done ∨ context.typeSchema? name = none
  waits : ∀ name ∈ waiting, comes name

namespace Beside

variable {context : Context} {may : String → Prop} {ahead waiting done : List String}
  (beside : Beside context may ahead waiting done)

include beside

theorem passed {names : List String} (part : ∀ name ∈ names, name ∈ waiting) (beyond : ∀ name ∈ names, name ∉ ahead) :
    ∀ name ∈ names, name ∈ done ∨ context.typeSchema? name = none := fun name inside =>
  (beside.covered name (beside.waits name (part name inside))).resolve_left (beyond name inside)

theorem next (leads : ∀ name, may name → ∀ later ∈ context.typeReferences name, may later) {name : String}
    (there : name ∈ ahead) (waits : name ∈ waiting) {rest : List String} (others : ∀ later ∈ rest, later ∈ waiting)
    {past skipped : List String} (beyond : ∀ other ∈ skipped, other ∉ ahead)
    (members : ∀ other, other ∈ past ↔ other ∈ done ∨ other ∈ skipped) :
    name ∉ past ∧ Beside context may (ahead.erase name) (rest ++ context.typeReferences name) (name :: past) := by
  have fresh {other : String} (inside : other ∈ ahead) : other ∉ past := by
    rw [members]
    exact fun before => before.elim (beside.fresh other inside) fun skipped => beyond other skipped inside
  refine ⟨fresh there, beside.distinct.erase name, ?fresh, ?covered, ?waits⟩
  case fresh =>
    intro other inside
    obtain ⟨differs, still⟩ := (List.Nodup.mem_erase_iff beside.distinct).mp inside
    exact fun had => (List.mem_cons.mp had).elim differs (fresh still)
  case covered =>
    intro other holds
    rw [List.Nodup.mem_erase_iff beside.distinct, List.mem_cons, members]
    rcases beside.covered other holds with still | before | absent
    -- A type leaves those ahead in its own turn only, and then has had it.
    · by_cases same : other = name
      · exact .inr (.inl (.inl same))
      · exact .inl ⟨same, still⟩
    · exact .inr (.inl (.inr (.inl before)))
    · exact .inr (.inr absent)
  case waits =>
    intro later inside
    rcases List.mem_append.mp inside with old | referred
    · exact beside.waits later (others later old)
    · exact leads name (beside.waits name waits) later referred

end Beside

theorem runs_out {context : Context} {may : String → Prop}
    (leads : ∀ name, may name → ∀ later ∈ context.typeReferences name, may later) {turns : Nat}
    {ahead waiting done : List String} (enough : ahead.length ≤ turns) (beside : Beside context may ahead waiting done)
    (components : KeyMap JsonSchema) :
    ∃ past, Comes context ⟨waiting, done, components⟩ ⟨[], past,
      ((Reach.walk context.typeReferences (fun rest more => rest ++ more) turns ahead waiting).filterMap
        context.component?).foldl (fun all entry => all.insert entry.1 entry.2) components⟩ := by
  -- The walk ends where nothing that waits is ahead: all of that is passed over.
  have ended {done waiting : List String} {components : KeyMap JsonSchema}
      (passed : ∀ name ∈ waiting, name ∈ done ∨ context.typeSchema? name = none) :
      ∃ past, Comes context ⟨waiting, done, components⟩ ⟨[], past, components⟩ := by
    obtain ⟨past, comes, _⟩ := @comes_past context [] done components waiting passed
    rw [List.append_nil] at comes
    exact ⟨past, comes⟩
  induction turns generalizing ahead waiting done components with
  | zero =>
    cases List.length_eq_zero_iff.mp (Nat.le_zero.mp enough)
    exact ended (beside.passed (fun _ => id) fun _ _ => List.not_mem_nil)
  | succ turns ih =>
    rcases Reach.walk_succ context.typeReferences (fun rest more => rest ++ more) turns ahead waiting with
      ⟨finished, beyond⟩ | ⟨name, rest, left, waits, there, others, taken⟩
    · rw [finished]
      exact ended (beside.passed (fun _ => id) beyond)
    · have parts := List.takeWhile_append_dropWhile (p := fun name => !ahead.contains name) (l := waiting)
      rw [left] at parts
      have beyond : ∀ name ∈ waiting.takeWhile fun name => !ahead.contains name, name ∉ ahead := by
        intro name inside
        simpa using List.mem_takeWhile_imp inside
      -- Up to the first type ahead, everything is passed over. Then that type has its turn.
      obtain ⟨past, comes, members⟩ := @comes_past context (name :: rest) done components _
        (beside.passed (fun _ inside => (List.takeWhile_sublist _).subset inside) beyond)
      rw [parts] at comes
      obtain ⟨new, next⟩ := beside.next leads there waits others beyond members
      have fewer : (ahead.erase name).length ≤ turns := by
        rw [List.length_erase_of_mem there]
        omega
      obtain ⟨last, more⟩ := ih fewer next _
      refine ⟨last, comes.trans (.head (turn?_fresh new) ?_)⟩
      rw [taken, List.filterMap_eq_flatMap_toList, List.flatMap_cons, List.foldl_append,
        ← List.filterMap_eq_flatMap_toList]
      exact more

end Worklist

end OpenApi

namespace Index

open OpenApi

def Leads (index : Index) (type other : String) : Prop :=
  ∃ m, index.messages.get? type = some m ∧ ∃ f ∈ m.fields, f.RefersTo other

def File.Reaches (file : File) (index : Index) (type : String) : Prop :=
  ∃ first ∈ file.messages ++ file.enums, Relation.ReflTransGen index.Leads (bareName first) type

def File.MayWait (file : File) (index : Index) (name : String) : Prop :=
  file.Reaches index (bareName name) ∧ (name ∈ file.messages ++ file.enums ∨ bareName name = name)

def Finds (index : Index) (name : String) : Prop := index.message? name ≠ none ∨ index.enum? name ≠ none

def componentsOf (index : Index) (file : File) : KeyMap JsonSchema :=
  KeyMap.ofList (((index.context file.package).typesOf file).filterMap (index.context file.package).component?)

section Names

variable (index : Index) (package name : String)

theorem message?_bareName : index.message? (bareName name) = index.message? name := by
  rw [message?, message?, bareName_idempotent]

theorem enum?_bareName : index.enum? (bareName name) = index.enum? name := by
  rw [enum?, enum?, bareName_idempotent]

theorem typeSchema?_bareName :
    (index.context package).typeSchema? (bareName name) = (index.context package).typeSchema? name := by
  simp only [Context.typeSchema?, context, message?_bareName, enum?_bareName]

theorem componentName_bareName : index.componentName package (bareName name) = index.componentName package name := by
  rw [componentName, componentName, message?_bareName, enum?_bareName, bareName_idempotent]

variable {index package name}

theorem finds_of_typeSchema {schema : JsonSchema}
    (typed : (index.context package).typeSchema? name = some schema) : index.Finds name := by
  by_contra lost
  obtain ⟨foreign, other⟩ := not_or.mp lost
  simp only [Context.typeSchema?, context, not_not.mp foreign, not_not.mp other] at typed
  cases typed

end Names

section Reached

variable {index : Index} (keyed : index.Keyed) (file : File)

include keyed

theorem shares_self {common : String → Prop} (closed : ∀ name m, common name → index.messages.get? name = some m →
    ∀ f ∈ m.fields, ∀ type, f.RefersTo type → common type) : index.Shares index common :=
  ⟨keyed, keyed, fun _ _ => rfl, fun _ _ => rfl, closed, rfl⟩

theorem shares_reached : index.Shares index (file.Reaches index) := by
  refine shares_self keyed fun name m reached found f inside type refers => ?_
  obtain ⟨first, listed, path⟩ := reached
  exact ⟨first, listed, path.tail ⟨m, found, f, inside, refers⟩⟩

omit keyed in
theorem seesAll_reached : SeesAll index index (file.Reaches index) file := fun name listed =>
  ⟨⟨name, listed, .refl⟩, rfl, rfl⟩

theorem shares_found (known : ∀ m ∈ index.messages.values, ∀ f ∈ m.fields, f.Known index) :
    index.Shares index index.Finds := by
  refine shares_self keyed fun name m _ found f inside type refers => ?_
  have resolved := known m (KeyMap.mem_values.mpr ⟨name, found⟩) f inside
  exact refers.imp (resolved.1 type) (resolved.2 type)

theorem reached_of_typesOf {name : String} (inside : name ∈ (index.context file.package).typesOf file) :
    file.Reaches index (bareName name) :=
  (((shares_reached keyed file).typesOf_eq file.package (seesAll_reached file)).2 name inside).common

theorem mayWait_of_reference {name later : String} (waits : file.MayWait index name)
    (refers : later ∈ (index.context file.package).typeReferences name) : file.MayWait index later := by
  obtain ⟨bare, reached⟩ := ((shares_reached keyed file).typeReferences_eq file.package waits.1).2 later refers
  exact ⟨bare.symm ▸ reached, .inr bare⟩

theorem worklist_runs_out : ∃ past, Worklist.Comes (index.context file.package) (.start file)
    ⟨[], past, index.componentsOf file⟩ := by
  have beside : Worklist.Beside (index.context file.package) (file.MayWait index)
      ((index.context file.package).ahead file) (file.messages ++ file.enums) [] := by
    refine ⟨nodup_eraseDups _, fun _ _ => List.not_mem_nil, ?covered, fun name listed => ?waits⟩
    case waits => exact ⟨⟨name, listed, .refl⟩, .inl listed⟩
    -- References have no points in front, so those that lead to a type of the index are among its keys.
    intro name ⟨_, origin⟩
    rw [Context.mem_ahead]
    rcases origin with listed | bare
    · exact .inl (.inr listed)
    · by_cases found : index.Finds name
      · exact .inl (.inl (mem_known_of_found file.package found bare))
      · exact .inr (.inr (Option.eq_none_iff_forall_ne_some.mpr fun schema typed => found (finds_of_typeSchema typed)))
  exact Worklist.runs_out (fun name waits later => mayWait_of_reference keyed file waits) Nat.le.refl beside .empty

end Reached

section Components

variable {index : Index} {file : File}

theorem exists_component {name : String} (inside : name ∈ (index.context file.package).typesOf file)
    (found : index.Finds name) :
    ∃ schema, (index.componentsOf file).get? (index.componentName file.package name) = some schema := by
  obtain ⟨schema, typed⟩ := exists_typeSchema file.package found
  exact KeyMap.exists_get?_ofList (List.mem_filterMap.mpr
    ⟨name, inside, Option.map_eq_some_iff.mpr ⟨schema, typed, rfl⟩⟩)

theorem of_component {key : String} {schema : JsonSchema} (given : (index.componentsOf file).get? key = some schema) :
    ∃ name ∈ (index.context file.package).typesOf file, index.componentName file.package name = key ∧
      (index.context file.package).typeSchema? name = some schema := by
  obtain ⟨name, inside, made⟩ := List.mem_filterMap.mp (KeyMap.mem_of_get?_ofList given)
  obtain ⟨_, typed, same⟩ := Option.map_eq_some_iff.mp made
  obtain ⟨rfl, rfl⟩ := Prod.mk.inj same
  exact ⟨name, inside, rfl, typed⟩

theorem component_refers (keyed : index.Keyed) (known : ∀ m ∈ index.messages.values, ∀ f ∈ m.fields, f.Known index)
    {key : String} {schema : JsonSchema} (given : (index.componentsOf file).get? key = some schema) :
    schema.RefersTo fun other => ∃ schema, (index.componentsOf file).get? other = some schema := by
  obtain ⟨name, inside, rfl, typed⟩ := of_component given
  refine Context.refersTo_type typed fun type refers => ?_
  -- Without points in front, for that is how an index is shared with itself.
  have here : index.Finds (bareName name) := by
    rw [Finds, message?_bareName, enum?_bareName]
    exact finds_of_typeSchema typed
  obtain ⟨bare, found⟩ := ((shares_found keyed known).typeReferences_eq file.package here).2 type refers
  exact exists_component (Context.typesOf_closed inside refers (mem_known_of_found file.package found bare)) found

end Components

end Index

namespace OpenApi.Document

variable {document : Document}

theorem points_of_document {target : String} (points : document.toJson.PointsTo target) :
    ∃ key schema, document.components.get? key = some schema ∧ schema.toJson.PointsTo target := by
  have below : (Json.obj (document.components.map fun _ schema => schema.toJson).entries).PointsTo target := by
    obtain ⟨entry, inside, below⟩ := points.of_members (by simp [Entries.keys])
    simp only [List.mem_cons, List.not_mem_nil, or_false] at inside
    rcases inside with rfl | rfl | rfl
    · exact absurd below (Json.PointsTo.not_leaf trivial)
    · obtain ⟨entry, inside, below⟩ := below.of_members (by simp [Entries.keys])
      simp only [List.mem_cons, List.not_mem_nil, or_false] at inside
      rcases inside with rfl | rfl <;> exact absurd below (Json.PointsTo.not_leaf trivial)
    · exact below.of_single (by decide)
  obtain ⟨entry, inside, same | below⟩ := below.of_obj
  all_goals obtain ⟨⟨key, schema⟩, listed, rfl⟩ := List.mem_map.mp inside
  · exact absurd (congrArg Prod.snd same) (JsonSchema.toJson_ne_str schema target)
  · exact ⟨key, schema, KeyMap.mem_entries.mp listed, below⟩

/-- A document that is closed over the types of its file. -/
structure Closes (index : Index) (file : Index.File) (document : Document) : Prop where
  runsOut : ∃ past, Worklist.Comes (index.context file.package) (.start file) ⟨[], past, document.components⟩
  points : ∀ target, document.toJson.PointsTo target →
    ∃ key schema, document.components.get? key = some schema ∧ target = JsonSchema.componentsPath ++ key
  reached : ∀ key schema, document.components.get? key = some schema → ∃ type, file.Reaches index type ∧
    index.componentName file.package type = key ∧ (index.context file.package).typeSchema? type = some schema

end OpenApi.Document

namespace Index

open OpenApi

variable {set : Schema.FileSet} {targets : List String} {settings : Settings} {index : Index}

theorem finds_of_listed (run : build set targets settings = .ok index) (types : (set.files.flatMap typeNames).Nodup)
    (bare : ∀ name ∈ set.files.flatMap typeNames, bareName name = name) {file : File} (among : file ∈ index.files)
    {name : String} (listed : name ∈ file.messages ++ file.enums) : index.Finds name := by
  rcases List.mem_append.mp listed with message | enum
  · obtain ⟨m, found, _⟩ := message_of_listed run types bare among message
    exact .inl (by simp [found])
  · obtain ⟨e, found, _⟩ := enum_of_listed run types bare among enum
    exact .inr (by simp [found])

theorem closes_componentsOf (keyed : index.Keyed)
    (known : ∀ m ∈ index.messages.values, ∀ f ∈ m.fields, f.Known index) (file : File) :
    (⟨file.name, index.componentsOf file⟩ : Document).Closes index file where
  runsOut := worklist_runs_out keyed file
  points target points := by
    obtain ⟨key, schema, given, points⟩ := Document.points_of_document points
    obtain ⟨name, ⟨schema, there⟩, rfl⟩ := JsonSchema.refers_of_points schema (component_refers keyed known given) points
    exact ⟨name, schema, there, rfl⟩
  reached key schema given := by
    obtain ⟨name, inside, rfl, typed⟩ := of_component given
    refine ⟨bareName name, reached_of_typesOf keyed file inside, componentName_bareName index file.package name, ?_⟩
    rw [typeSchema?_bareName]
    exact typed

theorem closes_of_made (keyed : index.Keyed) (known : ∀ m ∈ index.messages.values, ∀ f ∈ m.fields, f.Known index)
    {file : File} {document : Document} (made : Document.ofFile? index index.plans file = some document) :
    document.Closes index file := by
  rw [Document.ofFile?] at made
  split at made
  · cases made
  · cases Option.some.inj made
    exact closes_componentsOf keyed known file

end Index

namespace Run

open Index OpenApi

/-- The document of a file is closed, whatever cycles its types form. Where types have different names, without points
in front, each type of the file has a component: its own schema, unless another type goes by the same component name. -/
theorem document_closes {set : Schema.FileSet} {files : List String} {settings : Settings} {compiled : Compiled}
    (run : compile set files settings = .ok compiled)
    (known : ∀ m ∈ compiled.index.messages.values, ∀ f ∈ m.fields, f.Known compiled.index)
    {file : File} (among : file ∈ compiled.index.targets) (filled : file.messages ++ file.enums ≠ []) :
    ∃ document, Document.ofFile? compiled.index compiled.plans file = some document ∧
      document.Closes compiled.index file ∧
      ((set.files.flatMap typeNames).Nodup → (∀ name ∈ set.files.flatMap typeNames, bareName name = name) →
        ∀ name ∈ file.messages ++ file.enums, ∃ schema,
          document.components.get? (compiled.index.componentName file.package name) = some schema ∧
          ((∀ type, file.Reaches compiled.index type → compiled.index.componentName file.package type =
            compiled.index.componentName file.package name → type = name) →
              (compiled.index.context file.package).typeSchema? name = some schema)) := by
  have keyed := (sound_of_compile run).toKeyed
  obtain ⟨built, _, plans⟩ := compile_spec run
  have closes := closes_componentsOf keyed known file
  refine ⟨_, ?made, closes, fun types bare name listed => ?_⟩
  case made =>
    rw [Document.ofFile?, plans, if_neg]
    · rfl
    · simpa using filled
  -- The component under the name of the type is that of some type of the document.
  obtain ⟨schema, given⟩ := exists_component (Context.mem_typesOf listed)
    (finds_of_listed built types bare (List.mem_of_mem_filter among) listed)
  refine ⟨schema, given, fun single => ?_⟩
  obtain ⟨type, reached, called, typed⟩ := closes.reached _ schema given
  rw [← single type reached called]
  exact typed

def orchard : Schema.FileSet :=
  ⟨[⟨"a.proto", "t", ["b.proto"],
      [.ofFields "Trees" [.repeating (.ofMessage "trees" "t.Tree" [("unwrap", .bool true)])] [],
        .ofFields "Tree" [.ofMessage "crown" "t.Crown" [("flatten", .bool true)], .ofEnum "kind" "t.Kind" []] [],
        .ofFields "Crown" [.ofMessage "leaf" "p.Leaf" [], .ofKind "text" .string []] []],
      [⟨"Kind", [⟨"OAK", 0, none⟩], none⟩], none, none⟩,
    ⟨"b.proto", "p", ["a.proto"], [.ofFields "Leaf" [.ofMessage "trees" "t.Trees" []] []], [], none, none⟩]⟩

set_option synthInstance.maxSize 1000 in
theorem document_closes_orchard : (orchard.files.flatMap typeNames).Nodup ∧
    (∀ name ∈ orchard.files.flatMap typeNames, bareName name = name) ∧
    ∃ compiled, compile orchard ["a.proto"] .default = .ok compiled ∧
      (∀ m ∈ compiled.index.messages.values, ∀ f ∈ m.fields, f.Known compiled.index) ∧
      ∃ file ∈ compiled.index.targets, file.messages ++ file.enums = ["t.Trees", "t.Tree", "t.Crown", "t.Kind"] ∧
        ∃ document, Document.ofFile? compiled.index compiled.plans file = some document ∧
          document.components.keys = ["Crown", "Kind", "Tree", "Trees", "p.Leaf"] ∧
          document.Closes compiled.index file ∧
          ∀ name ∈ file.messages ++ file.enums, ∃ schema,
            document.components.get? (compiled.index.componentName file.package name) = some schema := by
  have types : (orchard.files.flatMap typeNames).Nodup := by decide +kernel
  have bare : ∀ name ∈ orchard.files.flatMap typeNames, bareName name = name := by decide +kernel
  obtain ⟨compiled, run, known, file, among, listed, keys⟩ := exists_compiled
    (fun compiled => (∀ m ∈ compiled.index.messages.values, ∀ f ∈ m.fields, f.Known compiled.index) ∧
      ∃ file ∈ compiled.index.targets, file.messages ++ file.enums = ["t.Trees", "t.Tree", "t.Crown", "t.Kind"] ∧
        (Document.ofFile? compiled.index compiled.plans file).map (·.components.keys) =
          some ["Crown", "Kind", "Tree", "Trees", "p.Leaf"])
    (show (compile orchard ["a.proto"] .default).toOption.any _ = true by decide +kernel)
  obtain ⟨document, made, closes, declared⟩ :=
    document_closes run known among (listed ▸ List.cons_ne_nil _ _)
  rw [made, Option.map_some, Option.some.injEq] at keys
  exact ⟨types, bare, compiled, run, known, file, among, listed, document, made, keys, closes, fun name inside =>
    (declared types bare name inside).imp fun _ given => given.1⟩

def pointed : Schema.FileSet := ⟨[⟨"a.proto", "", [], [.ofFields ".x" [.ofKind "n" .string []] []], [], none, none⟩]⟩

def retaken : Schema.FileSet :=
  .ofMessages [.ofFields "X" [.ofKind "n" .string []] [], .ofEntry "X" (.ofKind "value" .string [])]

/-- A set whose only file lists one message, of which its document has no component. -/
def Omits (set : Schema.FileSet) (name : String) : Prop :=
  ∃ compiled, compile set [] .default = .ok compiled ∧
    (∀ m ∈ compiled.index.messages.values, ∀ f ∈ m.fields, f.Known compiled.index) ∧
    ∃ file ∈ compiled.index.targets, file.messages = [name] ∧
      ∃ document, Document.ofFile? compiled.index compiled.plans file = some document ∧ document.components.keys = []

set_option synthInstance.maxSize 1000 in
theorem omits_of_run {set : Schema.FileSet} {name : String}
    (check : (compile set [] .default).toOption.any (fun compiled => decide
      ((∀ m ∈ compiled.index.messages.values, ∀ f ∈ m.fields, f.Known compiled.index) ∧
        ∃ file ∈ compiled.index.targets, file.messages = [name] ∧
          (Document.ofFile? compiled.index compiled.plans file).map (·.components.keys) = some [])) = true) :
    Omits set name := by
  obtain ⟨compiled, run, known, file, among, listed, keys⟩ := exists_compiled _ check
  obtain ⟨document, made, none_there⟩ := Option.map_eq_some_iff.mp keys
  exact ⟨compiled, run, known, file, among, listed, document, made, none_there⟩

/-- A type of the file has no component if its name begins with a point, as references leave that out, or if an entry
type takes its name. -/
theorem declared_without_component : Omits pointed ".x" ∧ Omits retaken "t.X" :=
  ⟨omits_of_run (by decide +kernel), omits_of_run (by decide +kernel)⟩

end Run

end Wireform
