import Wireform.GoCode.File
import Wireform.Proofs.Evaluation
import Wireform.Proofs.SharedInterfaces

set_option autoImplicit false

namespace Wireform

namespace GoCode

inductive TableKind where
  | names
  | values
  | numbers
  | byNumber
deriving DecidableEq, Repr

namespace TableKind

def suffix : TableKind → String
  | .names => "Names"
  | .values => "Values"
  | .numbers => "Numbers"
  | .byNumber => "ByNumber"

def ofEnum (e : Index.Enum) : TableKind → Table
  | .names => namesTable (e.table Index.EnumValue.wireName)
  | .values => valuesTable (e.table Index.EnumValue.wireName)
  | .numbers => numbersTable (e.table fun v => toString v.number)
  | .byNumber => byNumberTable (e.table fun v => toString v.number)

theorem eq_of_suffix {kind other : TableKind} {first second : String}
    (same : first ++ kind.suffix = second ++ other.suffix) : first = second ∧ kind = other := by
  -- Read from their ends, the endings differ in the first letters, whatever stands before them.
  have reversed := congrArg (fun text : String => text.toList.reverse) same
  simp only [String.toList_append, List.reverse_append] at reversed
  cases kind <;> cases other <;> simp [suffix] at reversed ⊢
  all_goals exact String.toList_injective reversed

end TableKind

namespace Fragment

variable {α : Type} {part : Fragment → List α}

theorem part_join (none_there : part .empty = []) (appended : ∀ a b, part (a ++ b) = part a ++ part b)
    (fragments : List Fragment) : part (join fragments) = fragments.flatMap part := by
  have from_any (start : Fragment) : part (fragments.foldl (· ++ ·) start) = part start ++ fragments.flatMap part := by
    induction fragments generalizing start with
    | nil => simp
    | cons first rest ih => simp [ih, appended]
  rw [join, from_any, none_there, List.nil_append]

theorem lines_append (a b : Fragment) : (a ++ b).lines = a.lines ++ b.lines := rfl

theorem tables_append (a b : Fragment) : (a ++ b).tables = a.tables ++ b.tables := rfl

@[simp]
theorem tables_ofBlock (texts : List String) : (ofBlock texts).tables = [] := rfl

@[simp]
theorem tables_ofLine (text : String) : (ofLine text).tables = [] := rfl

@[simp]
theorem tables_calling (h : Helper) (f : Fragment) : (f.calling h).tables = f.tables := rfl

@[simp]
theorem tables_importing (path : String) (f : Fragment) : (f.importing path).tables = f.tables := rfl

theorem infix_left {lines : List String} {a : Fragment} (inside : lines <:+: a.lines) (b : Fragment) :
    lines <:+: (a ++ b).lines :=
  inside.trans (List.prefix_append a.lines b.lines).isInfix

theorem infix_right {lines : List String} {b : Fragment} (inside : lines <:+: b.lines) (a : Fragment) :
    lines <:+: (a ++ b).lines :=
  inside.trans (List.suffix_append a.lines b.lines).isInfix

theorem lines_join (fragments : List Fragment) : (join fragments).lines = fragments.flatMap (·.lines) :=
  part_join rfl lines_append fragments

theorem tables_join (fragments : List Fragment) : (join fragments).tables = fragments.flatMap (·.tables) :=
  part_join rfl tables_append fragments

theorem infix_join {fragments : List Fragment} {f : Fragment} (inside : f ∈ fragments) :
    f.lines <:+: (join fragments).lines := by
  rw [lines_join, List.flatMap_def]
  exact List.infix_of_mem_flatten (List.mem_map.mpr ⟨f, inside, rfl⟩)

end Fragment

def lookup? (encode : Bool) : Transform → Option (String × TableKind)
  | .enumCustomNames type _ => some (type, if encode then .names else .values)
  | .enumAsNumber type _ => some (type, if encode then .numbers else .byNumber)
  | _ => none

namespace Context

variable (context : Context) {encode : Bool} {step : Step}

theorem expression_of_lookup {transform : Transform} {type : String} {kind : TableKind}
    (looks : lookup? encode transform = some (type, kind)) : ∃ h,
      (context.valueFunction? encode transform).map (·.expression) =
        some (context.helper h ++ "(" ++ context.tableName type kind.suffix ++ ")") := by
  cases transform with
  | enumCustomNames _ _ | enumAsNumber _ _ =>
    cases looks
    cases encode <;> exact ⟨_, rfl⟩
  | _ => cases looks

theorem tables_encodeStep : (context.encodeStep step).tables = (context.eachValue true step).tables := by
  have variants (key : String) (flatten : Bool) (opening : String) (v : Variant) :
      (context.encodeVariant key flatten opening v).tables = [] := by
    cases flatten <;> rfl
  rw [encodeStep, eachValue]
  cases step.transform with
  | oneofDiscriminator discriminator flatten others =>
    -- All other statements than these treat values one by one, or have no tables by their form.
    cases others with
    | nil => rfl
    | cons first rest =>
      simp [encodeOneof, Fragment.tables_append, Fragment.tables_join, variants, valueFunction?, Fragment.empty]
  | _ => rfl

theorem tables_decodeStep : (context.decodeStep step).tables = (context.eachValue false step).tables := by
  have variants (flatten : Bool) (v : Variant) : (decodeVariant flatten v).tables = [] := by
    cases flatten <;> rfl
  rw [decodeStep, eachValue]
  cases step.transform with
  | oneofDiscriminator discriminator flatten others =>
    simp [decodeOneof, Fragment.tables_append, Fragment.tables_join, variants, valueFunction?, Fragment.empty]
  | emptyValueAs behavior => cases behavior <;> rfl
  | _ => rfl

theorem recodes_of_lookup {found : String × TableKind} (looks : lookup? encode step.transform = some found) :
    (context.valueFunction? encode step.transform).isSome = true := by
  obtain ⟨h, given⟩ := context.expression_of_lookup looks
  rw [← Option.isSome_map (f := (·.expression)), given]
  rfl

section Recoded

variable {context} (recodes : (context.valueFunction? encode step.transform).isSome = true)

include recodes

theorem encodeStep_of_recodes : context.encodeStep step = context.eachValue true step := by
  obtain ⟨field, jsonName, container, transform⟩ := step
  cases transform with
  | emptyValueAs _ | nullable | flatten _ _ _ | oneofDiscriminator _ _ _ | unwrapRoot _ _ => cases recodes
  | _ => rfl

theorem decodeStep_of_recodes : context.decodeStep step = context.eachValue false step := by
  obtain ⟨field, jsonName, container, transform⟩ := step
  cases transform with
  | emptyValueAs _ | nullable | flatten _ _ _ | oneofDiscriminator _ _ _ | unwrapRoot _ _ => cases recodes
  | _ => rfl

theorem isRootUnwrap_of_recodes : step.transform.isRootUnwrap = false := by
  obtain ⟨field, jsonName, container, transform⟩ := step
  cases transform with
  | unwrapRoot _ _ => cases recodes
  | _ => rfl

end Recoded

variable (m : Index.Message) (plan : Plan)

theorem tables_messageCode : (context.messageCode m plan).tables =
    (plan.steps.takeWhile (!·.transform.isRootUnwrap)).flatMap (fun step => (context.eachValue true step).tables) ++
      plan.steps.reverse.flatMap fun step => (context.eachValue false step).tables := by
  rw [messageCode, methods, encodeFunction, decodeFunction]
  cases root? plan <;>
    simp [Fragment.tables_append, Fragment.tables_join, List.flatMap_map, tables_encodeStep, tables_decodeStep,
      readRoot, -List.map_reverse]

variable {context m plan}

theorem statement_infix (recodes : (context.valueFunction? encode step.transform).isSome = true)
    (inside : step ∈ plan.steps.takeWhile (!·.transform.isRootUnwrap)) :
    (context.eachValue encode step).lines <:+: (context.messageCode m plan).lines := by
  rw [messageCode]
  cases encode with
  | true =>
    have same := encodeStep_of_recodes recodes
    have there : context.eachValue true step ∈
        (plan.steps.takeWhile (!·.transform.isRootUnwrap)).map context.encodeStep :=
      same ▸ List.mem_map_of_mem inside
    rw [encodeFunction]
    exact Fragment.infix_left (Fragment.infix_right (Fragment.infix_left (Fragment.infix_right
      (Fragment.infix_join there) _) _) _) _
  | false =>
    have same := decodeStep_of_recodes recodes
    have there : context.eachValue false step ∈ plan.steps.reverse.map context.decodeStep :=
      same ▸ List.mem_map_of_mem (List.mem_reverse.mpr ((List.takeWhile_sublist _).subset inside))
    rw [decodeFunction]
    exact Fragment.infix_right (Fragment.infix_left (Fragment.infix_right (Fragment.infix_join there) _) _) _

end Context

section Files

variable (index : Index) (plans : PlanSet) (file : Index.File)

def contextOf : Context :=
  ⟨index, file, "wire" ++ Text.pascalCase file.stem,
    Aliases.ofPackages (calledPackages index file (planned index plans file))⟩

def codeOf : Fragment :=
  Fragment.join ((planned index plans file).map fun entry =>
    (contextOf index plans file).messageCode entry.1 entry.2)

def tablesOf : KeyMap Table := KeyMap.ofList (codeOf index plans file).tables

def tabled : List String :=
  (planned index plans file).flatMap fun entry =>
    entry.2.steps.filterMap fun step => (lookup? true step.transform).map (·.1)

theorem text?_tables {banner package text : String} (made : text? index plans banner package file = some text) :
    ∃ before depth after, text = before ++ (Layout.ofLines 0 (codeOf index plans file).lines).text ++
      (Layout.ofLines depth (((tablesOf index plans file).entries.flatMap fun entry =>
        "" :: entry.2.lines entry.1) ++ after)).text := by
  rw [text?] at made
  split at made
  · cases made
  · exact ⟨_, _, _, (Option.some.inj made).symm⟩

end Files

end GoCode

namespace Index

open GoCode

def TabulatesOwn (index : Index) : Transform → Prop
  | .enumCustomNames type table => ∃ e, index.enum? type = some e ∧ table = e.table EnumValue.wireName
  | .enumAsNumber type table => ∃ e, index.enum? type = some e ∧ table = e.table fun v => toString v.number
  | _ => True

theorem tabulatesOwn_of_gives {index : Index} {m : Message} {planned : String → Bool} {f : Field}
    {container : Container} {transform : Transform} (gives : f.Gives index m planned container transform) :
    index.TabulatesOwn transform := by
  cases gives with
  | enumNumber typed found number => exact ⟨_, found, rfl⟩
  | enumNames typed found named custom => exact ⟨_, found, rfl⟩
  | _ => trivial

theorem field_of_lookup {index : Index} {names : List String} {m : Message} {step : Step}
    (inside : step ∈ (planOf index names m).steps) {encode : Bool} {type : String} {kind : TableKind}
    (looks : lookup? encode step.transform = some (type, kind)) :
    index.TabulatesOwn step.transform ∧
      ∃ f ∈ m.fields, f.enum? = some type ∧ step = f.step step.container step.transform := by
  rcases mem_planOf.mp inside with ⟨f, there, container, transform, gives, rfl⟩ | ⟨group, _, rfl⟩
  · refine ⟨tabulatesOwn_of_gives gives, f, there, ?_, rfl⟩
    cases gives with
    | enumNumber typed found number | enumNames typed found named custom =>
      cases looks
      exact typed
    | _ => cases looks
  · cases looks

theorem enum_of_lookup {index : Index} {transform : Transform} (own : index.TabulatesOwn transform) {encode : Bool}
    {type : String} {kind : TableKind} (looks : lookup? encode transform = some (type, kind)) :
    ∃ e, index.enum? type = some e := by
  cases transform with
  | enumCustomNames _ _ | enumAsNumber _ _ =>
    cases looks
    exact own.imp fun _ => And.left
  | _ => cases looks

theorem table_of_own {index : Index} {context : GoCode.Context} {step : Step}
    (own : index.TabulatesOwn step.transform) {encode : Bool} {id : String} {table : Table}
    (listed : (id, table) ∈ (context.eachValue encode step).tables) :
    ∃ type, ∃ kind : TableKind, ∃ e, (lookup? true step.transform).map (·.1) = some type ∧
      id = context.tableName type kind.suffix ∧ index.enum? type = some e ∧ table = kind.ofEnum e := by
  obtain ⟨field, jsonName, container, transform⟩ := step
  cases transform with
  | enumCustomNames type entries =>
    obtain ⟨e, found, rfl⟩ := own
    cases encode with
    | true =>
      cases List.mem_singleton.mp listed
      exact ⟨type, .names, e, rfl, rfl, found, rfl⟩
    | false =>
      rcases List.mem_cons.mp listed with same | later
      · cases same
        exact ⟨type, .names, e, rfl, rfl, found, rfl⟩
      · cases List.mem_singleton.mp later
        exact ⟨type, .values, e, rfl, rfl, found, rfl⟩
  | enumAsNumber type entries =>
    obtain ⟨e, found, rfl⟩ := own
    cases encode with
    | true =>
      cases List.mem_singleton.mp listed
      exact ⟨type, .numbers, e, rfl, rfl, found, rfl⟩
    | false =>
      cases List.mem_singleton.mp listed
      exact ⟨type, .byNumber, e, rfl, rfl, found, rfl⟩
  | _ => cases encode <;> cases listed

theorem mem_tables_of_lookup {index : Index} (context : GoCode.Context) {step : Step} {e : Enum}
    (own : index.TabulatesOwn step.transform) {encode : Bool} {type : String} {kind : TableKind}
    (looks : lookup? encode step.transform = some (type, kind)) (found : index.enum? type = some e) :
    (context.tableName type kind.suffix, kind.ofEnum e) ∈ (context.eachValue encode step).tables := by
  obtain ⟨field, jsonName, container, transform⟩ := step
  cases transform with
  | enumCustomNames _ entries | enumAsNumber _ entries =>
    cases looks
    obtain ⟨e', found', rfl⟩ := own
    cases found.symm.trans found'
    cases encode <;>
      simp [Context.eachValue, Context.valueFunction?, Context.withTable, TableKind.ofEnum, TableKind.suffix]
  | _ => cases looks

theorem mem_takeWhile_planOf {index : Index} {names : List String} {m : Message} {step : Step}
    (inside : step ∈ (planOf index names m).steps) (body : step.transform.isRootUnwrap = false) :
    step ∈ (planOf index names m).steps.takeWhile (!·.transform.isRootUnwrap) := by
  rw [planOf] at inside ⊢
  dsimp only at inside ⊢
  rw [List.takeWhile_append_of_pos fun s there => (List.mem_filter.mp there).2]
  -- The steps that encoding code leaves out are the unwraps of the whole message.
  refine List.mem_append_left _ ((List.mem_append.mp inside).resolve_right fun root => ?_)
  rw [(List.mem_filter.mp root).2] at body
  cases body

section Files

variable {index : Index} {file : File}

theorem mem_tables_codeOf {entry : String × Table} : entry ∈ (codeOf index index.plans file).tables ↔
    ∃ code ∈ GoCode.planned index index.plans file,
      (∃ step ∈ code.2.steps.takeWhile (!·.transform.isRootUnwrap),
        entry ∈ ((contextOf index index.plans file).eachValue true step).tables) ∨
      ∃ step ∈ code.2.steps, entry ∈ ((contextOf index index.plans file).eachValue false step).tables := by
  simp only [codeOf, Fragment.tables_join, List.flatMap_map, Context.tables_messageCode, List.mem_flatMap,
    List.mem_append, List.mem_reverse]

variable (keyed : index.Keyed)

include keyed

theorem plan_of_planned {code : Message × Plan} (inside : code ∈ GoCode.planned index index.plans file) :
    code.2 = planOf index index.planned code.1 := by
  obtain ⟨m, listed, given⟩ := List.mem_filterMap.mp inside
  obtain ⟨plan, there, rfl⟩ := Option.map_eq_some_iff.mp given
  obtain ⟨name, _, found⟩ := List.mem_filterMap.mp listed
  obtain ⟨other, known, _, same⟩ := (plan?_eq_some keyed).mp there
  rw [message?, keyed.named _ m found, bareName_idempotent] at known
  cases found.symm.trans known
  exact same

theorem enum_of_table {id : String} {table : Table} (listed : (id, table) ∈ (codeOf index index.plans file).tables) :
    ∃ type ∈ tabled index index.plans file, ∃ kind : TableKind, ∃ e,
      id = (contextOf index index.plans file).tableName type kind.suffix ∧ index.enum? type = some e ∧
        table = kind.ofEnum e := by
  have step_of : ∃ code ∈ GoCode.planned index index.plans file, ∃ step ∈ code.2.steps, ∃ encode,
      (id, table) ∈ ((contextOf index index.plans file).eachValue encode step).tables := by
    obtain ⟨code, inside, ⟨step, there, has⟩ | ⟨step, there, has⟩⟩ := mem_tables_codeOf.mp listed
    · exact ⟨code, inside, step, (List.takeWhile_sublist _).subset there, true, has⟩
    · exact ⟨code, inside, step, there, false, has⟩
  obtain ⟨code, inside, step, there, encode, has⟩ := step_of
  have own : index.TabulatesOwn step.transform := by
    rw [plan_of_planned keyed inside] at there
    rcases mem_planOf.mp there with ⟨f, _, container, transform, gives, rfl⟩ | ⟨group, _, rfl⟩
    · exact tabulatesOwn_of_gives gives
    · trivial
  obtain ⟨type, kind, e, looks, rfl, found, rfl⟩ := table_of_own own has
  exact ⟨type, List.mem_flatMap.mpr ⟨code, inside, List.mem_filterMap.mpr ⟨step, there, looks⟩⟩, kind, e, rfl, found,
    rfl⟩

end Files

end Index

namespace GoCode

open Index

/-- No two enums whose values the code of a file looks up have the same name in identifiers. -/
def TablesApart (index : Index) (plans : PlanSet) (file : Index.File) : Prop :=
  ∀ type ∈ tabled index plans file, ∀ other ∈ tabled index plans file,
    Text.pascalCase type = Text.pascalCase other → type = other

instance (index : Index) (plans : PlanSet) (file : Index.File) : Decidable (TablesApart index plans file) := by
  unfold TablesApart
  infer_instance

/-- The statement of a step looks values of an enum up. It is for a field of this enum, stands in the code of the file,
calls for a table by its identifier, and this table is built from the enum. -/
structure LooksUp (index : Index) (plans : PlanSet) (file : Index.File) (m : Index.Message) (step : Step)
    (encode : Bool) (type : String) (kind : TableKind) : Prop where
  field : ∃ f ∈ m.fields, f.enum? = some type ∧ step = f.step step.container step.transform
  stands : ((contextOf index plans file).eachValue encode step).lines <:+: (codeOf index plans file).lines
  calls : ∃ h, ((contextOf index plans file).valueFunction? encode step.transform).map (·.expression) =
    some ((contextOf index plans file).helper h ++ "(" ++
      (contextOf index plans file).tableName type kind.suffix ++ ")")
  table : ∃ e, index.enum? type = some e ∧
    (tablesOf index plans file).get? ((contextOf index plans file).tableName type kind.suffix) = some (kind.ofEnum e)

theorem mem_tabled {index : Index} {plans : PlanSet} {file : Index.File} {m : Index.Message} {plan : Plan}
    (inside : (m, plan) ∈ planned index plans file) {step : Step} (there : step ∈ plan.steps) {encode : Bool}
    {type : String} {kind : TableKind} (looks : lookup? encode step.transform = some (type, kind)) :
    type ∈ tabled index plans file := by
  refine List.mem_flatMap.mpr ⟨_, inside, List.mem_filterMap.mpr ⟨step, there, ?_⟩⟩
  cases given : step.transform <;> rw [given] at looks <;> cases looks <;> rfl

section Apart

variable {index : Index} {file : Index.File} (apart : TablesApart index index.plans file)

include apart

theorem eq_of_tableName {type other : String} (inside : type ∈ tabled index index.plans file)
    (there : other ∈ tabled index index.plans file) {kind otherKind : TableKind}
    (same : (contextOf index index.plans file).tableName type kind.suffix =
      (contextOf index index.plans file).tableName other otherKind.suffix) : type = other ∧ kind = otherKind := by
  obtain ⟨names, kinds⟩ := TableKind.eq_of_suffix same
  exact ⟨apart type inside other there (String.append_right_inj _ |>.mp names), kinds⟩

theorem looksUp_of_step (keyed : index.Keyed) {m : Index.Message} {plan : Plan}
    (inside : (m, plan) ∈ planned index index.plans file) {step : Step} (there : step ∈ plan.steps) {encode : Bool}
    {type : String} {kind : TableKind} (looks : lookup? encode step.transform = some (type, kind)) :
    LooksUp index index.plans file m step encode type kind := by
  have made := plan_of_planned keyed inside
  dsimp only at made
  subst made
  obtain ⟨own, field⟩ := field_of_lookup there looks
  have recodes := (contextOf index index.plans file).recodes_of_lookup looks
  have before := mem_takeWhile_planOf there (Context.isRootUnwrap_of_recodes recodes)
  refine ⟨field, ?stands, Context.expression_of_lookup _ looks, ?table⟩
  case stands =>
    exact (Context.statement_infix recodes before).trans
      (Fragment.infix_join (List.mem_map.mpr ⟨_, inside, rfl⟩))
  case table =>
    obtain ⟨e, found⟩ := enum_of_lookup own looks
    have has := mem_tables_of_lookup (contextOf index index.plans file) own looks found
    refine ⟨e, found, KeyMap.get?_ofList_of_unique (mem_tables_codeOf.mpr ⟨_, inside, ?_⟩) fun other listed => ?_⟩
    · cases encode with
      | true => exact .inl ⟨step, before, has⟩
      | false => exact .inr ⟨step, there, has⟩
    -- What else has the identifier is a table of the same enum, of the same kind.
    · obtain ⟨type', among, kind', e', same, found', rfl⟩ := enum_of_table keyed listed
      obtain ⟨rfl, rfl⟩ := eq_of_tableName apart (mem_tabled inside there looks) among same
      cases found.symm.trans found'
      rfl

end Apart

end GoCode

namespace Run

open Index GoCode

/-- Where the names of enums stay apart, each statement that looks values of an enum up finds the table that is built
from it, which the text of the file has under the identifier that the statement calls, and no two enums share an
identifier. -/
theorem tables_of_enums {set : Schema.FileSet} {files : List String} {settings : Settings} {compiled : Compiled}
    (run : compile set files settings = .ok compiled) {file : File}
    (apart : TablesApart compiled.index compiled.plans file) :
    (∀ m plan, (m, plan) ∈ GoCode.planned compiled.index compiled.plans file → ∀ step ∈ plan.steps,
      ∀ encode type kind, lookup? encode step.transform = some (type, kind) →
        LooksUp compiled.index compiled.plans file m step encode type kind) ∧
    (∀ type ∈ tabled compiled.index compiled.plans file, ∀ other ∈ tabled compiled.index compiled.plans file,
      ∀ kind otherKind : TableKind,
        (contextOf compiled.index compiled.plans file).tableName type kind.suffix =
          (contextOf compiled.index compiled.plans file).tableName other otherKind.suffix → type = other) ∧
    ∀ banner package text, GoCode.text? compiled.index compiled.plans banner package file = some text →
      ∃ before depth after,
        text = before ++ (Layout.ofLines 0 (codeOf compiled.index compiled.plans file).lines).text ++
          (Layout.ofLines depth (((tablesOf compiled.index compiled.plans file).entries.flatMap fun entry =>
            "" :: entry.2.lines entry.1) ++ after)).text := by
  have keyed := (sound_of_compile run).toKeyed
  obtain ⟨_, _, plans⟩ := compile_spec run
  rw [plans] at apart ⊢
  exact ⟨fun m plan inside step there encode type kind looks => looksUp_of_step apart keyed inside there looks,
    fun type inside other there kind otherKind same => (eq_of_tableName apart inside there same).1,
    fun banner package text made => text?_tables _ _ _ made⟩

def samplesWith (beside : String) : Schema.FileSet :=
  .ofTypes [{ Schema.Message.ofFields "Outer" [] [] with enums := [.ofNames "E" [("DARK", "dark"), ("PALE", "pale")]] },
    .ofFields "Sample" [.ofEnum "shade" ".t.Outer.E" [], .ofEnum "tone" (".t." ++ beside) [],
      .repeating (.ofEnum "ranks" ".t.Rank" [("enum_encoding", .str "NUMBER")])] []]
    [.ofNames beside [("LOW", "low"), ("HIGH", "high")], ⟨"Rank", [⟨"LAST", 0, none⟩], none⟩]

set_option synthInstance.maxSize 1000 in
theorem tables_of_enums_samples : ∃ compiled, compile (samplesWith "Tone") [] .default = .ok compiled ∧
    ∃ file ∈ compiled.index.targets,
      tabled compiled.index compiled.plans file = ["t.Outer.E", "t.Tone", "t.Rank"] ∧
      (tablesOf compiled.index compiled.plans file).keys =
        ["wireTTOuterENames", "wireTTOuterEValues", "wireTTRankByNumber", "wireTTRankNumbers", "wireTTToneNames",
          "wireTTToneValues"] ∧
      ∀ m plan, (m, plan) ∈ GoCode.planned compiled.index compiled.plans file → ∀ step ∈ plan.steps,
        ∀ encode type kind, lookup? encode step.transform = some (type, kind) →
          LooksUp compiled.index compiled.plans file m step encode type kind := by
  obtain ⟨compiled, run, file, among, listed, keys, apart⟩ := exists_compiled
    (fun compiled => ∃ file ∈ compiled.index.targets,
      tabled compiled.index compiled.plans file = ["t.Outer.E", "t.Tone", "t.Rank"] ∧
      (tablesOf compiled.index compiled.plans file).keys =
        ["wireTTOuterENames", "wireTTOuterEValues", "wireTTRankByNumber", "wireTTRankNumbers", "wireTTToneNames",
          "wireTTToneValues"] ∧
      TablesApart compiled.index compiled.plans file)
    (show (compile (samplesWith "Tone") [] .default).toOption.any _ = true by decide +kernel)
  exact ⟨compiled, run, file, among, listed, keys, (tables_of_enums run apart).1⟩

set_option synthInstance.maxSize 1000 in
/-- If the enum beside it is called `OuterE`, both have one identifier, and tones are looked up in the table of
shades. -/
theorem tones_misread : ∃ compiled, compile (samplesWith "OuterE") [] .default = .ok compiled ∧
    ∃ file ∈ compiled.index.targets,
      "t.Outer.E" ∈ tabled compiled.index compiled.plans file ∧
      "t.OuterE" ∈ tabled compiled.index compiled.plans file ∧
      (contextOf compiled.index compiled.plans file).tableName "t.Outer.E" "Names" = "wireTTOuterENames" ∧
      (contextOf compiled.index compiled.plans file).tableName "t.OuterE" "Names" = "wireTTOuterENames" ∧
      (compiled.index.enum? "t.OuterE").map (TableKind.ofEnum · .names) =
        some (.texts [("LOW", "low"), ("HIGH", "high")]) ∧
      (tablesOf compiled.index compiled.plans file).get? "wireTTOuterENames" =
        some (.texts [("DARK", "dark"), ("PALE", "pale")]) :=
  exists_compiled
    (fun compiled => ∃ file ∈ compiled.index.targets,
      "t.Outer.E" ∈ tabled compiled.index compiled.plans file ∧
      "t.OuterE" ∈ tabled compiled.index compiled.plans file ∧
      (contextOf compiled.index compiled.plans file).tableName "t.Outer.E" "Names" = "wireTTOuterENames" ∧
      (contextOf compiled.index compiled.plans file).tableName "t.OuterE" "Names" = "wireTTOuterENames" ∧
      (compiled.index.enum? "t.OuterE").map (TableKind.ofEnum · .names) =
        some (.texts [("LOW", "low"), ("HIGH", "high")]) ∧
      (tablesOf compiled.index compiled.plans file).get? "wireTTOuterENames" =
        some (.texts [("DARK", "dark"), ("PALE", "pale")]))
    (show (compile (samplesWith "OuterE") [] .default).toOption.any _ = true by decide +kernel)

end Run

end Wireform
