import Wireform.Proofs.EnumTables
import Wireform.Proofs.PackageAliases
import Wireform.Proofs.PackageClauses

set_option autoImplicit false

namespace Wireform

namespace GoCode

namespace Layout

theorem exists_shown_line (depth : Nat) (line : String) : ∃ shown, (add ⟨depth, ""⟩ line).text = shown ++ "\n" ∧
    Text.trim shown = Text.trim line ∧ ('\n' ∉ line.toList → '\n' ∉ shown.toList) := by
  rw [add]
  dsimp only
  split
  · rename_i empty
    refine ⟨"", rfl, ?_, fun _ => List.not_mem_nil⟩
    rw [String.isEmpty_iff.mp empty]
    decide
  · refine ⟨_, by rw [String.empty_append], ?_, fun whole => ?_⟩
    · rw [Text.trim_append, Text.trim_trim]
      intro c inside
      obtain ⟨_, rfl⟩ := List.mem_replicate.mp (String.toList_ofList ▸ inside)
      rfl
    · rw [String.toList_append, String.toList_ofList, List.mem_append, not_or, Text.toList_trim]
      refine ⟨fun inside => ?_, fun inside => whole ?_⟩
      · cases (List.mem_replicate.mp inside).2
      · exact (List.dropWhile_suffix _).subset ((List.rdropWhile_prefix _ _).subset inside)

theorem exists_shown {lines : List String} (whole : ∀ line ∈ lines, '\n' ∉ line.toList) (depth : Nat) :
    ∃ shown, shown.map Text.trim = lines.map Text.trim ∧ ∀ after,
      Text.split '\n' ((ofLines depth lines).text ++ after) = shown ++ Text.split '\n' after := by
  -- A line changes the depth of those behind it, so the induction is over all depths.
  induction lines generalizing depth with
  | nil => exact ⟨[], rfl, fun after => by rw [ofLines, List.foldl_nil, String.empty_append, List.nil_append]⟩
  | cons line rest ih =>
    obtain ⟨here, later⟩ := List.forall_mem_cons.mp whole
    obtain ⟨first, made, same, one⟩ := exists_shown_line depth line
    obtain ⟨shown, trimmed, lines⟩ := ih later (add ⟨depth, ""⟩ line).depth
    refine ⟨first :: shown, by rw [List.map_cons, List.map_cons, same, trimmed], fun after => ?_⟩
    rw [ofLines, List.foldl_cons, foldl_add_text, made]
    dsimp only
    rw [String.append_assoc, Text.split_newline, Text.split_of_not_mem (one here), lines, List.singleton_append,
      List.cons_append]

theorem exists_before {lines : List String} (filled : lines ≠ []) (depth : Nat) : ∃ before, ∀ after,
    Text.split '\n' ((ofLines depth lines).text ++ after) = before ++ Text.split '\n' after := by
  obtain ⟨start, last, rfl⟩ := (List.eq_nil_or_concat lines).resolve_left filled
  obtain ⟨shown, made, -, -⟩ := exists_shown_line (ofLines depth start).depth last
  refine ⟨Text.split '\n' ((ofLines depth start).text ++ shown), fun after => ?_⟩
  rw [List.concat_eq_append, ofLines, List.foldl_concat, ← ofLines, add_text, made, ← Text.split_newline]
  simp only [String.append_assoc]

end Layout

def standardPaths : List String :=
  ["bytes", "encoding/base64", "encoding/hex", "encoding/json", "fmt", "strconv", "time"]

/-- The package name that a line of an import block introduces: the one in front of the path, or else the last element
of the path. -/
def introduced? (line : String) : Option String :=
  (Text.cut? '"' (Text.trim line)).map fun (front, quoted) =>
    if front.isEmpty then Text.lastPiece '/' ((Text.dropEnding? "\"" quoted).getD quoted) else Text.trim front

def importNames (imports : List String) (aliases : KeyMap String) : List String :=
  (imports ++ [marshalerPath]).map (Text.lastPiece '/') ++ aliases.values

/-- A name can stand in front of a path. Identifiers are such names. -/
def IsLabel (name : String) : Prop := name ≠ "" ∧ ∀ c ∈ name.toList, Text.isBlank c = false ∧ c ≠ '"'

namespace IsLabel

variable {name : String}

theorem numbered (label : IsLabel name) (n : Nat) : IsLabel (Aliases.numbered name n) := by
  cases n with
  | zero => exact label
  | succ n =>
    refine ⟨fun empty => label.1 (String.append_eq_empty_iff.mp empty).1, fun c inside => ?_⟩
    rw [Aliases.numbered, String.toList_append, List.mem_append] at inside
    refine inside.elim (label.2 c) fun digit => ?_
    rw [Nat.toString_eq_ofList_toDigits, String.toList_ofList] at digit
    have numeral : c.isDigit = true := Nat.isDigit_of_mem_toDigits (by decide) (by decide) digit
    exact ⟨Text.isBlank_digit numeral, fun same => by cases same ▸ numeral⟩

theorem introduced (label : IsLabel name) (path : String) : introduced? (name ++ " " ++ quote path) = some name := by
  obtain ⟨filled, solid⟩ := label
  obtain ⟨first, rest, chars⟩ := List.exists_cons_of_ne_nil (mt String.toList_eq_nil_iff.mp filled)
  have starts : Text.isBlank first = false := (solid first (chars ▸ List.mem_cons_self)).1
  have start (after : List Char) : (name.toList ++ after).dropWhile Text.isBlank = name.toList ++ after := by
    rw [chars, List.cons_append, List.dropWhile_cons_of_neg (by simp [starts])]
  obtain ⟨quoted, literal⟩ : ∃ quoted, (quote path).toList = '"' :: (quoted ++ ['"']) := ⟨_, by simp [quote]; rfl⟩
  have spaced : (name ++ " " ++ quote path).toList = name.toList ++ (' ' :: '"' :: quoted ++ ['"']) := by
    simp [String.toList_append, literal]
  -- The line is cut at its first quotation mark, which is that of the path, as the name has none.
  have whole : Text.trim (name ++ " " ++ quote path) = name ++ " " ++ quote path := by
    refine String.toList_injective ?_
    rw [Text.toList_trim, spaced, start, ← List.append_assoc, List.rdropWhile_concat_neg _ _ '"' (by decide)]
  have front : Text.trim (name ++ " ") = name := by
    refine String.toList_injective ?_
    have space : " ".toList = [' '] := rfl
    rw [Text.toList_trim, String.toList_append, start, space, List.rdropWhile_concat_pos _ _ ' ' (by decide),
      List.rdropWhile_eq_self_iff]
    exact fun present => by simp [(solid _ (List.getLast_mem present)).1]
  have unquoted : '"' ∉ (name ++ " ").toList := by
    rw [String.toList_append, List.mem_append, not_or]
    exact ⟨fun inside => (solid _ inside).2 rfl, by decide⟩
  have cut : Text.cut? '"' (name ++ " " ++ quote path) = some (name ++ " ", String.ofList (quoted ++ ['"'])) := by
    have parts := Text.cut?_append unquoted (quoted ++ ['"'])
    rwa [← literal, ← String.toList_append, String.ofList_toList, String.ofList_toList] at parts
  have present : (name ++ " ").isEmpty = false := by
    rw [← Bool.not_eq_true, String.isEmpty_iff]
    exact fun empty => filled (String.append_eq_empty_iff.mp empty).1
  rw [introduced?, whole, cut, Option.map_some]
  dsimp only
  rw [if_neg (by simp [present]), front]

end IsLabel

theorem introduced_quote {path : String} (listed : path ∈ standardPaths ++ [marshalerPath]) :
    introduced? (quote path) = some (Text.lastPiece '/' path) := by
  have each : ∀ path ∈ standardPaths ++ [marshalerPath], introduced? (quote path) = some (Text.lastPiece '/' path) := by
    decide +kernel
  exact each path listed

theorem filterMap_importLines {imports : List String} (standard : ∀ path ∈ imports, path ∈ standardPaths)
    {aliases : KeyMap String} (labels : ∀ label ∈ aliases.values, IsLabel label) :
    (importLines imports aliases).filterMap introduced? = importNames imports aliases := by
  have bare : introduced? "" = none ∧ introduced? "import (" = none ∧ introduced? ")" = none := by decide +kernel
  have paths : (imports.map quote).filterMap introduced? = imports.map (Text.lastPiece '/') := by
    rw [List.filterMap_map, ← List.filterMap_eq_map]
    refine List.filterMap_congr fun path inside => ?_
    rw [Function.comp_apply, introduced_quote (List.mem_append_left _ (standard path inside)), Function.comp_apply]
  have marshaler : introduced? (quote marshalerPath) = some (Text.lastPiece '/' marshalerPath) :=
    introduced_quote (by simp)
  have named : (aliases.entries.map fun (path, name) => name ++ " " ++ quote path).filterMap introduced? =
      aliases.values := by
    rw [List.filterMap_map, KeyMap.values, ← List.filterMap_eq_map]
    refine List.filterMap_congr fun entry inside => ?_
    rw [Function.comp_apply, (labels _ (List.mem_map_of_mem inside)).introduced, Function.comp_apply]
  simp only [importLines, importNames, List.filterMap_append, List.map_append, paths, named, List.filterMap_cons, bare,
    marshaler, List.filterMap_nil, List.map_cons, List.map_nil, List.nil_append, List.append_nil]

theorem not_mem_quote {path : String} (whole : '\n' ∉ path.toList) : '\n' ∉ (quote path).toList := by
  have escaped : ∀ c ∈ path.toList,
      '\n' ∉ (if c = '\\' then ['\\', '\\'] else if c = '"' then ['\\', '"'] else [c]) := fun c inside => by
    split_ifs
    · decide
    · decide
    · exact fun same => whole (List.mem_singleton.mp same ▸ inside)
  simpa [quote, String.toList_append] using escaped

theorem exists_block (banner source package : String) {imports : List String}
    (standard : ∀ path ∈ imports, path ∈ standardPaths) {aliases : KeyMap String}
    (named : ∀ entry ∈ aliases.entries, '\n' ∉ entry.1.toList ∧ IsLabel entry.2) (rest : String) :
    ∃ before block after,
      Text.split '\n' ((Layout.ofLines 0 (headLines banner source package imports aliases)).text ++ rest) =
        before ++ block ++ after ∧
      block.map Text.trim = (importLines imports aliases).map Text.trim ∧
      block.filterMap introduced? = importNames imports aliases := by
  have parts : headLines banner source package imports aliases =
      ["// " ++ banner, "// source: " ++ source, "", "package " ++ package] ++ importLines imports aliases := by
    simp [headLines, importLines]
  have fixed : ∀ path ∈ standardPaths ++ [marshalerPath], '\n' ∉ path.toList := by decide
  have whole : ∀ line ∈ importLines imports aliases, '\n' ∉ line.toList := by
    intro line inside
    simp only [importLines, List.mem_append, List.mem_cons, List.not_mem_nil, or_false, List.mem_map] at inside
    rcases inside with ((((rfl | rfl) | ⟨path, listed, rfl⟩) | rfl | rfl) | ⟨⟨path, label⟩, listed, rfl⟩) | rfl
    · decide
    · decide
    · exact not_mem_quote (fixed path (List.mem_append_left _ (standard path listed)))
    · decide
    · exact not_mem_quote (fixed _ (by simp))
    · obtain ⟨line, name⟩ := named _ listed
      have unbroken : '\n' ∉ label.toList := fun there => Bool.false_ne_true ((name.2 _ there).1.symm.trans rfl)
      simp [String.toList_append, unbroken, not_mem_quote line]
    · decide
  obtain ⟨before, front⟩ := Layout.exists_before (List.cons_ne_nil ("// " ++ banner) ["// source: " ++ source, "",
    "package " ++ package]) 0
  obtain ⟨block, trimmed, shown⟩ := Layout.exists_shown whole (Layout.ofLines 0 ["// " ++ banner,
    "// source: " ++ source, "", "package " ++ package]).depth
  refine ⟨before, block, Text.split '\n' rest, ?_, trimmed, ?_⟩
  · rw [parts, Layout.ofLines_append]
    dsimp only
    rw [String.append_assoc, front, shown, List.append_assoc]
  · -- Names are read from what stands between the white space at the ends of lines.
    have read (lines : List String) : lines.filterMap introduced? = (lines.map Text.trim).filterMap introduced? := by
      rw [List.filterMap_map]
      exact List.filterMap_congr fun line _ => by rw [Function.comp_apply, introduced?, introduced?, Text.trim_trim]
    rw [read, trimmed, ← read]
    refine filterMap_importLines standard fun label given => ?_
    obtain ⟨entry, inside, rfl⟩ := List.mem_map.mp given
    exact (named entry inside).2

namespace Fragment

@[simp]
theorem imports_ofBlock (texts : List String) : (ofBlock texts).imports = [] := rfl

@[simp]
theorem imports_ofLine (text : String) : (ofLine text).imports = [] := rfl

@[simp]
theorem imports_calling (h : Helper) (f : Fragment) : (f.calling h).imports = f.imports := rfl

@[simp]
theorem imports_importing (path : String) (f : Fragment) : (f.importing path).imports = path :: f.imports := rfl

@[simp]
theorem imports_append (a b : Fragment) : (a ++ b).imports = a.imports ++ b.imports := rfl

@[simp]
theorem imports_join (fragments : List Fragment) : (join fragments).imports = fragments.flatMap (·.imports) :=
  part_join rfl imports_append fragments

end Fragment

namespace Context

variable (context : Context) {path : String}

theorem imports_eachValue (encode : Bool) (step : Step) : (context.eachValue encode step).imports = [] := by
  rw [eachValue]
  split <;> rfl

theorem imports_encodeStep (step : Step) : (context.encodeStep step).imports ⊆ ["fmt"] := by
  have variants (key : String) (flatten : Bool) (opening : String) (v : Variant) :
      (context.encodeVariant key flatten opening v).imports = [] := by
    cases flatten <;> rfl
  rw [encodeStep]
  cases step.transform with
  | oneofDiscriminator discriminator flatten others =>
    cases others with
    | nil => exact List.Subset.refl _
    | cons first rest => simp [encodeOneof, variants]
  | emptyValueAs _ | nullable | flatten _ _ _ | unwrapRoot _ _ => exact List.nil_subset _
  | _ =>
    dsimp only
    rw [imports_eachValue]
    exact List.nil_subset _

theorem imports_decodeStep (step : Step) : (context.decodeStep step).imports ⊆ ["fmt"] := by
  have variants (flatten : Bool) (v : Variant) : (decodeVariant flatten v).imports = [] := by
    cases flatten <;> rfl
  rw [decodeStep]
  cases step.transform with
  | oneofDiscriminator discriminator flatten others => simp [decodeOneof, variants]
  | emptyValueAs behavior => cases behavior <;> exact List.nil_subset _
  | nullable | flatten _ _ _ | unwrapRoot _ _ => exact List.nil_subset _
  | _ =>
    dsimp only
    rw [imports_eachValue]
    exact List.nil_subset _

theorem imports_messageCode (m : Index.Message) (plan : Plan) : (context.messageCode m plan).imports ⊆ ["fmt"] := by
  have steps {code : Step → Fragment} (each : ∀ step, (code step).imports ⊆ ["fmt"]) (steps : List Step) :
      (Fragment.join (steps.map code)).imports ⊆ ["fmt"] := fun path inside => by
    rw [Fragment.imports_join, List.flatMap_map] at inside
    obtain ⟨step, _, there⟩ := List.mem_flatMap.mp inside
    exact each step there
  rw [messageCode, methods, encodeFunction, decodeFunction]
  simp only [Fragment.imports_append, Fragment.imports_ofBlock, List.nil_append, List.append_nil, List.append_subset]
  refine ⟨steps context.imports_encodeStep _, ?_, steps context.imports_decodeStep _⟩
  cases root? plan <;> exact List.nil_subset _

end Context

section Files

variable (index : Index) (plans : PlanSet) (file : Index.File)

def callsOf : List (String × String) := calledPackages index file (planned index plans file)

def aliasesOf : KeyMap String := Aliases.ofPackages (callsOf index plans file)

def importsOf : List String :=
  sortedPaths ("encoding/json" :: (codeOf index plans file).imports ++
    (Helper.all.filter (codeOf index plans file).helpers.contains).flatMap Helper.imports)

theorem text?_head {banner package text : String} (made : text? index plans banner package file = some text) :
    ∃ rest, text = (Layout.ofLines 0 (headLines banner file.name package (importsOf index plans file)
      (aliasesOf index plans file))).text ++ rest := by
  rw [text?] at made
  split at made
  · cases made
  · exact ⟨_, (Option.some.inj made).symm.trans (String.append_assoc ..)⟩

theorem standard_of_mem {path : String} (inside : path ∈ importsOf index plans file) : path ∈ standardPaths := by
  have ofHelper : ∀ h : Helper, ∀ path ∈ h.imports, path ∈ standardPaths := by
    intro h
    cases h <;> decide
  have listed : path ∈ "encoding/json" :: (codeOf index plans file).imports ++
      (Helper.all.filter (codeOf index plans file).helpers.contains).flatMap Helper.imports := by
    simpa [importsOf, sortedPaths, KeyMap.mem_keys_ofList] using inside
  rcases List.mem_append.mp listed with json | there
  · rcases List.mem_cons.mp json with rfl | code
    · decide
    · rw [codeOf, Fragment.imports_join, List.flatMap_map] at code
      obtain ⟨entry, _, there⟩ := List.mem_flatMap.mp code
      cases List.mem_singleton.mp ((contextOf index plans file).imports_messageCode entry.1 entry.2 there)
      decide
  · obtain ⟨h, _, needed⟩ := List.mem_flatMap.mp there
    exact ofHelper h path needed

/-- No package that the code of a file calls has the name of one that the file imports without a name, nor one that
becomes such a name when as many packages are numbered as are called. -/
def ImportsApart : Prop :=
  ∀ package ∈ callsOf index plans file, ∀ path ∈ importsOf index plans file ++ [marshalerPath],
    ∀ n ≤ (callsOf index plans file).length, Aliases.numbered package.2 n ≠ Text.lastPiece '/' path

instance : Decidable (ImportsApart index plans file) := by
  unfold ImportsApart
  infer_instance

variable {index plans file}

theorem ne_of_importsApart (apart : ImportsApart index plans file) {label : String}
    (given : label ∈ (aliasesOf index plans file).values) {path : String}
    (imported : path ∈ importsOf index plans file ++ [marshalerPath]) : label ≠ Text.lastPiece '/' path := by
  obtain ⟨other, has⟩ := KeyMap.mem_values.mp given
  obtain ⟨name, called, n, bound, rfl⟩ := Aliases.numbered_of_get? has
  exact apart _ called path imported n bound

theorem nodup_importNames (apart : ImportsApart index plans file) :
    (importNames (importsOf index plans file) (aliasesOf index plans file)).Nodup := by
  have others : marshalerPath ∉ standardPaths ∧
      ((standardPaths ++ [marshalerPath]).map (Text.lastPiece '/')).Nodup := by decide +kernel
  have known {path : String} (imported : path ∈ importsOf index plans file ++ [marshalerPath]) :
      path ∈ standardPaths ++ [marshalerPath] :=
    List.mem_append.mpr ((List.mem_append.mp imported).imp_left (standard_of_mem index plans file))
  have distinct : (importsOf index plans file ++ [marshalerPath]).Nodup := by
    refine List.nodup_append.mpr ⟨KeyMap.nodup_keys _, List.nodup_singleton _, fun path inside other last => ?_⟩
    rintro rfl
    exact others.1 (List.mem_singleton.mp last ▸ standard_of_mem index plans file inside)
  -- The last elements of the standard paths and of the one of the marshaler are names that differ from each other.
  refine List.nodup_append.mpr ⟨?standard, (Aliases.apart_ofPackages _).nodup_values, ?apart⟩
  case standard =>
    exact distinct.map_on fun path inside other there same =>
      List.inj_on_of_nodup_map others.2 (known inside) (known there) same
  case apart =>
    intro name imported label given
    obtain ⟨path, inside, rfl⟩ := List.mem_map.mp imported
    exact (ne_of_importsApart apart given inside).symm

variable (index plans file) in
/-- The statement of a step that treats documents of another message stands in the code of the file, and it calls the
function of this message by the one name that its package has in the file, if it is not the package of the file. -/
structure Calls (step : Step) (child : String) (encode : Bool) : Prop where
  stands : ((contextOf index plans file).eachValue encode step).lines <:+: (codeOf index plans file).lines
  call : ∀ message path name, index.message? child = some message →
    Context.foreignPackage? index file message = some (path, name) →
      ∃ label, (aliasesOf index plans file).get? path = some label ∧
        ((contextOf index plans file).valueFunction? encode step.transform).map (·.expression) =
          some (label ++ "." ++ ((if encode then "Encode" else "Decode") ++ message.ident ++ "WireJSON"))

theorem calls_of_nested {index : Index} {file : Index.File} (keyed : index.Keyed) {m : Index.Message} {plan : Plan}
    (inside : (m, plan) ∈ planned index index.plans file) {step : Step} (there : step ∈ plan.steps) {child : String}
    (nested : step.transform = .nested child) (encode : Bool) : Calls index index.plans file step child encode := by
  have recodes : ((contextOf index index.plans file).valueFunction? encode step.transform).isSome = true := by
    rw [nested]
    rfl
  refine ⟨?stands, fun message path name found foreign => ?call⟩
  case stands =>
    have made := Index.plan_of_planned keyed inside
    dsimp only at made
    subst made
    have before := Index.mem_takeWhile_planOf there (Context.isRootUnwrap_of_recodes recodes)
    exact (Context.statement_infix recodes before).trans (Fragment.infix_join (List.mem_map.mpr ⟨_, inside, rfl⟩))
  case call =>
    have listed : child ∈ plan.nestedMessages := List.mem_filterMap.mpr ⟨step, there, by rw [nested]⟩
    have called : (path, name) ∈ callsOf index index.plans file :=
      List.mem_flatMap.mpr ⟨_, inside, List.mem_filterMap.mpr ⟨child, listed, by rw [found, Option.bind_some, foreign]⟩⟩
    obtain ⟨label, given⟩ := Aliases.exists_of_mem called
    refine ⟨label, given, ?_⟩
    have function : (contextOf index index.plans file).nestedFunction encode child =
        label ++ "." ++ ((if encode then "Encode" else "Decode") ++ message.ident ++ "WireJSON") := by
      simp only [Context.nestedFunction, contextOf, found, foreign]
      rw [← callsOf, ← aliasesOf, aliasesOf, given, Option.getD_some]
    rw [nested, Context.valueFunction?, Option.map_some, function]

theorem not_nodup_importNames {before after : List (String × String)} {path standard : String}
    (calls : callsOf index plans file = before ++ (path, Text.lastPiece '/' standard) :: after)
    (first : (Aliases.ofPackages before).get? path = none)
    (imported : standard ∈ importsOf index plans file ++ [marshalerPath]) :
    ¬ (importNames (importsOf index plans file) (aliasesOf index plans file)).Nodup := by
  intro distinct
  have given := Aliases.mem_values_of_first first (Text.lastPiece '/' standard) after
  rw [← calls, ← aliasesOf] at given
  exact (List.nodup_append.mp distinct).2.2 _ (List.mem_map_of_mem imported) _ given rfl

end Files

end GoCode

namespace Run

open Index GoCode

/-- The search for the name of a package ends with the first one that is free, which the package keeps, so that packages
have one name each, by which all statements call them, and no two have the same. Where the names stay apart from those
of standard packages, an import block introduces each name once. -/
theorem import_names_unambiguous {set : Schema.FileSet} {files : List String} {settings : Settings}
    {compiled : Compiled} (run : compile set files settings = .ok compiled) {file : File}
    (apart : ImportsApart compiled.index compiled.plans file) :
    (∀ taken name, Aliases.IsFirstFree taken name (Aliases.free taken name)) ∧
    (∀ path label, (aliasesOf compiled.index compiled.plans file).get? path = some label →
      Aliases.NamedAt (callsOf compiled.index compiled.plans file) path label ∧
      ∀ other, (aliasesOf compiled.index compiled.plans file).get? other = some label → path = other) ∧
    (∀ before after, callsOf compiled.index compiled.plans file = before ++ after →
      ∀ path label, (Aliases.ofPackages before).get? path = some label →
        (aliasesOf compiled.index compiled.plans file).get? path = some label) ∧
    (∀ m plan, (m, plan) ∈ GoCode.planned compiled.index compiled.plans file → ∀ step ∈ plan.steps,
      ∀ child, step.transform = .nested child → ∀ encode,
        Calls compiled.index compiled.plans file step child encode) ∧
    (∀ label ∈ (aliasesOf compiled.index compiled.plans file).values,
      ∀ path ∈ importsOf compiled.index compiled.plans file ++ [marshalerPath], label ≠ Text.lastPiece '/' path) ∧
    (importNames (importsOf compiled.index compiled.plans file)
      (aliasesOf compiled.index compiled.plans file)).Nodup ∧
    ∀ banner package text, GoCode.text? compiled.index compiled.plans banner package file = some text →
      (∃ rest, text = (Layout.ofLines 0 (headLines banner file.name package
        (importsOf compiled.index compiled.plans file) (aliasesOf compiled.index compiled.plans file))).text ++ rest) ∧
      ((∀ called ∈ callsOf compiled.index compiled.plans file, '\n' ∉ called.1.toList ∧ IsLabel called.2) →
        ∃ before block after, Text.split '\n' text = before ++ block ++ after ∧
          block.map Text.trim = (importLines (importsOf compiled.index compiled.plans file)
            (aliasesOf compiled.index compiled.plans file)).map Text.trim ∧
          block.filterMap introduced? = importNames (importsOf compiled.index compiled.plans file)
            (aliasesOf compiled.index compiled.plans file)) := by
  have keyed := (sound_of_compile run).toKeyed
  obtain ⟨_, _, plans⟩ := compile_spec run
  rw [plans] at apart ⊢
  have distinct := Aliases.apart_ofPackages (callsOf compiled.index compiled.index.plans file)
  refine ⟨Aliases.free_isFirstFree,
    fun path label given => ⟨Aliases.namedAt_of_get? given, fun other => distinct given⟩,
    fun before after parts path label given => ?later,
    fun m plan inside step there child nested encode => calls_of_nested keyed inside there nested encode,
    fun label given path imported => ne_of_importsApart apart given imported, nodup_importNames apart,
    fun banner package text made => ⟨text?_head _ _ _ made, fun proper => ?block⟩⟩
  case later =>
    rw [aliasesOf, parts]
    exact Aliases.get?_ofPackages_append given after
  case block =>
    obtain ⟨rest, rfl⟩ := text?_head _ _ _ made
    refine exists_block _ _ _ (fun _ => standard_of_mem _ _ _) (fun entry inside => ?_) rest
    obtain ⟨name, called, n, -, label⟩ := Aliases.numbered_of_get? (KeyMap.mem_entries.mp inside)
    obtain ⟨line, proper⟩ := proper _ called
    exact ⟨line, label ▸ proper.numbered n⟩

def packagedFile (name path : String) (dependencies : List String) (messages : List Schema.Message) : Schema.File :=
  ⟨name ++ ".proto", name, dependencies, messages, [], some (KeyMap.ofList [("goPackage", .str path)]), none⟩

def cratesOf (package : String) : Schema.FileSet :=
  let sized : Schema.Field := .ofKind "size" .int64 [("int64_encoding", .str "NUMBER")]
  ⟨[packagedFile "box" ("example.com/" ++ package) [] [.ofFields "Box" [sized] []],
    packagedFile "tin" ("example.org/" ++ package) [] [.ofFields "Tin" [sized] []],
    packagedFile "shop" "example.com/shop" ["box.proto", "tin.proto"]
      [.ofFields "Crate" [.repeating (.ofMessage "boxes" ".box.Box" []), .repeating (.ofMessage "tins" ".tin.Tin" [])]
        []]]⟩

set_option synthInstance.maxSize 1000 in
theorem import_names_of_crates : ∃ compiled, compile (cratesOf "packing") [] .default = .ok compiled ∧
    ∃ file ∈ compiled.index.targets,
      (aliasesOf compiled.index compiled.plans file).entries =
        [("example.com/packing", "packing"), ("example.org/packing", "packing2")] ∧
      importsOf compiled.index compiled.plans file = ["bytes", "encoding/json", "fmt"] ∧
      (importNames (importsOf compiled.index compiled.plans file)
        (aliasesOf compiled.index compiled.plans file)).Nodup := by
  obtain ⟨compiled, run, file, among, named, standard, apart⟩ := exists_compiled
    (fun compiled => ∃ file ∈ compiled.index.targets,
      (aliasesOf compiled.index compiled.plans file).entries =
        [("example.com/packing", "packing"), ("example.org/packing", "packing2")] ∧
      importsOf compiled.index compiled.plans file = ["bytes", "encoding/json", "fmt"] ∧
      ImportsApart compiled.index compiled.plans file)
    (show (compile (cratesOf "packing") [] .default).toOption.any _ = true by decide +kernel)
  obtain ⟨_, _, _, _, _, once, _⟩ := import_names_unambiguous run apart
  exact ⟨compiled, run, file, among, named, standard, once⟩

set_option synthInstance.maxSize 1000 in
/-- If both packages are called `json`, the first one has the name of the standard package that the file imports. -/
theorem json_imported_twice : ∃ compiled, compile (cratesOf "json") [] .default = .ok compiled ∧
    ∃ file ∈ compiled.index.targets,
      (aliasesOf compiled.index compiled.plans file).get? "example.com/json" = some "json" ∧
      "encoding/json" ∈ importsOf compiled.index compiled.plans file ∧
      Text.lastPiece '/' "encoding/json" = "json" ∧
      ¬ (importNames (importsOf compiled.index compiled.plans file)
        (aliasesOf compiled.index compiled.plans file)).Nodup :=
  exists_compiled
    (fun compiled => ∃ file ∈ compiled.index.targets,
      (aliasesOf compiled.index compiled.plans file).get? "example.com/json" = some "json" ∧
      "encoding/json" ∈ importsOf compiled.index compiled.plans file ∧
      Text.lastPiece '/' "encoding/json" = "json" ∧
      ¬ (importNames (importsOf compiled.index compiled.plans file)
        (aliasesOf compiled.index compiled.plans file)).Nodup)
    (show (compile (cratesOf "json") [] .default).toOption.any _ = true by decide +kernel)

end Run

end Wireform
