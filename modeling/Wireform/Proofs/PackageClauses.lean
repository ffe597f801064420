import Mathlib.Data.List.Forall2
import Wireform.Proofs.Evaluation
import Wireform.Proofs.AcceptedIndex
import Wireform.Proofs.Basic
import Wireform.Proofs.SplitTexts

set_option autoImplicit false

namespace Wireform

theorem forall₂_filterMap {α β : Type} {R : β → β → Prop} {f g : α → Option β} {items : List α}
    (each : ∀ x ∈ items, (f x = none ∧ g x = none) ∨ ∃ a b, f x = some a ∧ g x = some b ∧ R a b) :
    List.Forall₂ R (items.filterMap f) (items.filterMap g) := by
  induction items with
  | nil => exact .nil
  | cons first rest ih =>
    obtain ⟨here, later⟩ := List.forall_mem_cons.mp each
    rcases here with ⟨none_left, none_right⟩ | ⟨a, b, left, right, related⟩
    · simpa [none_left, none_right] using ih later
    · simpa [left, right] using ⟨related, ih later⟩

namespace GoCode

/-- A name that stands in a line as it is: not empty, and without white space and opening brackets. Identifiers, which
are made of letters, digits and underscores, are such names. -/
def IsName (label : String) : Prop :=
  label ≠ "" ∧ ∀ c ∈ label.toList, Text.isBlank c = false ∧ c ≠ '\x7b' ∧ c ≠ '('

instance (label : String) : Decidable (IsName label) :=
  decidable_of_iff (label ≠ "" ∧ label.toList.all (fun c => !Text.isBlank c && c != '\x7b' && c != '(') = true)
    (by simp [IsName, and_assoc])

namespace Layout

theorem add_text (l : Layout) (source : String) :
    l.add source = ⟨(add ⟨l.depth, ""⟩ source).depth, l.text ++ (add ⟨l.depth, ""⟩ source).text⟩ := by
  simp only [add]
  split <;> simp [String.append_assoc]

theorem foldl_add_text (lines : List String) (l : Layout) :
    lines.foldl add l = ⟨(ofLines l.depth lines).depth, l.text ++ (ofLines l.depth lines).text⟩ := by
  induction lines generalizing l with
  | nil => simp [ofLines]
  | cons line rest ih =>
    rw [ofLines, List.foldl_cons, List.foldl_cons, ih (l.add line), ih (add ⟨l.depth, ""⟩ line), add_text l line,
      String.append_assoc]

theorem ofLines_append (depth : Nat) (lines more : List String) : ofLines depth (lines ++ more) =
    ⟨(ofLines (ofLines depth lines).depth more).depth,
      (ofLines depth lines).text ++ (ofLines (ofLines depth lines).depth more).text⟩ := by
  rw [ofLines, List.foldl_append, foldl_add_text more]
  rfl

end Layout

def packageClause (depth : Nat) (label : String) : String :=
  String.ofList (List.replicate depth '\t') ++ "package " ++ label

section Clause

variable {label : String} (name : IsName label)

include name

theorem exists_last : ∃ start c, label.toList = start ++ [c] ∧ Text.isBlank c = false ∧ c ≠ '\x7b' ∧ c ≠ '(' := by
  have filled : label.toList ≠ [] := fun empty => name.1 (String.toList_eq_nil_iff.mp empty)
  refine ⟨_, _, (List.dropLast_append_getLast filled).symm, name.2 _ (List.getLast_mem filled)⟩

theorem trim_clause : Text.trim ("package " ++ label) = "package " ++ label := by
  obtain ⟨start, c, ends, solid, _, _⟩ := exists_last name
  refine Text.trim_eq_self (fun first leads => ?_) fun last trails => ?_
  · cases leads.symm.trans (String.toList_append ▸ rfl : ("package " ++ label).toList.head? = some 'p')
    decide
  · rw [String.toList_append, ends, ← List.append_assoc, List.getLast?_concat] at trails
    exact Option.some.inj trails ▸ solid

theorem add_clause (l : Layout) :
    l.add ("package " ++ label) = ⟨l.depth, l.text ++ packageClause l.depth label ++ "\n"⟩ := by
  obtain ⟨start, c, ends, _, brace, paren⟩ := exists_last name
  have filled : ("package " ++ label).isEmpty = false := by
    rw [← Bool.not_eq_true, String.isEmpty_iff]
    exact fun empty => by simpa using congrArg String.toList empty
  have opens : Layout.opens ("package " ++ label) = false := by
    rw [Layout.opens, String.toList_append, ends, ← List.append_assoc, List.getLast?_concat]
    simp [brace, paren]
  have closes : Layout.closes ("package " ++ label) = false := by
    simp [Layout.closes, String.toList_append]
  have plain : Layout.isLabel ("package " ++ label) = false := by
    have other : "package " ++ label ≠ "default:" := fun same => by simpa using congrArg (·.toList.head?) same
    simp [Layout.isLabel, Text.startsWith, String.toList_append, List.isPrefixOf, other]
  simp [Layout.add, trim_clause name, filled, opens, closes, plain, packageClause, String.append_assoc]

end Clause

def comments (banner source : String) : Layout := Layout.ofLines 0 ["// " ++ banner, "// source: " ++ source]

def importLines (imports : List String) (aliases : KeyMap String) : List String :=
  ["", "import ("] ++ imports.map quote ++ ["", quote marshalerPath]
    ++ (aliases.entries.map fun (path, name) => name ++ " " ++ quote path) ++ [")"]

theorem head_layout {label : String} (name : IsName label) (banner source : String) (imports : List String)
    (aliases : KeyMap String) : Layout.ofLines 0 (headLines banner source label imports aliases) =
      ⟨(Layout.ofLines (comments banner source).depth (importLines imports aliases)).depth,
        (comments banner source).text ++ "\n" ++ packageClause (comments banner source).depth label ++ "\n" ++
          (Layout.ofLines (comments banner source).depth (importLines imports aliases)).text⟩ := by
  have blank (l : Layout) : l.add "" = ⟨l.depth, l.text ++ "\n"⟩ := rfl
  have parts : headLines banner source label imports aliases =
      ["// " ++ banner, "// source: " ++ source] ++ ("" :: ("package " ++ label) :: importLines imports aliases) := by
    simp [headLines, importLines]
  -- The comments come first, and what follows depends on them by their depth only.
  rw [parts, Layout.ofLines_append, ← comments]
  generalize comments banner source = l
  have lines : Layout.ofLines l.depth ("" :: ("package " ++ label) :: importLines imports aliases) =
      (importLines imports aliases).foldl Layout.add ⟨l.depth, "\n" ++ packageClause l.depth label ++ "\n"⟩ := by
    rw [Layout.ofLines, List.foldl_cons, List.foldl_cons, blank, add_clause name, String.empty_append]
  rw [lines, Layout.foldl_add_text]
  simp only [String.append_assoc]

theorem text?_parts {index : Index} {plans : PlanSet} {file : Index.File} (filled : planned index plans file ≠ [])
    (banner : String) : ∃ imports aliases body tail, ∀ label, text? index plans banner label file =
      some ((Layout.ofLines 0 (headLines banner file.name label imports aliases)).text ++ body ++
        (Layout.ofLines (Layout.ofLines 0 (headLines banner file.name label imports aliases)).depth tail).text) := by
  have some_planned : (planned index plans file).isEmpty = false := by simpa using filled
  simp only [text?, some_planned, Bool.false_eq_true, if_false]
  exact ⟨_, _, _, _, fun label => rfl⟩

theorem text?_none {index : Index} {plans : PlanSet} {file : Index.File} (nothing : planned index plans file = [])
    (banner label : String) : text? index plans banner label file = none := by
  simp [text?, nothing]

theorem packageClause_line {label : String} (name : IsName label) (depth : Nat) :
    '\n' ∉ (packageClause depth label).toList := by
  have inside : '\n' ∉ label.toList := fun there => Bool.false_ne_true ((name.2 _ there).1.symm.trans rfl)
  simp [packageClause, String.toList_append, inside]

theorem exists_lines {index : Index} {plans : PlanSet} {file : Index.File} (filled : planned index plans file ≠ [])
    (banner : String) : ∃ before after, ∀ label, IsName label → ∃ content,
      text? index plans banner label file = some content ∧
        Text.split '\n' content = before ++ packageClause (comments banner file.name).depth label :: after := by
  obtain ⟨imports, aliases, body, tail, parts⟩ := text?_parts filled banner
  let rest := Layout.ofLines (comments banner file.name).depth (importLines imports aliases)
  refine ⟨Text.split '\n' (comments banner file.name).text,
    Text.split '\n' (rest.text ++ body ++ (Layout.ofLines rest.depth tail).text),
    fun label name => ⟨_, parts label, ?_⟩⟩
  rw [head_layout name, ← Text.split_line (packageClause_line name _)]
  simp only [String.append_assoc, rest]

end GoCode

namespace Emit

open GoCode

/-- Two artifacts have one name, and the same lines but for the names in their package clauses. The clause starts its
line, unless the file is named so that the comment in front of it ends with an opening bracket. -/
def SameButPackage (file : Index.File) (serverLabel clientLabel : String) (server client : Artifact) : Prop :=
  server.name = client.name ∧ ∃ before tabs after, (∀ c ∈ tabs.toList, c = '\t') ∧
    (Layout.opens (Text.trim ("// source: " ++ file.name)) = false → tabs = "") ∧
    Text.split '\n' server.content = before ++ (tabs ++ "package " ++ serverLabel) :: after ∧
    Text.split '\n' client.content = before ++ (tabs ++ "package " ++ clientLabel) :: after

theorem comments_depth {source : String} (closed : Layout.opens (Text.trim ("// source: " ++ source)) = false) :
    (comments banner source).depth = 0 := by
  have first : (Layout.add ⟨0, ""⟩ ("// " ++ banner)).depth = 0 := by decide +kernel
  rw [comments, Layout.ofLines, List.foldl_cons, List.foldl_cons, List.foldl_nil, Layout.add]
  dsimp only
  split
  · exact first
  · simp [first, closed]

variable {index : Index} {plans : PlanSet} {settings : Settings}

theorem render_sameButPackage {file : Index.File} (server : IsName (packageName settings .goServer file))
    (client : IsName (packageName settings .goClient file)) :
    (render .goServer index plans settings file = none ∧ render .goClient index plans settings file = none) ∨
    ∃ a b, render .goServer index plans settings file = some a ∧ render .goClient index plans settings file = some b ∧
      a.target = .goServer ∧ b.target = .goClient ∧
      SameButPackage file (packageName settings .goServer file) (packageName settings .goClient file) a b := by
  by_cases filled : planned index plans file = []
  · left
    constructor <;> simp [render, text?_none filled]
  · right
    obtain ⟨before, after, lines⟩ := exists_lines filled banner
    obtain ⟨text, made, split⟩ := lines _ server
    obtain ⟨text', made', split'⟩ := lines _ client
    refine ⟨⟨.goServer, file.stem ++ "_wire.pb.go", text⟩, ⟨.goClient, file.stem ++ "_wire.pb.go", text'⟩, ?_, ?_, rfl,
      rfl, rfl, before, String.ofList (List.replicate (comments banner file.name).depth '\t'), after, ?_,
      fun closed => ?_, split, split'⟩
    · rw [render, made, Option.map_some]
    · rw [render, made', Option.map_some]
    · simp
    · rw [comments_depth closed]
      rfl

theorem artifacts_singleton (target : Target) (index : Index) (plans : PlanSet) (settings : Settings) :
    artifacts [target] index plans settings = index.targets.filterMap (render target index plans settings) := by
  simp [artifacts]

theorem target_of_render {target : Target} {file : Index.File} {a : Artifact}
    (made : render target index plans settings file = some a) : a.target = target := by
  cases target <;>
    · obtain ⟨_, _, rfl⟩ := Option.map_eq_some_iff.mp made
      rfl

theorem filter_artifacts {targets : List Target} (distinct : targets.Nodup) {target : Target} (asked : target ∈ targets) :
    (artifacts targets index plans settings).filter (·.target = target) = artifacts [target] index plans settings := by
  have own (t : Target) : (index.targets.filterMap (render t index plans settings)).filter (·.target = target) =
      if t = target then artifacts [target] index plans settings else [] := by
    rw [artifacts_singleton]
    split
    · rename_i same
      subst same
      refine List.filter_eq_self.mpr fun a inside => ?_
      obtain ⟨file, _, made⟩ := List.mem_filterMap.mp inside
      simp [target_of_render made]
    · rename_i other
      refine List.filter_eq_nil_iff.mpr fun a inside => ?_
      obtain ⟨file, _, made⟩ := List.mem_filterMap.mp inside
      simp [target_of_render made, other]
  rw [artifacts, List.filter_flatMap]
  simp only [own]
  have others : ∀ other ∈ targets, id other ≠ id target →
      (if other = target then artifacts [target] index plans settings else []) = [] :=
    fun other _ differs => if_neg differs
  rw [flatMap_of_nodup (by rwa [List.map_id]) asked _ others, if_pos rfl]

end Emit

namespace Run

open Emit GoCode

theorem nodup_effectiveTargets (settings : Settings) : settings.effectiveTargets.Nodup := by
  have all : Target.all.Nodup := by decide
  rw [Settings.effectiveTargets]
  split
  · exact all
  · exact all.filter _

theorem generate_of_compile {set : Schema.FileSet} {files : List String} {settings : Settings} {compiled : Compiled}
    (run : compile set files settings = .ok compiled) : ∃ output, generate set files settings = .ok output ∧
      output.artifacts = Emit.artifacts settings.effectiveTargets compiled.index compiled.plans settings := by
  rw [generate, run, ok_bind, Compiled.emit, emitWith_emitters]
  exact ⟨_, rfl, rfl⟩

/-- What is made for servers and for clients is the same but for the names of their packages. -/
theorem server_and_client_agree {set : Schema.FileSet} {files : List String} {settings : Settings} {compiled : Compiled}
    (run : compile set files settings = .ok compiled)
    (labels : ∀ file ∈ compiled.index.targets,
      IsName (packageName settings .goServer file) ∧ IsName (packageName settings .goClient file)) :
    ∃ output, generate set files settings = .ok output ∧
      (∀ target ∈ settings.effectiveTargets, output.artifacts.filter (·.target = target) =
        Emit.artifacts [target] compiled.index compiled.plans settings) ∧
      List.Forall₂ (fun server client => server.target = .goServer ∧ client.target = .goClient ∧
          ∃ file ∈ compiled.index.targets, SameButPackage file (packageName settings .goServer file)
            (packageName settings .goClient file) server client)
        (Emit.artifacts [.goServer] compiled.index compiled.plans settings)
        (Emit.artifacts [.goClient] compiled.index compiled.plans settings) := by
  obtain ⟨output, generated, made⟩ := generate_of_compile run
  refine ⟨output, generated, fun target asked => ?_, ?_⟩
  · rw [made, filter_artifacts (nodup_effectiveTargets settings) asked]
  · rw [artifacts_singleton, artifacts_singleton]
    refine forall₂_filterMap fun file inside => ?_
    obtain ⟨server, client⟩ := labels file inside
    rcases render_sameButPackage server client with nothing | ⟨a, b, made, made', own, own', same⟩
    · exact .inl nothing
    · exact .inr ⟨a, b, made, made', own, own', file, inside, same⟩

def orderFiles : Schema.FileSet := .ofMessages [.ofFields "Order" [.ofKind "total" .int64 [("int64_encoding", .str "NUMBER")]] []]

def shopSettings : Settings := { Settings.default with serverPackage := some "shopserver" }

theorem orders_agree : ∃ compiled, compile orderFiles [] shopSettings = .ok compiled ∧
    (∀ file ∈ compiled.index.targets, IsName (packageName shopSettings .goServer file) ∧
      IsName (packageName shopSettings .goClient file)) ∧
    compiled.index.targets.map (fun file => (planned compiled.index compiled.plans file).length) = [1] ∧
    List.Forall₂ (fun server client => server.target = .goServer ∧ client.target = .goClient ∧
        ∃ file ∈ compiled.index.targets, SameButPackage file (packageName shopSettings .goServer file)
          (packageName shopSettings .goClient file) server client)
      (Emit.artifacts [.goServer] compiled.index compiled.plans shopSettings)
      (Emit.artifacts [.goClient] compiled.index compiled.plans shopSettings) := by
  obtain ⟨compiled, run, labels, filled⟩ := exists_ok (x := compile orderFiles [] shopSettings)
    (fun compiled => (∀ file ∈ compiled.index.targets, IsName (packageName shopSettings .goServer file) ∧
        IsName (packageName shopSettings .goClient file)) ∧
      compiled.index.targets.map (fun file => (planned compiled.index compiled.plans file).length) = [1])
    (by decide +kernel)
  obtain ⟨_, _, _, agree⟩ := server_and_client_agree run labels
  exact ⟨compiled, run, labels, filled, agree⟩

end Run

end Wireform
