import Wireform.Proofs.EnumTables
import Wireform.Proofs.ImportBlocks
import Wireform.Proofs.StringLiterals

set_option autoImplicit false

namespace Wireform

namespace Text

-- A text is part of another one, without a break.
def StandsIn (part whole : String) : Prop := part.toList <:+: whole.toList

namespace StandsIn

variable {part whole more : String}

theorem refl (part : String) : StandsIn part part := List.infix_rfl

theorem trans (inside : StandsIn part whole) (there : StandsIn whole more) : StandsIn part more :=
  List.IsInfix.trans inside there

theorem left (inside : StandsIn part whole) (after : String) : StandsIn part (whole ++ after) := by
  rw [StandsIn, String.toList_append]
  exact List.IsInfix.trans inside (List.prefix_append _ _).isInfix

theorem right (inside : StandsIn part whole) (before : String) : StandsIn part (before ++ whole) := by
  rw [StandsIn, String.toList_append]
  exact List.IsInfix.trans inside (List.suffix_append _ _).isInfix

theorem between (inside : StandsIn part whole) (before after : String) : StandsIn part (before ++ whole ++ after) :=
  (inside.right before).left after

theorem intercalate {parts : List String} (inside : part ∈ parts) (separator : String) :
    StandsIn part (separator.intercalate parts) := by
  induction parts with
  | nil => cases inside
  | cons first rest ih =>
    cases rest with
    | nil =>
      rw [List.mem_singleton.mp inside, String.intercalate_singleton]
      exact refl first
    | cons next others =>
      rw [String.intercalate_cons_cons]
      rcases List.mem_cons.mp inside with rfl | later
      · exact ((refl part).left _).left _
      · exact (ih later).right _

theorem join {parts : List String} (inside : part ∈ parts) : StandsIn part (String.join parts) := by
  induction parts with
  | nil => cases inside
  | cons first rest ih =>
    rw [String.join_cons]
    rcases List.mem_cons.mp inside with rfl | later
    · exact (refl part).left _
    · exact (ih later).right _

end StandsIn

section Pieces

variable {mark : Char}

theorem exists_first_piece {part : List Char} (whole : mark ∉ part) (after : List Char) :
    ∃ piece ∈ pieces mark (part ++ after), part <+: piece := by
  have filled : pieces mark after ≠ [] := pieces_ne_nil after
  obtain ⟨first, others, made⟩ := List.exists_cons_of_ne_nil filled
  -- What stands in front of the first mark is one piece with the part.
  suffices pieces mark (part ++ after) = (part ++ first) :: others by
    rw [this]
    exact ⟨part ++ first, List.mem_cons_self, List.prefix_append _ _⟩
  induction part with
  | nil => exact made
  | cons c rest ih =>
    rw [List.mem_cons, not_or] at whole
    simp [pieces, Ne.symm whole.1, ih whole.2]

theorem exists_longer_piece {piece cs : List Char} (inside : piece ∈ pieces mark cs) (before : List Char) :
    ∃ longer ∈ pieces mark (before ++ cs), piece <:+ longer := by
  induction before with
  | nil => exact ⟨piece, inside, List.suffix_rfl⟩
  | cons c rest ih =>
    obtain ⟨longer, there, ends⟩ := ih
    by_cases same : c = mark
    · exact ⟨longer, by simp [pieces, same, there], ends⟩
    · cases given : pieces mark (rest ++ cs) with
      | nil => exact absurd given (pieces_ne_nil _)
      | cons first others =>
        rw [given] at there
        -- The character goes to the first piece, and the others stay.
        rcases List.mem_cons.mp there with rfl | later
        · exact ⟨c :: longer, by simp [pieces, same, given], ends.trans (List.suffix_cons c longer)⟩
        · exact ⟨longer, by simp [pieces, same, given, later], ends⟩

theorem exists_split {part text : String} (whole : mark ∉ part.toList) (inside : StandsIn part text) :
    ∃ line ∈ split mark text, StandsIn part line := by
  obtain ⟨before, after, cut⟩ := inside
  obtain ⟨piece, there, starts⟩ := exists_first_piece whole after
  obtain ⟨longer, among, ends⟩ := exists_longer_piece there before
  rw [← List.append_assoc, cut] at among
  refine ⟨String.ofList longer, List.mem_map_of_mem among, ?_⟩
  rw [StandsIn, String.toList_ofList]
  exact starts.isInfix.trans ends.isInfix

end Pieces

section Trim

theorem infix_dropWhile {p : Char → Bool} {c : Char} {part cs : List Char} (solid : p c = false)
    (inside : c :: part <:+: cs) : c :: part <:+: cs.dropWhile p := by
  induction cs with
  | nil => exact inside
  | cons first rest ih =>
    cases blank : p first with
    | true =>
      rw [List.dropWhile_cons_of_pos blank]
      rcases List.infix_cons_iff.mp inside with starts | later
      · rw [(List.cons_prefix_cons.mp starts).1, blank] at solid
        cases solid
      · exact ih later
    | false =>
      rw [List.dropWhile_cons_of_neg (by simp [blank])]
      exact inside

-- What has no white space at its own ends stays when a line loses that at its ends.
theorem standsIn_trim {part text : String} {first last : Char} {rest start : List Char}
    (starts : part.toList = first :: rest) (ends : part.toList = start ++ [last]) (solid : isBlank first = false)
    (firm : isBlank last = false) (inside : StandsIn part text) : StandsIn part (trim text) := by
  rw [StandsIn, starts] at inside
  have front := infix_dropWhile solid inside
  -- The end of a list is the front of its reversal.
  rw [← starts, ends, ← List.reverse_infix, List.reverse_concat] at front
  rw [StandsIn, toList_trim, ends, List.rdropWhile, ← List.reverse_infix, List.reverse_reverse, List.reverse_concat]
  exact infix_dropWhile firm front

end Trim

end Text

open Text (StandsIn)

namespace TypeScript

namespace Shape

-- The texts between quotes.
def quoted : Shape → List String
  | .literals texts => texts
  | .array element => element.quoted
  | .record value => value.quoted
  | .orNull shape => shape.quoted
  | _ => []

theorem standsIn_text {shape : Shape} {text : String} (listed : text ∈ shape.quoted) :
    StandsIn (literal text) shape.text := by
  induction shape with
  | literals texts => exact StandsIn.intercalate (List.mem_map_of_mem listed) _
  | array element ih =>
    by_cases spaced : element.text.toList.contains ' ' = true
    · have parts : (Shape.array element).text = "(" ++ element.text ++ ")[]" := if_pos spaced
      exact parts ▸ (ih listed).between _ _
    · have parts : (Shape.array element).text = element.text ++ "[]" := if_neg spaced
      exact parts ▸ (ih listed).left _
  | record value ih => exact (ih listed).between _ _
  | orNull shape ih => exact (ih listed).left _
  | _ => cases listed

end Shape

namespace Declared

-- A key that is an identifier has no quotes.
def quoted (d : Declared) : List String := (if isPlainKey d.key then [] else [d.key]) ++ d.shape.quoted

theorem standsIn_line {d : Declared} {text : String} (listed : text ∈ d.quoted) : StandsIn (literal text) d.line := by
  rcases List.mem_append.mp listed with key | value
  · split at key
    · cases key
    · next plain =>
      rw [List.mem_singleton.mp key]
      have written : keyText d.key = literal d.key := if_neg plain
      rw [line, written]
      exact ((((StandsIn.refl _).between _ _).left _).left _).left _
  · exact (Shape.standsIn_text value).between _ _

end Declared

namespace Context

variable (context : Context)

def quotedOf (m : Index.Message) : List String :=
  match Interface.ofMessage context.index context.plans m with
  | .alias member => (context.memberShape member).quoted
  | .object properties => (context.declaredProperties properties).flatMap Declared.quoted

def quoted : List String :=
  (context.index.enumsIn context.file).flatMap (fun e => e.values.map (·.wireName)) ++
    (context.index.messagesIn context.file).flatMap context.quotedOf

def declarationTexts : List String :=
  (context.index.enumsIn context.file).map enumText ++
    (context.index.messagesIn context.file).map context.messageText

variable {context}

theorem standsIn_messageText {m : Index.Message} {text : String} (listed : text ∈ context.quotedOf m) :
    StandsIn (literal text) (context.messageText m) := by
  rw [quotedOf] at listed
  rw [messageText]
  rcases given : Interface.ofMessage context.index context.plans m with member | properties
  · rw [given] at listed
    exact (Shape.standsIn_text listed).between _ _
  · rw [given] at listed
    obtain ⟨d, declared, there⟩ := List.mem_flatMap.mp listed
    have lines := (Declared.standsIn_line there).trans (StandsIn.join (List.mem_map_of_mem declared))
    exact lines.between _ _

theorem standsIn_enumText {e : Index.Enum} {v : Index.EnumValue} (inside : v ∈ e.values) :
    StandsIn (literal v.wireName) (enumText e) := by
  have listed : v.wireName ∈ (e.values.map Index.EnumValue.wireName).eraseDups :=
    List.mem_eraseDups.mpr (List.mem_map_of_mem inside)
  exact (StandsIn.intercalate (List.mem_map_of_mem listed) _).between _ _

theorem standsIn_declarationTexts {text : String} (listed : text ∈ context.quoted) :
    ∃ declaration ∈ context.declarationTexts, StandsIn (literal text) declaration := by
  rcases List.mem_append.mp listed with name | member
  · obtain ⟨e, among, wire⟩ := List.mem_flatMap.mp name
    obtain ⟨v, inside, rfl⟩ := List.mem_map.mp wire
    exact ⟨_, List.mem_append_left _ (List.mem_map_of_mem among), standsIn_enumText inside⟩
  · obtain ⟨m, among, there⟩ := List.mem_flatMap.mp member
    exact ⟨_, List.mem_append_right _ (List.mem_map_of_mem among), standsIn_messageText there⟩

end Context

theorem exists_front {index : Index} {plans : PlanSet} {banner content : String} {file : Index.File}
    (made : text? index plans banner file = some content) : ∃ front,
      content = front ++ String.join ((Context.mk index plans file).declarationTexts.map fun text => "\n" ++ text) := by
  rw [text?] at made
  split at made
  · cases made
  · exact ⟨_, (Option.some.inj made).symm⟩

theorem standsIn_text? {index : Index} {plans : PlanSet} {banner text content : String} {file : Index.File}
    (made : text? index plans banner file = some content) (listed : text ∈ (Context.mk index plans file).quoted) :
    StandsIn (literal text) content := by
  obtain ⟨front, rfl⟩ := exists_front made
  obtain ⟨declaration, among, there⟩ := Context.standsIn_declarationTexts listed
  exact ((there.right "\n").trans (StandsIn.join (List.mem_map_of_mem among))).right front

end TypeScript

namespace GoCode

-- Some line has the token within it.
def OnLine (token : String) (lines : List String) : Prop := ∃ line ∈ lines, StandsIn token line

namespace OnLine

variable {token : String} {lines more : List String}

theorem mono (inside : OnLine token lines) (among : lines ⊆ more) : OnLine token more :=
  inside.imp fun _ there => there.imp_left (among ·)

theorem left (inside : OnLine token lines) (after : List String) : OnLine token (lines ++ after) :=
  inside.mono (List.subset_append_left _ _)

theorem right (inside : OnLine token lines) (before : List String) : OnLine token (before ++ lines) :=
  inside.mono (List.subset_append_right _ _)

theorem head {line : String} (inside : StandsIn token line) (rest : List String) : OnLine token (line :: rest) :=
  ⟨line, List.mem_cons_self, inside⟩

theorem tail (inside : OnLine token lines) (line : String) : OnLine token (line :: lines) :=
  inside.mono (List.subset_cons_self _ _)

theorem opening {line : String} (inside : StandsIn token line) (body : List String) :
    OnLine token (braces line body) :=
  head (inside.left _) _

theorem body (inside : OnLine token lines) (line : String) : OnLine token (braces line lines) :=
  (inside.tail _).left _

-- A token with a line end of its own would be cut.
theorem block (whole : '\n' ∉ token.toList) (inside : OnLine token lines) : OnLine token (block lines) := by
  obtain ⟨line, among, there⟩ := inside
  obtain ⟨part, split, held⟩ := Text.exists_split whole there
  exact ⟨part, List.mem_flatMap.mpr ⟨line, among, split⟩, held⟩

end OnLine

namespace Layout

variable {text : String}

theorem standsIn_add {line : String} (inside : StandsIn (quote text) line) (depth : Nat) :
    StandsIn (quote text) (add ⟨depth, ""⟩ line).text := by
  -- A literal starts and ends with a quote, so what is laid out has it whole.
  have kept : StandsIn (quote text) (Text.trim line) := by
    have starts : (quote text).toList = '"' :: (text.toList.flatMap escaped ++ ['"']) := by
      simpa using toList_quote text []
    have ends : (quote text).toList = ('"' :: text.toList.flatMap escaped) ++ ['"'] := starts
    exact Text.standsIn_trim starts ends rfl rfl inside
  rw [add]
  dsimp only
  split
  · next empty =>
    rw [String.isEmpty_iff.mp empty] at kept
    exact kept.left _
  · exact kept.between _ _

theorem standsIn_ofLines {lines : List String} (inside : OnLine (quote text) lines) (depth : Nat) :
    StandsIn (quote text) (ofLines depth lines).text := by
  obtain ⟨line, among, there⟩ := inside
  obtain ⟨before, after, rfl⟩ := List.append_of_mem among
  rw [ofLines_append, ofLines, ofLines, List.foldl_cons, foldl_add_text after]
  exact ((standsIn_add there _).left _).right _

end Layout

end GoCode

namespace Step

-- The value of a variant is written once as it is and once as JSON.
def quotedOf (flatten : Bool) (v : Variant) : List String :=
  [v.jsonName, v.value, Json.quote v.value] ++ if flatten then v.childKeys else []

def quoted (step : Step) : List String :=
  step.jsonName ::
    match step.transform with
    | .unwrapValues _ key => [key]
    | .flatten _ pre childKeys => (if pre.isEmpty then [] else [pre]) ++ childKeys
    | .oneofDiscriminator _ flatten variants => variants.flatMap (quotedOf flatten)
    | _ => []

end Step

-- An unwrap of the whole message has no code of its own: the code reads its key at the end.
def Plan.quoted (plan : Plan) : List String :=
  (plan.steps.filter (!·.transform.isRootUnwrap)).flatMap Step.quoted ++ plan.rootUnwrap?.toList.map (·.jsonName)

namespace GoCode

-- Both sides of its entries, unless they are numbers.
def Table.quoted : Table → List String
  | .texts entries => entries.flatMap fun (k, v) => [k, v]
  | .numbers entries => entries.map (·.1)
  | .byNumber entries => entries.map (·.2)

def quoted (index : Index) (plans : PlanSet) (file : Index.File) : List String :=
  (planned index plans file).flatMap (·.2.quoted) ++ (tablesOf index plans file).entries.flatMap (·.2.quoted)

namespace Fragment

theorem lines_ofBlock (texts : List String) : (ofBlock texts).lines = block texts := rfl

theorem lines_calling (h : Helper) (f : Fragment) : (f.calling h).lines = f.lines := rfl

theorem lines_importing (path : String) (f : Fragment) : (f.importing path).lines = f.lines := rfl

theorem onLine_join {token : String} {fragments : List Fragment} {f : Fragment} (among : f ∈ fragments)
    (inside : OnLine token f.lines) : OnLine token (join fragments).lines :=
  inside.mono (infix_join among).subset

end Fragment

namespace Table

variable {table : Table} {text : String}

theorem onLine_entryLines (listed : text ∈ table.quoted) :
    OnLine (quote text) table.entryLines := by
  cases table with
  | texts entries =>
    obtain ⟨⟨k, v⟩, inside, side⟩ := List.mem_flatMap.mp listed
    refine ⟨_, List.mem_map_of_mem inside, ?_⟩
    simp only [List.mem_cons, List.not_mem_nil, or_false] at side
    rcases side with rfl | rfl
    · exact (((StandsIn.refl _).left _).left _).left _
    · exact (StandsIn.refl _).between _ _
  | numbers entries =>
    obtain ⟨entry, inside, rfl⟩ := List.mem_map.mp listed
    exact ⟨_, List.mem_map_of_mem inside, (((StandsIn.refl _).left _).left _).left _⟩
  | byNumber entries =>
    obtain ⟨entry, inside, rfl⟩ := List.mem_map.mp listed
    exact ⟨_, List.mem_map_of_mem inside, (StandsIn.refl _).between _ _⟩

theorem onLine_lines (whole : '\n' ∉ (quote text).toList) (listed : text ∈ table.quoted) (name : String) :
    OnLine (quote text) (table.lines name) := by
  rw [lines]
  exact OnLine.block whole (((onLine_entryLines listed).right _).left _)

end Table

theorem standsIn_range {keys : List String} {text : String} (listed : text ∈ keys) :
    StandsIn (quote text) s!"for _, k := range {keyList keys}" := by
  have among : StandsIn (quote text) (keyList keys) :=
    (StandsIn.intercalate (List.mem_map_of_mem listed) _).between _ _
  exact among.right _

theorem root?_of_rootUnwrap? {plan : Plan} {step : Step} (found : plan.rootUnwrap? = some step) :
    ∃ isMap, root? plan = some (quote step.jsonName, isMap) := by
  obtain ⟨unwraps, before, after, parts, others⟩ := List.find?_eq_some_iff_append.mp found
  obtain ⟨field, jsonName, container, transform⟩ := step
  cases transform with
  | unwrapRoot type isMap =>
    refine ⟨isMap, List.findSome?_eq_some_iff.mpr ⟨before, _, after, parts, rfl, fun other inside => ?_⟩⟩
    have kept := others other inside
    split
    · next root =>
      rw [root] at kept
      cases kept
    · rfl
  | _ => cases unwraps

-- How code looks a member up.
theorem standsIn_lookup (key : String) : StandsIn key s!"if v, ok := raw[{key}]; ok" := (StandsIn.refl key).between _ _

namespace Context

variable (context : Context) {text : String}

theorem onLine_encodeEnd {plan : Plan} {step : Step} (found : plan.rootUnwrap? = some step)
    (named : text = step.jsonName) : OnLine (quote text) (encodeEnd plan) := by
  obtain ⟨isMap, root⟩ := root?_of_rootUnwrap? found
  rw [encodeEnd, root, ← named]
  exact (OnLine.opening (standsIn_lookup _) _).left _

theorem onLine_encodeVariant {v : Variant} (named : text = v.jsonName ∨ text = Json.quote v.value) (key : String)
    (flatten : Bool) (opening : String) : OnLine (quote text) (context.encodeVariant key flatten opening v).lines := by
  have member (isNull : String) :
      StandsIn (quote v.jsonName) s!"{opening} v, ok := raw[{quote v.jsonName}]; ok && !{isNull}(v) \x7b" :=
    (((StandsIn.refl _).between _ _).left _).left _
  have tag : StandsIn (quote (Json.quote v.value)) s!"raw[{key}] = json.RawMessage({quote (Json.quote v.value)})" :=
    (StandsIn.refl _).between _ _
  rw [encodeVariant, Fragment.lines_append, Fragment.lines_append]
  rcases named with rfl | rfl
  · exact ((OnLine.head (member _) []).left _).left _
  · exact (OnLine.head tag []).right _

-- Tokens that stay on their lines.
variable (whole : '\n' ∉ (quote text).toList)

include whole

theorem onLine_decodeVariant {v : Variant} {flatten : Bool}
    (named : text = v.value ∨ flatten = true ∧ text ∈ v.childKeys) :
    OnLine (quote text) (decodeVariant flatten v).lines := by
  rw [decodeVariant, Fragment.lines_append]
  rcases named with rfl | ⟨rfl, listed⟩
  · have label : StandsIn (quote v.value) s!"case {quote v.value}:" := (StandsIn.refl _).between _ _
    exact (OnLine.head label []).left _
  · rw [if_pos rfl, Fragment.lines_ofBlock]
    exact (OnLine.block whole (((((OnLine.opening (standsIn_range listed) _).right _).left _).left _).left _)).right _

theorem onLine_decodeFlatten {childKeys : List String} (listed : text ∈ childKeys) (key pre : String) :
    OnLine (quote text) (decodeFlatten key pre childKeys).lines := by
  rw [decodeFlatten, Fragment.lines_ofBlock]
  exact OnLine.block whole ((((OnLine.opening (standsIn_range listed) _).right _).left _).left _)

theorem onLine_liftedKey {pre : String} (filled : pre.isEmpty = false) (named : text = pre) (key : String) :
    OnLine (quote text) (context.encodeFlatten key pre).lines := by
  have lifted : StandsIn (quote text) (liftedKey pre) := by
    rw [liftedKey, filled, named]
    exact (StandsIn.refl _).left _
  have copied : OnLine (quote text) [s!"raw[{liftedKey pre}] = cv"] := OnLine.head (lifted.between _ _) []
  rw [encodeFlatten, Fragment.lines_calling, Fragment.lines_ofBlock]
  exact OnLine.block whole ((((copied.body _).right _).body _).right _ |>.body _)

theorem onLine_encodeFlatten (pre : String) : OnLine (quote text) (context.encodeFlatten (quote text) pre).lines := by
  rw [encodeFlatten, Fragment.lines_calling, Fragment.lines_ofBlock]
  exact OnLine.block whole (OnLine.opening (standsIn_lookup _) _)

theorem onLine_decodeOneof (flatten : Bool) (variants : List Variant) :
    OnLine (quote text) (context.decodeOneof (quote text) flatten variants).lines := by
  have member : StandsIn (quote text) s!"if v, ok := raw[{quote text}]; ok \x7b" := (StandsIn.refl _).between _ _
  rw [decodeOneof, Fragment.lines_calling, Fragment.lines_importing, Fragment.lines_append,
    Fragment.lines_append, Fragment.lines_ofBlock]
  exact ((OnLine.block whole (((OnLine.head member _).left _).left _)).left _).left _

theorem onLine_variant {key : String} {flatten : Bool} {variants : List Variant} {v : Variant} (inside : v ∈ variants)
    (listed : text ∈ Step.quotedOf flatten v) :
    OnLine (quote text) (context.encodeOneof key flatten variants).lines ∨
      OnLine (quote text) (context.decodeOneof key flatten variants).lines := by
  have parts : (text = v.jsonName ∨ text = Json.quote v.value) ∨
      (text = v.value ∨ flatten = true ∧ text ∈ v.childKeys) := by
    cases flatten <;> simp [Step.quotedOf] at listed ⊢ <;> tauto
  rcases parts with encoded | decoded
  · refine .inl ?_
    cases variants with
    | nil => cases inside
    | cons first others =>
      rw [encodeOneof, Fragment.lines_calling, Fragment.lines_importing, Fragment.lines_append,
        Fragment.lines_append]
      refine OnLine.left ?_ _
      rcases List.mem_cons.mp inside with rfl | later
      · exact (context.onLine_encodeVariant encoded key flatten _).left _
      · have among := context.onLine_encodeVariant encoded key flatten "\x7d else if"
        exact (Fragment.onLine_join (List.mem_map_of_mem later) among).right _
  · refine .inr ?_
    rw [decodeOneof, Fragment.lines_calling, Fragment.lines_importing, Fragment.lines_append,
      Fragment.lines_append]
    exact ((Fragment.onLine_join (List.mem_map_of_mem inside) (onLine_decodeVariant whole decoded)).right _).left _

theorem onLine_eachValue {encode : Bool} {step : Step}
    (recodes : (context.valueFunction? encode step.transform).isSome = true) (named : text = step.jsonName) :
    OnLine (quote text) (context.eachValue encode step).lines := by
  obtain ⟨f, given⟩ := Option.isSome_iff_exists.mp recodes
  have call (each container : String) :
      StandsIn (quote text) s!"{each}(raw, {quote text}, \"{container}\", {f.expression})" :=
    (((((StandsIn.refl _).between _ _).left _).left _).left _).left _
  rw [eachValue, given, ← named]
  dsimp only
  exact OnLine.block whole (OnLine.opening ((call _ _).between _ _) _)

theorem onLine_expression {encode : Bool} {step : Step} {f : ValueFunction}
    (given : context.valueFunction? encode step.transform = some f) (inside : StandsIn (quote text) f.expression) :
    OnLine (quote text) (context.eachValue encode step).lines := by
  have call (each key container : String) :
      StandsIn (quote text) s!"{each}(raw, {key}, \"{container}\", {f.expression})" := inside.between _ _
  rw [eachValue, given]
  dsimp only
  exact OnLine.block whole (OnLine.opening ((call _ _ _).between _ _) _)

theorem onLine_key {step : Step} (body : step.transform.isRootUnwrap = false) (named : text = step.jsonName) :
    OnLine (quote text) (context.encodeStep step).lines ∨ OnLine (quote text) (context.decodeStep step).lines := by
  by_cases recodes : (context.valueFunction? true step.transform).isSome = true
  · rw [encodeStep_of_recodes recodes]
    exact .inl (context.onLine_eachValue whole recodes named)
  obtain ⟨field, jsonName, container, transform⟩ := step
  obtain rfl : jsonName = text := named.symm
  cases transform with
  | emptyValueAs behavior =>
    have member (isEmpty : String) :
        StandsIn (quote jsonName) s!"if v, ok := raw[{quote jsonName}]; ok && {isEmpty}(v)" :=
      (((StandsIn.refl _).between _ _).left _).left _
    refine .inl ?_
    dsimp only [encodeStep]
    rw [Fragment.lines_calling, Fragment.lines_ofBlock]
    exact OnLine.block whole (OnLine.opening (member _) _)
  | nullable =>
    have member : StandsIn (quote jsonName) s!"if _, ok := raw[{quote jsonName}]; !ok" :=
      (StandsIn.refl _).between _ _
    refine .inl ?_
    dsimp only [encodeStep]
    rw [Fragment.lines_ofBlock]
    exact OnLine.block whole (OnLine.opening member _)
  | flatten type pre childKeys => exact .inl (context.onLine_encodeFlatten whole pre)
  | oneofDiscriminator discriminator flatten variants =>
    -- Without variants there is nothing to encode, so only the code that decodes is certain to have the key.
    exact .inr (context.onLine_decodeOneof whole flatten variants)
  | unwrapRoot type isMap => cases body
  | _ => exact absurd rfl recodes

theorem onLine_step {step : Step} (body : step.transform.isRootUnwrap = false) (listed : text ∈ step.quoted) :
    OnLine (quote text) (context.encodeStep step).lines ∨ OnLine (quote text) (context.decodeStep step).lines := by
  rcases List.mem_cons.mp listed with key | inner
  · exact context.onLine_key whole body key
  obtain ⟨field, jsonName, container, transform⟩ := step
  cases transform with
  | unwrapValues type key =>
    have recodes : (context.valueFunction? true (Step.mk field jsonName container
        (.unwrapValues type key)).transform).isSome = true := rfl
    rw [List.mem_singleton.mp inner] at whole ⊢
    rw [encodeStep_of_recodes recodes]
    exact .inl (context.onLine_expression whole rfl ((StandsIn.refl _).between _ _))
  | flatten type pre childKeys =>
    rcases List.mem_append.mp inner with lifted | child
    · split at lifted
      · cases lifted
      · next filled =>
        exact .inl (context.onLine_liftedKey whole (Bool.eq_false_iff.mpr filled) (List.mem_singleton.mp lifted) _)
    · exact .inr (onLine_decodeFlatten whole child _ _)
  | oneofDiscriminator discriminator flatten variants =>
    obtain ⟨v, inside, there⟩ := List.mem_flatMap.mp inner
    exact context.onLine_variant whole inside there
  | _ => cases inner

theorem onLine_messageCode {m : Index.Message} {plan : Plan}
    (early : ∀ step ∈ plan.steps, step.transform.isRootUnwrap = false →
      step ∈ plan.steps.takeWhile (!·.transform.isRootUnwrap))
    (listed : text ∈ plan.quoted) : OnLine (quote text) (context.messageCode m plan).lines := by
  rw [messageCode, Fragment.lines_append, Fragment.lines_append]
  rcases List.mem_append.mp listed with named | root
  · obtain ⟨step, kept, there⟩ := List.mem_flatMap.mp named
    obtain ⟨inside, body⟩ := List.mem_filter.mp kept
    rw [Bool.not_eq_true'] at body
    rcases context.onLine_step whole body there with encoded | decoded
    · have among : context.encodeStep step ∈
          (plan.steps.takeWhile (!·.transform.isRootUnwrap)).map context.encodeStep :=
        List.mem_map_of_mem (early step inside body)
      rw [encodeFunction, Fragment.lines_append, Fragment.lines_append]
      exact ((((Fragment.onLine_join among encoded).right _).left _).right _).left _
    · have among : context.decodeStep step ∈ plan.steps.reverse.map context.decodeStep :=
        List.mem_map_of_mem (List.mem_reverse.mpr inside)
      rw [decodeFunction, Fragment.lines_append, Fragment.lines_append]
      exact (((Fragment.onLine_join among decoded).right _).left _).right _
  · obtain ⟨step, found, same⟩ := List.mem_map.mp root
    have ends := OnLine.block whole (onLine_encodeEnd (Option.mem_toList.mp found) same.symm)
    rw [encodeFunction, Fragment.lines_append, Fragment.lines_append, Fragment.lines_ofBlock _]
    exact ((ends.right _).right _).left _

end Context

theorem standsIn_text? {index : Index} (keyed : index.Keyed) {file : Index.File} {banner package content text : String}
    (made : text? index index.plans banner package file = some content) (whole : '\n' ∉ (quote text).toList)
    (listed : text ∈ quoted index index.plans file) : StandsIn (quote text) content := by
  obtain ⟨before, depth, after, rfl⟩ := text?_tables _ _ _ made
  rcases List.mem_append.mp listed with step | entry
  · obtain ⟨code, inside, there⟩ := List.mem_flatMap.mp step
    have same := Index.plan_of_planned keyed inside
    have here : OnLine (quote text) ((contextOf index index.plans file).messageCode code.1 code.2).lines := by
      refine Context.onLine_messageCode _ whole (fun step among body => ?_) there
      rw [same] at among ⊢
      exact Index.mem_takeWhile_planOf among body
    have all : OnLine (quote text) (codeOf index index.plans file).lines :=
      Fragment.onLine_join (List.mem_map_of_mem inside) here
    exact (Layout.standsIn_ofLines all 0).between _ _
  · obtain ⟨⟨name, table⟩, inside, there⟩ := List.mem_flatMap.mp entry
    have here : OnLine (quote text) ((tablesOf index index.plans file).entries.flatMap fun entry =>
        "" :: entry.2.lines entry.1) :=
      ((Table.onLine_lines whole there name).tail "").mono fun line among => List.mem_flatMap.mpr ⟨_, inside, among⟩
    exact (Layout.standsIn_ofLines (here.left after) depth).right _

end GoCode

-- A token stands in code, and is one literal with this value.
def Quoting.Writes {α : Type} (q : Quoting α) (code token : String) (value : List α) : Prop :=
  StandsIn token code ∧ q.Denotes token value

namespace Emit

variable {index : Index} {settings : Settings} {file : Index.File} {artifact : Artifact} {text : String}

theorem standsIn_typeScript (made : render .typeScript index index.plans settings file = some artifact)
    (listed : text ∈ (TypeScript.Context.mk index index.plans file).quoted) :
    StandsIn (TypeScript.literal text) artifact.content := by
  obtain ⟨content, given, rfl⟩ := Option.map_eq_some_iff.mp made
  exact TypeScript.standsIn_text? given listed

theorem standsIn_goCode (keyed : index.Keyed) {target : Target} (code : target = .goServer ∨ target = .goClient)
    (made : render target index index.plans settings file = some artifact)
    (listed : text ∈ GoCode.quoted index index.plans file) (whole : '\n' ∉ text.toList) :
    StandsIn (GoCode.quote text) artifact.content := by
  rcases code with rfl | rfl <;>
    obtain ⟨content, given, rfl⟩ := Option.map_eq_some_iff.mp made <;>
    exact GoCode.standsIn_text? keyed given (GoCode.not_mem_quote whole) listed

end Emit

namespace Run

open Index

variable {set : Schema.FileSet} {files : List String} {settings : Settings} {compiled : Compiled}

theorem artifacts_of_compile (run : compile set files settings = .ok compiled) :
    ∃ output, generate set files settings = .ok output ∧ ∀ artifact ∈ output.artifacts,
      ∃ file ∈ compiled.index.targets,
        Emit.render artifact.target compiled.index compiled.index.plans settings file = some artifact := by
  obtain ⟨_, _, plans⟩ := compile_spec run
  obtain ⟨output, made, artifacts⟩ := generate_of_compile run
  refine ⟨output, made, fun artifact inside => ?_⟩
  rw [artifacts, plans] at inside
  obtain ⟨target, _, listed⟩ := List.mem_flatMap.mp inside
  obtain ⟨file, among, rendered⟩ := List.mem_filterMap.mp listed
  exact ⟨file, among, Emit.target_of_render rendered ▸ rendered⟩

/-- What is generated from a schema that compiles has a literal for each text that its declarations, steps and tables
name. In TypeScript the literal denotes the text exactly if this has no quotes, backslashes and line ends. In Go it
does so exactly if the text is a single line that the compiler takes. -/
theorem literals_denote (run : compile set files settings = .ok compiled) :
    ∃ output, generate set files settings = .ok output ∧
      ∀ artifact ∈ output.artifacts, ∃ file ∈ compiled.index.targets,
        Emit.render artifact.target compiled.index compiled.plans settings file = some artifact ∧
        (artifact.target = .typeScript →
          ∀ text ∈ (TypeScript.Context.mk compiled.index compiled.plans file).quoted,
            StandsIn (TypeScript.literal text) artifact.content ∧
            ∀ separators, (TypeScript.quoting separators).Denotes (TypeScript.literal text)
              (Text.utf16 text.toList) ↔ ∀ c ∈ text.toList, TypeScript.Plain separators c) ∧
        (artifact.target = .goServer ∨ artifact.target = .goClient →
          ∀ text ∈ GoCode.quoted compiled.index compiled.plans file, ∀ compiler : GoCode.Compiler,
            (GoCode.quoting compiler).Writes artifact.content (GoCode.quote text) (Base64.bytesOf text) ↔
              ∀ c ∈ text.toList, compiler.Takes c) := by
  have keyed := (sound_of_compile run).toKeyed
  obtain ⟨_, _, plans⟩ := compile_spec run
  obtain ⟨output, made, artifacts⟩ := artifacts_of_compile run
  rw [plans]
  refine ⟨output, made, fun artifact inside => ?_⟩
  obtain ⟨file, among, rendered⟩ := artifacts artifact inside
  refine ⟨file, among, rendered, ?typeScript, ?goCode⟩
  case typeScript =>
    intro code text named
    have stands := Emit.standsIn_typeScript (code ▸ rendered) named
    exact ⟨stands, fun separators => TypeScript.denotes_literal_iff text⟩
  case goCode =>
    intro code text named compiler
    constructor
    · rintro ⟨-, denotes⟩
      exact (GoCode.denotes_quote_iff text).mp denotes
    · intro takes
      -- A single line is not cut, so its literal is found in the file.
      have whole : '\n' ∉ text.toList := fun there => (takes _ there).1 rfl
      exact ⟨Emit.standsIn_goCode keyed code rendered named whole, (GoCode.denotes_quote_iff text).mpr takes⟩

def shadesNamed (dark pale : String) : Schema.Enum := .ofNames "Shade" [("DARK", dark), ("PALE", pale)]

def boxedSamples : Schema.FileSet :=
  .ofTypes [.ofFields "Box" [.ofKind "size" .int32 []] [],
    .ofFields "Sample" [.ofEnum "shade" ".t.Shade" [],
      .ofMessage "box" ".t.Box" [("flatten", .bool true), ("flatten_prefix", .str "box-")],
      .ofMember "note" .string 0, .ofVariant "mark" ".t.Box" 0] [.ofDiscriminator "content" "content-kind"]]
    [shadesNamed "dark grey" "pale"]

def codeSettings : Settings := { Settings.default with targets := [.goServer, .typeScript] }

set_option synthInstance.maxSize 1000 in
theorem literals_of_samples : ∃ compiled output, compile boxedSamples [] codeSettings = .ok compiled ∧
    generate boxedSamples [] codeSettings = .ok output ∧
    output.artifacts.map (·.target) = [.goServer, .typeScript] ∧ ∀ artifact ∈ output.artifacts,
      (artifact.target = .typeScript →
        ∀ text ∈ ["dark grey", "pale", "box-size", "content-kind", "note", "mark"], ∀ separators,
          (TypeScript.quoting separators).Writes artifact.content (TypeScript.literal text)
            (Text.utf16 text.toList)) ∧
      (artifact.target = .goServer →
        ∀ text ∈ ["shade", "dark grey", "box-", "content-kind", "note", "mark"], ∀ compiler : GoCode.Compiler,
          (GoCode.quoting compiler).Writes artifact.content (GoCode.quote text) (Base64.bytesOf text)) := by
  obtain ⟨compiled, run, targets, declared, named⟩ := exists_compiled
    (fun compiled =>
      (Emit.artifacts codeSettings.effectiveTargets compiled.index compiled.plans codeSettings).map (·.target) =
        [.goServer, .typeScript] ∧
      (∀ file ∈ compiled.index.targets, (TypeScript.Context.mk compiled.index compiled.plans file).quoted =
        ["dark grey", "pale", "box-size", "content-kind", "note", "mark"]) ∧
      ∀ file ∈ compiled.index.targets, ∀ text ∈ ["shade", "dark grey", "box-", "content-kind", "note", "mark"],
        text ∈ GoCode.quoted compiled.index compiled.plans file)
    (show (compile boxedSamples [] codeSettings).toOption.any _ = true by decide +kernel)
  obtain ⟨output, made, artifacts⟩ := generate_of_compile run
  obtain ⟨other, same, each⟩ := literals_denote run
  obtain rfl : output = other := Except.ok.inj (made.symm.trans same)
  rw [← artifacts] at targets
  refine ⟨compiled, output, run, made, targets, fun artifact inside => ?_⟩
  obtain ⟨file, among, -, typeScript, goCode⟩ := each artifact inside
  refine ⟨fun code text listed separators => ?_, fun code text listed compiler => ?_⟩
  · obtain ⟨stands, denotes⟩ := typeScript code text (declared file among ▸ listed)
    have plain : ["dark grey", "pale", "box-size", "content-kind", "note", "mark"].all
        (fun text => text.toList.all fun c => decide (TypeScript.Plain false c)) = true := by decide +kernel
    simp only [List.all_eq_true, decide_eq_true_eq] at plain
    exact ⟨stands, (denotes separators).mpr fun c inside => (plain text listed c inside).of_false separators⟩
  · have takes : ["shade", "dark grey", "box-", "content-kind", "note", "mark"].all
        (fun text => text.toList.all fun c => decide (GoCode.Compiler.Takes ⟨false, false⟩ c)) = true := by
      decide +kernel
    simp only [List.all_eq_true, decide_eq_true_eq] at takes
    refine (goCode (.inl code) text (named file among text listed) compiler).mpr fun c inside => ?_
    exact (takes text listed c inside).of_none compiler

def oddSamples : Schema.FileSet :=
  .ofTypes [.ofFields "Sample" [.ofEnum "shade" ".t.Shade" []] []] [shadesNamed "say \"hi\"" "dark\ngrey"]

set_option synthInstance.maxSize 1000 in
/-- In TypeScript the literal of the one name ends at its first quote. In Go that of the other one does not end. -/
theorem shades_misquoted : ∃ compiled output, compile oddSamples [] codeSettings = .ok compiled ∧
    generate oddSamples [] codeSettings = .ok output ∧
    (∃ artifact ∈ output.artifacts, artifact.target = .typeScript ∧
      StandsIn (TypeScript.literal "say \"hi\"") artifact.content ∧ ∀ separators,
        ¬ (TypeScript.quoting separators).Denotes (TypeScript.literal "say \"hi\"")
          (Text.utf16 "say \"hi\"".toList) ∧
        (TypeScript.quoting separators).read? (TypeScript.literal "say \"hi\"").toList =
          some (Text.utf16 "say ".toList, "hi\"\"".toList)) ∧
    ∃ file ∈ compiled.index.targets, "dark\ngrey" ∈ GoCode.quoted compiled.index compiled.plans file ∧
      ∀ compiler : GoCode.Compiler,
        ¬ (GoCode.quoting compiler).Denotes (GoCode.quote "dark\ngrey") (Base64.bytesOf "dark\ngrey") := by
  obtain ⟨compiled, run, targets, declared, goFile, there, named⟩ := exists_compiled
    (fun compiled =>
      .typeScript ∈ (Emit.artifacts codeSettings.effectiveTargets compiled.index compiled.plans codeSettings).map
        (·.target) ∧
      (∀ file ∈ compiled.index.targets,
        "say \"hi\"" ∈ (TypeScript.Context.mk compiled.index compiled.plans file).quoted) ∧
      ∃ file ∈ compiled.index.targets, "dark\ngrey" ∈ GoCode.quoted compiled.index compiled.plans file)
    (show (compile oddSamples [] codeSettings).toOption.any _ = true by decide +kernel)
  obtain ⟨output, made, artifacts⟩ := generate_of_compile run
  obtain ⟨other, same, each⟩ := artifacts_of_compile run
  obtain rfl : output = other := Except.ok.inj (made.symm.trans same)
  rw [← artifacts] at targets
  rw [(compile_spec run).2.2] at declared
  refine ⟨compiled, output, run, made, ?typeScript, goFile, there, named, fun compiler denotes => ?goCode⟩
  case typeScript =>
    obtain ⟨artifact, inside, code⟩ := List.mem_map.mp targets
    obtain ⟨file, among, rendered⟩ := each artifact inside
    refine ⟨artifact, inside, code, Emit.standsIn_typeScript (code ▸ rendered) (declared file among),
      fun separators => ⟨fun denotes => ?_, ?_⟩⟩
    · exact ((TypeScript.denotes_literal_iff _).mp denotes '"' (by decide)).1 rfl
    · have parts : (TypeScript.literal "say \"hi\"").toList = '"' :: ("say ".toList ++ '"' :: "hi\"\"".toList) := by
        decide
      have plain : "say ".toList.all (fun c => decide (TypeScript.Plain false c)) = true := by decide
      simp only [List.all_eq_true, decide_eq_true_eq] at plain
      rw [parts, Quoting.read?, if_pos rfl,
        TypeScript.body?_of_plain fun c inside => (plain c inside).of_false separators]
  case goCode => exact ((GoCode.denotes_quote_iff _).mp denotes '\n' (by decide)).1 rfl

end Run

end Wireform
