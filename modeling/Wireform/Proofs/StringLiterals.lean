import Wireform.Bytes.Base64
import Wireform.GoCode.Layout
import Wireform.Json.Token
import Wireform.TypeScript
import Mathlib.Tactic.SplitIfs

set_option autoImplicit false

namespace Wireform

namespace Text

-- Code points from 2^16 up take a pair of units.
def unitsOf (code : Nat) : List Nat :=
  if code < 0x10000 then [code] else [0xD800 + (code - 0x10000) / 0x400, 0xDC00 + (code - 0x10000) % 0x400]

def utf16 (cs : List Char) : List Nat := cs.flatMap fun c => unitsOf c.toNat

theorem length_unitsOf (code : Nat) : 1 ≤ (unitsOf code).length ∧ (unitsOf code).length ≤ 2 := by
  rw [unitsOf]
  split <;> simp

@[simp]
theorem utf16_nil : utf16 [] = [] := rfl

@[simp]
theorem utf16_cons (c : Char) (cs : List Char) : utf16 (c :: cs) = unitsOf c.toNat ++ utf16 cs := List.flatMap_cons

@[simp]
theorem utf16_append (cs ds : List Char) : utf16 (cs ++ ds) = utf16 cs ++ utf16 ds := List.flatMap_append

theorem length_le_utf16 (cs : List Char) : cs.length ≤ (utf16 cs).length := by
  induction cs with
  | nil => simp
  | cons c cs ih =>
    have one := (length_unitsOf c.toNat).1
    simp only [utf16_cons, List.length_append, List.length_cons]
    omega

end Text

structure Quoting (α : Type) where
  -- What a character stands for as it is; none if it cannot be in a literal.
  plain? : Char → Option (List α)
  -- What the escape behind a backslash stands for, and what follows it.
  escape? : List Char → Option (List α × List Char)
  shrinks : ∀ {cs value rest}, escape? cs = some (value, rest) → rest.length < cs.length

namespace Quoting

variable {α : Type} (q : Quoting α)

-- From behind the opening quote up to the closing one.
def body? : List Char → Option (List α × List Char)
  | [] => none
  | c :: cs =>
    if c = '"' then some ([], cs)
    else if c = '\\' then
      match _ends : q.escape? cs with
      | none => none
      | some (value, rest) => (body? rest).map fun (more, after) => (value ++ more, after)
    else
      match q.plain? c with
      | none => none
      | some value => (body? cs).map fun (more, after) => (value ++ more, after)
termination_by cs => cs.length
decreasing_by
  · have shorter := q.shrinks _ends
    simp only [List.length_cons]
    omega
  · simp

def read? : List Char → Option (List α × List Char)
  | [] => none
  | c :: cs => if c = '"' then q.body? cs else none

/-- A token is one literal with this value: it is read as a whole, whatever follows. -/
def Denotes (token : String) (value : List α) : Prop :=
  ∀ rest, q.read? (token.toList ++ rest) = some (value, rest)

variable {q}

theorem body?_close (cs : List Char) : q.body? ('"' :: cs) = some ([], cs) := by
  rw [body?, if_pos rfl]

theorem body?_escape (cs : List Char) : q.body? ('\\' :: cs) =
    (q.escape? cs).bind fun (value, rest) => (q.body? rest).map fun (more, after) => (value ++ more, after) := by
  rw [body?, if_neg (by decide), if_pos rfl]
  split <;> rename_i ends <;> rw [ends] <;> rfl

theorem body?_plain {c : Char} (quote : c ≠ '"') (backslash : c ≠ '\\') (cs : List Char) : q.body? (c :: cs) =
    (q.plain? c).bind fun value => (q.body? cs).map fun (more, after) => (value ++ more, after) := by
  rw [body?, if_neg quote, if_neg backslash]
  cases q.plain? c <;> rfl

end Quoting

-- Takes exactly so many digits; `sum` is what those in front of them come to.
def digits? (base : Nat) : Nat → Nat → List Char → Option (Nat × List Char)
  | 0, sum, cs => some (sum, cs)
  | _ + 1, _, [] => none
  | count + 1, sum, c :: cs =>
    ((Json.Token.hexValue? c).filter (· < base)).bind fun digit => digits? base count (sum * base + digit) cs

theorem digits?_spec {base count sum n : Nat} {cs rest : List Char}
    (read : digits? base count sum cs = some (n, rest)) : ∃ source, source.length = count ∧ cs = source ++ rest := by
  induction count generalizing sum cs with
  | zero =>
    cases read
    exact ⟨[], rfl, rfl⟩
  | succ count ih =>
    cases cs with
    | nil => cases read
    | cons c cs =>
      obtain ⟨digit, -, later⟩ := Option.bind_eq_some_iff.mp read
      obtain ⟨source, length, rfl⟩ := ih later
      exact ⟨c :: source, by rw [List.length_cons, length], rfl⟩

namespace TypeScript

-- U+2028 and U+2029 end lines, but since ECMAScript 2019 they may stand in literals.
def isSeparator (c : Char) : Bool := c == '\u2028' || c == '\u2029'

def controlOf? : Char → Option Nat
  | 'b' => some 8
  | 't' => some 9
  | 'n' => some 10
  | 'v' => some 11
  | 'f' => some 12
  | 'r' => some 13
  | _ => none

-- A unit in so many digits.
def unit? (count : Nat) (cs : List Char) : Option (List Nat × List Char) :=
  (digits? 16 count 0 cs).map fun (n, rest) => ([n], rest)

-- A code point and the brace behind it.
def braced? (cs : List Char) : Option (List Nat × List Char) :=
  let digits := cs.takeWhile fun c => (Json.Token.hexValue? c).isSome
  (digits? 16 digits.length 0 cs).bind fun (code, rest) =>
    match rest with
    | [] => none
    | c :: after =>
      if c = '\x7d' ∧ digits ≠ [] ∧ code ≤ 0x10FFFF then some (Text.unitsOf code, after) else none

def escape? : List Char → Option (List Nat × List Char)
  | [] => none
  | c :: cs =>
    if c = 'x' then unit? 2 cs
    else if c = 'u' then if cs.head? = some '\x7b' then braced? cs.tail else unit? 4 cs
    else if c = '\r' then some ([], if cs.head? = some '\n' then cs.tail else cs)
    else if c = '\n' ∨ isSeparator c then some ([], cs)
    else if c.isDigit then
      if c = '0' ∧ cs.head?.all (fun next => !next.isDigit) then some ([0], cs) else none
    else some (Text.unitsOf ((controlOf? c).getD c.toNat), cs)

-- What is read stands for no more units than it is written with.
def Spans (cs : List Char) (value : List Nat) (rest : List Char) : Prop :=
  ∃ source, source ≠ [] ∧ cs = source ++ rest ∧ value.length ≤ (Text.utf16 source).length

theorem spans_first (c : Char) {value : List Nat} (bound : value.length ≤ 1) (rest : List Char) :
    Spans (c :: rest) value rest := by
  have units := (Text.length_unitsOf c.toNat).1
  refine ⟨[c], List.cons_ne_nil _ _, rfl, ?_⟩
  simp only [Text.utf16_cons, Text.utf16_nil, List.append_nil]
  omega

theorem Spans.behind {cs rest : List Char} {value : List Nat} (spans : Spans cs value rest) (c : Char) :
    Spans (c :: cs) value rest := by
  obtain ⟨source, -, rfl, bound⟩ := spans
  refine ⟨c :: source, List.cons_ne_nil _ _, rfl, ?_⟩
  rw [Text.utf16_cons, List.length_append]
  omega

theorem spans_unit {count : Nat} {cs rest : List Char} {value : List Nat}
    (read : unit? (count + 1) cs = some (value, rest)) : Spans cs value rest := by
  obtain ⟨⟨n, after⟩, found, same⟩ := Option.map_eq_some_iff.mp read
  obtain ⟨source, length, rfl⟩ := digits?_spec found
  cases same
  have bound := Text.length_le_utf16 source
  refine ⟨source, List.ne_nil_of_length_eq_add_one length, rfl, ?_⟩
  rw [List.length_singleton]
  omega

theorem spans_braced {cs rest : List Char} {value : List Nat} (read : braced? cs = some (value, rest)) :
    Spans cs value rest := by
  obtain ⟨⟨code, after⟩, found, closed⟩ := Option.bind_eq_some_iff.mp read
  obtain ⟨source, length, rfl⟩ := digits?_spec found
  cases after with
  | nil => cases closed
  | cons c after =>
    dsimp only at closed
    split at closed
    · next valid =>
      cases closed
      -- There is one digit at least and a brace, and no code point takes more than two units.
      have digits := List.length_pos_iff.mpr valid.2.1
      have written := Text.length_le_utf16 (source ++ [c])
      have units := (Text.length_unitsOf code).2
      refine ⟨source ++ [c], by simp, by simp, ?_⟩
      rw [List.length_append, List.length_singleton] at written
      omega
    · cases closed

theorem spans_escape {cs rest : List Char} {value : List Nat} (read : escape? cs = some (value, rest)) :
    Spans cs value rest := by
  cases cs with
  | nil => cases read
  | cons c cs =>
    rw [escape?] at read
    split_ifs at read with hex code brace carriage feed line digit zero
    · exact (spans_unit read).behind c
    · obtain ⟨after, rfl⟩ := List.head?_eq_some_iff.mp brace
      exact ((spans_braced read).behind _).behind c
    · exact (spans_unit read).behind c
    · obtain ⟨after, rfl⟩ := List.head?_eq_some_iff.mp feed
      cases read
      exact (spans_first _ (by simp) after).behind c
    · cases read
      exact spans_first c (by simp) _
    · cases read
      exact spans_first c (by simp) _
    · cases read
      exact spans_first c (by simp) _
    · cases read
      -- A character that is no control letter stands for itself, be it one unit or two.
      refine ⟨[c], List.cons_ne_nil _ _, rfl, ?_⟩
      simp only [Text.utf16_cons, Text.utf16_nil, List.append_nil]
      unfold controlOf?
      split <;> simp [Text.unitsOf]

-- A character that stands in literals as it is. Editions differ in whether separators do.
def Plain (separators : Bool) (c : Char) : Prop :=
  c ≠ '"' ∧ c ≠ '\\' ∧ c ≠ '\n' ∧ c ≠ '\r' ∧ (isSeparator c → separators)

instance (separators : Bool) (c : Char) : Decidable (Plain separators c) :=
  inferInstanceAs (Decidable (_ ∧ _))

theorem Plain.of_false {c : Char} (plain : Plain false c) (separators : Bool) : Plain separators c :=
  ⟨plain.1, plain.2.1, plain.2.2.1, plain.2.2.2.1, fun separates => absurd (plain.2.2.2.2 separates) Bool.false_ne_true⟩

def quoting (separators : Bool) : Quoting Nat where
  plain? c := if Plain separators c then some (Text.unitsOf c.toNat) else none
  escape? := escape?
  shrinks read := by
    obtain ⟨source, filled, rfl, -⟩ := spans_escape read
    have written := List.length_pos_iff.mpr filled
    rw [List.length_append]
    omega

theorem plain?_eq_some {separators : Bool} {c : Char} {value : List Nat} :
    (quoting separators).plain? c = some value ↔ Plain separators c ∧ Text.unitsOf c.toNat = value := by
  simp [quoting]

variable {separators : Bool}

-- A value is as long as what it is written with only if there are no escapes in it.
theorem source_of_body {cs rest : List Char} {value : List Nat}
    (read : (quoting separators).body? cs = some (value, rest)) :
    ∃ source, cs = source ++ '"' :: rest ∧ value.length ≤ (Text.utf16 source).length ∧
      (value.length = (Text.utf16 source).length → ∀ c ∈ source, Plain separators c) := by
  fun_induction (quoting separators).body? cs generalizing value with
  | case1 => cases read
  | case2 cs =>
    cases read
    exact ⟨[], rfl, by simp, by simp⟩
  | case3 => cases read
  | case4 cs first behind escape _ ih =>
    obtain ⟨⟨more, after⟩, found, same⟩ := Option.map_eq_some_iff.mp read
    cases same
    obtain ⟨source, rfl, bound, -⟩ := ih found
    obtain ⟨escaped, -, rfl, fewer⟩ := spans_escape escape
    have backslash := (Text.length_unitsOf '\\'.toNat).1
    refine ⟨'\\' :: (escaped ++ source), by simp, ?_, fun same => ?_⟩
    · simp only [Text.utf16_cons, Text.utf16_append, List.length_append]
      omega
    · simp only [Text.utf16_cons, Text.utf16_append, List.length_append] at same
      omega
  | case5 => cases read
  | case6 c cs _ _ first own ih =>
    obtain ⟨⟨more, after⟩, found, same⟩ := Option.map_eq_some_iff.mp read
    cases same
    obtain ⟨source, rfl, bound, clear⟩ := ih found
    obtain ⟨plain, rfl⟩ := plain?_eq_some.mp own
    refine ⟨c :: source, rfl, by simpa using bound, fun same => ?_⟩
    exact List.forall_mem_cons.mpr ⟨plain, clear (by simpa using same)⟩

theorem body?_of_plain {cs : List Char} (plain : ∀ c ∈ cs, Plain separators c) (rest : List Char) :
    (quoting separators).body? (cs ++ '"' :: rest) = some (Text.utf16 cs, rest) := by
  induction cs with
  | nil => exact Quoting.body?_close rest
  | cons c cs ih =>
    obtain ⟨here, later⟩ := List.forall_mem_cons.mp plain
    rw [List.cons_append, Quoting.body?_plain here.1 here.2.1, plain?_eq_some.mpr ⟨here, rfl⟩, ih later]
    rfl

theorem toList_literal (text : String) (rest : List Char) :
    (literal text).toList ++ rest = '"' :: (text.toList ++ '"' :: rest) := by
  simp [literal]

theorem denotes_literal_iff (text : String) :
    (quoting separators).Denotes (literal text) (Text.utf16 text.toList) ↔ ∀ c ∈ text.toList, Plain separators c := by
  constructor
  · intro denotes
    have read := denotes []
    rw [toList_literal, Quoting.read?, if_pos rfl] at read
    obtain ⟨source, same, -, clear⟩ := source_of_body read
    rw [List.append_cancel_right same] at clear ⊢
    exact clear rfl
  · intro plain rest
    rw [toList_literal, Quoting.read?, if_pos rfl, body?_of_plain plain]

end TypeScript

namespace GoCode

/-- What the language leaves to its compilers: whether these two characters may stand in a text. -/
structure Compiler where
  takesNull : Bool
  takesByteOrderMark : Bool

-- A character that stands in literals as it is, or behind a backslash.
def Compiler.Takes (compiler : Compiler) (c : Char) : Prop :=
  c ≠ '\n' ∧ (c = '\x00' → compiler.takesNull) ∧ (c = '\ufeff' → compiler.takesByteOrderMark)

instance (compiler : Compiler) (c : Char) : Decidable (compiler.Takes c) :=
  inferInstanceAs (Decidable (_ ∧ _))

theorem Compiler.Takes.of_none {c : Char} (takes : Takes ⟨false, false⟩ c) (compiler : Compiler) : compiler.Takes c :=
  ⟨takes.1, fun same => absurd (takes.2.1 same) Bool.false_ne_true,
    fun same => absurd (takes.2.2 same) Bool.false_ne_true⟩

def byteOf? : Char → Option UInt8
  | 'a' => some 7
  | 'b' => some 8
  | 't' => some 9
  | 'n' => some 10
  | 'v' => some 11
  | 'f' => some 12
  | 'r' => some 13
  | '"' => some 34
  | '\\' => some 92
  | _ => none

def byteOfCode? (code : Nat) : Option (List UInt8) := if code < 256 then some [UInt8.ofNat code] else none

-- Surrogates are no code points of text.
def charOfCode? (code : Nat) : Option (List UInt8) :=
  if code.isValidChar then some (String.utf8EncodeChar (Char.ofNat code)) else none

-- A code in so many digits.
def coded? (bytes? : Nat → Option (List UInt8)) (base count : Nat) (cs : List Char) :
    Option (List UInt8 × List Char) :=
  (digits? base count 0 cs).bind fun (code, rest) => (bytes? code).map fun bytes => (bytes, rest)

def escape? : List Char → Option (List UInt8 × List Char)
  | [] => none
  | c :: cs =>
    if c = 'x' then coded? byteOfCode? 16 2 cs
    else if c = 'u' then coded? charOfCode? 16 4 cs
    else if c = 'U' then coded? charOfCode? 16 8 cs
    else if c.isDigit then coded? byteOfCode? 8 3 (c :: cs)
    else (byteOf? c).map fun byte => ([byte], cs)

theorem length_of_coded {bytes? : Nat → Option (List UInt8)} {base count : Nat} {cs rest : List Char}
    {value : List UInt8} (read : coded? bytes? base count cs = some (value, rest)) :
    cs.length = count + rest.length := by
  obtain ⟨⟨code, after⟩, found, made⟩ := Option.bind_eq_some_iff.mp read
  obtain ⟨bytes, -, same⟩ := Option.map_eq_some_iff.mp made
  cases same
  obtain ⟨source, rfl, rfl⟩ := digits?_spec found
  exact List.length_append

theorem shorter_of_escape {cs rest : List Char} {value : List UInt8} (read : escape? cs = some (value, rest)) :
    rest.length < cs.length := by
  cases cs with
  | nil => cases read
  | cons c cs =>
    rw [escape?] at read
    split_ifs at read
    case neg =>
      obtain ⟨byte, -, same⟩ := Option.map_eq_some_iff.mp read
      cases same
      exact Nat.lt_succ_self _
    all_goals
      have length := length_of_coded read
      simp only [List.length_cons] at length ⊢
      omega

def quoting (compiler : Compiler) : Quoting UInt8 where
  plain? c := if compiler.Takes c then some (String.utf8EncodeChar c) else none
  escape? := escape?
  shrinks := shorter_of_escape

variable {compiler : Compiler}

-- What a character is written as between quotes.
def escaped (c : Char) : List Char :=
  if c = '\\' then ['\\', '\\'] else if c = '"' then ['\\', '"'] else [c]

theorem toList_quote (text : String) (rest : List Char) :
    (quote text).toList ++ rest = '"' :: (text.toList.flatMap escaped ++ '"' :: rest) := by
  simp only [quote, String.toList_append, String.toList_ofList, List.append_assoc]
  rfl

theorem body?_escaped (c : Char) (cs : List Char) : (quoting compiler).body? (escaped c ++ cs) =
    if compiler.Takes c then
      ((quoting compiler).body? cs).map fun (more, after) => (String.utf8EncodeChar c ++ more, after)
    else none := by
  rw [escaped]
  split
  · next backslash =>
    subst backslash
    rw [if_pos (by simp [Compiler.Takes])]
    exact Quoting.body?_escape ('\\' :: cs)
  split
  · next quote =>
    subst quote
    rw [if_pos (by simp [Compiler.Takes])]
    exact Quoting.body?_escape ('"' :: cs)
  · next backslash quote =>
    rw [List.singleton_append, Quoting.body?_plain quote backslash, quoting]
    dsimp only
    split <;> rfl

theorem body?_quoted (cs rest : List Char) : (quoting compiler).body? (cs.flatMap escaped ++ '"' :: rest) =
    if cs.all fun c => decide (compiler.Takes c) then some (cs.flatMap String.utf8EncodeChar, rest) else none := by
  induction cs with
  | nil => simp [Quoting.body?_close]
  | cons c cs ih =>
    rw [List.flatMap_cons, List.append_assoc, body?_escaped, ih, List.all_cons, List.flatMap_cons]
    by_cases here : compiler.Takes c
    · cases cs.all fun c => decide (compiler.Takes c) <;> simp [here]
    · simp [here]

theorem denotes_quote_iff (text : String) :
    (quoting compiler).Denotes (quote text) (Base64.bytesOf text) ↔ ∀ c ∈ text.toList, compiler.Takes c := by
  have read (rest : List Char) : (quoting compiler).read? ((quote text).toList ++ rest) =
      if text.toList.all fun c => decide (compiler.Takes c) then some (Base64.bytesOf text, rest) else none := by
    rw [toList_quote, Quoting.read?, if_pos rfl, body?_quoted, Base64.bytesOf]
  have each : (text.toList.all fun c => decide (compiler.Takes c)) = true ↔ ∀ c ∈ text.toList, compiler.Takes c := by
    simp only [List.all_eq_true, decide_eq_true_eq]
  rw [← each]
  simp only [Quoting.Denotes, read]
  cases text.toList.all fun c => decide (compiler.Takes c) <;> simp

end GoCode

end Wireform
