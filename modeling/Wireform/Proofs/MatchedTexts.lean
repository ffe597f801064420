import Wireform.OpenApi
import Wireform.Pattern.Attempt
import Wireform.Pattern.Reader
import Wireform.Proofs.ByteTexts
import Wireform.Proofs.Documents
import Wireform.Proofs.Numerals

set_option autoImplicit false

namespace Wireform

namespace Regular

def Runs (p : Regular) (before : Option Char) : List Char → Prop
  | [] => p.isNullable before none = true
  | c :: rest => ∃ q ∈ p.rests before c, Runs q (some c) rest

theorem found_of_runs {p q : Regular} {before : Option Char} {begun : List Regular} {cs : List Char}
    (runs : q.Runs before cs) (inside : q ∈ p :: begun) : p.found before begun cs = true := by
  induction cs generalizing q before begun with
  | nil => exact List.any_eq_true.mpr ⟨q, inside, runs⟩
  | cons c rest ih =>
    obtain ⟨r, left, onward⟩ := runs
    have kept : r ∈ ((p :: begun).flatMap (·.rests before c)).eraseDups :=
      List.mem_eraseDups.mpr (List.mem_flatMap.mpr ⟨q, inside, left⟩)
    rw [found, Bool.or_eq_true]
    exact .inr (ih onward (List.mem_cons_of_mem _ kept))

theorem occursIn_of_runs {p : Regular} {text : String} (runs : p.Runs none text.toList) :
    p.occursIn text = true := found_of_runs runs List.mem_cons_self

section Runs

variable {p q : Regular} {before : Option Char} {cs rest : List Char} {set : CharSet}

theorem runs_skip (nullable : p.isNullable before cs.head? = true) (runs : q.Runs before cs) :
    (seq p q).Runs before cs := by
  cases cs with
  | nil => exact Bool.and_eq_true_iff.mpr ⟨nullable, runs⟩
  | cons c rest =>
    obtain ⟨r, left, onward⟩ := runs
    refine ⟨r, ?_, onward⟩
    rw [rests, List.mem_append]
    exact .inr (by simpa [show p.isNullable before (some c) = true from nullable] using left)

theorem runs_end : (boundary .textEnd).Runs before [] := rfl

theorem runs_start (runs : q.Runs none cs) : (seq (.boundary .textStart) q).Runs none cs := runs_skip rfl runs

theorem runs_one {c : Char} (inside : set.contains c = true) (runs : q.Runs (some c) rest) :
    (seq (.one set) q).Runs before (c :: rest) := by
  refine ⟨q, ?_, runs⟩
  simp [rests, inside, andThen, isNullable]

theorem runs_copy {c : Char} (inside : set.contains c = true) {least : Nat} {most : Option Nat} (room : most ≠ some 0)
    (runs : (((one set).copies (least - 1) (most.map (· - 1))).andThen q).Runs (some c) rest) :
    (seq (.times (.one set) least most) q).Runs before (c :: rest) := by
  refine ⟨_, ?_, runs⟩
  simp [rests, inside, room, isNullable, andThen]

variable (before) in
theorem runs_star (solid : q ≠ .empty) (all : ∀ c ∈ cs, set.contains c = true) (runs : ∀ before, q.Runs before rest) :
    (seq (.times (.one set) 0 none) q).Runs before (cs ++ rest) := by
  induction cs generalizing before with
  | nil => exact runs_skip rfl (runs before)
  | cons c cs ih =>
    have later := ih (some c) fun d inside => all d (List.mem_cons_of_mem c inside)
    apply runs_copy (all c List.mem_cons_self) (by simp)
    simpa [copies, andThen, solid] using later

variable (before) in
theorem runs_plus (solid : q ≠ .empty) (some_char : cs ≠ []) (all : ∀ c ∈ cs, set.contains c = true)
    (runs : ∀ before, q.Runs before rest) : (seq (.times (.one set) 1 none) q).Runs before (cs ++ rest) := by
  cases cs with
  | nil => exact absurd rfl some_char
  | cons c cs =>
    have later := runs_star (some c) solid (fun d inside => all d (List.mem_cons_of_mem c inside)) runs
    apply runs_copy (all c List.mem_cons_self) (by simp)
    simpa [copies, andThen, solid] using later

variable (before) in
theorem runs_most {most : Nat} (solid : q ≠ .empty) (few : cs.length ≤ most)
    (all : ∀ c ∈ cs, set.contains c = true) (runs : ∀ before, q.Runs before rest) :
    (seq (.times (.one set) 0 (some most)) q).Runs before (cs ++ rest) := by
  induction cs generalizing before most with
  | nil => exact runs_skip rfl (runs before)
  | cons c cs ih =>
    obtain ⟨left, rfl⟩ : ∃ left, most = left + 1 := ⟨most - 1, by simp only [List.length_cons] at few; omega⟩
    apply runs_copy (all c List.mem_cons_self) (by simp)
    by_cases last : left = 0
    · -- Nothing is left of the copies after the last one.
      have none_left : cs = [] := by simpa [last] using few
      simpa [copies, andThen, last, none_left] using runs (some c)
    · have fewer : cs.length ≤ left := by simpa using few
      have later := ih (some c) fewer fun d inside => all d (List.mem_cons_of_mem c inside)
      simpa [copies, andThen, solid, last] using later

end Runs

end Regular

namespace Pattern

open Regular

theorem matches_of_runs {source text : String} {r : Regular}
    (read : ((parse? source).bind fun p => p.regular?) = some r) (runs : r.Runs none text.toList) :
    (parse? source).all (·.occursIn text) = true := by
  obtain ⟨p, parsed, regular⟩ := Option.bind_eq_some_iff.mp read
  rw [parsed, Option.all_some, occursIn, regular]
  exact occursIn_of_runs runs

def digits : CharSet := .ranges [('0', '9')]

theorem digits_contains {c : Char} (digit : c.isDigit = true) : digits.contains c = true := by
  obtain ⟨low, high⟩ := Time.digit_bounds digit
  simp only [digits, CharSet.contains, List.any_cons, List.any_nil, Bool.or_false, Bool.and_eq_true, decide_eq_true_eq]
  exact ⟨low, high⟩

theorem read_unsigned : ((parse? "^[0-9]+$").bind fun p => p.regular?) =
    some (.seq (.boundary .textStart) (.seq (.times (.one digits) 1 none) (.boundary .textEnd))) := by
  decide +kernel

theorem read_signed : ((parse? "^-?[0-9]+$").bind fun p => p.regular?) =
    some (.seq (.boundary .textStart) (.seq (.times (.one (.single '-')) 0 (some 1))
      (.seq (.times (.one digits) 1 none) (.boundary .textEnd)))) := by
  decide +kernel

theorem digits_toDigits (n : Nat) : ∀ c ∈ Nat.toDigits 10 n, digits.contains c = true :=
  fun _ inside => digits_contains (isDigit_of_mem_toDigits inside)

theorem unsigned_matches (n : Nat) : (parse? "^[0-9]+$").all (·.occursIn (toString (n : Int))) = true := by
  apply matches_of_runs read_unsigned
  rw [Integer.toList_toString_ofNat]
  have runs := runs_plus none (by decide) Nat.toDigits_ne_nil (digits_toDigits n)
    fun _ => runs_end
  rw [List.append_nil] at runs
  exact runs_start runs

theorem signed_matches (n : Int) : (parse? "^-?[0-9]+$").all (·.occursIn (toString n)) = true := by
  apply matches_of_runs read_signed
  have magnitude (n : Nat) (before : Option Char) :
      (Regular.seq (.times (.one digits) 1 none) (.boundary .textEnd)).Runs before (Nat.toDigits 10 n) := by
    have runs := runs_plus before (by decide) Nat.toDigits_ne_nil (digits_toDigits n) fun _ => runs_end
    rwa [List.append_nil] at runs
  cases n with
  | ofNat n =>
    rw [Int.ofNat_eq_natCast, Integer.toList_toString_ofNat]
    have few : ([] : List Char).length ≤ 1 := Nat.zero_le 1
    exact runs_start (runs_most none (by decide) few (by simp) (magnitude n))
  | negSucc n =>
    rw [Integer.toList_toString_negSucc]
    have few : ['-'].length ≤ 1 := Nat.le.refl
    exact runs_start (runs_most none (by decide) few (by simp; decide) (magnitude (n + 1)))

theorem read_duration : ((parse? "^-?[0-9]+(\\.[0-9]+)?s$").bind fun p => p.regular?) =
    some (.seq (.boundary .textStart) (.seq (.times (.one (.single '-')) 0 (some 1))
      (.seq (.times (.one digits) 1 none)
        (.seq (.times (.seq (.one (.single '.')) (.times (.one digits) 1 none)) 0 (some 1))
          (.seq (.one (.single 's')) (.boundary .textEnd)))))) := by
  decide +kernel

theorem duration_matches {text : String} (given : WellKnown.DurationText text) :
    (parse? "^-?[0-9]+(\\.[0-9]+)?s$").all (·.occursIn text) = true := by
  obtain ⟨sign, whole, fraction, signs, filled, decimal, fractions, rfl⟩ := given
  apply matches_of_runs read_duration
  have digit (cs : List Char) (all : cs.all Char.isDigit = true) : ∀ c ∈ cs, digits.contains c = true :=
    fun c inside => digits_contains (List.all_eq_true.mp all c inside)
  have unit (before : Option Char) : (Regular.seq (.one (.single 's')) (.boundary .textEnd)).Runs before ['s'] :=
    runs_one (by decide) runs_end
  have behind (before : Option Char) :
      (Regular.seq (.times (.seq (.one (.single '.')) (.times (.one digits) 1 none)) 0 (some 1))
        (.seq (.one (.single 's')) (.boundary .textEnd))).Runs before (fraction ++ ['s']) := by
    rcases fractions with rfl | ⟨decimals, rfl, some_digit, all⟩
    · exact runs_skip rfl (unit before)
    · -- The point leaves the decimals, and no further copy of the group.
      have runs := runs_plus (some '.') (by decide) some_digit (digit decimals all) unit
      exact ⟨_, List.mem_append_left _ (List.mem_singleton_self _), runs⟩
  have front (before : Option Char) := runs_plus before (by decide) filled (digit whole decimal) behind
  have few : sign.length ≤ 1 := by rcases signs with rfl | rfl <;> decide
  have minus : ∀ c ∈ sign, (CharSet.single '-').contains c = true := by
    rcases signs with rfl | rfl
    · simp
    · simp only [List.mem_singleton, forall_eq]
      decide
  have runs := runs_most none (by decide) few minus front
  rw [String.toList_ofList, List.append_assoc, List.append_assoc]
  exact runs_start runs

def symbols : BytesEncoding → CharSet
  | .hex => .ranges [('0', '9'), ('a', 'f'), ('A', 'F')]
  | .base64Raw | .base64 | .unspecified => .ranges [('A', 'Z'), ('a', 'z'), ('0', '9'), ('+', '+'), ('/', '/')]
  | .base64Url | .base64UrlRaw => .ranges [('A', 'Z'), ('a', 'z'), ('0', '9'), ('_', '_'), ('-', '-')]

def symbolsOnly (encoding : BytesEncoding) : Regular :=
  .seq (.boundary .textStart) (.seq (.times (.one (symbols encoding)) 0 none) (.boundary .textEnd))

theorem read_bytes :
    ((parse? "^[0-9a-fA-F]*$").bind fun p => p.regular?) = some (symbolsOnly .hex) ∧
    ((parse? "^[A-Za-z0-9+/]*$").bind fun p => p.regular?) = some (symbolsOnly .base64Raw) ∧
    ((parse? "^[A-Za-z0-9_-]*$").bind fun p => p.regular?) = some (symbolsOnly .base64UrlRaw) ∧
    ((parse? "^[A-Za-z0-9_-]*=\x7b0,2\x7d$").bind fun p => p.regular?) =
      some (.seq (.boundary .textStart) (.seq (.times (.one (symbols .base64Url)) 0 none)
        (.seq (.times (.one (.single '=')) 0 (some 2)) (.boundary .textEnd)))) := by
  decide +kernel

theorem symbols_hex (bytes : List UInt8) : ∀ c ∈ Hex.encode bytes, (symbols .hex).contains c = true := by
  have digit : ∀ v < 16, (symbols .hex).contains (Hex.digit v) = true := by decide
  intro c inside
  obtain ⟨byte, _, there⟩ := List.mem_flatMap.mp inside
  have small := byte.toNat_lt
  simp only [List.mem_cons, List.not_mem_nil, or_false] at there
  rcases there with rfl | rfl
  · exact digit _ (by omega)
  · exact digit _ (by omega)

theorem symbols_base64 {encoding : BytesEncoding} {scheme : Base64.Scheme} (found : encoding.scheme? = some scheme)
    (bytes : List UInt8) : ∀ c ∈ scheme.symbols (Base64.Scheme.sextets bytes), (symbols encoding).contains c = true := by
  have symbol : ∀ v < 64, (symbols encoding).contains (scheme.symbol v) = true := by
    cases encoding <;> cases found <;> decide
  intro c inside
  obtain ⟨v, there, rfl⟩ := List.mem_map.mp inside
  exact symbol v (Base64.Scheme.sextets_lt bytes v there)

theorem symbolsOnly_runs {encoding : BytesEncoding} {cs : List Char}
    (all : ∀ c ∈ cs, (symbols encoding).contains c = true) : (symbolsOnly encoding).Runs none cs := by
  have runs := runs_star none (by decide) all fun _ => runs_end
  rw [List.append_nil] at runs
  exact runs_start runs

theorem hex_matches (bytes : List UInt8) :
    (parse? "^[0-9a-fA-F]*$").all (·.occursIn (BytesEncoding.hex.encode bytes)) = true := by
  apply matches_of_runs read_bytes.1
  rw [BytesEncoding.encode, String.toList_ofList]
  exact symbolsOnly_runs (symbols_hex bytes)

theorem raw_toList {encoding : BytesEncoding} {scheme : Base64.Scheme} (found : encoding.scheme? = some scheme)
    (raw : scheme.padded = false) (bytes : List UInt8) :
    (encoding.encode bytes).toList = scheme.symbols (Base64.Scheme.sextets bytes) := by
  rw [BytesEncoding.encode, String.toList_ofList, found]
  show scheme.encode bytes = _
  rw [Base64.Scheme.encode_eq, Base64.Scheme.padding, raw]
  simp

theorem base64Raw_matches (bytes : List UInt8) :
    (parse? "^[A-Za-z0-9+/]*$").all (·.occursIn (BytesEncoding.base64Raw.encode bytes)) = true := by
  apply matches_of_runs read_bytes.2.1
  rw [raw_toList rfl rfl]
  exact symbolsOnly_runs (symbols_base64 rfl bytes)

theorem base64UrlRaw_matches (bytes : List UInt8) :
    (parse? "^[A-Za-z0-9_-]*$").all (·.occursIn (BytesEncoding.base64UrlRaw.encode bytes)) = true := by
  apply matches_of_runs read_bytes.2.2.1
  rw [raw_toList rfl rfl]
  exact symbolsOnly_runs (symbols_base64 rfl bytes)

theorem base64Url_matches (bytes : List UInt8) :
    (parse? "^[A-Za-z0-9_-]*=\x7b0,2\x7d$").all (·.occursIn (BytesEncoding.base64Url.encode bytes)) = true := by
  apply matches_of_runs read_bytes.2.2.2
  rw [BytesEncoding.encode, String.toList_ofList]
  show Regular.Runs _ none (Base64.Scheme.url.encode bytes)
  rw [Base64.Scheme.encode_eq]
  have few : (Base64.Scheme.url.padding (Base64.Scheme.lacking bytes)).length ≤ 2 := by
    simp only [Base64.Scheme.padding, Base64.Scheme.url, if_true, List.length_replicate, Base64.Scheme.lacking]
    omega
  have equals : ∀ c ∈ Base64.Scheme.url.padding (Base64.Scheme.lacking bytes), (CharSet.single '=').contains c = true := by
    intro c inside
    rw [List.eq_of_mem_replicate inside]
    decide
  have pads (before : Option Char) := runs_most before (by decide) few equals fun _ => runs_end
  simp only [List.append_nil] at pads
  exact runs_start (runs_star none (by decide) (symbols_base64 rfl bytes) pads)

end Pattern

end Wireform
