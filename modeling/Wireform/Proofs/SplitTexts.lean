import Mathlib.Data.List.DropRight
import Wireform.Text.Blank
import Wireform.Text.Split

set_option autoImplicit false

namespace Wireform.Text

variable {mark : Char}

section Pieces

theorem pieces_ne_nil (cs : List Char) : pieces mark cs ≠ [] := by
  cases cs with
  | nil => simp [pieces]
  | cons c rest =>
    rw [pieces]
    split
    · simp
    · split <;> simp

theorem pieces_append (before after : List Char) :
    pieces mark (before ++ mark :: after) = pieces mark before ++ pieces mark after := by
  induction before with
  | nil => simp [pieces]
  | cons c rest ih =>
    by_cases same : c = mark
    · simp [pieces, same, ih]
    · cases first : pieces mark rest with
      | nil => exact absurd first (pieces_ne_nil rest)
      | cons piece others => simp [pieces, same, ih, first]

theorem pieces_of_not_mem {cs : List Char} (absent : mark ∉ cs) : pieces mark cs = [cs] := by
  induction cs with
  | nil => rfl
  | cons c rest ih =>
    rw [List.mem_cons, not_or] at absent
    simp [pieces, Ne.symm absent.1, ih absent.2]

theorem not_mem_of_mem_pieces {piece cs : List Char} (inside : piece ∈ pieces mark cs) : mark ∉ piece := by
  induction cs generalizing piece with
  | nil =>
    rw [List.mem_singleton.mp inside]
    exact List.not_mem_nil
  | cons c rest ih =>
    rw [pieces] at inside
    split at inside
    · rcases List.mem_cons.mp inside with rfl | later
      · exact List.not_mem_nil
      · exact ih later
    · rename_i other
      split at inside
      · rw [List.mem_singleton.mp inside, List.mem_singleton]
        exact Ne.symm other
      · next first others found =>
        rcases List.mem_cons.mp inside with rfl | later
        · rw [List.mem_cons, not_or]
          exact ⟨Ne.symm other, ih (found ▸ List.mem_cons_self)⟩
        · exact ih (found ▸ List.mem_cons_of_mem _ later)

end Pieces

section Split

theorem split_ne_nil (text : String) : split mark text ≠ [] := by
  rw [split, ne_eq, List.map_eq_nil_iff]
  exact pieces_ne_nil _

theorem not_mem_of_mem_split {part text : String} (inside : part ∈ split mark text) : mark ∉ part.toList := by
  obtain ⟨piece, there, rfl⟩ := List.mem_map.mp inside
  rw [String.toList_ofList]
  exact not_mem_of_mem_pieces there

theorem split_of_not_mem {part : String} (whole : mark ∉ part.toList) : split mark part = [part] := by
  simp [split, pieces_of_not_mem whole]

theorem split_append (before after : String) :
    split mark (before ++ String.singleton mark ++ after) = split mark before ++ split mark after := by
  simp [split, pieces_append]

theorem split_newline (before after : String) :
    split '\n' (before ++ "\n" ++ after) = split '\n' before ++ split '\n' after :=
  split_append before after

theorem split_line {line : String} (whole : '\n' ∉ line.toList) (before after : String) :
    split '\n' (before ++ "\n" ++ line ++ "\n" ++ after) = split '\n' before ++ line :: split '\n' after := by
  rw [split_newline, split_newline, split_of_not_mem whole, List.append_assoc, List.singleton_append]

theorem split_intercalate {parts : List String} (filled : parts ≠ [])
    (whole : ∀ part ∈ parts, mark ∉ part.toList) : split mark ((String.singleton mark).intercalate parts) = parts := by
  induction parts with
  | nil => exact absurd rfl filled
  | cons part rest ih =>
    obtain ⟨here, later⟩ := List.forall_mem_cons.mp whole
    cases rest with
    | nil => simp [split_of_not_mem here]
    | cons next others =>
      rw [String.intercalate_cons_cons, split_append, split_of_not_mem here, ih (List.cons_ne_nil _ _) later,
        List.singleton_append]

theorem cut?_append {before : List Char} (absent : mark ∉ before) (after : List Char) :
    cut? mark (String.ofList (before ++ mark :: after)) = some (String.ofList before, String.ofList after) := by
  have other : ∀ c ∈ before, (c != mark) = true := fun c inside =>
    bne_iff_ne.mpr fun same => absent (same ▸ inside)
  simp only [cut?, String.toList_ofList, List.dropWhile_append_of_pos other, List.takeWhile_append_of_pos other]
  simp

end Split

section Trim

theorem toList_trim (text : String) : (trim text).toList = (text.toList.dropWhile isBlank).rdropWhile isBlank :=
  String.toList_ofList

theorem trim_eq_self {text : String} (first : ∀ c ∈ text.toList.head?, isBlank c = false)
    (last : ∀ c ∈ text.toList.getLast?, isBlank c = false) : trim text = text := by
  have solid : text.toList.dropWhile isBlank = text.toList := by
    cases given : text.toList with
    | nil => rfl
    | cons c rest =>
      rw [given] at first
      rw [List.dropWhile_cons_of_neg (by simp [first c rfl])]
  refine String.toList_injective ?_
  rw [toList_trim, solid, List.rdropWhile_eq_self_iff]
  intro filled
  simp [last _ (List.getLast?_eq_getLast_of_ne_nil filled)]

theorem trim_append {before : String} (blank : ∀ c ∈ before.toList, isBlank c = true) (text : String) :
    trim (before ++ text) = trim text := by
  refine String.toList_injective ?_
  rw [toList_trim, toList_trim, String.toList_append, List.dropWhile_append_of_pos blank]

theorem trim_trim (text : String) : trim (trim text) = trim text := by
  refine trim_eq_self (fun c first => ?_) fun c last => ?_
  · rw [toList_trim] at first
    obtain ⟨rest, same⟩ := List.rdropWhile_prefix isBlank (l := text.toList.dropWhile isBlank)
    have head : (text.toList.dropWhile isBlank).head? = some c := by
      rw [← same, List.head?_append, first, Option.some_or]
    simpa [head] using List.head?_dropWhile_not isBlank text.toList
  · rw [toList_trim] at last
    have filled := List.ne_nil_of_mem (List.mem_of_getLast? last)
    have solid := List.rdropWhile_last_not isBlank (text.toList.dropWhile isBlank) filled
    rw [List.getLast?_eq_getLast_of_ne_nil filled, Option.mem_some] at last
    simpa [last] using solid

end Trim

end Wireform.Text
