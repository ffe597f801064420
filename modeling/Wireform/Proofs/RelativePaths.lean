import Mathlib.Data.List.Infix
import Wireform.ModulePath
import Wireform.Proofs.SplitTexts

set_option autoImplicit false

namespace Wireform

namespace ModulePath

def Plain (part : String) : Prop := part ≠ "" ∧ part.toList.head? ≠ some '.'

instance (part : String) : Decidable (Plain part) :=
  inferInstanceAs (Decidable (part ≠ "" ∧ part.toList.head? ≠ some '.'))

def directory (path : String) : List String := (Text.split '/' path).dropLast

/-- Where a way leads from a place: `.` stays there, `..` goes up, and all else goes down. It may not go up from the
root. -/
def follow : List String → List String → Option (List String)
  | place, [] => some place
  | place, step :: rest =>
    if step = "." then follow place rest
    else if step = ".." then if place = [] then none else follow place.dropLast rest
    else follow (place ++ [step]) rest

structure LongestCommon (first second common : List String) : Prop where
  above_first : common <+: first
  above_second : common <+: second
  longest : ∀ other, other <+: first → other <+: second → other <+: common

section Shared

theorem shared_le (first second : List String) : shared first second ≤ first.length ∧
    shared first second ≤ second.length := by
  fun_induction shared first second with
  | case1 a as bs ih => simpa using ih
  | case2 => simp
  | case3 => simp

theorem take_shared (first second : List String) :
    first.take (shared first second) = second.take (shared first second) := by
  fun_induction shared first second with
  | case1 a as bs ih => simpa using ih
  | case2 => simp
  | case3 => simp

theorem le_shared {first second other : List String} (above_first : other <+: first) (above_second : other <+: second) :
    other.length ≤ shared first second := by
  fun_induction shared first second generalizing other with
  | case1 a as bs ih =>
    cases other with
    | nil => exact Nat.zero_le _
    | cons o os =>
      exact Nat.succ_le_succ (ih (List.cons_prefix_cons.mp above_first).2 (List.cons_prefix_cons.mp above_second).2)
  | case2 a as b bs differ =>
    cases other with
    | nil => exact Nat.zero_le _
    | cons o os =>
      have same := (List.cons_prefix_cons.mp above_first).1.symm.trans (List.cons_prefix_cons.mp above_second).1
      exact absurd same differ
  | case3 first second none_left =>
    cases first with
    | nil => simp [List.prefix_nil.mp above_first]
    | cons a as =>
      cases second with
      | nil => simp [List.prefix_nil.mp above_second]
      | cons b bs => exact (none_left a as b bs rfl rfl).elim

/-- How many parts of a directory and of a target are left out of the way between them: those that they share, but never
the last part of the target. -/
def kept (place target : List String) : Nat := min (shared place target) (target.length - 1)

theorem kept_le_place (place target : List String) : kept place target ≤ place.length :=
  (Nat.min_le_left _ _).trans (shared_le place target).1

theorem kept_lt_target (place : List String) {target : List String} (filled : target ≠ []) :
    kept place target < target.length := by
  have positive := List.length_pos_iff.mpr filled
  have capped : kept place target ≤ target.length - 1 := Nat.min_le_right _ _
  omega

theorem take_kept (place target : List String) : place.take (kept place target) = target.take (kept place target) := by
  have within : kept place target ≤ shared place target := Nat.min_le_left _ _
  have same := congrArg (List.take (kept place target)) (take_shared place target)
  rwa [List.take_take, List.take_take, Nat.min_eq_left within] at same

theorem longestCommon_kept (place target : List String) :
    LongestCommon place target.dropLast (place.take (kept place target)) where
  above_first := List.take_prefix _ _
  above_second := by
    rw [take_kept, List.dropLast_eq_take]
    exact List.take_prefix_take_left (Nat.min_le_right _ _)
  longest other above_first above_second := by
    have short : other.length ≤ kept place target :=
      Nat.le_min.mpr ⟨le_shared above_first (above_second.trans (List.dropLast_prefix _)),
        above_second.length_le.trans (by simp)⟩
    rw [List.prefix_take_iff]
    exact ⟨above_first, short⟩

end Shared

section Following

theorem follow_up (place rest : List String) {levels : Nat} (within : levels ≤ place.length) :
    follow place (List.replicate levels ".." ++ rest) = follow (place.take (place.length - levels)) rest := by
  -- Each step up leaves a shorter place, so the induction is over all places.
  induction levels generalizing place with
  | zero => simp
  | succ levels ih =>
    have filled : place ≠ [] := List.ne_nil_of_length_pos (by omega)
    have shorter : place.dropLast.length = place.length - 1 := List.length_dropLast
    have up : place.dropLast.take (place.dropLast.length - levels) = place.take (place.length - (levels + 1)) := by
      rw [List.dropLast_eq_take, List.take_take, List.length_take]
      congr 1
      omega
    rw [List.replicate_succ, List.cons_append, follow, if_neg (by decide), if_pos rfl, if_neg filled,
      ih place.dropLast (by omega), up]

theorem Plain.ne_dots {part : String} (plain : Plain part) : part ≠ "." ∧ part ≠ ".." := by
  constructor <;>
    · rintro rfl
      exact plain.2 rfl

theorem follow_down (place : List String) {rest : List String} (plain : ∀ part ∈ rest, Plain part) :
    follow place rest = some (place ++ rest) := by
  induction rest generalizing place with
  | nil => simp [follow]
  | cons part rest ih =>
    obtain ⟨here, later⟩ := List.forall_mem_cons.mp plain
    rw [follow, if_neg here.ne_dots.1, if_neg here.ne_dots.2, ih _ later, List.append_assoc, List.singleton_append]

end Following

theorem steps_eq (place target : List String) : steps place target =
    List.replicate (place.length - kept place target) ".." ++ target.drop (kept place target) := rfl

section Steps

variable (place : List String) {target : List String} (plain : ∀ part ∈ target, Plain part)

include plain

theorem follow_steps : follow place (steps place target) = some target := by
  have within := kept_le_place place target
  have back : place.length - (place.length - kept place target) = kept place target := by omega
  rw [steps_eq, follow_up place _ (Nat.sub_le _ _), back, follow_down _ fun part inside =>
    plain part (List.mem_of_mem_drop inside), take_kept, List.take_append_drop]

theorem count_steps : (steps place target).count ".." = place.length - kept place target := by
  have down : (target.drop (kept place target)).count ".." = 0 := List.count_eq_zero.mpr fun inside =>
    (plain _ (List.mem_of_mem_drop inside)).ne_dots.2 rfl
  rw [steps_eq, List.count_append, List.count_replicate_self, down, Nat.add_zero]

theorem steps_start (filled : target ≠ []) :
    (∃ next rest, steps place target = ".." :: next :: rest) ∨
      ∃ part rest, Plain part ∧ steps place target = part :: rest := by
  obtain ⟨part, rest, down⟩ : ∃ part rest, target.drop (kept place target) = part :: rest :=
    List.exists_cons_of_ne_nil (by simpa using kept_lt_target place filled)
  rw [steps_eq, down]
  -- The last part of the target is never left out, so something follows the last step up.
  cases place.length - kept place target with
  | zero =>
    exact .inr ⟨part, rest, plain part (List.mem_of_mem_drop (down ▸ List.mem_cons_self)), rfl⟩
  | succ levels =>
    left
    cases levels with
    | zero => exact ⟨part, rest, rfl⟩
    | succ levels => exact ⟨_, _, rfl⟩

end Steps

theorem relative_parts (file : String) {target : String} (plain : ∀ part ∈ Text.split '/' target, Plain part) :
    (Text.startsWith "../" (relative file target) = true ∧
      Text.split '/' (relative file target) = steps (directory file) (Text.split '/' target)) ∨
    (Text.startsWith "./" (relative file target) = true ∧
      Text.split '/' (relative file target) = "." :: steps (directory file) (Text.split '/' target)) := by
  have slash : "/" = String.singleton '/' := rfl
  have whole : ∀ part ∈ steps (directory file) (Text.split '/' target), '/' ∉ part.toList := by
    rw [steps_eq]
    intro part inside
    rcases List.mem_append.mp inside with up | down
    · rw [(List.mem_replicate.mp up).2]
      decide
    · exact Text.not_mem_of_mem_split (List.mem_of_mem_drop down)
  have path : relative file target =
      if Text.startsWith ".." ("/".intercalate (steps (directory file) (Text.split '/' target))) then
        "/".intercalate (steps (directory file) (Text.split '/' target))
      else "./" ++ "/".intercalate (steps (directory file) (Text.split '/' target)) := rfl
  -- Whether the path gets a point in front is told by its first two characters. These are points exactly where the
  -- first step goes up, as no plain part starts with a point.
  rcases steps_start (directory file) plain (Text.split_ne_nil target) with
    ⟨next, rest, up⟩ | ⟨part, rest, first, down⟩
  · left
    rw [up] at whole path ⊢
    have text : "/".intercalate (".." :: next :: rest) = "../" ++ "/".intercalate (next :: rest) := by
      rw [String.intercalate_cons_cons]
      rfl
    have starts : Text.startsWith ".." ("/".intercalate (".." :: next :: rest)) = true := by
      rw [text]
      simp [Text.startsWith, String.toList_append]
    rw [path, if_pos starts]
    refine ⟨?_, ?_⟩
    · rw [text]
      simp [Text.startsWith, String.toList_append]
    · rw [slash, Text.split_intercalate (List.cons_ne_nil _ _) whole]
  · right
    rw [down] at whole path ⊢
    obtain ⟨c, cs, letters⟩ : ∃ c cs, part.toList = c :: cs :=
      List.exists_cons_of_ne_nil fun none_there => first.1 (String.toList_eq_nil_iff.mp none_there)
    have solid : c ≠ '.' := fun point => first.2 (by rw [letters, point, List.head?_cons])
    have starts : Text.startsWith ".." ("/".intercalate (part :: rest)) = false := by
      cases rest <;> simp [Text.startsWith, letters, List.isPrefixOf, Ne.symm solid]
    have text : "./" ++ "/".intercalate (part :: rest) =
        "." ++ String.singleton '/' ++ "/".intercalate (part :: rest) := rfl
    rw [path, if_neg (by rw [starts]; decide)]
    refine ⟨?_, ?_⟩
    · simp [Text.startsWith, String.toList_append]
    · rw [text, Text.split_append, Text.split_of_not_mem (by decide), slash,
        Text.split_intercalate (List.cons_ne_nil _ _) whole, List.singleton_append]

/-- A relative path leads from the directory of a file to the target and never above the root. It starts by going up or
by staying, goes up no further than to the longest directory above both, and cuts neither of them beyond its end. -/
theorem relative_resolves (file : String) {target : String} (plain : ∀ part ∈ Text.split '/' target, Plain part) :
    follow (directory file) (Text.split '/' (relative file target)) = some (Text.split '/' target) ∧
    (Text.startsWith "./" (relative file target) = true ∨ Text.startsWith "../" (relative file target) = true) ∧
    (∃ common, LongestCommon (directory file) (directory target) common ∧
      (Text.split '/' (relative file target)).count ".." + common.length = (directory file).length) ∧
    kept (directory file) (Text.split '/' target) ≤ (directory file).length ∧
    kept (directory file) (Text.split '/' target) < (Text.split '/' target).length := by
  have within := kept_le_place (directory file) (Text.split '/' target)
  have counted := count_steps (directory file) plain
  have arrives := follow_steps (directory file) plain
  have common : LongestCommon (directory file) (directory target) _ :=
    longestCommon_kept (directory file) (Text.split '/' target)
  have height := List.length_take_of_le within
  refine ⟨?follows, ?starts, ⟨_, common, ?climbs⟩, within, kept_lt_target _ (Text.split_ne_nil target)⟩
  case follows =>
    rcases relative_parts file plain with ⟨_, parts⟩ | ⟨_, parts⟩
    · rw [parts, arrives]
    · rw [parts, follow, if_pos rfl, arrives]
  case starts =>
    rcases relative_parts file plain with ⟨starts, _⟩ | ⟨starts, _⟩
    · exact .inr starts
    · exact .inl starts
  case climbs =>
    rcases relative_parts file plain with ⟨_, parts⟩ | ⟨_, parts⟩
    · rw [parts, counted, height]
      omega
    · rw [parts, List.count_cons_of_ne (by decide), counted, height]
      omega

/-- A target right above the file, whose name would be a directory above it as well, keeps its last part. -/
theorem relative_resolves_above : (∀ part ∈ Text.split '/' "api/v1", Plain part) ∧
    relative "api/v1/item.proto" "api/v1" = "../v1" ∧
    follow ["api", "v1"] (Text.split '/' "../v1") = some ["api", "v1"] := by
  have plain : ∀ part ∈ Text.split '/' "api/v1", Plain part := by decide
  have path : relative "api/v1/item.proto" "api/v1" = "../v1" := by decide
  refine ⟨plain, path, ?_⟩
  have follows := (relative_resolves "api/v1/item.proto" plain).1
  rw [path] at follows
  exact follows

end ModulePath

end Wireform
