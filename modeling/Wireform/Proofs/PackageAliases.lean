import Mathlib.Data.List.Nodup
import Mathlib.Data.List.Perm.Subperm
import Mathlib.Data.Nat.Find
import Mathlib.Data.List.Induction
import Wireform.GoCode.File
import Wireform.Proofs.KeyMaps

set_option autoImplicit false

namespace Wireform.GoCode.Aliases

def numbered (name : String) : Nat → String
  | 0 => name
  | n + 1 => name ++ toString (n + 2)

theorem numbered_injective (name : String) : Function.Injective (numbered name) := by
  have never (n : Nat) : name ≠ name ++ toString n := fun same =>
    Nat.repr_ne_empty (String.append_right_inj name |>.mp (String.append_empty.trans same)).symm
  intro n k same
  cases n with
  | zero =>
    cases k with
    | zero => rfl
    | succ k => exact absurd same (never _)
  | succ n =>
    cases k with
    | zero => exact absurd same.symm (never _)
    | succ k =>
      have texts : toString (n + 2) = toString (k + 2) := String.append_right_inj name |>.mp same
      have read := congrArg (fun text : String => Nat.ofDigitChars 10 text.toList 0) texts
      simpa [Nat.toString_eq_ofList_toDigits] using read

/-- A name is the first one tried that is not taken, and is found before there are more tries than taken names. -/
def IsFirstFree (taken : List String) (name label : String) : Prop :=
  ∃ n ≤ taken.length, label = numbered name n ∧ label ∉ taken ∧ ∀ k < n, numbered name k ∈ taken

namespace IsFirstFree

variable {taken : List String} {name label : String}

theorem not_mem (first : IsFirstFree taken name label) : label ∉ taken := by
  obtain ⟨_, _, _, fresh, _⟩ := first
  exact fresh

theorem own_or_taken (first : IsFirstFree taken name label) : name = label ∨ name ∈ taken := by
  obtain ⟨n, _, rfl, _, before⟩ := first
  cases n with
  | zero => exact .inl rfl
  | succ n => exact .inr (before 0 n.succ_pos)

end IsFirstFree

theorem exists_not_taken (taken : List String) (name : String) : ∃ n ≤ taken.length, numbered name n ∉ taken := by
  by_contra all_taken
  push Not at all_taken
  -- There is one more try than there are names to be taken.
  have distinct : ((List.range (taken.length + 1)).map (numbered name)).Nodup :=
    List.nodup_range.map (numbered_injective name)
  have inside : (List.range (taken.length + 1)).map (numbered name) ⊆ taken := fun candidate listed => by
    obtain ⟨n, among, rfl⟩ := List.mem_map.mp listed
    exact all_taken n (Nat.le_of_lt_succ (List.mem_range.mp among))
  have fits := (List.subperm_of_subset distinct inside).length_le
  rw [List.length_map, List.length_range] at fits
  omega

theorem free_isFirstFree (taken : List String) (name : String) : IsFirstFree taken name (free taken name) := by
  have tries : name :: (List.range (taken.length + 1)).map (fun n => name ++ toString (n + 2)) =
      (List.range (taken.length + 2)).map (numbered name) := by
    rw [List.range_succ_eq_map (n := taken.length + 1), List.map_cons, List.map_map]
    rfl
  obtain ⟨least, ⟨bound, fresh⟩, before⟩ :
      ∃ n, (n ≤ taken.length ∧ numbered name n ∉ taken) ∧ ∀ k < n, numbered name k ∈ taken := by
    classical
    have exists_free := exists_not_taken taken name
    refine ⟨Nat.find exists_free, Nat.find_spec exists_free, fun k less => ?_⟩
    have not_free := Nat.find_min exists_free less
    have small := (Nat.find_spec exists_free).1
    by_contra fresh
    exact not_free ⟨by omega, fresh⟩
  have found : (List.range (taken.length + 2)).find? (fun n => !taken.contains (numbered name n)) = some least := by
    simp only [List.find?_range_eq_some, Bool.not_eq_true', List.mem_range, Bool.not_not, List.contains_iff_mem,
      ← Bool.not_eq_true]
    exact ⟨fresh, by omega, before⟩
  have result : free taken name = numbered name least := by
    dsimp only [free]
    rw [tries, List.find?_map, Function.comp_def, found]
    rfl
  exact ⟨least, bound, result, result ▸ fresh, before⟩

variable {aliases : KeyMap String} {packages before after : List (String × String)} {path name label : String}

theorem get?_add (aliases : KeyMap String) (package : String × String) (path : String) :
    (add aliases package).get? path =
      (aliases.get? path).or (if package.1 = path then some (free aliases.values package.2) else none) := by
  obtain ⟨own, name⟩ := package
  dsimp only [add]
  by_cases known : aliases.contains own = true
  · obtain ⟨label, has⟩ := KeyMap.contains_iff.mp known
    rw [if_pos known]
    by_cases same : own = path
    · rw [← same, has, Option.some_or]
    · rw [if_neg same, Option.or_none]
  · have none_yet : aliases.get? own = none := by simpa [KeyMap.contains] using known
    rw [if_neg known, KeyMap.get?_insert]
    by_cases same : own = path
    · rw [← same, none_yet, if_pos rfl]
      rfl
    · rw [if_neg same, if_neg same, Option.or_none]

def Apart (aliases : KeyMap String) : Prop :=
  ∀ ⦃path other label⦄, aliases.get? path = some label → aliases.get? other = some label → path = other

theorem Apart.add (apart : Apart aliases) (package : String × String) : Apart (add aliases package) := by
  have new {path label : String} (given : (Aliases.add aliases package).get? path = some label) :
      aliases.get? path = some label ∨ package.1 = path ∧ label ∉ aliases.values := by
    rw [get?_add, Option.or_eq_some_iff] at given
    refine given.imp_right fun ⟨_, gets⟩ => ?_
    split at gets
    · rename_i same
      exact ⟨same, Option.some.inj gets ▸ (free_isFirstFree aliases.values package.2).not_mem⟩
    · cases gets
  -- Names that are both new are those of the package that is added, and a new name is not an old one.
  intro path other label given given'
  rcases new given with old | ⟨rfl, fresh⟩ <;> rcases new given' with old' | ⟨rfl, fresh'⟩
  · exact apart old old'
  · exact absurd (KeyMap.mem_values.mpr ⟨_, old⟩) fresh'
  · exact absurd (KeyMap.mem_values.mpr ⟨_, old'⟩) fresh
  · rfl

theorem Apart.nodup_values (apart : Apart aliases) : aliases.values.Nodup := by
  refine aliases.nodup_keys.of_map.map_on fun entry inside other there same => ?_
  obtain ⟨path, label⟩ := entry
  obtain ⟨path', label'⟩ := other
  obtain rfl : label = label' := same
  cases apart (KeyMap.mem_entries.mp inside) (KeyMap.mem_entries.mp there)
  rfl

theorem ofPackages_concat (packages : List (String × String)) (package : String × String) :
    ofPackages (packages ++ [package]) = add (ofPackages packages) package := by
  rw [ofPackages, List.foldl_concat, ← ofPackages]

theorem apart_ofPackages (packages : List (String × String)) : Apart (ofPackages packages) := by
  induction packages using List.reverseRecOn with
  | nil => exact fun _ _ _ given _ => by cases given
  | append_singleton packages package ih => exact ofPackages_concat packages package ▸ ih.add package

theorem get?_ofPackages_append (given : (ofPackages before).get? path = some label)
    (after : List (String × String)) : (ofPackages (before ++ after)).get? path = some label := by
  induction after using List.reverseRecOn with
  | nil => rwa [List.append_nil]
  | append_singleton after package ih => rw [← List.append_assoc, ofPackages_concat, get?_add, ih, Option.some_or]

/-- A package gets its name at its first call, and it is the first that no package called before has. -/
def NamedAt (packages : List (String × String)) (path label : String) : Prop :=
  ∃ before name after, packages = before ++ (path, name) :: after ∧ (ofPackages before).get? path = none ∧
    IsFirstFree (ofPackages before).values name label

theorem namedAt_of_get? (given : (ofPackages packages).get? path = some label) : NamedAt packages path label := by
  induction packages using List.reverseRecOn with
  | nil => cases given
  | append_singleton packages package ih =>
    rw [ofPackages_concat, get?_add, Option.or_eq_some_iff] at given
    rcases given with old | ⟨none_yet, gets⟩
    · obtain ⟨before, name, after, rfl, first, free⟩ := ih old
      exact ⟨before, name, after ++ [package], by simp, first, free⟩
    · split at gets
      · rename_i same
        subst same
        exact ⟨packages, package.2, [], rfl, none_yet, Option.some.inj gets ▸ free_isFirstFree _ _⟩
      · cases gets

theorem exists_of_mem (called : (path, name) ∈ packages) : ∃ label, (ofPackages packages).get? path = some label := by
  obtain ⟨before, after, rfl⟩ := List.append_of_mem called
  have here : ∃ label, (ofPackages (before ++ [(path, name)])).get? path = some label := by
    rw [ofPackages_concat, get?_add, if_pos rfl, ← Option.isSome_iff_exists, Option.isSome_or, Option.isSome_some,
      Bool.or_true]
  obtain ⟨label, given⟩ := here
  have later := get?_ofPackages_append given after
  rw [List.append_assoc, List.singleton_append] at later
  exact ⟨label, later⟩

theorem mem_values_of_first (first : (ofPackages before).get? path = none) (name : String)
    (after : List (String × String)) : name ∈ (ofPackages (before ++ (path, name) :: after)).values := by
  have later {other label : String} (given : (ofPackages (before ++ [(path, name)])).get? other = some label) :
      label ∈ (ofPackages (before ++ (path, name) :: after)).values := by
    have kept := get?_ofPackages_append given after
    rw [List.append_assoc, List.singleton_append] at kept
    exact KeyMap.mem_values.mpr ⟨other, kept⟩
  -- Whoever has the name once the package is added keeps it in all that follows.
  have free := free_isFirstFree (ofPackages before).values name
  rcases free.own_or_taken with own | taken
  · refine @later path _ ?_
    rw [ofPackages_concat, get?_add, first, if_pos rfl, ← own]
    rfl
  · obtain ⟨other, has⟩ := KeyMap.mem_values.mp taken
    exact later (get?_ofPackages_append has [_])

theorem length_values_le (packages : List (String × String)) :
    (ofPackages packages).values.length ≤ packages.length := by
  have put (entries : Entries String) (key value : String) : (entries.put key value).length ≤ entries.length + 1 := by
    fun_induction Entries.put entries key value with
    | case1 => exact Nat.le_refl 1
    | case2 => exact Nat.le_refl _
    | case3 => exact Nat.le_succ _
    | case4 _ _ _ _ _ _ _ ih => exact Nat.succ_le_succ ih
  induction packages using List.reverseRecOn with
  | nil => exact Nat.le_refl 0
  | append_singleton packages package ih =>
    rw [KeyMap.values, List.length_map] at ih ⊢
    rw [ofPackages_concat, List.length_append, List.length_singleton, add]
    split
    · omega
    · exact Nat.le_trans (put _ _ _) (Nat.succ_le_succ ih)

theorem numbered_of_get? (given : (ofPackages packages).get? path = some label) :
    ∃ name, (path, name) ∈ packages ∧ ∃ n ≤ packages.length, label = numbered name n := by
  -- Names are those of packages that are called, or such names with numbers, which are no more than the packages.
  obtain ⟨before, name, after, rfl, -, n, bound, rfl, -, -⟩ := namedAt_of_get? given
  have few := length_values_le before
  refine ⟨name, by simp, n, ?_, rfl⟩
  rw [List.length_append]
  omega

end Wireform.GoCode.Aliases
