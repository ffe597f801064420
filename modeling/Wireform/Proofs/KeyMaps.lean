import Mathlib.Data.List.Nodup
import Wireform.Index.WellKnown
import Wireform.KeyMap

set_option autoImplicit false

namespace Wireform

namespace Entries

variable {α : Type}

def Distinct (entries : Entries α) : Prop := entries.keys.Nodup

instance (entries : Entries α) : Decidable entries.Distinct := inferInstanceAs (Decidable (List.Nodup _))

theorem distinct_nil : Distinct ([] : Entries α) := List.nodup_nil

theorem distinct_cons {key : String} {value : α} {rest : Entries α} :
    Distinct ((key, value) :: rest) ↔ key ∉ rest.keys ∧ rest.Distinct := List.nodup_cons

theorem distinct_single (key : String) (value : α) : Distinct [(key, value)] :=
  distinct_cons.mpr ⟨List.not_mem_nil, distinct_nil⟩

theorem mem_of_get? {entries : Entries α} {key : String} {value : α}
    (found : entries.get? key = some value) : (key, value) ∈ entries := by
  induction entries with
  | nil => cases found
  | cons entry rest ih =>
    obtain ⟨k, v⟩ := entry
    rw [get?] at found
    split at found
    · rename_i same
      rw [same, Option.some.inj found]
      exact List.mem_cons_self
    · exact List.mem_cons_of_mem _ (ih found)

theorem mem_keys_of_mem {entries : Entries α} {key : String} {value : α}
    (inside : (key, value) ∈ entries) : key ∈ entries.keys :=
  List.mem_map.mpr ⟨_, inside, rfl⟩

theorem get?_eq_none {entries : Entries α} {key : String} :
    entries.get? key = none ↔ key ∉ entries.keys := by
  induction entries with
  | nil => simp [get?, keys]
  | cons entry rest ih =>
    obtain ⟨k, v⟩ := entry
    simp only [keys] at ih
    by_cases same : k = key
    · simp [get?, keys, same]
    · simp [get?, keys, same, ih, Ne.symm same]

theorem get?_of_mem {entries : Entries α} (distinct : entries.Distinct) {key : String} {value : α}
    (inside : (key, value) ∈ entries) : entries.get? key = some value := by
  induction entries with
  | nil => cases inside
  | cons entry rest ih =>
    obtain ⟨k, v⟩ := entry
    obtain ⟨fresh, distinct⟩ := distinct_cons.mp distinct
    rcases List.mem_cons.mp inside with same | later
    · obtain ⟨rfl, rfl⟩ := Prod.mk.inj same
      simp [get?]
    · have differs : k ≠ key := fun same => fresh (same ▸ mem_keys_of_mem later)
      rw [get?, if_neg differs, ih distinct later]

theorem mem_keys_iff {entries : Entries α} {key : String} :
    key ∈ entries.keys ↔ ∃ value, entries.get? key = some value := by
  rw [← Option.isSome_iff_exists, Option.isSome_iff_ne_none, ne_eq, get?_eq_none, Decidable.not_not]

theorem get?_perm {entries others : Entries α} (perm : entries.Perm others)
    (distinct : entries.Distinct) (key : String) : entries.get? key = others.get? key := by
  have others_distinct : others.Distinct := (perm.map _).nodup_iff.mp distinct
  cases found : others.get? key with
  | none =>
    rw [get?_eq_none] at found ⊢
    exact fun inside => found ((perm.map _).mem_iff.mp inside)
  | some value =>
    exact get?_of_mem distinct (perm.mem_iff.mpr (mem_of_get? found))

theorem keys_insert_of_mem {entries : Entries α} {key : String} (inside : key ∈ entries.keys)
    (value : α) : (entries.insert key value).keys = entries.keys := by
  induction entries with
  | nil => cases inside
  | cons entry rest ih =>
    obtain ⟨k, v⟩ := entry
    simp only [keys] at ih
    by_cases same : k = key
    · simp [insert, keys, same]
    · have later : key ∈ rest.map (·.1) := by simpa [keys, Ne.symm same] using inside
      simp [insert, keys, same, ih later]

theorem insert_of_not_mem {entries : Entries α} {key : String} (fresh : key ∉ entries.keys)
    (value : α) : entries.insert key value = entries ++ [(key, value)] := by
  induction entries with
  | nil => rfl
  | cons entry rest ih =>
    obtain ⟨k, v⟩ := entry
    simp only [keys, List.map_cons, List.mem_cons, not_or] at fresh ih
    simp [insert, Ne.symm fresh.1, ih fresh.2]

theorem distinct_insert {entries : Entries α} (distinct : entries.Distinct) (key : String)
    (value : α) : (entries.insert key value).Distinct := by
  by_cases inside : key ∈ entries.keys
  · rw [Distinct, keys_insert_of_mem inside]
    exact distinct
  · rw [insert_of_not_mem inside, Distinct, keys, List.map_append, List.nodup_append]
    refine ⟨distinct, List.nodup_singleton _, ?_⟩
    intro k member l single same
    rw [List.map_cons, List.map_nil, List.mem_singleton] at single
    rw [same, single] at member
    exact inside member

theorem moveLast_perm (rest : Entries α) : (moveLast rest).Perm rest := by
  cases last : rest.getLast? with
  | none => simp [moveLast, List.getLast?_eq_none_iff.mp last]
  | some entry =>
    obtain ⟨front, rfl⟩ := List.getLast?_eq_some_iff.mp last
    simp only [moveLast, last, List.dropLast_concat]
    exact (List.perm_append_singleton entry front).symm

theorem erase_perm {entries : Entries α} (distinct : entries.Distinct) (key : String) :
    (entries.erase key).Perm (entries.filter fun entry => entry.1 ≠ key) := by
  induction entries with
  | nil => exact List.Perm.refl _
  | cons entry rest ih =>
    obtain ⟨k, v⟩ := entry
    obtain ⟨fresh, distinct⟩ := distinct_cons.mp distinct
    by_cases same : k = key
    · subst same
      have kept : rest.filter (fun entry => entry.1 ≠ k) = rest := by
        rw [List.filter_eq_self]
        intro entry inside
        exact decide_eq_true fun same => fresh (same ▸ mem_keys_of_mem inside)
      rw [erase, if_pos rfl, List.filter_cons_of_neg (by simp), kept]
      exact moveLast_perm rest
    · rw [erase, if_neg same, List.filter_cons_of_pos (by simpa using same)]
      exact (ih distinct).cons _

theorem distinct_filter {entries : Entries α} (distinct : entries.Distinct)
    (keep : String × α → Bool) : Distinct (entries.filter keep) :=
  List.Nodup.sublist (List.Sublist.map _ List.filter_sublist) distinct

theorem distinct_erase {entries : Entries α} (distinct : entries.Distinct) (key : String) :
    (entries.erase key).Distinct :=
  (((erase_perm distinct key).map _).nodup_iff).mpr (distinct_filter distinct _)

theorem get?_filter_ne (entries : Entries α) (key other : String) :
    get? (entries.filter fun entry => entry.1 ≠ key) other =
      if key = other then none else entries.get? other := by
  induction entries with
  | nil => simp [get?]
  | cons entry rest ih =>
    obtain ⟨k, v⟩ := entry
    by_cases gone : k = key
    · subst gone
      rw [List.filter_cons_of_neg (by simp), ih]
      by_cases hit : k = other <;> simp [get?, hit]
    · rw [List.filter_cons_of_pos (by simpa using gone), get?, get?, ih]
      by_cases hit : k = other
      · subst hit
        simp [Ne.symm gone]
      · simp [hit]

theorem get?_erase {entries : Entries α} (distinct : entries.Distinct) (key other : String) :
    (entries.erase key).get? other = if key = other then none else entries.get? other := by
  rw [get?_perm (erase_perm distinct key) (distinct_erase distinct key), get?_filter_ne]

theorem distinct_extend {entries : Entries α} (distinct : entries.Distinct) (more : Entries α) :
    (entries.extend more).Distinct := by
  induction more generalizing entries with
  | nil => exact distinct
  | cons entry rest ih => exact ih (distinct_insert distinct entry.1 entry.2)

theorem get?_extend (entries : Entries α) {more : Entries α} (distinct : more.Distinct)
    (key : String) : (entries.extend more).get? key = (more.get? key).or (entries.get? key) := by
  induction more generalizing entries with
  | nil => simp [extend, get?]
  | cons entry rest ih =>
    obtain ⟨k, v⟩ := entry
    obtain ⟨fresh, distinct⟩ := distinct_cons.mp distinct
    have later := ih (entries.insert k v) distinct
    simp only [extend] at later
    simp only [extend, List.foldl_cons, later, get?_insert, get?]
    by_cases same : k = key
    · subst same
      simp [get?_eq_none.mpr fresh]
    · simp [same]

def set (entries : Entries α) (key : String) : Option α → Entries α
  | some value => entries.insert key value
  | none => entries.erase key

theorem distinct_set {entries : Entries α} (distinct : entries.Distinct) (key : String)
    (value : Option α) : (entries.set key value).Distinct := by
  cases value with
  | none => exact distinct_erase distinct key
  | some value => exact distinct_insert distinct key value

theorem get?_set {entries : Entries α} (distinct : entries.Distinct) (key other : String)
    (value : Option α) :
    (entries.set key value).get? other = if key = other then value else entries.get? other := by
  cases value with
  | none => exact get?_erase distinct key other
  | some value => exact get?_insert entries key other value

theorem insert_get? {entries : Entries α} {key : String} {value : α}
    (found : entries.get? key = some value) : entries.insert key value = entries := by
  induction entries with
  | nil => cases found
  | cons entry rest ih =>
    obtain ⟨k, v⟩ := entry
    by_cases same : k = key
    · have value : v = value := by simpa [get?, same] using found
      simp [insert, same, value]
    · have later : get? rest key = some value := by simpa [get?, same] using found
      simp [insert, same, ih later]

theorem erase_of_not_mem {entries : Entries α} {key : String} (absent : entries.get? key = none) :
    entries.erase key = entries := by
  induction entries with
  | nil => rfl
  | cons entry rest ih =>
    obtain ⟨k, v⟩ := entry
    by_cases same : k = key
    · simp [get?, same] at absent
    · have later : get? rest key = none := by simpa [get?, same] using absent
      simp [erase, same, ih later]

theorem set_get? (entries : Entries α) (key : String) : entries.set key (entries.get? key) = entries := by
  cases found : entries.get? key with
  | none => exact erase_of_not_mem found
  | some value => exact insert_get? found

theorem forall₂_of_get? {R : α → α → Prop} {entries others : Entries α} (distinct : entries.Distinct)
    (keys : others.keys = entries.keys) (each : ∀ k, Option.Rel R (entries.get? k) (others.get? k)) :
    List.Forall₂ R (entries.map (·.2)) (others.map (·.2)) := by
  induction entries generalizing others with
  | nil =>
    cases others with
    | nil => exact .nil
    | cons => cases keys
  | cons entry rest ih =>
    obtain ⟨k, v⟩ := entry
    cases others with
    | nil => cases keys
    | cons other more =>
      obtain ⟨l, u⟩ := other
      obtain ⟨rfl, later⟩ := List.cons.inj keys
      obtain ⟨fresh, distinct⟩ := distinct_cons.mp distinct
      refine .cons ?_ (ih distinct later fun key => ?_)
      · have here := each l
        simp only [get?, if_true] at here
        cases here with
        | some related => exact related
      · by_cases same : l = key
        · subst same
          rw [get?_eq_none.mpr fresh, get?_eq_none.mpr (by rw [Entries.keys, later]; exact fresh)]
          exact .none
        · simpa [get?, same] using each key

theorem ext_get? {entries others : Entries α} (distinct : entries.Distinct) (keys : others.keys = entries.keys)
    (same : ∀ k, entries.get? k = others.get? k) : entries = others := by
  have values : List.Forall₂ (· = ·) (entries.map (·.2)) (others.map (·.2)) := forall₂_of_get? distinct keys fun k => by
    rw [same]
    cases others.get? k with
    | none => exact .none
    | some value => exact .some rfl
  rw [List.forall₂_eq_eq_eq] at values
  exact (List.zip_of_prod keys.symm values).trans (List.zip_of_prod rfl rfl).symm

theorem Sorted.distinct {entries : Entries α} (sorted : entries.Sorted) : entries.Distinct := by
  rw [Distinct, keys, List.Nodup, List.pairwise_map]
  refine List.Pairwise.imp ?_ sorted
  intro a b before same
  rw [same] at before
  exact String.lt_irrefl _ before

theorem perm_of_get? {entries others : Entries α} (distinct : entries.Distinct)
    (others_distinct : others.Distinct) (same : ∀ key, entries.get? key = others.get? key) :
    entries.Perm others := by
  refine (List.perm_ext_iff_of_nodup distinct.of_map others_distinct.of_map).mpr ?_
  rintro ⟨key, value⟩
  constructor
  · intro inside
    exact mem_of_get? (same key ▸ get?_of_mem distinct inside)
  · intro inside
    exact mem_of_get? ((same key).symm ▸ get?_of_mem others_distinct inside)

theorem Sorted.ext {entries others : Entries α} (sorted : entries.Sorted) (others_sorted : others.Sorted)
    (same : ∀ key, entries.get? key = others.get? key) : entries = others := by
  refine List.Perm.eq_of_pairwise ?_ sorted others_sorted
    (perm_of_get? sorted.distinct others_sorted.distinct same)
  intro a b _ _ before after
  exact absurd (String.lt_trans before after) (String.lt_irrefl _)

end Entries

namespace KeyMap

variable {α : Type}

theorem mem_entries {m : KeyMap α} {key : String} {value : α} :
    (key, value) ∈ m.entries ↔ m.get? key = some value :=
  ⟨Entries.get?_of_mem m.sorted.distinct, Entries.mem_of_get?⟩

theorem mem_values {m : KeyMap α} {value : α} : value ∈ m.values ↔ ∃ key, m.get? key = some value := by
  simp [values, ← mem_entries]

theorem contains_iff {m : KeyMap α} {key : String} :
    m.contains key = true ↔ ∃ value, m.get? key = some value := by
  rw [contains, Option.isSome_iff_exists]

theorem get?_empty (key : String) : (empty : KeyMap α).get? key = none := rfl

theorem get?_foldl_insert (entries : List (String × α)) (m : KeyMap α) (key : String) :
    (entries.foldl (fun m entry => m.insert entry.1 entry.2) m).get? key =
      ((entries.reverse.find? (·.1 == key)).map (·.2)).or (m.get? key) := by
  induction entries generalizing m with
  | nil => simp
  | cons entry rest ih =>
    obtain ⟨k, v⟩ := entry
    rw [List.foldl_cons, ih, get?_insert, List.reverse_cons, List.find?_append]
    cases rest.reverse.find? (·.1 == key) with
    | some found => simp
    | none => by_cases same : k = key <;> simp [same]

theorem get?_ofList (entries : List (String × α)) (key : String) :
    (ofList entries).get? key = (entries.reverse.find? (·.1 == key)).map (·.2) := by
  rw [ofList, get?_foldl_insert, get?_empty, Option.or_none]

theorem mem_of_get?_ofList {entries : List (String × α)} {key : String} {value : α}
    (found : (ofList entries).get? key = some value) : (key, value) ∈ entries := by
  rw [get?_ofList, Option.map_eq_some_iff] at found
  obtain ⟨⟨k, v⟩, there, rfl⟩ := found
  have same : k = key := by simpa using List.find?_some there
  exact same ▸ List.mem_reverse.mp (List.mem_of_find?_eq_some there)

theorem exists_get?_ofList {entries : List (String × α)} {key : String} {value : α}
    (inside : (key, value) ∈ entries) : ∃ other, (ofList entries).get? key = some other := by
  have there : (entries.reverse.find? (·.1 == key)).isSome = true :=
    List.find?_isSome.mpr ⟨(key, value), List.mem_reverse.mpr inside, by simp⟩
  obtain ⟨entry, found⟩ := Option.isSome_iff_exists.mp there
  exact ⟨entry.2, by rw [get?_ofList, found]; rfl⟩

theorem get?_ofList_of_unique {entries : List (String × α)} {key : String} {value : α}
    (inside : (key, value) ∈ entries) (unique : ∀ other, (key, other) ∈ entries → other = value) :
    (ofList entries).get? key = some value := by
  obtain ⟨other, found⟩ := exists_get?_ofList inside
  rw [found, unique other (mem_of_get?_ofList found)]

theorem nodup_keys (m : KeyMap α) : m.keys.Nodup := m.sorted.distinct

theorem mem_keys_ofList {entries : List (String × α)} {key : String} :
    key ∈ (ofList entries).keys ↔ key ∈ entries.map (·.1) := by
  constructor
  · intro listed
    obtain ⟨value, found⟩ := Entries.mem_keys_iff.mp listed
    exact List.mem_map.mpr ⟨_, mem_of_get?_ofList found, rfl⟩
  · intro inside
    obtain ⟨⟨_, value⟩, there, rfl⟩ := List.mem_map.mp inside
    exact Entries.mem_keys_iff.mpr (exists_get?_ofList there)

theorem entries_ofList_perm {entries : List (String × α)} (distinct : (entries.map (·.1)).Nodup) :
    (ofList entries).entries.Perm entries := by
  refine (List.perm_ext_iff_of_nodup (ofList entries).nodup_keys.of_map distinct.of_map).mpr fun entry => ?_
  obtain ⟨key, value⟩ := entry
  refine mem_entries.trans ⟨mem_of_get?_ofList, fun inside => get?_ofList_of_unique inside fun other there => ?_⟩
  exact congrArg Prod.snd (List.inj_on_of_nodup_map distinct there inside rfl)

end KeyMap

namespace WellKnown

variable {α : Type} {make : String → String → α} {builtIn : List (String × String)}
  {declared : KeyMap α} {key : String} {value : α}

theorem get?_addTo_of_declared (found : declared.get? key = some value) :
    (addTo make builtIn declared).get? key = some value := by
  induction builtIn generalizing declared with
  | nil => exact found
  | cons entry rest ih =>
    obtain ⟨name, file⟩ := entry
    rw [addTo, List.foldl_cons]
    refine ih ?_
    by_cases there : declared.contains name = true
    · simpa [there] using found
    · have other : name ≠ key := by
        rintro rfl
        exact there (KeyMap.contains_iff.mpr ⟨value, found⟩)
      simp [there, KeyMap.get?_insert, other, found]

theorem get?_addTo (found : (addTo make builtIn declared).get? key = some value) :
    declared.get? key = some value ∨ ∃ file, (key, file) ∈ builtIn ∧ value = make key file := by
  induction builtIn generalizing declared with
  | nil => exact .inl found
  | cons entry rest ih =>
    obtain ⟨name, file⟩ := entry
    rw [addTo, List.foldl_cons] at found
    rcases ih found with before | ⟨other, inside, made⟩
    · by_cases there : declared.contains name = true
      · exact .inl (by simpa [there] using before)
      · simp only [there, Bool.false_eq_true, if_false, KeyMap.get?_insert] at before
        split at before
        · rename_i same
          subst same
          exact .inr ⟨file, by simp, (Option.some.inj before).symm⟩
        · exact .inl before
    · exact .inr ⟨other, by simp [inside], made⟩

end WellKnown

end Wireform
