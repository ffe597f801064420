import Wireform.Entries

/-!
Finite maps listed by increasing key, so that equal maps are equal data. Keys are compared character by
character.
-/

set_option autoImplicit false

namespace Wireform

def Entries.Sorted {α : Type} (entries : Entries α) : Prop :=
  entries.Pairwise fun a b => a.1 < b.1

structure KeyMap (α : Type) where
  entries : Entries α
  sorted : entries.Sorted

namespace Entries

variable {α : Type}

def put : Entries α → String → α → Entries α
  | [], key, value => [(key, value)]
  | (k, v) :: rest, key, value =>
    if key < k then (key, value) :: (k, v) :: rest
    else if key = k then (key, value) :: rest
    else (k, v) :: put rest key value

theorem mem_put {entries : Entries α} {key : String} {value : α} {entry : String × α}
    (h : entry ∈ entries.put key value) : entry = (key, value) ∨ entry ∈ entries := by
  induction entries with
  | nil => exact .inl (by simpa [put] using h)
  | cons head rest ih =>
    obtain ⟨k, v⟩ := head
    simp only [put] at h
    split at h
    · simpa using h
    · split at h
      · simp only [List.mem_cons] at h
        grind
      · simp only [List.mem_cons] at h
        rcases h with h | h
        · grind
        · grind

theorem sorted_put {entries : Entries α} (sorted : entries.Sorted) (key : String) (value : α) :
    (entries.put key value).Sorted := by
  induction entries with
  | nil => simp [put, Sorted]
  | cons head rest ih =>
    obtain ⟨k, v⟩ := head
    simp only [Sorted, List.pairwise_cons] at sorted
    simp only [put]
    split
    · rename_i before
      simp only [Sorted, List.pairwise_cons, List.mem_cons]
      refine ⟨?_, sorted.1, sorted.2⟩
      rintro entry (rfl | inRest)
      · exact before
      · exact String.lt_trans before (sorted.1 entry inRest)
    · split
      · rename_i same
        subst same
        simpa only [Sorted, List.pairwise_cons] using sorted
      · rename_i notBefore differs
        have after : k < key := by grind
        simp only [Sorted, List.pairwise_cons]
        refine ⟨?_, ih sorted.2⟩
        intro entry inPut
        rcases mem_put inPut with rfl | inRest
        · exact after
        · exact sorted.1 entry inRest

theorem get?_put (entries : Entries α) (key other : String) (value : α) :
    (entries.put key value).get? other = if key = other then some value else entries.get? other := by
  induction entries with
  | nil => simp [put, get?]
  | cons head rest ih =>
    obtain ⟨k, v⟩ := head
    simp only [put]
    split
    · simp [get?]
    · split
      · rename_i same
        subst same
        by_cases hit : key = other <;> simp [get?, hit]
      · rename_i differs
        by_cases hit : k = other
        · subst hit
          simp [get?, differs]
        · simp [get?, hit, ih]

end Entries

namespace KeyMap

variable {α β : Type}

def empty : KeyMap α := ⟨[], List.Pairwise.nil⟩

instance : Inhabited (KeyMap α) := ⟨empty⟩

def get? (m : KeyMap α) (key : String) : Option α := m.entries.get? key

def contains (m : KeyMap α) (key : String) : Bool := (m.get? key).isSome

def insert (m : KeyMap α) (key : String) (value : α) : KeyMap α :=
  ⟨m.entries.put key value, Entries.sorted_put m.sorted key value⟩

/-- Inserts the entries one by one, so that the last of a repeated key stands. -/
def ofList (entries : List (String × α)) : KeyMap α :=
  entries.foldl (fun m entry => m.insert entry.1 entry.2) empty

def keys (m : KeyMap α) : List String := m.entries.map (·.1)

def values (m : KeyMap α) : List α := m.entries.map (·.2)

def size (m : KeyMap α) : Nat := m.entries.length

def isEmpty (m : KeyMap α) : Bool := m.entries.isEmpty

def map (f : String → α → β) (m : KeyMap α) : KeyMap β :=
  ⟨m.entries.map fun entry => (entry.1, f entry.1 entry.2),
    by unfold Entries.Sorted; rw [List.pairwise_map]; exact m.sorted⟩

theorem get?_insert (m : KeyMap α) (key other : String) (value : α) :
    (m.insert key value).get? other = if key = other then some value else m.get? other :=
  Entries.get?_put m.entries key other value

end KeyMap

end Wireform
