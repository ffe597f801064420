/-!
Key and value pairs in insertion order. Writing a present key keeps its place; removing a key moves
the last entry into the freed place.
-/

set_option autoImplicit false

namespace Wireform

abbrev Entries (α : Type) := List (String × α)

namespace Entries

variable {α β : Type}

def get? : Entries α → String → Option α
  | [], _ => none
  | (k, v) :: rest, key => if k = key then some v else get? rest key

def contains (entries : Entries α) (key : String) : Bool :=
  (entries.get? key).isSome

def keys (entries : Entries α) : List String := entries.map (·.1)

def insert : Entries α → String → α → Entries α
  | [], key, value => [(key, value)]
  | (k, v) :: rest, key, value =>
    if k = key then (k, value) :: rest else (k, v) :: insert rest key value

def moveLast (rest : Entries α) : Entries α :=
  match rest.getLast? with
  | none => []
  | some entry => entry :: rest.dropLast

def erase : Entries α → String → Entries α
  | [], _ => []
  | (k, v) :: rest, key => if k = key then moveLast rest else (k, v) :: erase rest key

def extend (entries more : Entries α) : Entries α :=
  more.foldl (fun all entry => insert all entry.1 entry.2) entries

def ofList (entries : List (String × α)) : Entries α := extend [] entries

theorem get?_insert (entries : Entries α) (key other : String) (value : α) :
    (insert entries key value).get? other = if key = other then some value else entries.get? other := by
  induction entries with
  | nil => simp [insert, get?]
  | cons entry rest ih =>
    obtain ⟨k, v⟩ := entry
    by_cases same : k = key
    · subst same
      by_cases hit : k = other <;> simp [insert, get?, hit]
    · by_cases hit : k = other
      · subst hit
        simp [insert, get?, same, Ne.symm same]
      · simp [insert, get?, same, hit, ih]

end Entries

end Wireform
