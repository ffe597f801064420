import Wireform.OpenApi
import Wireform.Proofs.AcceptedIndex
import Wireform.Proofs.AcceptedValues

set_option autoImplicit false

namespace Wireform

namespace Reach

variable {next : String → List String} {enqueue : List String → List String → List String}

theorem walk_closed (keeps : ∀ rest more name, name ∈ rest ∨ name ∈ more → name ∈ enqueue rest more) {turns : Nat}
    {ahead waiting : List String} (enough : ahead.length ≤ turns) :
    (∀ name ∈ waiting, name ∈ ahead → name ∈ walk next enqueue turns ahead waiting) ∧
      ∀ name ∈ walk next enqueue turns ahead waiting, ∀ other ∈ next name, other ∈ ahead →
        other ∈ walk next enqueue turns ahead waiting := by
  induction turns generalizing ahead waiting with
  | zero =>
    cases List.length_eq_zero_iff.mp (Nat.le_zero.mp enough)
    exact ⟨fun _ _ inside => (nomatch inside), fun _ inside => (nomatch inside)⟩
  | succ turns ih =>
    have parts := List.takeWhile_append_dropWhile (p := fun name => !ahead.contains name) (l := waiting)
    simp only [walk]
    split
    · rename_i nothing
      rw [nothing, List.append_nil] at parts
      refine ⟨fun name waits inside => ?_, fun _ inside => (nomatch inside)⟩
      rw [← parts] at waits
      simpa [inside] using List.mem_takeWhile_imp waits
    · rename_i first rest left
      have there : first ∈ ahead := by
        have head := List.head_dropWhile_not (fun name => !ahead.contains name) (l := waiting)
          (left ▸ List.cons_ne_nil _ _)
        simp only [left, List.head_cons] at head
        simpa using head
      have fewer : (ahead.erase first).length ≤ turns := by
        rw [List.length_erase_of_mem there]
        omega
      obtain ⟨waits, closed⟩ := @ih (ahead.erase first) (enqueue rest (next first)) fewer
      -- A name ahead is the first itself, or is still ahead in the next turn.
      have step {name : String} (inside : name ∈ ahead)
          (later : name ≠ first → name ∈ ahead.erase first → name ∈ walk next enqueue turns (ahead.erase first)
            (enqueue rest (next first))) :
          name ∈ first :: walk next enqueue turns (ahead.erase first) (enqueue rest (next first)) := by
        by_cases same : name = first
        · exact same ▸ List.mem_cons_self
        · exact List.mem_cons_of_mem _ (later same ((List.mem_erase_of_ne same).mpr inside))
      constructor
      · intro name waiting_there inside
        refine step inside fun differs still => waits name (keeps _ _ _ (.inl ?_)) still
        rw [← parts, left, List.mem_append, List.mem_cons] at waiting_there
        rcases waiting_there with dropped | rfl | later
        · simpa [inside] using List.mem_takeWhile_imp dropped
        · exact absurd rfl differs
        · exact later
      · intro name visited other leads inside
        refine step inside fun _ still => ?_
        rcases List.mem_cons.mp visited with rfl | later
        · exact waits other (keeps _ _ _ (.inr leads)) still
        · exact closed name later other leads still

end Reach

namespace OpenApi.Context

variable {context : Context} {file : Index.File}

def known (context : Context) : List String :=
  (context.index.messages.keys ++ context.index.enums.keys).eraseDups

theorem mem_known {name : String} : name ∈ context.known ↔
    (∃ m, context.index.messages.get? name = some m) ∨ ∃ e, context.index.enums.get? name = some e := by
  rw [known, List.mem_eraseDups, List.mem_append]
  exact or_congr Entries.mem_keys_iff Entries.mem_keys_iff

def ahead (context : Context) (file : Index.File) : List String :=
  (context.index.messages.keys ++ context.index.enums.keys ++ (file.messages ++ file.enums)).eraseDups

theorem mem_ahead {name : String} :
    name ∈ context.ahead file ↔ name ∈ context.known ∨ name ∈ file.messages ++ file.enums := by
  rw [ahead, known, List.mem_eraseDups, List.mem_eraseDups, List.mem_append (t := file.messages ++ file.enums)]

theorem mem_typesOf {name : String} (listed : name ∈ file.messages ++ file.enums) : name ∈ context.typesOf file :=
  (Reach.walk_closed (fun _ _ _ inside => List.mem_append.mpr inside) Nat.le.refl).1 name listed
    (mem_ahead.mpr (.inr listed))

theorem typesOf_closed {name other : String} (inside : name ∈ context.typesOf file)
    (refers : other ∈ context.typeReferences name) (there : other ∈ context.known) :
    other ∈ context.typesOf file :=
  (Reach.walk_closed (fun _ _ _ inside => List.mem_append.mpr inside) Nat.le.refl).2 name inside other refers
    (mem_ahead.mpr (.inl there))

end OpenApi.Context

namespace OpenApi.Document

variable {index : Index} {plans : PlanSet} {file : Index.File} {document : Document}

variable (index plans) in
theorem exists_of_listed {name : String} (listed : name ∈ file.messages) :
    ∃ document, ofFile? index plans file = some document := by
  have filled : file.messages.isEmpty = false := by
    cases given : file.messages with
    | nil => rw [given] at listed; cases listed
    | cons => rfl
  simp [ofFile?, filled]

theorem get?_component (made : ofFile? index plans file = some document)
    (distinct : (((⟨index, plans, file.package⟩ : Context).typesOf file).map
      (⟨index, plans, file.package⟩ : Context).componentName).Nodup)
    {name : String} (inside : name ∈ (⟨index, plans, file.package⟩ : Context).typesOf file) {schema : JsonSchema}
    (typed : (⟨index, plans, file.package⟩ : Context).typeSchema? name = some schema) :
    document.components.entries.get? ((⟨index, plans, file.package⟩ : Context).componentName name) = some schema := by
  rw [ofFile?] at made
  split at made
  · cases made
  · cases made
    refine KeyMap.get?_ofList_of_unique (List.mem_filterMap.mpr ⟨name, inside, by rw [typed]; rfl⟩) ?_
    intro other listed
    obtain ⟨namesake, there, made⟩ := List.mem_filterMap.mp listed
    obtain ⟨found, typed', same⟩ := Option.map_eq_some_iff.mp made
    obtain ⟨shared, rfl⟩ := Prod.mk.inj same
    rw [eq_of_nodup distinct there inside shared, typed] at typed'
    exact (Option.some.inj typed').symm

end OpenApi.Document

end Wireform
