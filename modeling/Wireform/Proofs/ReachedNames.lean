import Mathlib.Logic.Relation
import Wireform.Proofs.DocumentComponents

set_option autoImplicit false

namespace Wireform

theorem nodup_eraseDups {α : Type} [BEq α] [LawfulBEq α] (items : List α) : items.eraseDups.Nodup := by
  match items with
  | [] => exact List.nodup_nil
  | first :: rest =>
    rw [List.eraseDups_cons]
    refine List.nodup_cons.mpr ⟨fun again => ?_, nodup_eraseDups _⟩
    have apart := (List.mem_filter.mp (List.mem_eraseDups.mp again)).2
    simp at apart
termination_by items.length
decreasing_by
  rw [List.length_cons]
  exact Nat.lt_succ_of_le (List.length_filter_le _ _)

namespace Reach

variable {next other : String → List String} {enqueue : List String → List String → List String}

variable (next enqueue) in
theorem walk_succ (turns : Nat) (ahead waiting : List String) :
    (walk next enqueue (turns + 1) ahead waiting = [] ∧ ∀ name ∈ waiting, name ∉ ahead) ∨
    ∃ name rest, waiting.dropWhile (fun name => !ahead.contains name) = name :: rest ∧ name ∈ waiting ∧
      name ∈ ahead ∧ (∀ later ∈ rest, later ∈ waiting) ∧
      walk next enqueue (turns + 1) ahead waiting =
        name :: walk next enqueue turns (ahead.erase name) (enqueue rest (next name)) := by
  have parts := List.takeWhile_append_dropWhile (p := fun name => !ahead.contains name) (l := waiting)
  cases left : waiting.dropWhile fun name => !ahead.contains name with
  | nil =>
    refine .inl ⟨by rw [walk, left], fun name waits => ?_⟩
    rw [left, List.append_nil] at parts
    rw [← parts] at waits
    simpa using List.mem_takeWhile_imp waits
  | cons name rest =>
    have there : name ∈ ahead := by
      have head := List.head_dropWhile_not (fun name => !ahead.contains name) (l := waiting)
        (left ▸ List.cons_ne_nil _ _)
      simp only [left, List.head_cons] at head
      simpa using head
    have waits {later : String} (inside : later ∈ name :: rest) : later ∈ waiting := by
      rw [← parts, left]
      exact List.mem_append_right _ inside
    exact .inr ⟨name, rest, rfl, waits List.mem_cons_self, there, fun _ inside => waits (List.mem_cons_of_mem _ inside),
      by rw [walk, left]⟩

section Visited

variable {P : String → Prop} (only : ∀ rest more name, name ∈ enqueue rest more → name ∈ rest ∨ name ∈ more)
  (leads : ∀ name, P name → ∀ later ∈ next name, P later)

theorem walk_subset {turns : Nat} {ahead waiting : List String} :
    ∀ name ∈ walk next enqueue turns ahead waiting, name ∈ ahead := by
  induction turns generalizing ahead waiting with
  | zero => exact fun _ inside => nomatch inside
  | succ turns ih =>
    intro name visited
    rcases walk_succ next enqueue turns ahead waiting with
      ⟨ended, _⟩ | ⟨first, rest, _, _, there, _, taken⟩
    · rw [ended] at visited
      cases visited
    · rw [taken] at visited
      rcases List.mem_cons.mp visited with rfl | later
      · exact there
      · exact List.mem_of_mem_erase (ih name later)

theorem walk_nodup {turns : Nat} {ahead waiting : List String} (distinct : ahead.Nodup) :
    (walk next enqueue turns ahead waiting).Nodup := by
  induction turns generalizing ahead waiting with
  | zero => exact List.nodup_nil
  | succ turns ih =>
    rcases walk_succ next enqueue turns ahead waiting with
      ⟨ended, _⟩ | ⟨first, rest, _, _, _, _, taken⟩
    · rw [ended]
      exact List.nodup_nil
    · rw [taken]
      refine List.nodup_cons.mpr ⟨fun again => ?_, ih (distinct.erase first)⟩
      exact (List.Nodup.mem_erase_iff distinct).mp (walk_subset first again) |>.1 rfl

include only leads

theorem walk_sound {turns : Nat} {ahead waiting : List String} (starts : ∀ name ∈ waiting, P name) :
    ∀ name ∈ walk next enqueue turns ahead waiting, P name := by
  induction turns generalizing ahead waiting with
  | zero => exact fun _ inside => nomatch inside
  | succ turns ih =>
    intro name visited
    rcases walk_succ next enqueue turns ahead waiting with
      ⟨ended, _⟩ | ⟨first, rest, _, waits, _, others, taken⟩
    · rw [ended] at visited
      cases visited
    · rw [taken] at visited
      rcases List.mem_cons.mp visited with rfl | later
      · exact starts name waits
      · refine ih (fun other inside => ?_) name later
        rcases only _ _ _ inside with left | more
        · exact starts other (others other left)
        · exact leads first (starts first waits) other more

theorem walk_agree {turns more : Nat} {ahead beyond waiting : List String} (enough : ahead.length ≤ turns)
    (enough' : beyond.length ≤ more) (distinct : ahead.Nodup) (distinct' : beyond.Nodup)
    (same : ∀ name, P name → (name ∈ ahead ↔ name ∈ beyond)) (agree : ∀ name, P name → next name = other name)
    (starts : ∀ name ∈ waiting, P name) :
    walk next enqueue turns ahead waiting = walk other enqueue more beyond waiting := by
  -- By induction on the turns of the first walk. Neither runs out of turns, since each name ahead takes one only.
  induction turns generalizing more ahead beyond waiting with
  | zero =>
    cases List.length_eq_zero_iff.mp (Nat.le_zero.mp enough)
    cases more with
    | zero => rfl
    | succ more =>
      rcases walk_succ other enqueue more beyond waiting with
        ⟨ended, _⟩ | ⟨first, _, _, waits, there, _, _⟩
      · rw [ended, walk]
      · exact absurd ((same first (starts first waits)).mpr there) List.not_mem_nil
  | succ turns ih =>
    -- The names ahead decide which of those that wait are passed over.
    have left : waiting.dropWhile (fun name => !ahead.contains name) =
        waiting.dropWhile fun name => !beyond.contains name := by
      clear ih
      induction waiting with
      | nil => rfl
      | cons first rest again =>
        have seen : ahead.contains first = beyond.contains first := by
          rw [Bool.eq_iff_iff, List.contains_iff_mem, List.contains_iff_mem]
          exact same first (starts first List.mem_cons_self)
        simp only [List.dropWhile_cons, seen]
        split
        · exact again fun name inside => starts name (List.mem_cons_of_mem _ inside)
        · rfl
    rcases walk_succ next enqueue turns ahead waiting with
      ⟨ended, none_left⟩ | ⟨first, rest, dropped, waits, there, others, taken⟩
    · rw [ended]
      cases more with
      | zero => rfl
      | succ more =>
        rcases walk_succ other enqueue more beyond waiting with
          ⟨ended, _⟩ | ⟨first, _, _, waits, there, _, _⟩
        · rw [ended]
        · exact absurd ((same first (starts first waits)).mpr there) (none_left first waits)
    · have known := starts first waits
      have there' := (same first known).mp there
      obtain ⟨more, rfl⟩ : ∃ k, more = k + 1 :=
        ⟨more - 1, by have := List.length_pos_of_mem there'; omega⟩
      rw [taken, walk, ← left, dropped]
      dsimp only
      rw [agree first known]
      refine congrArg (first :: ·) (ih ?_ ?_ (distinct.erase first) (distinct'.erase first) (fun name kept => ?_)
        fun name inside => ?_)
      · rw [List.length_erase_of_mem there]
        omega
      · rw [List.length_erase_of_mem there']
        omega
      · rw [distinct.mem_erase_iff, distinct'.mem_erase_iff, same name kept]
      · rcases only _ _ _ inside with left | further
        · exact starts name (others name left)
        · exact leads first known name (agree first known ▸ further)

end Visited

end Reach

namespace Imports

variable {set : Schema.FileSet}

theorem mem_fileNames {name : String} : name ∈ fileNames set ↔ ∃ f ∈ set.files, f.name = name := by
  rw [fileNames, List.mem_eraseDups, List.mem_map]

theorem nodup_closure (roots : List String) : (closure set roots).Nodup :=
  Reach.walk_nodup (nodup_eraseDups _)

theorem fileOf?_eq_some {name : String} {f : Schema.File} (found : fileOf? set name = some f) :
    f ∈ set.files ∧ f.name = name := by
  obtain ⟨inside, same⟩ := List.mem_filter.mp (List.mem_of_getLast? found)
  exact ⟨inside, by simpa using same⟩

theorem mem_fileNames_of_known {name other : String} (imports : other ∈ known set name) :
    name ∈ fileNames set ∧ other ∈ fileNames set := by
  rw [known] at imports
  split at imports
  · cases imports
  · rename_i file found
    obtain ⟨inside, same⟩ := fileOf?_eq_some found
    exact ⟨mem_fileNames.mpr ⟨file, inside, same⟩, by simpa using (List.mem_filter.mp imports).2⟩

theorem mem_closure {roots : List String} {name : String} : name ∈ closure set roots ↔ name ∈ fileNames set ∧
    ∃ root ∈ roots, Relation.ReflTransGen (fun a b => b ∈ known set a) root name := by
  have only (rest more : List String) (name : String) (inside : name ∈ more ++ rest) : name ∈ rest ∨ name ∈ more :=
    (List.mem_append.mp inside).symm
  constructor
  · intro visited
    refine ⟨Reach.walk_subset name visited, ?_⟩
    refine Reach.walk_sound (P := fun name => ∃ root ∈ roots, Relation.ReflTransGen (fun a b => b ∈ known set a) root name)
      only (fun name reached other imports => ?_) (fun root inside => ⟨root, inside, .refl⟩) name visited
    obtain ⟨root, inside, path⟩ := reached
    exact ⟨root, inside, path.tail imports⟩
  · rintro ⟨there, root, inside, path⟩
    obtain ⟨waits, closed⟩ := @Reach.walk_closed (known set) (fun rest more => more ++ rest)
      (fun _ _ _ inside => List.mem_append.mpr inside.symm) _ (fileNames set) roots Nat.le.refl
    induction path with
    | refl => exact waits root inside there
    | tail _ imports ih =>
      obtain ⟨before, _⟩ := mem_fileNames_of_known imports
      exact closed _ (ih before) _ imports there

theorem closure_trans {roots : List String} {name other : String} (reached : name ∈ closure set roots)
    (further : other ∈ closure set [name]) : other ∈ closure set roots := by
  obtain ⟨_, root, inside, path⟩ := mem_closure.mp reached
  obtain ⟨there, first, alone, rest⟩ := mem_closure.mp further
  cases List.mem_singleton.mp alone
  exact mem_closure.mpr ⟨there, root, inside, path.trans rest⟩

end Imports

end Wireform
