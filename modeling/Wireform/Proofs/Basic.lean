import Mathlib.Data.List.Forall2
import Mathlib.Data.List.Nodup
import Mathlib.Data.List.Pairwise

set_option autoImplicit false

namespace Wireform

section

variable {ε α β : Type}

-- Not proved by `rfl`, so that `simp` rewrites with it and no conditions are evaluated on the way.
theorem ok_bind (a : α) (f : α → Except ε β) : ((Except.ok a : Except ε α) >>= f) = f a := by
  simp only [bind, Except.bind]

theorem bind_eq_ok {x : Except ε α} {f : α → Except ε β} {b : β} (run : (x >>= f) = .ok b) :
    ∃ a, x = .ok a ∧ f a = .ok b := by
  cases x with
  | error e => cases run
  | ok a => exact ⟨a, rfl, run⟩

theorem map_eq_ok {x : Except ε α} {f : α → β} {b : β} (run : (f <$> x) = .ok b) :
    ∃ a, x = .ok a ∧ f a = b := by
  cases x with
  | error e => cases run
  | ok a => exact ⟨a, rfl, Except.ok.inj run⟩

theorem bind_eq_error {fault : ε} {x : Except ε α} {next : α → Except ε β} (failed : (x >>= next) = .error fault) :
    x = .error fault ∨ ∃ a, x = .ok a ∧ next a = .error fault := by
  cases x with
  | error e =>
    cases failed
    exact .inl rfl
  | ok a => exact .inr ⟨a, rfl, failed⟩

theorem map_eq_error {fault : ε} {x : Except ε α} {g : α → β} (failed : (g <$> x) = .error fault) :
    x = .error fault := by
  cases x with
  | error e =>
    cases failed
    rfl
  | ok a => cases failed

theorem throw_bind {e : ε} {f : α → Except ε β} : ((throw e : Except ε α) >>= f) = .error e := rfl

variable {p c d : Prop} [Decidable p] [Decidable c] [Decidable d] {e e' : ε} {rest : Except ε α} {a : α}

theorem ok_of_unless (run : (if c then .error e else rest) = .ok a) : ¬ c ∧ rest = .ok a := by
  split at run
  · cases run
  · exact ⟨‹_›, run⟩

theorem ok_of_either (run : (if p then (if c then .error e else rest) else if d then .error e' else rest) = .ok a) :
    (if p then ¬ c else ¬ d) ∧ rest = .ok a := by
  by_cases holds : p
  · simp only [holds, if_true] at run ⊢
    exact ok_of_unless run
  · simp only [holds, if_false] at run ⊢
    exact ok_of_unless run

end

theorem mapError_eq_ok {ε δ α : Type} {x : Except ε α} {f : ε → δ} {a : α}
    (run : x.mapError f = .ok a) : x = .ok a := by
  cases x with
  | error e => cases run
  | ok b => exact congrArg Except.ok (Except.ok.inj run)

section Searches

theorem pairwise_forall {α : Type} {R : α → α → Prop} (symmetric : ∀ a b, R a b → R b a) {items : List α}
    (pairs : items.Pairwise R) {a b : α} (first : a ∈ items) (second : b ∈ items) (differ : a ≠ b) : R a b :=
  have : Std.Symm R := ⟨symmetric⟩
  pairs.forall first second differ

variable {α β : Type} [DecidableEq β]

theorem find?_of_nodup {items : List α} {key : α → β} (distinct : (items.map key).Nodup) {item : α}
    (inside : item ∈ items) : items.find? (fun other => key other == key item) = some item := by
  induction items with
  | nil => cases inside
  | cons first rest ih =>
    rw [List.map_cons, List.nodup_cons] at distinct
    rcases List.mem_cons.mp inside with rfl | later
    · rw [List.find?_cons_of_pos (by simp)]
    · have differs : key first ≠ key item := fun same =>
        distinct.1 (List.mem_map.mpr ⟨item, later, same.symm⟩)
      rw [List.find?_cons_of_neg (by simpa using differs), ih distinct.2 later]

omit [DecidableEq β] in
theorem eq_of_nodup {items : List α} {key : α → β} (distinct : (items.map key).Nodup) {a b : α}
    (first : a ∈ items) (second : b ∈ items) (same : key a = key b) : a = b :=
  List.inj_on_of_nodup_map distinct first second same

theorem flatMap_of_nodup {γ : Type} {items : List α} {key : α → β} (distinct : (items.map key).Nodup) {item : α}
    (inside : item ∈ items) (share : α → List γ) (others : ∀ other ∈ items, key other ≠ key item → share other = []) :
    items.flatMap share = share item := by
  induction items with
  | nil => cases inside
  | cons head rest ih =>
    obtain ⟨fresh, later⟩ := List.nodup_cons.mp distinct
    rw [List.flatMap_cons]
    by_cases same : key head = key item
    · have here : item = head := eq_of_nodup distinct inside List.mem_cons_self same.symm
      have nothing : rest.flatMap share = [] := List.flatMap_eq_nil_iff.mpr fun other there =>
        others other (List.mem_cons_of_mem _ there) fun again =>
          fresh (List.mem_map.mpr ⟨other, there, again.trans same.symm⟩)
      rw [nothing, List.append_nil, here]
    · have there : item ∈ rest := (List.mem_cons.mp inside).resolve_left fun here => same (here ▸ rfl)
      rw [others head List.mem_cons_self same, List.nil_append]
      exact ih later there fun other there => others other (List.mem_cons_of_mem _ there)

end Searches

section Related

variable {α β γ : Type} {R : α → β → Prop} {as : List α} {bs : List β}

theorem forall₂_imp_mem {S : α → β → Prop} (each : List.Forall₂ R as bs) (imp : ∀ a ∈ as, ∀ b, R a b → S a b) :
    List.Forall₂ S as bs := by
  induction each with
  | nil => exact .nil
  | cons related _ ih =>
    exact .cons (imp _ List.mem_cons_self _ related) (ih fun a inside => imp a (List.mem_cons_of_mem _ inside))

theorem map_eq_of_forall₂ {f : α → γ} {g : β → γ} (each : List.Forall₂ R as bs)
    (same : ∀ a b, R a b → f a = g b) : as.map f = bs.map g := by
  induction each with
  | nil => rfl
  | cons related _ ih => rw [List.map_cons, List.map_cons, ih, same _ _ related]

theorem exists_of_forall₂ (each : List.Forall₂ R as bs) {b : β} (inside : b ∈ bs) : ∃ a ∈ as, R a b := by
  induction each with
  | nil => cases inside
  | cons related _ ih =>
    rcases List.mem_cons.mp inside with rfl | there
    · exact ⟨_, List.mem_cons_self, related⟩
    · obtain ⟨a, here, related⟩ := ih there
      exact ⟨a, List.mem_cons_of_mem _ here, related⟩

variable {o : Option α} {p : Option β}

theorem rel_imp_mem {S : α → β → Prop} (related : Option.Rel R o p) (imp : ∀ a ∈ o, ∀ b, R a b → S a b) :
    Option.Rel S o p := by
  cases related with
  | none => exact .none
  | some same => exact .some (imp _ rfl _ same)

theorem isSome_eq_of_rel (related : Option.Rel R o p) : o.isSome = p.isSome := by
  cases related <;> rfl

theorem exists_of_rel (related : Option.Rel R o p) {a : α} (given : o = some a) : ∃ b, p = some b ∧ R a b := by
  cases related with
  | none => cases given
  | some same => exact ⟨_, rfl, Option.some.inj given ▸ same⟩

theorem exists_of_rel_right (related : Option.Rel R o p) {b : β} (given : p = some b) : ∃ a, o = some a ∧ R a b := by
  cases related with
  | none => cases given
  | some same => exact ⟨_, rfl, Option.some.inj given ▸ same⟩

theorem map_eq_of_rel {f : α → γ} {g : β → γ} (related : Option.Rel R o p) (same : ∀ a b, R a b → f a = g b) :
    o.map f = p.map g := by
  cases related with
  | none => rfl
  | some here => exact congrArg some (same _ _ here)

end Related

theorem forall₂_flatMap {α β : Type} {R : β → β → Prop} {items : List α} {f g : α → List β}
    (each : ∀ a ∈ items, List.Forall₂ R (f a) (g a)) : List.Forall₂ R (items.flatMap f) (items.flatMap g) := by
  induction items with
  | nil => exact .nil
  | cons a rest ih =>
    rw [List.flatMap_cons, List.flatMap_cons]
    exact List.rel_append (each a List.mem_cons_self) (ih fun b inside => each b (List.mem_cons_of_mem _ inside))

end Wireform
