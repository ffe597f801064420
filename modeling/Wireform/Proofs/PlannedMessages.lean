import Wireform.Proofs.Evaluation
import Wireform.Proofs.GivenSteps

set_option autoImplicit false

namespace Wireform

def Plan.InOrder (plan : Plan) : Prop :=
  ∃ fields oneofs roots, plan.steps = fields ++ oneofs ++ roots ∧ roots.length ≤ 1 ∧
    (∀ step ∈ fields, step.transform.tag ≠ .oneofDiscriminator ∧ step.transform.isRootUnwrap = false) ∧
    (∀ step ∈ oneofs, step.transform.tag = .oneofDiscriminator) ∧
    ∀ step ∈ roots, step.transform.isRootUnwrap = true

namespace Index

inductive Holds (index : Index) : String → String → Prop
  | here (name : String) : Holds index name name
  | field {name child other : String} {m : Message} {f : Field} (found : index.message? name = some m)
      (own : m.wellKnown = false) (inside : f ∈ m.fields) (typed : f.message? = some child)
      (rest : Holds index child other) : Holds index name other

def Message.Deviates (index : Index) (m : Message) : Prop :=
  m.discriminated ≠ [] ∨
    ∃ f ∈ m.fields, ∃ container transform, f.Gives index m (fun _ => false) container transform

/-- A message of the schema that changes is reached. -/
def Rewritten (index : Index) (name : String) : Prop :=
  ∃ other m, index.Holds name other ∧ index.message? other = some m ∧ m.wellKnown = false ∧ m.Deviates index

theorem Holds.trans {index : Index} {a b c : String} (first : index.Holds a b) (later : index.Holds b c) :
    index.Holds a c := by
  induction first with
  | here => exact later
  | field found own inside typed _ ih => exact .field found own inside typed (ih later)

section Rounds

variable {index : Index}

def remaining (index : Index) (names : List String) : List Message :=
  index.ownMessages.filter fun m => !names.contains m.fullName

theorem addHolders_eq (names : List String) : addHolders index names = names ++
    ((index.remaining names).filter fun m => m.fields.any fun f => f.message?.any names.contains).map
      (·.fullName) := by
  rw [addHolders, remaining, List.filter_filter]
  congr 2
  exact List.filter_congr fun m _ => Bool.and_comm _ _

theorem remaining_addHolders (names : List String) : addHolders index names = names ∨
    (index.remaining (addHolders index names)).length < (index.remaining names).length := by
  cases added : (index.remaining names).filter fun m => m.fields.any fun f => f.message?.any names.contains with
  | nil =>
    left
    rw [addHolders_eq, added, List.map_nil, List.append_nil]
  | cons m rest =>
    right
    have picked : m ∈ (index.remaining names).filter fun m =>
        m.fields.any fun f => f.message?.any names.contains := by simp [added]
    have joins : m.fullName ∈ addHolders index names := by
      rw [addHolders_eq]
      exact List.mem_append_right _ (List.mem_map_of_mem picked)
    have fewer : index.remaining (addHolders index names) =
        (index.remaining names).filter fun m => !(addHolders index names).contains m.fullName := by
      simp only [remaining, List.filter_filter]
      refine List.filter_congr fun other _ => ?_
      by_cases listed : other.fullName ∈ names
      · simp [subset_addHolders listed]
      · simp [listed]
    rw [fewer]
    exact List.length_filter_lt_length_iff_exists.mpr ⟨m, (List.mem_filter.mp picked).1, by simp [joins]⟩

theorem repeat_addHolders (names : List String) (rounds : Nat) :
    addHolders index (Nat.repeat (addHolders index) rounds names) =
        Nat.repeat (addHolders index) rounds names ∨
      (index.remaining (Nat.repeat (addHolders index) rounds names)).length + rounds ≤
        (index.remaining names).length := by
  induction rounds with
  | zero => exact .inr (Nat.le_refl _)
  | succ rounds ih =>
    rcases ih with stable | fewer
    · exact .inl (congrArg (addHolders index) stable)
    · rcases remaining_addHolders (Nat.repeat (addHolders index) rounds names) with stable | less
      · exact .inl (congrArg (addHolders index) stable)
      · refine .inr ?_
        change (index.remaining (addHolders index (Nat.repeat _ rounds names))).length + (rounds + 1) ≤ _
        omega

theorem addHolders_planned (index : Index) : addHolders index index.planned = index.planned := by
  rcases repeat_addHolders (transformed index) index.messages.size with stable | fewer
  · exact stable
  · have most : (index.remaining (transformed index)).length ≤ index.messages.size := by
      refine ((List.length_filter_le _ _).trans (List.length_filter_le _ _)).trans ?_
      simp [KeyMap.values, KeyMap.size]
    rcases remaining_addHolders index.planned with stable | less
    · exact stable
    · -- All rounds added a message, and there are no more messages.
      change (index.remaining index.planned).length + _ ≤ _ at fewer
      omega

theorem planned_of_field {m : Message} (own : m ∈ index.ownMessages) {f : Field} (inside : f ∈ m.fields)
    {child : String} (typed : f.message? = some child) (planned : child ∈ index.planned) :
    m.fullName ∈ index.planned := by
  by_contra absent
  have joins : m.fullName ∈ addHolders index index.planned := by
    refine List.mem_append_right _ (List.mem_map.mpr ⟨m, List.mem_filter.mpr ⟨own, ?_⟩, rfl⟩)
    simp only [Bool.and_eq_true, Bool.not_eq_true', List.any_eq_true]
    exact ⟨by simpa using absent, f, inside, by simp [typed, planned]⟩
  rw [addHolders_planned] at joins
  exact absent joins

theorem hasDirectTransform_iff {m : Message} : hasDirectTransform index m = true ↔ m.Deviates index := by
  have direct (f : Field) : fieldSteps index m (fun _ => false) f ≠ [] ↔
      ∃ container transform, f.Gives index m (fun _ => false) container transform := by
    constructor
    · intro some_step
      obtain ⟨step, inside⟩ := List.exists_mem_of_ne_nil _ some_step
      obtain ⟨container, transform, gives, _⟩ := mem_fieldSteps.mp inside
      exact ⟨container, transform, gives⟩
    · rintro ⟨container, transform, gives⟩
      exact List.ne_nil_of_mem (mem_fieldSteps.mpr ⟨container, transform, gives, rfl⟩)
  simp [hasDirectTransform, Message.Deviates, ← direct]

end Rounds

section Keyed

variable {index : Index} (keyed : index.Keyed)

include keyed

theorem rewritten_of_repeat (rounds : Nat) {name : String} (bare : bareName name = name)
    (inside : name ∈ Nat.repeat (addHolders index) rounds (transformed index)) : index.Rewritten name := by
  have known {m : Message} (own : m ∈ index.ownMessages) (named : m.fullName = name) :
      index.message? name = some m ∧ m.wellKnown = false := by
    obtain ⟨listed, plain⟩ := List.mem_filter.mp own
    rw [message?, bare, ← named]
    exact ⟨get?_of_values keyed listed, by simpa using plain⟩
  induction rounds generalizing name with
  | zero =>
    obtain ⟨m, picked, named⟩ := List.mem_map.mp inside
    obtain ⟨own, direct⟩ := List.mem_filter.mp picked
    obtain ⟨found, plain⟩ := known own named
    exact ⟨name, m, .here name, found, plain, hasDirectTransform_iff.mp direct⟩
  | succ rounds ih =>
    rcases List.mem_append.mp inside with before | holder
    · exact ih bare before known
    · obtain ⟨m, picked, named⟩ := List.mem_map.mp holder
      obtain ⟨own, holds⟩ := List.mem_filter.mp picked
      simp only [Bool.and_eq_true, List.any_eq_true, Option.any_eq_true, List.contains_iff_mem] at holds
      obtain ⟨_, f, there, child, typed, below⟩ := holds
      obtain ⟨found, plain⟩ := known own named
      have bare := (keyed.wellFormed name m found).typeName f there child typed
      obtain ⟨other, target, path, rest⟩ := ih bare below fun own named => by
        obtain ⟨listed, plain⟩ := List.mem_filter.mp own
        rw [message?, bare, ← named]
        exact ⟨get?_of_values keyed listed, by simpa using plain⟩
      exact ⟨other, target, .field found plain there typed path, rest⟩

theorem planned_of_holds {name other : String} (path : index.Holds name other) {m : Message}
    (found : index.message? other = some m) (own : m.wellKnown = false) (deviates : m.Deviates index) :
    bareName name ∈ index.planned := by
  induction path with
  | here name =>
    rw [← keyed.named _ m found]
    exact planned_of_direct (mem_ownMessages found own) (hasDirectTransform_iff.mpr deviates)
  | @field name child other holder f there plain inside typed rest ih =>
    rw [← keyed.named _ holder there]
    refine planned_of_field (mem_ownMessages there plain) inside typed ?_
    rw [← (keyed.wellFormed name holder there).typeName f inside child typed]
    exact ih found

theorem mem_planned {name : String} : bareName name ∈ index.planned ↔ index.Rewritten name := by
  constructor
  · intro inside
    obtain ⟨other, m, path, found, rest⟩ :=
      rewritten_of_repeat keyed _ (bareName_idempotent name) inside
    cases path with
    | here =>
      rw [message?, bareName_idempotent] at found
      exact ⟨name, m, .here name, found, rest⟩
    | field there own inside typed path =>
      rw [message?, bareName_idempotent] at there
      exact ⟨other, m, .field there own inside typed path, found, rest⟩
  · rintro ⟨other, m, path, found, own, deviates⟩
    exact planned_of_holds keyed path found own deviates

theorem contains_planned_iff {name : String} (bare : bareName name = name) :
    index.planned.contains name = true ↔ index.Rewritten name := by
  rw [List.contains_iff_mem, ← mem_planned keyed, bare]

omit keyed in
theorem found_of_rewritten {name : String} (rewritten : index.Rewritten name) :
    ∃ m, index.message? name = some m := by
  obtain ⟨other, m, path, found, _⟩ := rewritten
  cases path with
  | here => exact ⟨m, found⟩
  | field there => exact ⟨_, there⟩

theorem exists_plan_iff {name : String} :
    (∃ plan, index.plans.plan? name = some plan) ↔ index.Rewritten name := by
  rw [← mem_planned keyed]
  constructor
  · rintro ⟨plan, given⟩
    obtain ⟨m, found, planned, _⟩ := (plan?_eq_some keyed).mp given
    rwa [← keyed.named _ m found]
  · intro planned
    obtain ⟨m, found⟩ := found_of_rewritten ((mem_planned keyed).mp planned)
    refine ⟨_, (plan?_eq_some keyed).mpr ⟨m, found, ?_, rfl⟩⟩
    rwa [keyed.named _ m found]

theorem steps_of_rewritten {name : String} {m : Message} (found : index.message? name = some m)
    (rewritten : index.Rewritten name) : (planOf index index.planned m).steps ≠ [] := by
  obtain ⟨other, target, path, there, own, deviates⟩ := rewritten
  cases path with
  | here =>
    cases Option.some.inj (found.symm.trans there)
    rcases deviates with discriminated | ⟨f, inside, container, transform, gives⟩
    · obtain ⟨group, grouped⟩ := List.exists_mem_of_ne_nil _ discriminated
      exact List.ne_nil_of_mem (mem_planOf.mpr (.inr ⟨group, grouped, rfl⟩))
    · have given : f.Gives index m index.planned.contains container transform :=
        gives.mono fun _ _ never => by cases never
      exact List.ne_nil_of_mem (mem_planOf.mpr (.inl ⟨f, inside, container, transform, given, rfl⟩))
  | @field _ child _ holder f known _ inside typed rest =>
    cases Option.some.inj (found.symm.trans known)
    have bare := (keyed.wellFormed name m found).typeName f inside child typed
    have below := planned_of_holds keyed rest there own deviates
    rw [bare] at below
    exact List.ne_nil_of_mem (mem_planOf.mpr (.inl ⟨f, inside, _, _,
      .nested typed (List.contains_iff_mem.mpr below), rfl⟩))

end Keyed

theorem nested_of_planOf {index : Index} {names : List String} {m : Message} {child : String}
    (nested : child ∈ (planOf index names m).nestedMessages) :
    ∃ f ∈ m.fields, f.message? = some child ∧ names.contains child = true := by
  obtain ⟨step, inside, given⟩ := List.mem_filterMap.mp nested
  rcases mem_planOf.mp inside with ⟨f, there, container, transform, gives, rfl⟩ | ⟨group, _, rfl⟩
  · cases gives with
    | nested typed below =>
      cases given
      exact ⟨f, there, typed, below⟩
    | _ => cases given
  · cases given

section Order

variable (index : Index) (m : Message) (names : List String)

include m in
theorem body_of_field {f : Field} {step : Step} (inside : step ∈ bodySteps index names.contains f) :
    step.transform.tag ≠ .oneofDiscriminator := by
  have given : step ∈ fieldSteps index m names.contains f := by
    rw [← filter_fieldSteps index m] at inside
    exact (List.mem_filter.mp inside).1
  obtain ⟨container, transform, gives, rfl⟩ := mem_fieldSteps.mp given
  cases gives <;> simp [Field.step, Transform.tag]

theorem planOf_inOrder : (planOf index names m).InOrder := by
  refine ⟨_, _, _, planOf_steps index m names, ?_, ?_, ?_, ?_⟩
  · -- Only a message of one field is unwrapped.
    by_cases alone : m.isRootUnwrap = true
    · obtain ⟨f, fields, _⟩ := Message.isRootUnwrap_iff.mp alone
      rw [fields, List.flatMap_singleton, rootSteps]
      split <;> simp
    · have none_left : m.fields.flatMap (rootSteps m) = [] :=
        List.flatMap_eq_nil_iff.mpr fun f _ => by simp [rootSteps, alone]
      simp [none_left]
  · intro step inside
    obtain ⟨f, _, given⟩ := List.mem_flatMap.mp inside
    exact ⟨body_of_field index m names given, body_not_root index _ f step given⟩
  · intro step inside
    obtain ⟨group, _, rfl⟩ := List.mem_map.mp inside
    rfl
  · intro step inside
    obtain ⟨f, _, given⟩ := List.mem_flatMap.mp inside
    obtain ⟨_, _, rfl⟩ := mem_rootSteps.mp given
    rfl

end Order

end Index

namespace Codec

open Index

/-- A message has a plan if it reaches one that changes, and what has none stays as it is. -/
theorem plan_of_build {set : Schema.FileSet} {targets : List String} {settings : Settings} {index : Index}
    (run : build set targets settings = .ok index) (name : String) :
    ((∃ plan, index.plans.plan? name = some plan) ↔ index.Rewritten name) ∧
    (∀ plan, index.plans.plan? name = some plan → plan.steps ≠ [] ∧ plan.InOrder ∧
      ∀ child ∈ plan.nestedMessages, ∃ inner, index.plans.plan? child = some inner) ∧
    (index.plans.plan? name = none → index.message? name ≠ none →
      (∀ value, encode ⟨index, index.plans⟩ name value = .ok value ∧
        decode ⟨index, index.plans⟩ name value = .ok value) ∧
      ∀ other m, index.Holds name other → index.message? other = some m → m.wellKnown = false →
        ¬ m.Deviates index ∧ index.plans.plan? other = none) := by
  have keyed := keyed_of_build run
  refine ⟨exists_plan_iff keyed, fun plan given => ?_, fun absent known => ⟨fun value => ?_, ?_⟩⟩
  · have rewritten := (exists_plan_iff keyed).mp ⟨plan, given⟩
    obtain ⟨m, found, planned, rfl⟩ := (plan?_eq_some keyed).mp given
    refine ⟨steps_of_rewritten keyed found rewritten, planOf_inOrder index m _, fun child nested => ?_⟩
    obtain ⟨f, inside, typed, below⟩ := nested_of_planOf nested
    obtain ⟨c, there, _, _, planned⟩ := child_of_planned keyed found inside typed below
    exact ⟨_, (plan?_eq_some keyed).mpr ⟨c, there, planned, rfl⟩⟩
  · obtain ⟨m, found⟩ := Option.ne_none_iff_exists'.mp known
    have unplanned : m.fullName ∉ index.planned := fun planned => by
      rw [(plan?_eq_some keyed).mpr ⟨m, found, planned, rfl⟩] at absent
      cases absent
    have none_given := plan?_codec_none keyed found unplanned maxNesting
    exact ⟨encodeWithin_unplanned none_given value, decodeWithin_unplanned none_given value⟩
  · intro other m path found own
    have unwritten : ¬ index.Rewritten name := fun rewritten => by
      obtain ⟨plan, given⟩ := (exists_plan_iff keyed).mpr rewritten
      cases absent.symm.trans given
    refine ⟨fun deviates => unwritten ⟨other, m, path, found, own, deviates⟩, ?_⟩
    by_contra given
    obtain ⟨last, t, rest, there⟩ := (exists_plan_iff keyed).mp (Option.ne_none_iff_exists'.mp given)
    exact unwritten ⟨last, t, path.trans rest, there⟩

def rings : Schema.FileSet := .ofMessages [
  .ofFields "Node" [.ofMessage "edge" "t.Edge" []] [],
  .ofFields "Edge" [.ofMessage "node" "t.Node" [], .ofKind "weight" .int64 [("int64_encoding", .str "NUMBER")]] [],
  .ofFields "Leaf" [.ofKind "name" .string []] []]

theorem plan_of_rings : ∃ index, build rings [] .default = .ok index ∧ index.Rewritten "t.Node" ∧
    (∃ plan, index.plans.plan? "t.Node" = some plan ∧ plan.steps ≠ [] ∧ plan.InOrder ∧
      ∀ child ∈ plan.nestedMessages, ∃ inner, index.plans.plan? child = some inner) ∧
    ¬ index.Rewritten "t.Leaf" ∧ ∀ value, encode ⟨index, index.plans⟩ "t.Leaf" value = .ok value := by
  obtain ⟨index, run, planned, unplanned, known⟩ := exists_ok
    (fun index : Index => (index.plans.plan? "t.Node").isSome = true ∧ index.plans.plan? "t.Leaf" = none ∧
      (index.message? "t.Leaf").isSome = true)
    (show (build rings [] .default).toOption.any _ = true by decide +kernel)
  obtain ⟨plan, given⟩ := Option.isSome_iff_exists.mp planned
  have node := plan_of_build run "t.Node"
  have leaf := plan_of_build run "t.Leaf"
  refine ⟨index, run, node.1.mp ⟨plan, given⟩, ⟨plan, given, node.2.1 plan given⟩, fun rewritten => ?_,
    fun value => ((leaf.2.2 unplanned (Option.isSome_iff_ne_none.mp known)).1 value).1⟩
  obtain ⟨other, there⟩ := leaf.1.mpr rewritten
  cases unplanned.symm.trans there

end Codec

end Wireform
