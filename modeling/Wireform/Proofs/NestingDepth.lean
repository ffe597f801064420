import Wireform.Proofs.AppliedPlans
import Wireform.Proofs.Evaluation
import Wireform.Proofs.AcceptedIndex
import Wireform.Proofs.UndoneSteps

set_option autoImplicit false

namespace Wireform

-- So many steps of a relation, one after the other.
inductive Chain {α : Type} (step : α → α → Prop) : Nat → α → α → Prop
  | nil (a : α) : Chain step 0 a a
  | cons {n : Nat} {a b c : α} : step a b → Chain step n b c → Chain step (n + 1) a c

namespace Codec

section Containers

variable {ε : Type} {f : Json → Except ε Json} {fault : ε}

theorem unlessNull_error {value : Json} (failed : unlessNull f value = .error fault) :
    value.isNull = false ∧ f value = .error fault := by
  rw [unlessNull] at failed
  split at failed
  · cases failed
  · exact ⟨eq_false_of_ne_true ‹_›, failed⟩

theorem mapItems_error {items : List Json} (failed : mapItems f items = .error fault) :
    ∃ item ∈ items, item.isNull = false ∧ f item = .error fault := by
  induction items with
  | nil => cases failed
  | cons item rest ih =>
    rw [mapItems_cons] at failed
    rcases bind_eq_error failed with here | ⟨result, _, failed⟩
    · exact ⟨item, List.mem_cons_self, unlessNull_error here⟩
    rcases bind_eq_error failed with later | ⟨results, _, failed⟩
    · obtain ⟨other, inside, rest⟩ := ih later
      exact ⟨other, List.mem_cons_of_mem _ inside, rest⟩
    · cases failed

theorem mapMembers_error {members : List (String × Json)} (failed : mapMembers f members = .error fault) :
    ∃ member ∈ members, member.2.isNull = false ∧ f member.2 = .error fault := by
  induction members with
  | nil => cases failed
  | cons member rest ih =>
    obtain ⟨key, value⟩ := member
    rw [mapMembers_cons] at failed
    rcases bind_eq_error failed with here | ⟨result, _, failed⟩
    · exact ⟨(key, value), List.mem_cons_self, unlessNull_error here⟩
    rcases bind_eq_error failed with later | ⟨results, _, failed⟩
    · obtain ⟨other, inside, rest⟩ := ih later
      exact ⟨other, List.mem_cons_of_mem _ inside, rest⟩
    · cases failed

theorem mapContainer_error {container : Container} {value : Json} (failed : mapContainer container f value = .error fault) :
    ∃ x ∈ addressed container value, f x = .error fault := by
  cases container with
  | single =>
    cases value with
    | null => cases failed
    | _ => exact ⟨_, by simp [addressed, Json.isNull], failed⟩
  | list =>
    cases value with
    | arr items =>
      obtain ⟨item, inside, present, here⟩ := mapItems_error (map_eq_error failed)
      exact ⟨item, mem_addressed_item inside present, here⟩
    | _ => cases failed
  | mapValues =>
    cases value with
    | obj members =>
      obtain ⟨⟨key, x⟩, inside, present, here⟩ := mapMembers_error (map_eq_error failed)
      exact ⟨x, mem_addressed_member inside present, here⟩
    | _ => cases failed

theorem unlessNull_ok {value result : Json} (run : unlessNull f value = .ok result) (present : value.isNull = false) :
    f value = .ok result := by
  rwa [unlessNull, present, if_neg Bool.false_ne_true] at run

theorem exists_of_mapItems {items results : List Json} (run : mapItems f items = .ok results) :
    ∀ item ∈ items, ∃ result, unlessNull f item = .ok result := by
  induction items generalizing results with
  | nil => exact fun _ inside => nomatch inside
  | cons item rest ih =>
    rw [mapItems_cons] at run
    obtain ⟨result, first, run⟩ := bind_eq_ok run
    obtain ⟨others, later, _⟩ := bind_eq_ok run
    rintro other inside
    rcases List.mem_cons.mp inside with rfl | there
    · exact ⟨result, first⟩
    · exact ih later other there

theorem exists_of_mapMembers {members results : List (String × Json)} (run : mapMembers f members = .ok results) :
    ∀ member ∈ members, ∃ result, unlessNull f member.2 = .ok result := by
  induction members generalizing results with
  | nil => exact fun _ inside => nomatch inside
  | cons member rest ih =>
    obtain ⟨key, value⟩ := member
    rw [mapMembers_cons] at run
    obtain ⟨result, first, run⟩ := bind_eq_ok run
    obtain ⟨others, later, _⟩ := bind_eq_ok run
    rintro other inside
    rcases List.mem_cons.mp inside with rfl | there
    · exact ⟨result, first⟩
    · exact ih later other there

theorem mapContainer_ok {container : Container} {value result : Json} (run : mapContainer container f value = .ok result) :
    ∀ x ∈ addressed container value, ∃ y, f x = .ok y := by
  intro x there
  cases container with
  | single =>
    obtain ⟨here, present⟩ := List.mem_filter.mp there
    obtain rfl := List.mem_singleton.mp here
    rw [mapContainer_single f (by simpa using present)] at run
    exact ⟨result, run⟩
  | list =>
    cases value with
    | arr items =>
      obtain ⟨inside, present⟩ := List.mem_filter.mp there
      obtain ⟨results, mapped, _⟩ := map_eq_ok run
      obtain ⟨y, given⟩ := exists_of_mapItems mapped x inside
      exact ⟨y, unlessNull_ok given (by simpa using present)⟩
    | _ => cases there
  | mapValues =>
    cases value with
    | obj members =>
      obtain ⟨inside, present⟩ := List.mem_filter.mp there
      obtain ⟨member, listed, rfl⟩ := List.mem_map.mp inside
      obtain ⟨results, mapped, _⟩ := map_eq_ok run
      obtain ⟨y, given⟩ := exists_of_mapMembers mapped member listed
      exact ⟨y, unlessNull_ok given (by simpa using present)⟩
    | _ => cases there

end Containers

inductive Direction where
  | encode
  | decode

namespace Direction

def within : Direction → Codec → Nat → String → Json → Result Json
  | .encode => encodeWithin
  | .decode => decodeWithin

def run : Direction → Codec → String → Json → Result Json
  | .encode => Codec.encode
  | .decode => Codec.decode

def opens : Direction → Plan → String → Json → Result Doc
  | .encode => fun _ => expectObject
  | .decode => openWire

def steps : Direction → Plan → List Step
  | .encode, plan => plan.steps.takeWhile (!·.transform.isRootUnwrap)
  | .decode, plan => plan.steps.reverse

def step : Direction → (String → Json → Result Json) → Plan → Step → Doc → Result Doc
  | .encode => encodeStep
  | .decode => decodeStep

def pass : Direction → (String → Json → Result Json) → Plan → List Step → Doc → Result Doc
  | .encode => encodeAll
  | .decode => decodeSteps

def closes : Direction → Plan → Doc → Json
  | .encode, plan, doc =>
    match plan.rootUnwrap? with
    | some ⟨_, key, _, .unwrapRoot _ isMap⟩ => (doc.get? key).getD (emptyContainer isMap)
    | _ => .obj doc
  | .decode, _, doc => .obj doc

def applies (d : Direction) (inner : String → Json → Result Json) (plan : Plan) (name : String) (value : Json) :
    Result Json := do
  let doc ← d.opens plan name value
  return d.closes plan (← d.pass inner plan (d.steps plan) doc)

/-- Of a value of one message, the steps of its plan hand a value to the plan of another message: what the steps
before leave there, if they succeed with any number of levels to go. -/
inductive Hands (d : Direction) (codec : Codec) : String × Json → String × Json → Prop
  | intro {name child : String} {value held x : Json} {plan : Plan} {doc between : Doc} {before after : List Step}
      {step : Step} {levels : Nat} (known : (codec.index.message? name).isSome = true)
      (planned : codec.plans.plan? name = some plan) (opened : d.opens plan name value = .ok doc)
      (split : d.steps plan = before ++ step :: after)
      (passed : d.pass (d.within codec levels) plan before doc = .ok between)
      (nested : step.transform = .nested child) (given : between.get? step.jsonName = some held)
      (there : x ∈ addressed step.container held) : Hands d codec (name, value) (child, x)

/-- The calls of a run, counted from the outside and without a bound of their own: the relation holds only where all
of them end. -/
inductive Ends (d : Direction) (codec : Codec) : Nat → String → Json → Result Json → Prop
  | unknown {depth : Nat} {name : String} {value : Json} (missing : codec.index.message? name = none) :
      Ends d codec depth name value (.error (.unknownMessage name))
  | tooDeep {depth : Nat} {name : String} {value : Json} (known : (codec.index.message? name).isSome = true)
      (deep : maxNesting < depth) : Ends d codec depth name value (.error (.tooDeep name maxNesting))
  | unplanned {depth : Nat} {name : String} {value : Json} (known : (codec.index.message? name).isSome = true)
      (shallow : depth ≤ maxNesting) (plain : codec.plans.plan? name = none) :
      Ends d codec depth name value (.ok value)
  | planned {depth : Nat} {name : String} {value : Json} {plan : Plan} (inner : String → Json → Result Json)
      (known : (codec.index.message? name).isSome = true) (shallow : depth ≤ maxNesting)
      (planned : codec.plans.plan? name = some plan)
      (calls : ∀ child ∈ plan.nestedMessages, ∀ x, Ends d codec (depth + 1) child x (inner child x)) :
      Ends d codec depth name value (d.applies inner plan name value)

variable {codec : Codec} {levels : Nat} {name : String}

section Levels

theorem plan?_unknown (missing : codec.index.message? name = none) (levels : Nat) :
    codec.plan? levels name = .error (.unknownMessage name) := by
  simp [plan?, missing]

theorem plan?_known (known : (codec.index.message? name).isSome = true) (levels : Nat) :
    codec.plan? (levels + 1) name = .ok (codec.plans.plan? name) := by
  simp [plan?, ← Option.not_isSome, known]

theorem plan?_zero (known : (codec.index.message? name).isSome = true) :
    codec.plan? 0 name = .error (.tooDeep name maxNesting) := by
  simp [plan?, ← Option.not_isSome, known]

theorem within_unknown (d : Direction) (missing : codec.index.message? name = none) (levels : Nat) (value : Json) :
    d.within codec levels name value = .error (.unknownMessage name) := by
  cases d <;> cases levels <;> simp only [within, encodeWithin, decodeWithin, plan?_unknown missing] <;> rfl

theorem within_zero (d : Direction) (known : (codec.index.message? name).isSome = true) (value : Json) :
    d.within codec 0 name value = .error (.tooDeep name maxNesting) := by
  cases d <;> simp only [within, encodeWithin, decodeWithin, plan?_zero known] <;> rfl

theorem within_unplanned (d : Direction) (known : (codec.index.message? name).isSome = true)
    (plain : codec.plans.plan? name = none) (value : Json) : d.within codec (levels + 1) name value = .ok value := by
  have unplanned := plan?_known known levels
  rw [plain] at unplanned
  cases d with
  | encode => exact encodeWithin_unplanned unplanned value
  | decode => exact decodeWithin_unplanned unplanned value

end Levels

section Plans

variable {plan : Plan} (inner : String → Json → Result Json)

theorem encodeSteps_eq (message : String) (steps : List Step) (doc : Doc) :
    encodeSteps inner plan steps doc = (do
      let left ← encodeAll inner plan (steps.takeWhile (!·.transform.isRootUnwrap)) doc
      return Direction.encode.closes ⟨message, steps⟩ left) := by
  induction steps generalizing doc with
  | nil => rfl
  | cons step rest ih =>
    obtain ⟨field, key, container, transform⟩ := step
    cases transform with
    | unwrapRoot elementType isMap => rfl
    | _ =>
      rw [encodeSteps, List.takeWhile_cons_of_pos (by rfl), encodeAll]
      cases encodeStep inner plan _ doc with
      | error fault => rfl
      | ok between => exact ih between

theorem within_planned (d : Direction) (known : (codec.index.message? name).isSome = true)
    (planned : codec.plans.plan? name = some plan) (value : Json) :
    d.within codec (levels + 1) name value = d.applies (d.within codec levels) plan name value := by
  have found := plan?_known known levels
  rw [planned] at found
  cases d with
  | encode =>
    rw [applies, within, encodeWithin, found, ok_bind]
    exact bind_congr fun doc => encodeSteps_eq _ plan.message plan.steps doc
  | decode => exact decodeWithin_planned found value

end Plans

section Faults

variable (d : Direction) {inner : String → Json → Result Json} {plan : Plan} {step : Step} {doc : Doc} {fault : CodecError}

def IsTooDeep (fault : CodecError) : Prop := ∃ message limit, fault = .tooDeep message limit

theorem mapValues_error {ε : Type} {f : Json → Except ε Json} {fault : ε} (failed : mapValues step f doc = .error fault) :
    ∃ held, doc.get? step.jsonName = some held ∧ ∃ x ∈ addressed step.container held, f x = .error fault := by
  rw [mapValues] at failed
  cases given : doc.get? step.jsonName with
  | none =>
    rw [given] at failed
    cases failed
  | some held =>
    rw [given] at failed
    rcases bind_eq_error failed with mapped | ⟨_, _, failed⟩
    · exact ⟨held, rfl, mapContainer_error mapped⟩
    · cases failed

theorem recodeValues_error {f : Json → Recoded} (failed : recodeValues plan step f doc = .error fault) :
    ¬ IsTooDeep fault := by
  rintro ⟨message, limit, rfl⟩
  rw [recodeValues] at failed
  cases mapped : mapValues step f doc <;> rw [mapped] at failed <;> cases failed

theorem opens_error {name : String} {value : Json} (failed : d.opens plan name value = .error fault) :
    ¬ IsTooDeep fault := by
  have object (failed : expectObject name value = .error fault) : ¬ IsTooDeep fault := by
    rintro ⟨message, limit, rfl⟩
    cases value <;> cases failed
  cases d with
  | encode => exact object failed
  | decode =>
    rw [opens, openWire] at failed
    split at failed
    · rintro ⟨message, limit, rfl⟩
      unfold wrapRoot at failed
      split at failed <;> cases failed
    · exact object failed

theorem step_error (failed : d.step inner plan step doc = .error fault) (deep : IsTooDeep fault) :
    ∃ child held, step.transform = .nested child ∧ doc.get? step.jsonName = some held ∧
      ∃ x ∈ addressed step.container held, inner child x = .error fault := by
  cases transform : step.transform with
  | nested child =>
    obtain ⟨held, given, x, there, here⟩ : ∃ held, doc.get? step.jsonName = some held ∧
        ∃ x ∈ addressed step.container held, inner child x = .error fault := by
      cases d <;> simp only [Direction.step, encodeStep, decodeStep, transform] at failed <;>
        exact mapValues_error failed
    exact ⟨child, held, rfl, given, x, there, here⟩
  | unwrapValues elementType key =>
    -- The values of an unwrapped map have a result, whatever they are.
    obtain ⟨_, _, _, _, here⟩ : ∃ held, doc.get? step.jsonName = some held ∧
        ∃ x ∈ addressed step.container held, ∃ y : Json, (.ok y : Result Json) = .error fault := by
      cases d <;> simp only [Direction.step, encodeStep, decodeStep, transform] at failed <;>
        obtain ⟨held, given, x, there, here⟩ := mapValues_error failed <;> exact ⟨held, given, x, there, _, here⟩
    obtain ⟨_, here⟩ := here
    cases here
  | integerAsNumber | enumCustomNames | enumAsNumber | timestampAs | bytesAs =>
    cases d <;> simp only [Direction.step, encodeStep, decodeStep, transform] at failed <;>
      exact absurd deep (recodeValues_error failed)
  | _ =>
    -- What is left fails for the value of a key, if at all.
    exfalso
    obtain ⟨message, limit, rfl⟩ := deep
    cases d <;> simp only [Direction.step, encodeStep, decodeStep, encodeOneof, decodeOneof, transform] at failed
    all_goals repeat' split at failed
    all_goals cases failed

end Faults

section Passes

variable {d : Direction} {inner more : String → Json → Result Json} {plan : Plan} {doc between : Doc}

theorem pass_cons (step : Step) (rest : List Step) :
    d.pass inner plan (step :: rest) doc = (do d.pass inner plan rest (← d.step inner plan step doc)) := by
  cases d <;> rfl

theorem pass_append (first second : List Step) :
    d.pass inner plan (first ++ second) doc = (do d.pass inner plan second (← d.pass inner plan first doc)) := by
  cases d with
  | encode => exact encodeAll_append inner plan first second doc
  | decode => exact decodeSteps_append inner plan first second doc

theorem pass_error {steps : List Step} {fault : CodecError} (failed : d.pass inner plan steps doc = .error fault) :
    ∃ before step after between, steps = before ++ step :: after ∧ d.pass inner plan before doc = .ok between ∧
      d.step inner plan step between = .error fault := by
  induction steps generalizing doc with
  | nil => cases d <;> cases failed
  | cons step rest ih =>
    rw [pass_cons] at failed
    rcases bind_eq_error failed with here | ⟨made, first, later⟩
    · exact ⟨[], step, rest, doc, rfl, by cases d <;> rfl, here⟩
    · obtain ⟨before, last, after, between, rfl, passed, here⟩ := ih later
      refine ⟨step :: before, last, after, between, rfl, ?_, here⟩
      rw [pass_cons, first, ok_bind, passed]

theorem step_mono (agree : ∀ name value result, inner name value = .ok result → more name value = .ok result)
    {step : Step} (run : d.step inner plan step doc = .ok between) : d.step more plan step doc = .ok between := by
  cases d with
  | encode => exact encodeStep_mono agree run
  | decode => exact decodeStep_mono agree run

theorem pass_mono (agree : ∀ name value result, inner name value = .ok result → more name value = .ok result)
    {steps : List Step} (run : d.pass inner plan steps doc = .ok between) :
    d.pass more plan steps doc = .ok between := by
  induction steps generalizing doc with
  | nil => cases d <;> exact run
  | cons step rest ih =>
    rw [pass_cons] at run ⊢
    obtain ⟨made, first, later⟩ := bind_eq_ok run
    rw [step_mono agree first, ok_bind]
    exact ih later

theorem within_mono {codec : Codec} {levels many : Nat} (fewer : levels ≤ many) {name : String}
    {value result : Json} (run : d.within codec levels name value = .ok result) :
    d.within codec many name value = .ok result := by
  cases d with
  | encode => exact encodeWithin_mono fewer run
  | decode => exact decodeWithin_mono fewer run

theorem pass_unique {codec : Codec} {levels many : Nat} {steps : List Step} {other : Doc}
    (run : d.pass (d.within codec levels) plan steps doc = .ok between)
    (again : d.pass (d.within codec many) plan steps doc = .ok other) : between = other := by
  have left := pass_mono (fun _ _ _ => within_mono (Nat.le_max_left levels many)) run
  have right := pass_mono (fun _ _ _ => within_mono (Nat.le_max_right levels many)) again
  exact Except.ok.inj (left.symm.trans right)

theorem values_of_step {step : Step} {child : String} (nested : step.transform = .nested child)
    (run : d.step inner plan step doc = .ok between) {held : Json} (given : doc.get? step.jsonName = some held) :
    ∀ x ∈ addressed step.container held, ∃ y, inner child x = .ok y := by
  have mapped : mapValues step (inner child) doc = .ok between := by
    cases d <;> simpa only [Direction.step, encodeStep, decodeStep, nested] using run
  rw [mapValues, given] at mapped
  obtain ⟨result, made, _⟩ := bind_eq_ok mapped
  exact mapContainer_ok made

end Passes

section Limits

variable {d : Direction} {value : Json}

theorem step_mem {plan : Plan} {step : Step} (inside : step ∈ d.steps plan) : step ∈ plan.steps := by
  cases d with
  | encode => exact List.takeWhile_subset _ inside
  | decode => exact List.mem_reverse.mp inside

theorem chain_of_tooDeep {fault : CodecError} (failed : d.within codec levels name value = .error fault)
    (deep : IsTooDeep fault) : ∃ target, Chain (d.Hands codec) levels (name, value) target := by
  induction levels generalizing name value with
  | zero => exact ⟨_, .nil _⟩
  | succ levels ih =>
    cases found : codec.index.message? name with
    | none =>
      rw [within_unknown d found] at failed
      obtain ⟨message, limit, rfl⟩ := deep
      cases failed
    | some m =>
      have known : (codec.index.message? name).isSome = true := by rw [found, Option.isSome_some]
      cases planned : codec.plans.plan? name with
      | none =>
        rw [within_unplanned d known planned] at failed
        cases failed
      | some plan =>
        rw [within_planned d known planned] at failed
        rcases bind_eq_error failed with early | ⟨doc, opened, failed⟩
        · exact absurd deep (d.opens_error early)
        rcases bind_eq_error failed with failed | ⟨_, _, failed⟩
        · obtain ⟨before, step, after, between, split, passed, here⟩ := pass_error failed
          obtain ⟨child, held, nested, given, x, there, below⟩ := d.step_error here deep
          obtain ⟨target, chain⟩ := ih below
          exact ⟨target, .cons (.intro known planned opened split passed nested given there) chain⟩
        · cases failed

theorem lt_of_chain {result : Json} (run : d.within codec levels name value = .ok result) {n : Nat}
    {target : String × Json} (chain : Chain (d.Hands codec) n (name, value) target) : n < levels := by
  induction levels generalizing name value result n with
  | zero =>
    cases found : codec.index.message? name with
    | none =>
      rw [within_unknown d found] at run
      cases run
    | some m =>
      rw [within_zero d (by rw [found, Option.isSome_some])] at run
      cases run
  | succ levels ih =>
    cases chain with
    | nil => exact Nat.succ_pos levels
    | cons hands rest =>
      obtain ⟨known, planned, opened, split, passed, nested, given, there⟩ := hands
      rw [within_planned d known planned, applies, opened, ok_bind] at run
      obtain ⟨left, all, _⟩ := bind_eq_ok run
      rw [split, pass_append] at all
      obtain ⟨same, before, later⟩ := bind_eq_ok all
      obtain rfl := pass_unique passed before
      rw [pass_cons] at later
      obtain ⟨next, here, _⟩ := bind_eq_ok later
      obtain ⟨y, below⟩ := values_of_step nested here given _ there
      exact Nat.succ_lt_succ (ih below rest)

end Limits

section Calls

variable {d : Direction} {inner other : String → Json → Result Json} {plan : Plan} {value : Json}

theorem step_congr {step : Step} (agree : ∀ child, step.transform = .nested child → inner child = other child)
    (doc : Doc) : d.step inner plan step doc = d.step other plan step doc := by
  cases transform : step.transform with
  | nested child =>
    cases d <;> simp only [Direction.step, encodeStep, decodeStep, transform, agree child transform]
  | _ => cases d <;> simp only [Direction.step, encodeStep, decodeStep, transform]

theorem mem_nestedMessages {step : Step} (inside : step ∈ plan.steps) {child : String}
    (nested : step.transform = .nested child) : child ∈ plan.nestedMessages :=
  List.mem_filterMap.mpr ⟨step, inside, by rw [nested]⟩

theorem applies_congr (agree : ∀ child ∈ plan.nestedMessages, inner child = other child) (name : String) (value : Json) :
    d.applies inner plan name value = d.applies other plan name value := by
  have passes (steps : List Step) (inside : ∀ step ∈ steps, step ∈ plan.steps) (doc : Doc) :
      d.pass inner plan steps doc = d.pass other plan steps doc := by
    induction steps generalizing doc with
    | nil => cases d <;> rfl
    | cons step rest ih =>
      have here : ∀ child, step.transform = .nested child → inner child = other child := fun child nested =>
        agree child (mem_nestedMessages (inside step List.mem_cons_self) nested)
      rw [pass_cons, pass_cons, step_congr here]
      exact bind_congr fun between => ih (fun step there => inside step (List.mem_cons_of_mem _ there)) between
  exact bind_congr fun doc => congrArg (· >>= _) (passes _ (fun _ => step_mem) doc)

theorem ends_iff {depth : Nat} (left : depth + levels = maxNesting + 1) (result : Result Json) :
    d.Ends codec depth name value result ↔ result = d.within codec levels name value := by
  -- The depth reached and the levels left add up to the limit, so this is an induction downwards on the depth.
  induction levels generalizing depth name value result with
  | zero =>
    have deep : maxNesting < depth := by omega
    constructor
    · intro ends
      cases ends with
      | unknown missing => exact (within_unknown d missing 0 value).symm
      | tooDeep known => exact (within_zero d known value).symm
      | unplanned _ shallow => omega
      | planned _ _ shallow => omega
    · rintro rfl
      cases found : codec.index.message? name with
      | none =>
        rw [within_unknown d found]
        exact .unknown found
      | some m =>
        have known : (codec.index.message? name).isSome = true := by rw [found, Option.isSome_some]
        rw [within_zero d known]
        exact .tooDeep known deep
  | succ levels ih =>
    have below : depth + 1 + levels = maxNesting + 1 := by omega
    constructor
    · intro ends
      cases ends with
      | unknown missing => exact (within_unknown d missing (levels + 1) value).symm
      | tooDeep _ deep => omega
      | unplanned known _ plain => exact (within_unplanned d known plain value).symm
      | planned inner known _ planned calls =>
        rw [within_planned d known planned]
        exact applies_congr (fun child nested => funext fun x => (ih below _).mp (calls child nested x)) name value
    · rintro rfl
      cases found : codec.index.message? name with
      | none =>
        rw [within_unknown d found]
        exact .unknown found
      | some m =>
        have known : (codec.index.message? name).isSome = true := by rw [found, Option.isSome_some]
        have shallow : depth ≤ maxNesting := by omega
        cases planned : codec.plans.plan? name with
        | none =>
          rw [within_unplanned d known planned]
          exact .unplanned known shallow planned
        | some plan =>
          rw [within_planned d known planned]
          exact .planned _ known shallow planned fun child _ x => (ih below _).mpr rfl

end Calls

/-- The limit on nesting is exact: a run does not fail for the depth of a document that stays within it, fails for a
document that exceeds it, and always ends. -/
theorem nesting_limit_exact (codec : Codec) (d : Direction) (name : String) (value : Json) :
    ((∀ n target, Chain (d.Hands codec) n (name, value) target → n ≤ maxNesting) →
        ∀ message limit, d.run codec name value ≠ .error (.tooDeep message limit)) ∧
      (∀ n target, Chain (d.Hands codec) n (name, value) target → maxNesting < n →
        ∃ fault, d.run codec name value = .error fault) ∧
      ∀ result, d.Ends codec 0 name value result ↔ result = d.run codec name value := by
  have same : d.run codec name value = d.within codec (maxNesting + 1) name value := by cases d <;> rfl
  rw [same]
  refine ⟨fun bounded message limit failed => ?_, fun n target chain exceeds => ?_, ends_iff (by omega)⟩
  · obtain ⟨target, chain⟩ := chain_of_tooDeep failed ⟨message, limit, rfl⟩
    exact absurd (bounded _ target chain) (by omega)
  · cases ended : d.within codec (maxNesting + 1) name value with
    | error fault => exact ⟨fault, rfl⟩
    | ok result => exact absurd (lt_of_chain ended chain) (by omega)

end Direction

section Links

-- A message within itself, whose count makes it planned.
def nodes : Schema.FileSet := .ofMessages
  [.ofFields "Node" [.ofMessage "next" "t.Node" [], .ofKind "count" .int64 [("int64_encoding", .str "NUMBER")]] []]

def nodePlan : Plan := ⟨"t.Node", [⟨"next", "next", .single, .nested "t.Node"⟩,
  ⟨"count", "count", .single, .integerAsNumber false⟩]⟩

def links : Nat → Json
  | 0 => .obj []
  | n + 1 => .obj [("next", links n)]

variable {codec : Codec} (known : (codec.index.message? "t.Node").isSome = true)
  (planned : codec.plans.plan? "t.Node" = some nodePlan)

include known planned

theorem chain_links (n : Nat) : Chain (Direction.encode.Hands codec) n ("t.Node", links n) ("t.Node", links 0) := by
  induction n with
  | zero => exact .nil _
  | succ n ih =>
    have there : links n ∈ addressed .single (links n) := by cases n <;> exact List.mem_singleton_self _
    have nothing : Direction.encode.pass (Direction.encode.within codec 0) nodePlan [] [("next", links n)] =
        .ok [("next", links n)] := rfl
    exact .cons (.intro known planned rfl rfl nothing rfl rfl there) ih

omit known

theorem hands_links {n : Nat} {target : String × Json}
    (hands : Direction.encode.Hands codec ("t.Node", links n) target) : ∃ k, n = k + 1 ∧ target = ("t.Node", links k) := by
  rcases hands with @⟨_, child, _, held, x, plan, doc, between, before, after, step, levels, _, again, opened, split,
    passed, nested, given, there⟩
  cases Option.some.inj (planned.symm.trans again)
  -- Nothing is done before the only step that applies a plan.
  obtain ⟨rfl, rfl⟩ : before = [] ∧ step = ⟨"next", "next", .single, .nested "t.Node"⟩ := by
    change nodePlan.steps = _ at split
    match before, split with
    | [], split =>
      cases split
      exact ⟨rfl, rfl⟩
    | [_], split =>
      cases split
      cases nested
    | _ :: _ :: rest, split => simp [nodePlan] at split
  cases nested
  cases Except.ok.inj passed
  cases n with
  | zero =>
    cases Except.ok.inj opened
    cases given
  | succ k =>
    cases Except.ok.inj opened
    cases given
    refine ⟨k, rfl, ?_⟩
    cases k <;> cases List.mem_singleton.mp there <;> rfl

theorem le_of_chain_links {n levels : Nat} {target : String × Json}
    (chain : Chain (Direction.encode.Hands codec) levels ("t.Node", links n) target) : levels ≤ n := by
  induction levels generalizing n with
  | zero => exact Nat.zero_le n
  | succ levels ih =>
    cases chain with
    | cons hands rest =>
      obtain ⟨k, rfl, rfl⟩ := hands_links planned hands
      exact Nat.succ_le_succ (ih rest)

end Links

set_option maxRecDepth 10000 in
/-- A hundred nodes below the outermost are encoded; one more is refused. -/
theorem nesting_limit_exact_nodes : ∃ compiled, Run.compile nodes [] .default = .ok compiled ∧
    (∀ message limit, encode ⟨compiled.index, compiled.plans⟩ "t.Node" (links 100) ≠ .error (.tooDeep message limit)) ∧
    ∃ fault, encode ⟨compiled.index, compiled.plans⟩ "t.Node" (links 101) = .error fault := by
  obtain ⟨compiled, run, known, planned⟩ := Run.exists_compiled
    (fun compiled => (compiled.index.message? "t.Node").isSome = true ∧ compiled.plans.plan? "t.Node" = some nodePlan)
    (show (Run.compile nodes [] .default).toOption.any _ = true by decide +kernel)
  let codec : Codec := ⟨compiled.index, compiled.plans⟩
  refine ⟨compiled, run, ?_, ?_⟩
  · exact (Direction.nesting_limit_exact codec .encode "t.Node" (links 100)).1 fun n target chain =>
      le_of_chain_links planned chain
  · exact (Direction.nesting_limit_exact codec .encode "t.Node" (links 101)).2.1 101 _
      (chain_links known planned 101) (by decide)

end Codec

end Wireform
