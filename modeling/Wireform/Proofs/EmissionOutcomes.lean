import Mathlib.Data.List.Forall2
import Wireform.Emit
import Wireform.Proofs.KeyMaps

set_option autoImplicit false

namespace Wireform

def TransformTag.place (tag : TransformTag) : Nat := TransformTag.all.idxOf tag

namespace Emit

/-- An emitter, told by its position, against a kind of transform in the plan of a message. -/
structure Objection where
  emitter : Nat
  message : String
  tag : TransformTag

namespace Objection

def Before (a b : Objection) : Prop :=
  a.emitter < b.emitter ∨
    a.emitter = b.emitter ∧ (a.message < b.message ∨ a.message = b.message ∧ a.tag.place < b.tag.place)

structure Stands (emitters : List Emitter) (plans : PlanSet) (o : Objection) (emitter : Emitter) (plan : Plan) :
    Prop where
  placed : emitters[o.emitter]? = some emitter
  planned : plans.get? o.message = some plan
  has : ∃ step ∈ plan.steps, step.transform.tag = o.tag
  refuses : emitter.supports o.tag = false

structure IsReported (index : Index) (o : Objection) (emitter : Emitter) (plan : Plan) (finding : Finding) : Prop where
  kind : finding.kind = .unrecognizedTransform
  file : (∀ m, index.message? plan.message = some m → finding.file = m.file) ∧
    (index.message? plan.message = none → finding.file = "")
  message : finding.message = plan.message
  fields : finding.field = ",".intercalate ((plan.steps.filter (·.transform.tag == o.tag)).map (·.field))
  directive : finding.directive = o.tag.directive
  reason : finding.reason = "the " ++ emitter.target.name ++ " emitter does not implement " ++ o.tag.name

end Objection

def ReportsEach (emitters : List Emitter) (index : Index) (plans : PlanSet) (findings : List Finding) : Prop :=
  ∃ objections : List Objection, objections.Pairwise Objection.Before ∧
    (∀ o, o ∈ objections ↔ ∃ emitter plan, o.Stands emitters plans emitter plan) ∧
    List.Forall₂ (fun o finding => ∃ emitter plan, o.Stands emitters plans emitter plan ∧
      o.IsReported index emitter plan finding) objections findings

def Renders (emitters : List Emitter) (index : Index) (plans : PlanSet) (settings : Settings) (place : Nat × Nat)
    (artifact : Artifact) : Prop :=
  ∃ emitter file, emitters[place.1]? = some emitter ∧ index.files[place.2]? = some file ∧ file.targeted = true ∧
    emitter.render index plans settings file = some artifact

def RendersEach (emitters : List Emitter) (index : Index) (plans : PlanSet) (settings : Settings)
    (artifacts : List Artifact) : Prop :=
  ∃ places : List (Nat × Nat), places.Pairwise (fun a b => a.1 < b.1 ∨ a.1 = b.1 ∧ a.2 < b.2) ∧
    (∀ place, place ∈ places ↔ ∃ artifact, Renders emitters index plans settings place artifact) ∧
    List.Forall₂ (Renders emitters index plans settings) places artifacts

/-- What is to come of some emitters: all objections if one of them cannot render some step of some plan, and all
artifacts otherwise. -/
def AllOrNothing (emitters : List Emitter) (index : Index) (plans : PlanSet) (settings : Settings) :
    Except (List Finding) (List Artifact) → Prop
  | .error findings =>
    (∃ emitter ∈ emitters, ∃ plan ∈ plans.values, ∃ step ∈ plan.steps,
      emitter.supports step.transform.tag = false) ∧ ReportsEach emitters index plans findings
  | .ok artifacts =>
    (∀ emitter ∈ emitters, ∀ plan ∈ plans.values, ∀ step ∈ plan.steps,
      emitter.supports step.transform.tag = true) ∧ RendersEach emitters index plans settings artifacts

theorem pairwise_zipIdx {α : Type} (items : List α) : items.zipIdx.Pairwise fun a b => a.2 < b.2 := by
  refine List.pairwise_map.mp ?_
  rw [List.zipIdx_map_snd]
  exact List.pairwise_lt_range'

theorem flatMap_zipIdx {α β : Type} (items : List α) (share : α → List β) :
    items.flatMap share = items.zipIdx.flatMap fun entry => share entry.1 := by
  rw [← List.flatMap_map Prod.fst share, List.zipIdx_map_fst]

section Findings

theorem mem_tags {plan : Plan} {tag : TransformTag} : tag ∈ plan.tags ↔ ∃ step ∈ plan.steps, step.transform.tag = tag := by
  have known : tag ∈ TransformTag.all := by cases tag <;> decide
  simp [Plan.tags, known]

theorem tags_ordered (plan : Plan) : plan.tags.Pairwise fun a b => a.place < b.place :=
  List.Pairwise.filter _ (by decide : TransformTag.all.Pairwise fun a b => a.place < b.place)

structure Refusal where
  emitter : Emitter
  position : Nat
  message : String
  plan : Plan
  tag : TransformTag

namespace Refusal

def objection (r : Refusal) : Objection := ⟨r.position, r.message, r.tag⟩

def finding (index : Index) (r : Refusal) : Finding := Emit.finding index r.emitter r.plan r.tag

def ofPlan (emitter : Emitter) (position : Nat) (message : String) (plan : Plan) : List Refusal :=
  (plan.tags.filter fun tag => !emitter.supports tag).map fun tag => ⟨emitter, position, message, plan, tag⟩

def ofPlans (plans : PlanSet) (emitter : Emitter) (position : Nat) : List Refusal :=
  plans.entries.flatMap fun entry => ofPlan emitter position entry.1 entry.2

def all (emitters : List Emitter) (plans : PlanSet) : List Refusal :=
  emitters.zipIdx.flatMap fun entry => ofPlans plans entry.1 entry.2

variable {emitters : List Emitter} {plans : PlanSet} {emitter : Emitter} {position : Nat} {message : String}
  {plan : Plan} {r : Refusal}

theorem mem_ofPlan : r ∈ ofPlan emitter position message plan ↔
    (∃ step ∈ plan.steps, step.transform.tag = r.tag) ∧ emitter.supports r.tag = false ∧
      r = ⟨emitter, position, message, plan, r.tag⟩ := by
  simp only [ofPlan, List.mem_map, List.mem_filter, mem_tags, Bool.not_eq_true', and_assoc]
  constructor
  · rintro ⟨tag, has, refuses, rfl⟩
    exact ⟨has, refuses, rfl⟩
  · rintro ⟨has, refuses, same⟩
    exact ⟨r.tag, has, refuses, same.symm⟩

theorem mem_ofPlans : r ∈ ofPlans plans emitter position ↔ ∃ message plan, plans.get? message = some plan ∧
    r ∈ ofPlan emitter position message plan := by
  simp only [ofPlans, List.mem_flatMap, Prod.exists, KeyMap.mem_entries]

theorem mem_all : r ∈ all emitters plans ↔ r.objection.Stands emitters plans r.emitter r.plan := by
  simp only [all, List.mem_flatMap, Prod.exists, List.mem_zipIdx_iff_getElem?, mem_ofPlans]
  constructor
  · rintro ⟨emitter, position, placed, message, plan, planned, inside⟩
    obtain ⟨has, refuses, same⟩ := mem_ofPlan.mp inside
    rw [same]
    exact ⟨placed, planned, has, refuses⟩
  · intro stands
    exact ⟨_, _, stands.placed, _, _, stands.planned, mem_ofPlan.mpr ⟨stands.has, stands.refuses, rfl⟩⟩

theorem ofPlan_ordered : (ofPlan emitter position message plan).Pairwise fun a b =>
    a.objection.Before b.objection := by
  refine List.pairwise_map.mpr (((tags_ordered plan).filter _).imp fun before => ?_)
  exact .inr ⟨rfl, .inr ⟨rfl, before⟩⟩

theorem ofPlans_ordered : (ofPlans plans emitter position).Pairwise fun a b =>
    a.objection.Before b.objection := by
  refine List.pairwise_flatMap.mpr ⟨fun _ _ => ofPlan_ordered, plans.sorted.imp ?_⟩
  intro first second before a inside b there
  rw [(mem_ofPlan.mp inside).2.2, (mem_ofPlan.mp there).2.2]
  exact .inr ⟨rfl, .inl before⟩

theorem all_ordered : (all emitters plans).Pairwise fun a b => a.objection.Before b.objection := by
  refine List.pairwise_flatMap.mpr ⟨fun _ _ => ofPlans_ordered, (pairwise_zipIdx emitters).imp ?_⟩
  intro first second before a inside b there
  obtain ⟨_, _, _, inside⟩ := mem_ofPlans.mp inside
  obtain ⟨_, _, _, there⟩ := mem_ofPlans.mp there
  rw [(mem_ofPlan.mp inside).2.2, (mem_ofPlan.mp there).2.2]
  exact .inl before

theorem findings_eq (index : Index) : emitters.flatMap (unsupported index plans) = (all emitters plans).map (finding index) := by
  have plain (emitter : Emitter) (position : Nat) :
      (ofPlans plans emitter position).map (finding index) = unsupported index plans emitter := by
    rw [ofPlans, unsupported, KeyMap.values, List.map_flatMap, List.flatMap_map]
    exact List.flatMap_congr fun entry _ => by rw [ofPlan, List.map_map]; rfl
  rw [flatMap_zipIdx, all, List.map_flatMap]
  exact List.flatMap_congr fun entry _ => (plain entry.1 entry.2).symm

theorem isReported (index : Index) : r.objection.IsReported index r.emitter r.plan (r.finding index) where
  kind := rfl
  file := ⟨fun m found => by simp [finding, Emit.finding, found], fun unknown => by simp [finding, Emit.finding, unknown]⟩
  message := rfl
  fields := rfl
  directive := rfl
  reason := rfl

end Refusal

end Findings

section Artifacts

structure Rendering where
  place : Nat × Nat
  artifact : Artifact

namespace Rendering

variable (index : Index) (plans : PlanSet) (settings : Settings)

def ofFile? (emitter : Emitter) (position : Nat) (entry : Index.File × Nat) : Option Rendering :=
  if entry.1.targeted then
    (emitter.render index plans settings entry.1).map fun artifact => ⟨(position, entry.2), artifact⟩
  else none

def ofEmitter (emitter : Emitter) (position : Nat) : List Rendering :=
  index.files.zipIdx.filterMap (ofFile? index plans settings emitter position)

def all (emitters : List Emitter) : List Rendering :=
  emitters.zipIdx.flatMap fun entry => ofEmitter index plans settings entry.1 entry.2

variable {index plans settings} {emitters : List Emitter} {emitter : Emitter} {position : Nat} {r : Rendering}

theorem ofFile?_eq_some {entry : Index.File × Nat} : ofFile? index plans settings emitter position entry = some r ↔
    entry.1.targeted = true ∧ emitter.render index plans settings entry.1 = some r.artifact ∧
      r.place = (position, entry.2) := by
  rw [ofFile?]
  split
  · rename_i targeted
    rw [Option.map_eq_some_iff]
    constructor
    · rintro ⟨artifact, rendered, rfl⟩
      exact ⟨targeted, rendered, rfl⟩
    · rintro ⟨_, rendered, same⟩
      exact ⟨r.artifact, rendered, by rw [← same]⟩
  · rename_i untargeted
    simp [untargeted]

theorem mem_ofEmitter : r ∈ ofEmitter index plans settings emitter position ↔
    r.place.1 = position ∧ ∃ file, index.files[r.place.2]? = some file ∧ file.targeted = true ∧
      emitter.render index plans settings file = some r.artifact := by
  simp only [ofEmitter, List.mem_filterMap, Prod.exists, List.mem_zipIdx_iff_getElem?, ofFile?_eq_some]
  constructor
  · rintro ⟨file, i, there, targeted, rendered, same⟩
    rw [same]
    exact ⟨rfl, file, there, targeted, rendered⟩
  · rintro ⟨same, file, there, targeted, rendered⟩
    exact ⟨file, r.place.2, there, targeted, rendered, by rw [← same]⟩

theorem mem_all : r ∈ all index plans settings emitters ↔ Renders emitters index plans settings r.place r.artifact := by
  simp only [all, List.mem_flatMap, Prod.exists, List.mem_zipIdx_iff_getElem?, mem_ofEmitter]
  constructor
  · rintro ⟨emitter, position, placed, rfl, file, made⟩
    exact ⟨emitter, file, placed, made⟩
  · rintro ⟨emitter, file, placed, made⟩
    exact ⟨emitter, r.place.1, placed, rfl, file, made⟩

theorem ofEmitter_ordered : (ofEmitter index plans settings emitter position).Pairwise fun a b =>
    a.place.2 < b.place.2 := by
  refine List.pairwise_filterMap.mpr ((pairwise_zipIdx index.files).imp ?_)
  intro first second before a made b made'
  rw [(ofFile?_eq_some.mp made).2.2, (ofFile?_eq_some.mp made').2.2]
  exact before

theorem all_ordered : (all index plans settings emitters).Pairwise fun a b =>
    a.place.1 < b.place.1 ∨ a.place.1 = b.place.1 ∧ a.place.2 < b.place.2 := by
  refine List.pairwise_flatMap.mpr ⟨fun entry _ => ?_, (pairwise_zipIdx emitters).imp ?_⟩
  · refine ofEmitter_ordered.imp_of_mem fun {a b} inside there before => .inr ⟨?_, before⟩
    rw [(mem_ofEmitter.mp inside).1, (mem_ofEmitter.mp there).1]
  · intro first second before a inside b there
    rw [(mem_ofEmitter.mp inside).1, (mem_ofEmitter.mp there).1]
    exact .inl before

theorem artifacts_eq : (emitters.flatMap fun emitter => index.targets.filterMap (emitter.render index plans settings)) =
    (all index plans settings emitters).map (·.artifact) := by
  have plain (emitter : Emitter) (position : Nat) : (ofEmitter index plans settings emitter position).map (·.artifact) =
      index.targets.filterMap (emitter.render index plans settings) := by
    have rendered (entry : Index.File × Nat) :
        (ofFile? index plans settings emitter position entry).map (·.artifact) =
          if entry.1.targeted then emitter.render index plans settings entry.1 else none := by
      rw [ofFile?]
      split
      · rw [Option.map_map]
        exact Option.map_id'
      · rfl
    calc
      (ofEmitter index plans settings emitter position).map (·.artifact)
      _ = (index.files.zipIdx.map Prod.fst).filterMap fun file =>
            if file.targeted then emitter.render index plans settings file else none := by
        rw [ofEmitter, List.map_filterMap, List.filterMap_map]
        exact List.filterMap_congr fun entry _ => rendered entry
      _ = index.targets.filterMap (emitter.render index plans settings) := by
        rw [List.zipIdx_map_fst, Index.targets, List.filterMap_filter]
  rw [flatMap_zipIdx, all, List.map_flatMap]
  exact List.flatMap_congr fun entry _ => (plain entry.1 entry.2).symm

end Rendering

end Artifacts

section Outcomes

variable (emitters : List Emitter) (index : Index) (plans : PlanSet) (settings : Settings)

theorem refused_iff : Refusal.all emitters plans ≠ [] ↔
    ∃ emitter ∈ emitters, ∃ plan ∈ plans.values, ∃ step ∈ plan.steps, emitter.supports step.transform.tag = false := by
  constructor
  · intro some_refused
    obtain ⟨r, inside⟩ := List.exists_mem_of_ne_nil _ some_refused
    have against := Refusal.mem_all.mp inside
    obtain ⟨step, there, same⟩ := against.has
    exact ⟨r.emitter, List.mem_of_getElem? against.placed, r.plan, KeyMap.mem_values.mpr ⟨_, against.planned⟩, step, there,
      same ▸ against.refuses⟩
  · rintro ⟨emitter, inside, plan, listed, step, there, refuses⟩
    obtain ⟨position, placed⟩ := List.mem_iff_getElem?.mp inside
    obtain ⟨message, planned⟩ := KeyMap.mem_values.mp listed
    have among : (⟨emitter, position, message, plan, step.transform.tag⟩ : Refusal) ∈ Refusal.all emitters plans :=
      Refusal.mem_all.mpr ⟨placed, planned, ⟨step, there, rfl⟩, refuses⟩
    exact List.ne_nil_of_mem among

theorem reportsEach_refusals :
    ReportsEach emitters index plans ((Refusal.all emitters plans).map (Refusal.finding index)) := by
  refine ⟨(Refusal.all emitters plans).map Refusal.objection, List.pairwise_map.mpr Refusal.all_ordered, fun o => ?_, ?_⟩
  · rw [List.mem_map]
    constructor
    · rintro ⟨r, inside, rfl⟩
      exact ⟨r.emitter, r.plan, Refusal.mem_all.mp inside⟩
    · rintro ⟨emitter, plan, against⟩
      exact ⟨⟨emitter, o.emitter, o.message, plan, o.tag⟩, Refusal.mem_all.mpr against, rfl⟩
  · rw [List.forall₂_map_left_iff, List.forall₂_map_right_iff]
    exact List.forall₂_same.mpr fun r inside => ⟨r.emitter, r.plan, Refusal.mem_all.mp inside, Refusal.isReported index⟩

theorem rendersEach_targets : RendersEach emitters index plans settings
    (emitters.flatMap fun emitter => index.targets.filterMap (emitter.render index plans settings)) := by
  refine ⟨(Rendering.all index plans settings emitters).map (·.place), List.pairwise_map.mpr Rendering.all_ordered,
    fun place => ?_, ?_⟩
  · rw [List.mem_map]
    constructor
    · rintro ⟨r, inside, rfl⟩
      exact ⟨r.artifact, Rendering.mem_all.mp inside⟩
    · rintro ⟨artifact, renders⟩
      exact ⟨⟨place, artifact⟩, Rendering.mem_all.mpr renders, rfl⟩
  · rw [Rendering.artifacts_eq, List.forall₂_map_left_iff, List.forall₂_map_right_iff]
    exact List.forall₂_same.mpr fun r inside => Rendering.mem_all.mp inside

end Outcomes

/-- Emission fails if and only if some emitter cannot render some step of some plan, whatever file the plan is for. It
then reports each such transform of a plan once and in order, and otherwise gives every artifact once and in order. -/
theorem emitWith_allOrNothing (emitters : List Emitter) (index : Index) (plans : PlanSet) (settings : Settings) :
    AllOrNothing emitters index plans settings (emitWith emitters index plans settings) := by
  have findings : emitters.flatMap (unsupported index plans) = (Refusal.all emitters plans).map (Refusal.finding index) :=
    Refusal.findings_eq index
  have refused := refused_iff emitters plans
  have reports := reportsEach_refusals emitters index plans
  rw [emitWith, findings]
  cases refusals : Refusal.all emitters plans with
  | nil =>
    refine ⟨fun emitter inside plan listed step there => ?_, rendersEach_targets emitters index plans settings⟩
    by_contra refuses
    exact refused.mpr ⟨emitter, inside, plan, listed, step, there, eq_false_of_ne_true refuses⟩ refusals
  | cons first rest =>
    rw [refusals] at refused reports
    exact ⟨refused.mp (List.cons_ne_nil _ _), reports⟩

end Emit

end Wireform
