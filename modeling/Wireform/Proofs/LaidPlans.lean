import Wireform.Proofs.Evaluation
import Wireform.Proofs.GivenSteps
import Wireform.Proofs.LiftingCycles

set_option autoImplicit false

namespace Wireform.Index

section Laid

variable {index : Index} (sound : index.Sound) {name : String}

include sound

theorem flattenedKeys_laid (bare : bareName name = name) : index.flattenedKeys name = .ok (index.laidKeys name) := by
  cases found : index.message? name with
  | none => rw [laidKeys, flattenedKeys_foreign found]
  | some m =>
    obtain ⟨keys, laid, _⟩ := flattenedKeys_ok sound bare found
    rw [laidKeys_of_ok laid, laid]

variable {m : Message} (found : index.message? name = some m)

include found

theorem flattenedKeys_type {f : Field} (inside : f ∈ m.fields) {child : String} (typed : f.message? = some child) :
    index.flattenedKeys child = .ok (index.laidKeys child) :=
  flattenedKeys_laid sound ((sound.wellFormed name m found).typeName f inside child typed)

theorem flattenedKeys_around (bare : bareName name = name) {f : Field} (inside : f ∈ m.fields) {child pre : String}
    (lifts : f.lifted? = some (child, pre)) :
    ∃ before after, m.fields = before ++ f :: after ∧ index.flattenedKeys name =
      .ok (before.flatMap (index.fieldLaid m) ++ (index.laidKeys child).map (pre ++ ·)
        ++ after.flatMap (index.fieldLaid m)) := by
  obtain ⟨each, split, _⟩ := laidKeys_eq sound bare found
  obtain ⟨fieldErrors, _, _, _⟩ := Message.errors_parts (sound.errors name m found)
  have checked := Message.checked_fields fieldErrors (sound.resolved name m found)
  have alone : m.groupOf? f = none := by
    rw [Message.groupOf?, oneof_of_lifted (checked f inside) (by rw [lifts]; rfl)]
    rfl
  have own : index.fieldLaid m f = (index.laidKeys child).map (pre ++ ·) := by
    rw [fieldLaid_own (each f inside) alone, ownKeys, lifts]
  obtain ⟨before, after, places⟩ := List.append_of_mem inside
  refine ⟨before, after, places, ?_⟩
  rw [flattenedKeys_laid sound bare, split, places, List.flatMap_append, List.flatMap_cons, own, List.append_assoc]

end Laid

/-- The keys of a lifting step are all the keys of the message that it lifts, and behind the prefix they are those
that the layout has at the place of the field. -/
def Message.LiftsAsLaid (index : Index) (m : Message) (step : Step) : Prop :=
  ∀ child pre childKeys, step.transform = .flatten child pre childKeys →
    index.flattenedKeys child = .ok childKeys ∧
      ∃ before f after, m.fields = before ++ f :: after ∧ f.jsonName = step.jsonName ∧
        f.lifted? = some (child, pre) ∧ index.flattenedKeys m.fullName =
          .ok (before.flatMap (index.fieldLaid m) ++ childKeys.map (pre ++ ·) ++ after.flatMap (index.fieldLaid m))

def VariantsAsLaid (index : Index) (step : Step) : Prop :=
  ∀ tag variants, step.transform = .oneofDiscriminator tag true variants → ∀ v ∈ variants, ∀ child,
    v.messageType = some child → index.flattenedKeys child = .ok v.childKeys

section Steps

variable {index : Index} (sound : index.Sound) {name : String} {m : Message}
  (found : index.message? name = some m) {names : List String}

include sound found

theorem step_asLaid {step : Step} (inside : step ∈ (planOf index names m).steps) :
    m.LiftsAsLaid index step ∧ index.VariantsAsLaid step := by
  have known : index.message? m.fullName = some m := by
    rw [sound.named _ m found, message?, bareName_idempotent]
    exact found
  have bare : bareName m.fullName = m.fullName := by rw [sound.named _ m found, bareName_idempotent]
  rcases mem_planOf.mp inside with ⟨f, there, container, transform, gives, rfl⟩ | ⟨⟨oneof, config⟩, there, rfl⟩
  · refine ⟨fun child pre childKeys lifting => ?_, fun tag variants naming => ?_⟩
    · cases gives with
      | lifted lifts =>
        obtain ⟨rfl, rfl, rfl⟩ := Transform.flatten.inj lifting
        obtain ⟨before, after, places, laid⟩ := flattenedKeys_around sound known bare there lifts
        exact ⟨flattenedKeys_type sound known there (message_of_lifted lifts), before, f, after, places, rfl,
          lifts, laid⟩
      | _ => cases lifting
    · cases gives <;> cases naming
  · refine ⟨fun child pre childKeys lifting => (by cases lifting), fun tag variants naming v listed child typed => ?_⟩
    rw [oneofStep_eq] at naming
    obtain ⟨_, lifted, rfl⟩ := Transform.oneofDiscriminator.inj naming
    obtain ⟨member, joined, rfl⟩ := List.mem_map.mp listed
    obtain ⟨_, _, named⟩ := mem_oneofMembers.mp joined
    have typed' : member.message? = some child := typed
    rw [variantOf, lifted, typed']
    exact flattenedKeys_type sound known (mem_of_field? named).1 typed'

end Steps

/-- Layouts are found or fail as the messages that they go on with say, whatever room they have, and behind a prefix
they are the same. Without errors none that a plan asks for fails. -/
theorem layout_of_build {set : Schema.FileSet} {targets : List String} {settings : Settings} {index : Index}
    (run : build set targets settings = .ok index) :
    (∀ name more, keysWithin index (levels index + more) [] name = keysWithin index (levels index) [] name) ∧
    ((∀ m ∈ index.messages.values, (m.oneofs.map (·.name)).Nodup) → ∀ name,
      (∃ cycle, index.flattenedKeys name = .error cycle) ↔
        ∃ other, Relation.ReflTransGen index.Opens name other ∧ Relation.TransGen index.Opens other other) ∧
    (∀ name cycle, index.flattenedKeys name = .error cycle →
      cycle.head? = some name ∧ cycle.IsChain index.Opens ∧ ∃ path last, cycle = path ++ [last] ∧ last ∈ path) ∧
    (∀ name keys, index.flattenedKeys name = .ok keys →
      ∀ pre, keysWithin index (levels index) [] name pre = .ok (keys.map (pre ++ ·))) ∧
    ∀ compiled, Run.compile set targets settings = .ok compiled →
      ∀ name plan, compiled.plans.plan? name = some plan → ∃ m, index.message? name = some m ∧
        ∀ step ∈ plan.steps, m.LiftsAsLaid index step ∧ index.VariantsAsLaid step := by
  have keyed := keyed_of_build run
  refine ⟨fun name more => keysWithin_add keyed more name, fun distinct name => flattenedKeys_error_iff keyed distinct,
    fun name cycle => flattenedKeys_chain, fun name keys laid pre => ?_, fun compiled accepted name plan given => ?_⟩
  · rw [← String.append_empty (s := pre), keysWithin_behind index (levels index) [] name pre "", String.append_empty,
      show keysWithin index (levels index) [] name "" = .ok keys from laid, behind_ok]
  · obtain ⟨built, _, planned⟩ := Run.compile_spec accepted
    cases Except.ok.inj (run.symm.trans built)
    rw [planned] at given
    obtain ⟨m, found, _, rfl⟩ := (plan?_eq_some keyed).mp given
    exact ⟨m, found, fun step inside => step_asLaid (Run.sound_of_compile accepted) found inside⟩

def crates : Schema.FileSet := .ofMessages [
  .ofFields "Crate" [.ofKind "weight" .int32 [],
    .ofMessage "box" ".t.Box" [("flatten", .bool true), ("flatten_prefix", .str "box_")],
    .ofVariant "tin" ".t.Tin" 0, .ofVariant "bag" ".t.Bag" 0] [.ofFlattened "extra" "kind"],
  .ofFields "Box" [.ofKind "content" .string []] [],
  .ofFields "Tin" [.ofKind "metal" .string []] [],
  .ofFields "Bag" [.ofKind "metal" .string [], .ofKind "size" .int32 []] []]

theorem layout_of_crate : ∃ compiled, Run.compile crates [] .default = .ok compiled ∧
    (∀ pre, keysWithin compiled.index (levels compiled.index) [] "t.Crate" pre =
      .ok (["weight", "box_content", "kind", "metal", "size"].map (pre ++ ·))) ∧
    (¬ ∃ other, Relation.ReflTransGen compiled.index.Opens "t.Crate" other ∧
      Relation.TransGen compiled.index.Opens other other) ∧
    ∃ m plan, compiled.index.message? "t.Crate" = some m ∧ compiled.plans.plan? "t.Crate" = some plan ∧
      ∀ step ∈ plan.steps, m.LiftsAsLaid compiled.index step ∧ compiled.index.VariantsAsLaid step := by
  obtain ⟨compiled, run, distinct, laid, planned⟩ := Run.exists_compiled (fun compiled =>
    (∀ m ∈ compiled.index.messages.values, (m.oneofs.map (·.name)).Nodup) ∧
    compiled.index.flattenedKeys "t.Crate" = .ok ["weight", "box_content", "kind", "metal", "size"] ∧
    (compiled.plans.plan? "t.Crate").isSome = true)
    (show (Run.compile crates [] .default).toOption.any _ = true by decide +kernel)
  obtain ⟨plan, given⟩ := Option.isSome_iff_exists.mp planned
  obtain ⟨_, failures, _, layouts, plans⟩ := layout_of_build (Run.compile_spec run).1
  obtain ⟨m, found, steps⟩ := plans compiled run "t.Crate" plan given
  refine ⟨compiled, run, layouts "t.Crate" _ laid, fun reached => ?_, m, plan, found, given, steps⟩
  obtain ⟨cycle, failed⟩ := (failures distinct "t.Crate").mpr reached
  exact nomatch laid.symm.trans failed

def markedMember : Schema.FileSet := .ofMessages [.ofFields "M"
  [{ Schema.Field.ofMessage "a" ".t.M" [("flatten", .bool true)] with oneofIndex := some 0 }]
  [.ofDiscriminator "o" "t"]]

def namesakeOneofs : Schema.FileSet := .ofMessages [.ofFields "M"
  [.ofMember "x" .string 0, .ofVariant "b" ".t.M" 1] [.ofDiscriminator "o" "t", .ofFlattened "o" "u"]]

/-- A field is not lifted from within a discriminated oneof, and of oneofs with one name the first is laid out. -/
theorem layouts_without_end :
    (∃ index, build markedMember [] .default = .ok index ∧ index.flattenedKeys "t.M" = .ok ["t", "a"] ∧
      ∃ m ∈ index.message? "t.M", ∃ f ∈ m.fields, f.lifted? = some ("t.M", "")) ∧
    ∃ index, build namesakeOneofs [] .default = .ok index ∧ index.flattenedKeys "t.M" = .ok ["t", "x"] ∧
      ∃ m ∈ index.message? "t.M", ∃ group ∈ m.discriminated, group.2.flatten = true ∧
        ∃ member ∈ m.oneofMembers group.1, member.message? = some "t.M" :=
  ⟨exists_ok (fun index : Index => index.flattenedKeys "t.M" = .ok ["t", "a"] ∧
      ∃ m ∈ index.message? "t.M", ∃ f ∈ m.fields, f.lifted? = some ("t.M", "")) (by decide +kernel),
    exists_ok (fun index : Index => index.flattenedKeys "t.M" = .ok ["t", "x"] ∧
      ∃ m ∈ index.message? "t.M", ∃ group ∈ m.discriminated, group.2.flatten = true ∧
        ∃ member ∈ m.oneofMembers group.1, member.message? = some "t.M") (by decide +kernel)⟩

end Wireform.Index
