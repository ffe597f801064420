import Wireform.Proofs.CheckedMessages
import Wireform.Proofs.Evaluation
import Wireform.Proofs.GivenSteps
import Wireform.Proofs.RestoredMessages

set_option autoImplicit false

namespace Wireform

namespace Index

open Codec

/-- The names on the wire are distinct, and none is the name of another value. -/
def Unambiguous (table : List EnumName) : Prop :=
  (table.map (·.wire)).Nodup ∧ ∀ a ∈ table, ∀ b ∈ table, a.wire = b.name → a = b

instance (table : List EnumName) : Decidable (Unambiguous table) := inferInstanceAs (Decidable (_ ∧ _))

def Field.Suits (index : Index) (m : Message) (f : Field) : Transform → Prop
  | .integerAsNumber unsigned => f.isMap = false ∧ ∃ scalar : Scalar, f.type = .scalar scalar ∧
      scalar.is64Bit = true ∧ (unsigned = true ↔ scalar = .uint64 ∨ scalar = .fixed64)
  | .bytesAs _ => f.isMap = false ∧ f.type = .scalar .bytes
  | .timestampAs _ => f.isMap = false ∧ f.message? = some WellKnown.timestamp
  | .enumAsNumber name _ => f.isMap = false ∧ f.enum? = some name ∧
      ∃ e, index.enum? name = some e ∧ e.hasCustomNames = false
  | .enumCustomNames name table => f.enum? = some name ∧ Unambiguous table
  | .nullable => f.cardinality = .optional ∧ f.message? = none
  | .emptyValueAs _ => f.isSingular = true ∧ f.message? ≠ none ∧
      ∀ group ∈ m.discriminated, f.name ∉ group.1.members
  | .flatten child _ _ => f.isSingular = true ∧ f.oneof = none ∧ f.message? = some child ∧
      ∃ c, index.message? child = some c ∧ c.wellKnown = false ∧ c.isRootUnwrap = false
  | .unwrapValues element key => f.isMap = true ∧ ∃ child value inner, f.message? = some child ∧
      index.message? child = some value ∧ value.fields.filter (·.annotations.unwrap) = [inner] ∧
      inner.isList = true ∧ inner.message? = element ∧ element ≠ none ∧ inner.jsonName = key
  | .unwrapRoot element isMap => m.fields = [f] ∧ f.message? = element ∧ f.isMap = isMap
  | .nested child => f.message? = some child
  | .oneofDiscriminator _ _ _ => False

end Index

open Index Codec

/-- The steps of a plan suit the message, and stand beside each other only where they may. -/
structure Plan.Suits (index : Index) (m : Message) (plan : Plan) : Prop where
  steps : ∀ step ∈ plan.steps, (∃ f ∈ m.fields, step.field = f.name ∧ step.jsonName = f.jsonName ∧
      f.Suits index m step.transform) ∨
    ∃ group ∈ m.discriminated, step = oneofStep index m group.1 group.2
  flattened : ∀ step ∈ plan.steps, ∀ child pre keys, step.transform = .flatten child pre keys →
    ∀ other ∈ plan.steps, other.field = step.field → other.transform.tag ≠ .nullable ∧
      other.transform.tag ≠ .emptyValueAs
  root : ∀ step ∈ plan.steps, step.transform.isRootUnwrap = true → m.fields.length = 1 ∧
    ∀ other ∈ plan.steps, other = step ∨ (∃ child, other.transform = .nested child) ∨
      ∃ element key, other.transform = .unwrapValues element key

namespace Index

section Tables

variable {e : Enum}

theorem unambiguous_table (clean : e.errors = []) (custom : e.hasCustomNames = true)
    (names : (e.values.map (·.name)).Nodup) : Unambiguous (e.table EnumValue.wireName) := by
  constructor
  · simpa [Enum.table, Function.comp_def] using Enum.wireNames_nodup clean custom
  · intro a inside b there same
    obtain ⟨v, listed, rfl⟩ := List.mem_map.mp inside
    obtain ⟨w, other, rfl⟩ := List.mem_map.mp there
    rw [Enum.errors, if_pos custom] at clean
    have unshadowed := Enum.unshadowed_of_valueErrors clean v listed w other same.symm
    rw [eq_of_nodup names other listed unshadowed]

end Tables

section Fields

variable {index : Index} (sound : index.Sound) {name : String} {m : Message}
  (found : index.message? name = some m) {planned : String → Bool} {f : Field} (inside : f ∈ m.fields)
  {container : Container} {transform : Transform}

include sound found inside

theorem not_member_of_changesEmpty (names : (m.fields.map (·.name)).Nodup)
    (changes : f.annotations.changesEmpty = true) : ∀ group ∈ m.discriminated, f.name ∉ group.1.members := by
  rintro ⟨oneof, config⟩ grouped member
  obtain ⟨_, _, oneofErrors, _⟩ := Message.errors_parts (sound.errors name m found)
  have itself : m.field? f.name = some f := find?_of_nodup names inside
  have listed : f ∈ m.oneofMembers oneof := List.mem_filterMap.mpr ⟨f.name, member, itself⟩
  have kept := (Message.member_of_memberErrors
    (Message.memberErrors_of_oneofErrors oneofErrors grouped) f listed).1
  rw [changes] at kept
  cases kept

theorem suits_of_gives (names : (m.fields.map (·.name)).Nodup)
    (valueNames : ∀ e ∈ index.enums.values, (e.values.map (·.name)).Nodup)
    (gives : f.Gives index m planned container transform) : f.Suits index m transform := by
  have checked := checked_of_sound sound found f inside
  -- Each directive was checked against the field that carries it.
  cases gives with
  | empty single changes =>
    refine ⟨single, ?_, not_member_of_changesEmpty sound found inside names changes⟩
    exact Option.isSome_iff_ne_none.mp (checked.empty_type changes).2
  | nested typed below => exact typed
  | @values child value inner map typed there first apart list =>
    obtain ⟨_, unwrapErrors, _⟩ := Message.errors_parts (sound.errors child value there)
    have once := Message.unwrapped_once unwrapErrors first
    have listed : inner ∈ value.fields ∧ inner.annotations.unwrap = true :=
      List.mem_filter.mp (once ▸ List.mem_singleton_self inner : inner ∈ value.fields.filter _)
    have element := ((checked_of_sound sound there inner listed.1).unwrap listed.2).2
    exact ⟨map, child, value, inner, typed, there, once, list, rfl, Option.isSome_iff_ne_none.mp element, rfl⟩
  | root unwraps alone =>
    obtain ⟨g, fields, _⟩ := Message.isRootUnwrap_iff.mp alone
    rw [fields, List.mem_singleton] at inside
    rw [inside]
    exact ⟨fields, rfl, rfl⟩
  | @lifted child pre lifted =>
    obtain ⟨marked, typed, single⟩ := lifted?_eq_some lifted
    obtain ⟨child', c, typed', there, _, own, plain, alone, _⟩ := checked.flatten marked
    cases Option.some.inj (typed.symm.trans typed')
    exact ⟨single, alone, typed, c, there, own, plain⟩
  | @integer scalar number typed =>
    obtain ⟨plain, s, typed', wide⟩ := checked.int64_type number
    cases typed.symm.trans typed'
    exact ⟨plain, scalar, typed, wide, by simp⟩
  | @enumNumber target e typed there number =>
    obtain ⟨plain, other, typed', uncustomized⟩ := checked.enumeration (by simp [number])
    cases Option.some.inj (typed.symm.trans typed')
    exact ⟨plain, typed, e, there, uncustomized number e there⟩
  | @enumNames target e typed there named custom =>
    have listed : e ∈ index.enums.values := KeyMap.mem_values.mpr ⟨_, there⟩
    exact ⟨typed, unambiguous_table (sound.enumErrors target e there) custom (valueNames e listed)⟩
  | timestamp changes => exact checked.timestamp_type changes
  | bytes changes => exact checked.bytes_type changes
  | nullable marked => exact (checked.nullable marked).symm

theorem beside_root (alone : m.isRootUnwrap = true) (gives : f.Gives index m planned container transform) :
    transform = .unwrapRoot f.message? f.isMap ∨ (∃ child, transform = .nested child) ∨
      ∃ element key, transform = .unwrapValues element key := by
  obtain ⟨g, fields, unwrap⟩ := Message.isRootUnwrap_iff.mp alone
  have same : f = g := by simpa [fields] using inside
  subst same
  have checked := checked_of_sound sound found f inside
  obtain ⟨plural, typed⟩ := checked.unwrap unwrap
  obtain ⟨_, unwrapErrors, _⟩ := Message.errors_parts (sound.errors name m found)
  have only := Message.root_overrides unwrapErrors fields unwrap
  cases gives with
  | root => exact .inl rfl
  | nested => exact .inr (.inl ⟨_, rfl⟩)
  | values => exact .inr (.inr ⟨_, _, rfl⟩)
  | empty single => simp [plural] at single
  | lifted lifted =>
    have marked := (lifted?_eq_some lifted).1
    rw [checked.single unwrap] at marked
    cases marked
  | integer _ scalar => simp [Field.message?, ValueType.message?, scalar] at typed
  | enumNumber enum | enumNames enum =>
    -- A field of an enum holds no message.
    cases kind : f.type <;> simp [Field.message?, Field.enum?, ValueType.message?, ValueType.enum?, kind] at typed enum
  | timestamp changes =>
    have listed := only .timestampFormat (by simp [Annotations.overrides, changes])
    cases listed
  | bytes changes =>
    have listed := only .bytesEncoding (by simp [Annotations.overrides, changes])
    cases listed
  | nullable marked =>
    have listed := only .nullable (by simp [Annotations.overrides, marked])
    cases listed

end Fields

section Plans

variable {index : Index} (sound : index.Sound) {name : String} {m : Message}
  (found : index.message? name = some m) (members : ∀ f ∈ m.fields, f.oneof ≠ none → f.isSingular = true)

include sound found members

theorem planOf_suits (names : (m.fields.map (·.name)).Nodup)
    (valueNames : ∀ e ∈ index.enums.values, (e.values.map (·.name)).Nodup) (planned : List String) :
    (planOf index planned m).Suits index m where
  steps := by
    intro step inside
    rcases mem_planOf.mp inside with ⟨f, there, container, transform, gives, rfl⟩ | grouped
    · exact .inl ⟨f, there, rfl, rfl, suits_of_gives sound found there names valueNames gives⟩
    · exact .inr grouped
  flattened := by
    intro step inside child pre keys flatten other listed same
    rcases mem_planOf.mp inside with ⟨f, there, container, transform, gives, rfl⟩ | ⟨group, _, rfl⟩
    · rcases mem_planOf.mp listed with ⟨g, here, container', transform', gives', rfl⟩ | ⟨group, _, rfl⟩
      · -- Field names are distinct, so the other step is on the flattened field itself.
        cases eq_of_nodup names here there same
        cases (show transform = _ from flatten)
        cases gives with
        | lifted lifted =>
          obtain ⟨_, _, _, _, _, _, _, _, present, kept⟩ :=
            (checked_of_sound sound found f there).flatten (lifted?_eq_some lifted).1
          cases gives' with
          | nullable marked => simp [present] at marked
          | empty _ changes => simp [kept] at changes
          | _ => simp [Field.step, Transform.tag]
      · simp [oneofStep, Transform.tag]
    · cases flatten
  root := by
    intro step inside root
    rcases mem_planOf.mp inside with ⟨f, there, container, transform, gives, rfl⟩ | ⟨group, _, rfl⟩
    · cases gives with
      | root unwraps alone =>
        obtain ⟨g, fields, unwrap⟩ := Message.isRootUnwrap_iff.mp alone
        refine ⟨by simp [fields], fun other listed => ?_⟩
        rcases mem_planOf.mp listed with ⟨h, here, container', transform', gives', rfl⟩ | ⟨group, grouped, rfl⟩
        · have same : h = f := by
            rw [fields, List.mem_singleton] at there here
            rw [here, there]
          subst same
          rcases beside_root sound found here alone gives' with rfl | further
          · cases gives'
            exact .inl rfl
          · exact .inr further
        · rw [discriminated_of_root sound found members fields unwrap] at grouped
          cases grouped
      | _ => cases root
    · cases root

end Plans

end Index

namespace Run

/-- Every step of every plan is on a field that it is for, where the names of fields and enum values are
distinct. -/
theorem plans_suit {set : Schema.FileSet} {files : List String} {settings : Settings} {compiled : Compiled}
    (run : compile set files settings = .ok compiled)
    (members : ∀ m ∈ compiled.index.messages.values, ∀ f ∈ m.fields, f.oneof ≠ none → f.isSingular = true)
    (names : ∀ m ∈ compiled.index.messages.values, (m.fields.map (·.name)).Nodup)
    (valueNames : ∀ e ∈ compiled.index.enums.values, (e.values.map (·.name)).Nodup) :
    ∀ plan ∈ compiled.plans.values, ∃ m ∈ compiled.index.messages.values, plan.message = m.fullName ∧
      plan.Suits compiled.index m := by
  have sound := sound_of_compile run
  obtain ⟨_, _, plans⟩ := compile_spec run
  intro plan inside
  obtain ⟨key, given⟩ := KeyMap.mem_values.mp inside
  rw [plans] at given
  obtain ⟨m, _, picked⟩ := List.mem_filterMap.mp (KeyMap.mem_of_get?_ofList given)
  split at picked
  · obtain ⟨found, there, same⟩ := Option.map_eq_some_iff.mp picked
    obtain ⟨_, rfl⟩ := Prod.mk.inj same
    have listed : found ∈ compiled.index.messages.values := KeyMap.mem_values.mpr ⟨_, there⟩
    exact ⟨found, listed, rfl, planOf_suits sound there (members found listed) (names found listed) valueNames _⟩
  · cases picked

def parcels : Schema.FileSet := .ofTypes [
  .ofFields "Box" [.ofKind "weight" .uint64 [("int64_encoding", .str "NUMBER")]] [],
  .ofFields "Parcel" [.ofMessage "box" "t.Box" [("flatten", .bool true)], .ofEnum "state" "t.State" []] []]
  [.ofNames "State" [("OPEN", "open"), ("SENT", "sent")]]

theorem plans_suit_parcels : ∃ compiled, compile parcels [] .default = .ok compiled ∧
    compiled.plans.keys = ["t.Box", "t.Parcel"] ∧
    ∀ plan ∈ compiled.plans.values, ∃ m ∈ compiled.index.messages.values, plan.message = m.fullName ∧
      plan.Suits compiled.index m := by
  obtain ⟨compiled, run, members, names, valueNames, planned⟩ := exists_compiled
    (fun compiled =>
      (∀ m ∈ compiled.index.messages.values, ∀ f ∈ m.fields, f.oneof ≠ none → f.isSingular = true) ∧
      (∀ m ∈ compiled.index.messages.values, (m.fields.map (·.name)).Nodup) ∧
      (∀ e ∈ compiled.index.enums.values, (e.values.map (·.name)).Nodup) ∧
      compiled.plans.keys = ["t.Box", "t.Parcel"])
    (show (compile parcels [] .default).toOption.any _ = true by decide +kernel)
  exact ⟨compiled, run, planned, plans_suit run members names valueNames⟩

def doubles : Schema.FileSet := .ofTypes [
  .ofFields "Child" [] [],
  .ofFields "M" [{ Schema.Field.ofMessage "a" "t.Child" [] with givenJsonName := some "x" },
      { Schema.Field.ofMessage "a" "t.Child" [("empty_behavior", .str "NULL")] with
        givenJsonName := some "y"
        oneofIndex := some 0 },
      .ofEnum "e" "t.E" []]
    [⟨"o", some (KeyMap.ofList [("[sebuf.http.oneof_config]",
      .obj [("discriminator", .str "t"), ("flatten", .bool true)])])⟩]]
  [.ofNames "E" [("A", "A"), ("A", "B")]]

set_option synthInstance.maxSize 1000 in
/-- Of fields that share a name only the first is checked as a member of a oneof, and of values that share
a name neither hides the other: an empty member is made null, and a wire name is another value's name. -/
theorem doubles_accepted : ∃ compiled, compile doubles [] .default = .ok compiled ∧
    (∀ m ∈ compiled.index.messages.values, ∀ f ∈ m.fields, f.oneof ≠ none → f.isSingular = true) ∧
    ∃ plan ∈ compiled.plans.values, ∃ m ∈ compiled.index.messages.values, plan.message = m.fullName ∧
      (∃ f ∈ m.fields, f.step .single (.emptyValueAs .null) ∈ plan.steps ∧
        ∃ group ∈ m.discriminated, f.oneof = some group.1.name) ∧
      ∃ step ∈ plan.steps, ∃ e ∈ compiled.index.enums.values,
        step.transform = .enumCustomNames e.fullName (e.table EnumValue.wireName) ∧
          ¬ Unambiguous (e.table EnumValue.wireName) :=
  exists_compiled
    (fun compiled =>
      (∀ m ∈ compiled.index.messages.values, ∀ f ∈ m.fields, f.oneof ≠ none → f.isSingular = true) ∧
      ∃ plan ∈ compiled.plans.values, ∃ m ∈ compiled.index.messages.values, plan.message = m.fullName ∧
        (∃ f ∈ m.fields, f.step .single (.emptyValueAs .null) ∈ plan.steps ∧
          ∃ group ∈ m.discriminated, f.oneof = some group.1.name) ∧
        ∃ step ∈ plan.steps, ∃ e ∈ compiled.index.enums.values,
          step.transform = .enumCustomNames e.fullName (e.table EnumValue.wireName) ∧
            ¬ Unambiguous (e.table EnumValue.wireName))
    (by decide +kernel)

end Run

end Wireform
