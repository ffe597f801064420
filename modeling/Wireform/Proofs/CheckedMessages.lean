import Mathlib.Tactic.Tauto
import Wireform.Proofs.AcceptedIndex

set_option autoImplicit false

namespace Wireform.Index

@[simp] theorem issueIf_eq_nil {condition : Bool} {issue : Issue} :
    issueIf condition issue = [] ↔ condition = false := by
  cases condition <;> simp [issueIf]

structure Field.Checked (index : Index) (m : Message) (f : Field) : Prop where
  timestamp : f.annotations.timestamp ≠ .unspecified → f.isTimestamp = true
  bytes : f.annotations.bytes ≠ .unspecified → f.isBytes = true
  int64 : f.annotations.int64 ≠ .unspecified → f.is64Bit = true
  enumeration : f.annotations.enumeration ≠ .unspecified → f.isMap = false ∧
    ∃ name, f.enum? = some name ∧ (f.annotations.enumeration = .number → ∀ e, index.enum? name = some e →
      e.hasCustomNames = false)
  nullable : f.annotations.nullable = true → f.message? = none ∧ f.cardinality = .optional
  empty : f.annotations.empty ≠ .unspecified → f.isSingular = true ∧ f.message?.isSome = true
  unwrap : f.annotations.unwrap = true → f.isSingular = false ∧ f.message?.isSome = true
  flatten : f.annotations.flatten = true → ∃ child c, f.message? = some child ∧
    index.message? child = some c ∧ f.isSingular = true ∧ c.wellKnown = false ∧ c.isRootUnwrap = false ∧
    f.oneof = none ∧ f.annotations.nullable = false ∧ f.annotations.changesEmpty = false
  unprefixed : f.annotations.flattenPrefix ≠ none → f.annotations.flatten = true
  single : f.annotations.unwrap = true → f.annotations.flatten = false

namespace Field

variable {index : Index} {m : Message} {f : Field}

theorem enum_of_enumIssues (clean : f.enumIssues index = [])
    (given : f.annotations.enumeration ≠ .unspecified) : f.isMap = false ∧
      ∃ name, f.enum? = some name ∧ (f.annotations.enumeration = .number → ∀ e, index.enum? name = some e →
        e.hasCustomNames = false) := by
  rw [enumIssues, if_neg given] at clean
  split at clean
  · rename_i name type plain
    refine ⟨plain, name, type, fun number e found => ?_⟩
    simpa [number, found] using clean
  · cases clean

theorem nullable_of_presenceIssues (clean : f.presenceIssues = [])
    (given : f.annotations.nullable = true) : f.message? = none ∧ f.cardinality = .optional := by
  rw [presenceIssues] at clean
  have first := (List.append_eq_nil_iff.mp clean).1
  rw [if_pos given] at first
  split at first
  · cases first
  · rename_i scalar
    exact ⟨by simpa using scalar, by simpa using first⟩

theorem empty_of_presenceIssues (clean : f.presenceIssues = [])
    (given : f.annotations.empty ≠ .unspecified) : f.isSingular = true ∧ f.message?.isSome = true := by
  rw [presenceIssues] at clean
  have second := (List.append_eq_nil_iff.mp clean).2
  rw [issueIf_eq_nil] at second
  cases typed : f.message? <;> simp [given, typed] at second ⊢
  exact second

theorem flatten_of_flattenIssues (clean : f.flattenIssues index = []) :
    ∃ child c, f.message? = some child ∧ index.message? child = some c ∧ f.isSingular = true ∧
      c.wellKnown = false ∧ c.isRootUnwrap = false ∧ f.oneof = none ∧ f.annotations.nullable = false ∧
      f.annotations.changesEmpty = false := by
  simp only [flattenIssues, flattenConflicts, List.append_eq_nil_iff, issueIf_eq_nil] at clean
  obtain ⟨⟨target, member⟩, nullable, empty⟩ := clean
  have alone : f.oneof = none := by
    split at member
    · cases member
    · assumption
  split at target
  · rename_i c found
    obtain ⟨child, typed, there⟩ := Option.bind_eq_some_iff.mp found
    split at target
    · rename_i fits
      simp only [Bool.and_eq_true, Bool.not_eq_true'] at fits
      exact ⟨child, c, typed, there, fits.1, fits.2, by simpa using target, alone, nullable, empty⟩
    · cases target
  · cases target

theorem single_of_structural {a : Annotations} (clean : (1 < a.structural.length : Bool) = false)
    (unwrap : a.unwrap = true) : a.flatten = false := by
  cases flatten : a.flatten with
  | false => rfl
  | true => simp [Annotations.structural, unwrap, flatten] at clean

theorem checked_of_issues (clean : f.issues index m = []) : f.Checked index m := by
  simp only [issues, valueIssues, List.append_eq_nil_iff, issueIf_eq_nil] at clean
  obtain ⟨⟨⟨⟨⟨⟨⟨⟨timestamp, bytes⟩, int64⟩, enumeration⟩, presence⟩, unwrap⟩, flatten⟩, _⟩, structural⟩ :=
    clean
  refine
    { timestamp := fun given => ?_
      bytes := fun given => ?_
      int64 := fun given => ?_
      enumeration := enum_of_enumIssues enumeration
      nullable := nullable_of_presenceIssues presence
      empty := empty_of_presenceIssues presence
      unwrap := fun given => ?_
      flatten := fun given => ?_
      unprefixed := fun given => ?_
      single := single_of_structural structural }
  · simpa [given] using timestamp
  · simpa [given] using bytes
  · simpa [given] using int64
  · cases typed : f.message? <;> simp [given, typed] at unwrap ⊢
    exact unwrap
  · rw [if_pos given] at flatten
    exact flatten_of_flattenIssues flatten
  · by_contra plain
    rw [if_neg plain, issueIf_eq_nil] at flatten
    exact given (by simpa using flatten)

theorem Checked.timestamp_type (checked : f.Checked index m) (given : f.annotations.changesTimestamp = true) :
    f.isMap = false ∧ f.message? = some WellKnown.timestamp := by
  have fits := checked.timestamp (by
    rintro unspecified
    simp [Annotations.changesTimestamp, unspecified] at given)
  simpa [isTimestamp] using fits

theorem Checked.bytes_type (checked : f.Checked index m) (given : f.annotations.changesBytes = true) :
    f.isMap = false ∧ f.type = .scalar .bytes := by
  have fits := checked.bytes (by
    rintro unspecified
    simp [Annotations.changesBytes, unspecified] at given)
  simpa [isBytes] using fits

theorem Checked.int64_type (checked : f.Checked index m) (given : f.annotations.int64 = .number) :
    f.isMap = false ∧ ∃ s : Scalar, f.type = .scalar s ∧ s.is64Bit = true := by
  have fits := checked.int64 (by simp [given])
  simp only [is64Bit, Bool.and_eq_true, Bool.not_eq_true'] at fits
  refine ⟨fits.1, ?_⟩
  split at fits
  · rename_i s typed
    exact ⟨s, typed, fits.2⟩
  · cases fits.2

theorem Checked.empty_type (checked : f.Checked index m) (given : f.annotations.changesEmpty = true) :
    f.isSingular = true ∧ f.message?.isSome = true :=
  checked.empty fun unspecified => by simp [Annotations.changesEmpty, unspecified] at given

end Field

namespace Message

variable {index : Index} {m : Message}

theorem errors_parts (clean : m.errors index = []) : m.fieldErrors index = [] ∧ m.unwrapErrors = [] ∧
    m.oneofErrors index = [] ∧ m.keyErrors index = [] := by
  simpa [errors, and_assoc] using clean

theorem checked_fields (clean : m.fieldErrors index = []) (resolved : ∀ f ∈ m.fields, f.unresolved = false) :
    ∀ f ∈ m.fields, f.Checked index m := by
  intro f inside
  rw [fieldErrors, List.flatMap_eq_nil_iff] at clean
  have issues := clean f (List.mem_filter.mpr ⟨inside, by simp [resolved f inside]⟩)
  exact Field.checked_of_issues (List.map_eq_nil_iff.mp issues)

theorem isRootUnwrap_iff : m.isRootUnwrap = true ↔ ∃ f, m.fields = [f] ∧ f.annotations.unwrap = true := by
  rw [isRootUnwrap]
  split
  · rename_i f alone
    simp [alone]
  · rename_i other
    constructor
    · intro never
      cases never
    · rintro ⟨f, alone, _⟩
      exact absurd alone (other f)

theorem root_overrides (clean : m.unwrapErrors = []) {f : Field} (alone : m.fields = [f])
    (unwrap : f.annotations.unwrap = true) : ∀ d ∈ f.annotations.overrides, d = .unwrap := by
  have root := isRootUnwrap_iff.mpr ⟨f, alone, unwrap⟩
  rw [unwrapErrors, alone, List.filter_cons_of_pos (by simpa using unwrap), List.filter_nil] at clean
  simp only [root, if_true, List.append_eq_nil_iff, List.map_eq_nil_iff, List.filter_eq_nil_iff] at clean
  intro d inside
  simpa using clean.2 d inside

theorem unwrapped_once (clean : m.unwrapErrors = []) {f : Field} (found : m.unwrapField? = some f) :
    m.fields.filter (·.annotations.unwrap) = [f] := by
  obtain ⟨others, split⟩ : ∃ others, m.fields.filter (·.annotations.unwrap) = f :: others := by
    rw [unwrapField?, ← List.head?_filter, List.head?_eq_some_iff] at found
    exact found
  rw [unwrapErrors, split] at clean
  simp only [List.append_eq_nil_iff, List.map_eq_nil_iff] at clean
  rw [split, clean.1.1]

end Message

namespace Message

variable {index : Index} {m : Message} {oneof : Oneof} {config : OneofConfig}

theorem variantValues_of_memberErrors {used : KeyMap String} {members : List Field}
    (clean : memberErrors index m oneof config used members = []) :
    (members.map Field.variantValue).Nodup ∧ ∀ member ∈ members, used.get? member.variantValue = none := by
  induction members generalizing used with
  | nil => exact ⟨List.nodup_nil, fun _ inside => nomatch inside⟩
  | cons member rest ih =>
    simp only [memberErrors, List.append_eq_nil_iff, List.map_eq_nil_iff] at clean
    obtain ⟨⟨⟨repeated, _⟩, _⟩, later⟩ := clean
    have fresh : used.get? member.variantValue = none := by
      split at repeated
      · cases repeated
      · assumption
    obtain ⟨nodup, unused⟩ := ih later
    refine ⟨List.nodup_cons.mpr ⟨fun inside => ?_, nodup⟩, fun other inside => ?_⟩
    · obtain ⟨other, there, same⟩ := List.mem_map.mp inside
      have := unused other there
      simp [KeyMap.get?_insert, same] at this
    · rcases List.mem_cons.mp inside with rfl | there
      · exact fresh
      · have := unused other there
        rw [KeyMap.get?_insert] at this
        split at this
        · cases this
        · exact this

theorem member_of_memberErrors {used : KeyMap String} {members : List Field}
    (clean : memberErrors index m oneof config used members = []) :
    ∀ member ∈ members, member.annotations.changesEmpty = false ∧
      variantIssues index oneof config member = [] := by
  induction members generalizing used with
  | nil => exact fun _ inside => nomatch inside
  | cons member rest ih =>
    simp only [memberErrors, List.append_eq_nil_iff, List.map_eq_nil_iff, issueIf_eq_nil] at clean
    obtain ⟨⟨⟨_, empty⟩, variant⟩, later⟩ := clean
    intro other inside
    rcases List.mem_cons.mp inside with rfl | there
    · exact ⟨empty, variant⟩
    · exact ih later other there

theorem message_of_variantIssues {member : Field} (clean : variantIssues index oneof config member = [])
    (resolved : member.unresolved = false) (flatten : config.flatten = true) :
    ∃ child c, member.message? = some child ∧ index.message? child = some c ∧ c.wellKnown = false ∧
      c.isRootUnwrap = false := by
  simp only [variantIssues, flatten, resolved, Bool.not_true, Bool.or_self, Bool.false_eq_true,
    if_false] at clean
  split at clean
  · rename_i c found
    obtain ⟨child, typed, there⟩ := Option.bind_eq_some_iff.mp found
    split at clean
    · cases clean
    · rename_i own
      exact ⟨child, c, typed, there, by simpa using own, by simpa using clean⟩
  · cases clean

theorem memberErrors_of_oneofErrors (clean : m.oneofErrors index = [])
    (inside : (oneof, config) ∈ m.discriminated) :
    memberErrors index m oneof config .empty (m.oneofMembers oneof) = [] := by
  rw [oneofErrors, List.flatMap_eq_nil_iff] at clean
  exact clean (oneof, config) inside

theorem nodup_of_repeatedKeys {seen keys : List String} (before : seen.Nodup)
    (clean : repeatedKeys seen keys = []) : (seen ++ keys).Nodup := by
  induction keys generalizing seen with
  | nil => simpa using before
  | cons key rest ih =>
    simp only [repeatedKeys] at clean
    split at clean
    · cases clean
    · rename_i once
      have fresh : key ∉ seen := fun inside =>
        once (List.count_eq_one_of_mem before inside)
      have next : (seen ++ [key]).Nodup := by
        rw [List.nodup_append]
        refine ⟨before, List.nodup_singleton key, ?_⟩
        rintro a inside b there rfl
        rw [List.mem_singleton] at there
        exact fresh (there ▸ inside)
      simpa using ih next clean

theorem keys_of_keyErrors (clean : m.keyErrors index = []) (lifts : m.lifting?.isSome = true) :
    (∃ keys, index.flattenedKeys m.fullName = .ok keys ∧ keys.Nodup) ∨
      ∃ cycle, index.flattenedKeys m.fullName = .error cycle ∧ cycle.head? ≠ some m.fullName := by
  obtain ⟨⟨culprit, directive⟩, found⟩ := Option.isSome_iff_exists.mp lifts
  rw [keyErrors, found] at clean
  dsimp only at clean
  split at clean
  · rename_i keys laid
    exact .inl ⟨keys, laid, by
      simpa using nodup_of_repeatedKeys List.nodup_nil (List.map_eq_nil_iff.mp clean)⟩
  · rename_i cycle laid
    refine .inr ⟨cycle, laid, fun starts => ?_⟩
    rw [if_pos starts] at clean
    cases clean

end Message

namespace Enum

variable {e : Enum}

theorem customNames_of_valueErrors {used : KeyMap String} {values : List EnumValue}
    (clean : e.valueErrors used values = []) :
    (∀ v ∈ values, v.customName.isSome = true) ∧ (values.map EnumValue.wireName).Nodup ∧
      ∀ v ∈ values, used.get? v.wireName = none := by
  -- By induction on the values, with the names that those before have used.
  induction values generalizing used with
  | nil => simp
  | cons v rest ih =>
    simp only [valueErrors] at clean
    split at clean
    · cases clean
    · rename_i custom given
      obtain ⟨here, later⟩ := List.append_eq_nil_iff.mp clean
      obtain ⟨repeated, _⟩ := List.append_eq_nil_iff.mp (List.map_eq_nil_iff.mp here)
      have wire : v.wireName = custom := by rw [EnumValue.wireName, given, Option.getD_some]
      have fresh : used.get? custom = none := by
        split at repeated
        · cases repeated
        · assumption
      obtain ⟨all, nodup, unused⟩ := ih later
      refine ⟨?_, List.nodup_cons.mpr ⟨fun inside => ?_, nodup⟩, fun other inside => ?_⟩
      · intro other inside
        rcases List.mem_cons.mp inside with rfl | there
        · rw [given]
          rfl
        · exact all other there
      · obtain ⟨other, there, same⟩ := List.mem_map.mp inside
        have := unused other there
        simp [KeyMap.get?_insert, same, wire] at this
      · rcases List.mem_cons.mp inside with rfl | there
        · rw [wire]
          exact fresh
        · have := unused other there
          rw [KeyMap.get?_insert] at this
          split at this
          · cases this
          · exact this

theorem unshadowed_of_valueErrors {used : KeyMap String} {values : List EnumValue}
    (clean : e.valueErrors used values = []) :
    ∀ v ∈ values, ∀ other ∈ e.values, other.name = v.wireName → other.name = v.name := by
  induction values generalizing used with
  | nil => exact fun _ inside => nomatch inside
  | cons v rest ih =>
    simp only [valueErrors] at clean
    split at clean
    · cases clean
    · rename_i custom given
      obtain ⟨here, later⟩ := List.append_eq_nil_iff.mp clean
      have unshadowed := (List.append_eq_nil_iff.mp (List.map_eq_nil_iff.mp here)).2
      have wire : v.wireName = custom := by rw [EnumValue.wireName, given, Option.getD_some]
      intro w inside other there same
      rcases List.mem_cons.mp inside with rfl | further
      · by_contra differs
        have found : (e.values.find? fun other => other.name == custom && other.name != w.name).isSome = true :=
          List.find?_isSome.mpr ⟨other, there, by simpa [same, wire] using fun again => differs (same.trans again)⟩
        obtain ⟨shadow, given⟩ := Option.isSome_iff_exists.mp found
        rw [shadowing, given] at unshadowed
        cases unshadowed
      · exact ih later w further other there same

theorem wireNames_nodup (clean : e.errors = []) (custom : e.hasCustomNames = true) :
    (e.values.map EnumValue.wireName).Nodup := by
  rw [errors, if_pos custom] at clean
  exact (customNames_of_valueErrors clean).2.1

end Enum

end Wireform.Index
