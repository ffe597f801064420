import Wireform.Annotations
import Wireform.Proofs.Basic
import Wireform.Proofs.KeyMaps

set_option autoImplicit false

namespace Wireform

namespace Vocabulary

variable {α : Type} (vocabulary : Vocabulary α)

/-- What a raw value stands for: the value of its number, or of the word that it is, with or without the stem. -/
inductive Spells : Json → α → Prop where
  | number {n : Number} {place : Nat} {word : String} {a : α} (index : n.toNat? = some place)
    (known : vocabulary.words[place]? = some (word, a)) : Spells (.num n) a
  | short {word : String} {a : α} (known : (word, a) ∈ vocabulary.words) : Spells (.str word) a
  | long {word : String} {a : α} (known : (word, a) ∈ vocabulary.words) : Spells (.str (vocabulary.stem ++ word)) a

/-- No text stands for two values: words are distinct, and none starts with the stem. -/
structure Unambiguous : Prop where
  distinct : (vocabulary.words.map (·.1)).Nodup
  stemless : ∀ entry ∈ vocabulary.words, vocabulary.stem.toList.isPrefixOf entry.1.toList = false

theorem shortForm_stem (word : String) : vocabulary.shortForm (vocabulary.stem ++ word) = word := by
  have starts : vocabulary.stem.toList.isPrefixOf (vocabulary.stem ++ word).toList = true := by
    rw [String.toList_append, List.isPrefixOf_iff_prefix]
    exact List.prefix_append _ _
  rw [shortForm, if_pos starts, String.toList_append, List.drop_left, String.ofList_toList]

theorem text_of_shortForm (text : String) :
    text = vocabulary.shortForm text ∨ text = vocabulary.stem ++ vocabulary.shortForm text := by
  rw [shortForm]
  split
  · rename_i starts
    refine .inr (String.toList_injective ?_)
    rw [String.toList_append, String.toList_ofList]
    exact (List.prefix_iff_eq_append.mp (List.isPrefixOf_iff_prefix.mp starts)).symm
  · exact .inl rfl

variable {vocabulary}

theorem parse_eq_some_iff (unambiguous : vocabulary.Unambiguous) {value : Json} {a : α} :
    vocabulary.parse value = some a ↔ vocabulary.Spells value a := by
  constructor
  · intro read
    cases value with
    | num n =>
      simp only [parse, Option.bind_eq_bind, Option.bind_eq_some_iff] at read
      obtain ⟨place, index, ⟨word, b⟩, known, same⟩ := read
      cases same
      exact .number index known
    | str text =>
      simp only [parse, Option.bind_eq_bind, Option.bind_eq_some_iff] at read
      obtain ⟨⟨word, b⟩, found, same⟩ := read
      cases same
      have known := List.mem_of_find?_eq_some found
      have spelled : word = vocabulary.shortForm text := by simpa using List.find?_some found
      rcases vocabulary.text_of_shortForm text with whole | stemmed
      · rw [whole, ← spelled]
        exact .short known
      · rw [stemmed, ← spelled]
        exact .long known
    | _ => cases read
  · intro spells
    cases spells with
    | number index known => simp [parse, index, known]
    | @short word _ known =>
      -- The word might be taken for one behind the stem, if it started with it.
      have whole : vocabulary.shortForm word = word := by
        rw [shortForm, if_neg (by simp [unambiguous.stemless _ known])]
      simp [parse, whole, find?_of_nodup unambiguous.distinct known]
    | long known => simp [parse, shortForm_stem, find?_of_nodup unambiguous.distinct known]

theorem isSome_parse_iff (unambiguous : vocabulary.Unambiguous) {value : Json} :
    (vocabulary.parse value).isSome = true ↔ ∃ a, vocabulary.Spells value a := by
  simp only [Option.isSome_iff_exists, parse_eq_some_iff unambiguous]

end Vocabulary

theorem Int64Encoding.unambiguous : vocabulary.Unambiguous := ⟨by decide, by decide⟩

theorem EnumEncoding.unambiguous : vocabulary.Unambiguous := ⟨by decide, by decide⟩

theorem TimestampFormat.unambiguous : vocabulary.Unambiguous := ⟨by decide, by decide⟩

theorem BytesEncoding.unambiguous : vocabulary.Unambiguous := ⟨by decide, by decide⟩

theorem EmptyBehavior.unambiguous : vocabulary.Unambiguous := ⟨by decide, by decide⟩

namespace Directive

def catalogue : List Directive :=
  [.unwrap, .flatten, .flattenPrefix, .nullable, .int64Encoding, .enumEncoding, .timestampFormat, .bytesEncoding,
    .emptyBehavior, .oneofValue]

def key (package : String) (directive : Directive) : String := "[" ++ package ++ "." ++ directive.name ++ "]"

/-- The raw values that can be interpreted: flags, texts, texts that are not empty, words of a vocabulary, and for a
oneof a configuration which, if it flattens, names a discriminator. -/
def Accepts (value : Json) : Directive → Prop
  | .unwrap | .flatten | .nullable => ∃ on, value = .bool on
  | .flattenPrefix => ∃ text, value = .str text
  | .oneofValue | .enumValue => ∃ text, value = .str text ∧ text ≠ ""
  | .int64Encoding => ∃ a, Int64Encoding.vocabulary.Spells value a
  | .enumEncoding => ∃ a, EnumEncoding.vocabulary.Spells value a
  | .timestampFormat => ∃ a, TimestampFormat.vocabulary.Spells value a
  | .bytesEncoding => ∃ a, BytesEncoding.vocabulary.Spells value a
  | .emptyBehavior => ∃ a, EmptyBehavior.vocabulary.Spells value a
  | .oneofConfig => ∃ config, Json.Reader.readJson (OneofConfig.record.reader .value) value = .ok config ∧
      (config.flatten = true → config.discriminator ≠ "")

instance decidableText (value : Json) : Decidable (∃ text, value = .str text) :=
  decidable_of_iff (value.str?.isSome = true) (by cases value <;> simp [Json.str?])

instance decidableFilled (value : Json) : Decidable (∃ text, value = .str text ∧ text ≠ "") :=
  decidable_of_iff (value.str?.any (· ≠ "") = true) (by cases value <;> simp [Json.str?])

instance decidableFlag (value : Json) : Decidable (∃ on, value = .bool on) :=
  decidable_of_iff (value.bool?.isSome = true) (by cases value <;> simp [Json.bool?])

instance decidableConfig (value : Json) : Decidable (∃ config,
    Json.Reader.readJson (OneofConfig.record.reader .value) value = .ok config ∧
      (config.flatten = true → config.discriminator ≠ "")) :=
  decidable_of_iff ((Json.Reader.readJson (OneofConfig.record.reader .value) value).toOption.any
    (fun config => config.flatten = true → config.discriminator ≠ "") = true) (by
      cases Json.Reader.readJson (OneofConfig.record.reader .value) value <;>
        simp [Except.toOption, imp_iff_not_or])

instance (value : Json) : (directive : Directive) → Decidable (directive.Accepts value)
  | .unwrap | .flatten | .nullable => decidableFlag value
  | .flattenPrefix => decidableText value
  | .oneofValue | .enumValue => decidableFilled value
  | .int64Encoding => decidable_of_iff _ (Vocabulary.isSome_parse_iff Int64Encoding.unambiguous)
  | .enumEncoding => decidable_of_iff _ (Vocabulary.isSome_parse_iff EnumEncoding.unambiguous)
  | .timestampFormat => decidable_of_iff _ (Vocabulary.isSome_parse_iff TimestampFormat.unambiguous)
  | .bytesEncoding => decidable_of_iff _ (Vocabulary.isSome_parse_iff BytesEncoding.unambiguous)
  | .emptyBehavior => decidable_of_iff _ (Vocabulary.isSome_parse_iff EmptyBehavior.unambiguous)
  | .oneofConfig => decidableConfig value

def complaint (value : Json) : Directive → Malformation
  | .unwrap | .flatten | .nullable => .wrongKind "boolean" value
  | .flattenPrefix => .wrongKind "string" value
  | .oneofValue => if value.str? = some "" then .emptyValue else .wrongKind "string" value
  | .enumValue => if value.str? = some "" then .emptyName else .wrongKind "string" value
  | .int64Encoding => .unknownWord value Int64Encoding.vocabulary.expected
  | .enumEncoding => .unknownWord value EnumEncoding.vocabulary.expected
  | .timestampFormat => .unknownWord value TimestampFormat.vocabulary.expected
  | .bytesEncoding => .unknownWord value BytesEncoding.vocabulary.expected
  | .emptyBehavior => .unknownWord value EmptyBehavior.vocabulary.expected
  | .oneofConfig =>
    match Json.Reader.readJson (OneofConfig.record.reader .value) value with
    | .error error => .wrongShape error
    | .ok _ => .flattenWithoutDiscriminator

def malformed? (options : Option Schema.Options) (package : String) (directive : Directive) : Option Malformed :=
  (options.bind (·.get? (directive.key package))).bind fun value =>
    if directive.Accepts value then none else some ⟨directive, directive.complaint value⟩

theorem malformed?_eq_some_iff {options : Option Schema.Options} {package : String} {directive : Directive}
    {malformed : Malformed} : directive.malformed? options package = some malformed ↔
      ∃ value, options.bind (·.get? (directive.key package)) = some value ∧ ¬ directive.Accepts value ∧
        malformed = ⟨directive, directive.complaint value⟩ := by
  simp only [malformed?, Option.bind_eq_some_iff, Option.ite_none_left_eq_some, Option.some_inj, @eq_comm _ malformed]

theorem key_injective (package : String) : Function.Injective (key package) := by
  have distinct : ([.unwrap, .flatten, .flattenPrefix, .nullable, .int64Encoding, .enumEncoding, .timestampFormat,
    .bytesEncoding, .emptyBehavior, .oneofValue, .oneofConfig, .enumValue].map name).Nodup := by decide
  intro a b same
  rw [key, key, String.append_left_inj, String.append_right_inj] at same
  exact List.inj_on_of_nodup_map distinct (by cases a <;> simp) (by cases b <;> simp) same

end Directive

namespace Raw

structure Reads {α : Type} (directive : Directive) (absent : α) (read : Option Json → Outcome α) : Prop where
  absent : read none = .ok absent
  accepted : ∀ value, directive.Accepts value → ∃ a, read (some value) = .ok a
  refused : ∀ value, ¬ directive.Accepts value → read (some value) = .error (directive.complaint value)

section Readers

variable {α : Type} {directive : Directive}

theorem reads_flag (accepts : ∀ value, directive.Accepts value ↔ ∃ on, value = .bool on)
    (complains : ∀ value, directive.complaint value = .wrongKind "boolean" value) : Reads directive false flag where
  absent := rfl
  accepted value fits := by
    obtain ⟨on, rfl⟩ := (accepts value).mp fits
    exact ⟨on, rfl⟩
  refused value unfit := by
    rw [accepts] at unfit
    rw [complains]
    cases value with
    | bool on => exact absurd ⟨on, rfl⟩ unfit
    | _ => rfl

theorem reads_text (accepts : ∀ value, directive.Accepts value ↔ ∃ text, value = .str text)
    (complains : ∀ value, directive.complaint value = .wrongKind "string" value) : Reads directive none text where
  absent := rfl
  accepted value fits := by
    obtain ⟨s, rfl⟩ := (accepts value).mp fits
    exact ⟨some s, rfl⟩
  refused value unfit := by
    rw [accepts] at unfit
    rw [complains]
    cases value with
    | str s => exact absurd ⟨s, rfl⟩ unfit
    | _ => rfl

theorem reads_filled {problem : Malformation}
    (accepts : ∀ value, directive.Accepts value ↔ ∃ text, value = .str text ∧ text ≠ "")
    (complains : ∀ value, directive.complaint value =
      if value.str? = some "" then problem else .wrongKind "string" value) :
    Reads directive none fun raw => nonEmpty problem (text raw) where
  absent := rfl
  accepted value fits := by
    obtain ⟨s, rfl, filled⟩ := (accepts value).mp fits
    have present : s.isEmpty = false := by simpa [← Bool.not_eq_true, String.isEmpty_iff] using filled
    exact ⟨some s, by simp [text, nonEmpty, present]⟩
  refused value unfit := by
    rw [accepts] at unfit
    rw [complains]
    cases value with
    | str s =>
      have empty : s = "" := by simpa using unfit
      subst empty
      rfl
    | _ => rfl

theorem reads_word [Inhabited α] {vocabulary : Vocabulary α} (unambiguous : vocabulary.Unambiguous)
    (accepts : ∀ value, directive.Accepts value ↔ ∃ a, vocabulary.Spells value a)
    (complains : ∀ value, directive.complaint value = .unknownWord value vocabulary.expected) :
    Reads directive default (word vocabulary) where
  absent := rfl
  accepted value fits := by
    obtain ⟨a, spells⟩ := (accepts value).mp fits
    exact ⟨a, by rw [word, (Vocabulary.parse_eq_some_iff unambiguous).mpr spells]⟩
  refused value unfit := by
    rw [accepts, ← Vocabulary.isSome_parse_iff unambiguous, Bool.not_eq_true, Option.isSome_eq_false_iff,
      Option.isNone_iff_eq_none] at unfit
    rw [complains, word, unfit]

variable {absent : α} {read : Option Json → Outcome α} (reads : Reads directive absent read)
  (options : Option Schema.Options) (package : String)

include reads

theorem Reads.problem?_eq :
    problem? directive (read (find? options package directive)) = directive.malformed? options package := by
  have raw : options.bind (·.get? (directive.key package)) = find? options package directive := rfl
  rw [Directive.malformed?, raw]
  cases find? options package directive with
  | none => rw [reads.absent]; rfl
  | some value =>
    by_cases fits : directive.Accepts value
    · obtain ⟨a, given⟩ := reads.accepted value fits
      rw [given, Option.bind_some, if_pos fits]
      rfl
    · rw [reads.refused value fits, Option.bind_some, if_neg fits]
      rfl

theorem Reads.valueOr_eq
    (unread : ∀ value, options.bind (·.get? (directive.key package)) = some value → ¬ directive.Accepts value) :
    valueOr absent (read (find? options package directive)) = absent := by
  cases raw : find? options package directive with
  | none => rw [reads.absent]; rfl
  | some value => rw [reads.refused value (unread value raw)]; rfl

end Readers

end Raw

namespace Annotations

def SameAt (a b : Annotations) : Directive → Prop
  | .unwrap => a.unwrap = b.unwrap
  | .flatten => a.flatten = b.flatten
  | .flattenPrefix => a.flattenPrefix = b.flattenPrefix
  | .nullable => a.nullable = b.nullable
  | .int64Encoding => a.int64 = b.int64
  | .enumEncoding => a.enumeration = b.enumeration
  | .timestampFormat => a.timestamp = b.timestamp
  | .bytesEncoding => a.bytes = b.bytes
  | .emptyBehavior => a.empty = b.empty
  | .oneofValue => a.oneofValue = b.oneofValue
  | .oneofConfig | .enumValue => True

theorem SameAt.of_both {a b c : Annotations} {directive : Directive} (first : a.SameAt c directive)
    (second : b.SameAt c directive) : a.SameAt b directive := by
  cases directive with
  | oneofConfig | enumValue => trivial
  | _ => exact Eq.trans first (Eq.symm second)

theorem ext_sameAt {a b : Annotations} (same : ∀ directive ∈ Directive.catalogue, a.SameAt b directive) : a = b := by
  cases a
  cases b
  simpa [Directive.catalogue, SameAt] using same

variable (package : String)

theorem problems_ofField (field : Schema.Field) :
    (ofField package field).2 = Directive.catalogue.filterMap (Directive.malformed? field.options package) := by
  have flag {directive : Directive} (accepts : ∀ value, directive.Accepts value ↔ ∃ on, value = .bool on)
      (complains : ∀ value, directive.complaint value = .wrongKind "boolean" value) :=
    (Raw.reads_flag accepts complains).problem?_eq field.options package
  have word {α : Type} [Inhabited α] {vocabulary : Vocabulary α} (unambiguous : vocabulary.Unambiguous)
      {directive : Directive} (accepts : ∀ value, directive.Accepts value ↔ ∃ a, vocabulary.Spells value a)
      (complains : ∀ value, directive.complaint value = .unknownWord value vocabulary.expected) :=
    (Raw.reads_word unambiguous accepts complains).problem?_eq field.options package
  -- Both sides are the reports among ten outcomes, which agree one by one.
  rw [← Function.id_comp (Directive.malformed? _ _), ← List.filterMap_map]
  simp only [ofField]
  refine congrArg (List.filterMap id) ?_
  simp only [Directive.catalogue, List.map_cons, List.map_nil, List.cons.injEq, and_true]
  exact ⟨flag (fun _ => .rfl) fun _ => rfl, flag (fun _ => .rfl) fun _ => rfl,
    (Raw.reads_text (fun _ => .rfl) fun _ => rfl).problem?_eq _ _, flag (fun _ => .rfl) fun _ => rfl,
    word Int64Encoding.unambiguous (fun _ => .rfl) fun _ => rfl,
    word EnumEncoding.unambiguous (fun _ => .rfl) fun _ => rfl,
    word TimestampFormat.unambiguous (fun _ => .rfl) fun _ => rfl,
    word BytesEncoding.unambiguous (fun _ => .rfl) fun _ => rfl,
    word EmptyBehavior.unambiguous (fun _ => .rfl) fun _ => rfl,
    (Raw.reads_filled (fun _ => .rfl) fun _ => rfl).problem?_eq _ _⟩

theorem sameAt_none {field : Schema.Field} {directive : Directive}
    (unread : ∀ value, field.options.bind (·.get? (directive.key package)) = some value → ¬ directive.Accepts value) :
    (ofField package field).1.SameAt none directive := by
  cases directive with
  | unwrap | flatten | nullable => exact (Raw.reads_flag (fun _ => .rfl) fun _ => rfl).valueOr_eq _ _ unread
  | flattenPrefix => exact (Raw.reads_text (fun _ => .rfl) fun _ => rfl).valueOr_eq _ _ unread
  | oneofValue => exact (Raw.reads_filled (fun _ => .rfl) fun _ => rfl).valueOr_eq _ _ unread
  | int64Encoding => exact (Raw.reads_word Int64Encoding.unambiguous (fun _ => .rfl) fun _ => rfl).valueOr_eq _ _ unread
  | enumEncoding => exact (Raw.reads_word EnumEncoding.unambiguous (fun _ => .rfl) fun _ => rfl).valueOr_eq _ _ unread
  | timestampFormat =>
    exact (Raw.reads_word TimestampFormat.unambiguous (fun _ => .rfl) fun _ => rfl).valueOr_eq _ _ unread
  | bytesEncoding => exact (Raw.reads_word BytesEncoding.unambiguous (fun _ => .rfl) fun _ => rfl).valueOr_eq _ _ unread
  | emptyBehavior => exact (Raw.reads_word EmptyBehavior.unambiguous (fun _ => .rfl) fun _ => rfl).valueOr_eq _ _ unread
  | oneofConfig | enumValue => trivial

theorem sameAt_of_find? {a b : Schema.Field} {directive : Directive}
    (same : Raw.find? a.options package directive = Raw.find? b.options package directive) :
    (ofField package a).1.SameAt (ofField package b).1 directive := by
  cases directive with
  | oneofConfig | enumValue => trivial
  | _ => simp only [ofField, SameAt, same]

theorem ofField_congr {a b : Schema.Field} (same : ∀ directive ∈ Directive.catalogue,
    a.options.bind (·.get? (directive.key package)) = b.options.bind (·.get? (directive.key package))) :
    ofField package a = ofField package b := by
  refine Prod.ext (ext_sameAt fun directive listed => sameAt_of_find? package (same directive listed)) ?_
  rw [problems_ofField, problems_ofField]
  refine List.filterMap_congr fun directive listed => ?_
  rw [Directive.malformed?, Directive.malformed?, same directive listed]

end Annotations

def KeyMap.without {α : Type} (m : KeyMap α) (key : String) : KeyMap α :=
  ⟨m.entries.filter fun entry => entry.1 ≠ key, m.sorted.filter _⟩

theorem KeyMap.get?_without {α : Type} (m : KeyMap α) (key other : String) :
    (m.without key).get? other = if key = other then none else m.get? other :=
  Entries.get?_filter_ne m.entries key other

def Schema.Field.without (field : Schema.Field) (package : String) (directive : Directive) : Schema.Field :=
  { field with options := field.options.map (·.without (directive.key package)) }

namespace Annotations

variable {package : String} {field : Schema.Field} {directive : Directive}

theorem raw_without (other : Directive) :
    (field.without package directive).options.bind (·.get? (other.key package)) =
      if directive = other then Option.none else field.options.bind (·.get? (other.key package)) := by
  rw [Schema.Field.without]
  cases field.options with
  | none => simp
  | some options =>
    simp only [Option.map_some, Option.bind_some, KeyMap.get?_without, (Directive.key_injective package).eq_iff]

theorem ofField_without {malformed : Malformed} (bad : directive.malformed? field.options package = some malformed) :
    ofField package (field.without package directive) =
      ((ofField package field).1, (ofField package field).2.filter (·.directive ≠ directive)) := by
  obtain ⟨raw, given, refused, rfl⟩ := Directive.malformed?_eq_some_iff.mp bad
  refine Prod.ext (ext_sameAt fun other _ => ?values) ?reports
  case values =>
    by_cases same : directive = other
    · -- Without its key the directive has its default, which it has with a malformed value as well.
      subst same
      have absent : (ofField package (field.without package directive)).1.SameAt .none directive :=
        sameAt_none package fun value there => by rw [raw_without, if_pos rfl] at there; cases there
      have default : (ofField package field).1.SameAt .none directive :=
        sameAt_none package fun value there => by cases given.symm.trans there; exact refused
      exact absent.of_both default
    · exact sameAt_of_find? package ((raw_without other).trans (if_neg same))
  case reports =>
    dsimp only
    rw [problems_ofField, problems_ofField, List.filter_filterMap]
    refine List.filterMap_congr fun other _ => ?_
    rw [Directive.malformed?, raw_without]
    by_cases same : directive = other
    · subst same
      rw [if_pos rfl, bad]
      simp [Option.filter]
    · rw [if_neg same, ← Directive.malformed?]
      cases report : other.malformed? field.options package with
      | none => rfl
      | some malformed =>
        obtain ⟨_, _, _, rfl⟩ := Directive.malformed?_eq_some_iff.mp report
        simp [Option.filter, Ne.symm same]

end Annotations

theorem OneofConfig.problem?_ofOneof (package : String) (oneof : Schema.Oneof) :
    Raw.problem? .oneofConfig (ofOneof package oneof) = Directive.malformed? oneof.options package .oneofConfig := by
  have raw : oneof.options.bind (·.get? (Directive.key package .oneofConfig)) =
      Raw.find? oneof.options package .oneofConfig := rfl
  rw [Directive.malformed?, raw, ofOneof]
  cases Raw.find? oneof.options package .oneofConfig with
  | none => rfl
  | some value =>
    dsimp only
    rw [Option.bind_some]
    by_cases fits : Directive.Accepts value .oneofConfig
    · obtain ⟨config, read, proper⟩ := fits
      rw [if_pos ⟨config, read, proper⟩, read]
      cases flattens : config.flatten <;> by_cases empty : config.discriminator = "" <;>
        simp_all [Raw.problem?]
    · rw [if_neg fits, Directive.complaint]
      cases read : Json.Reader.readJson (record.reader .value) value with
      | error error => rfl
      | ok config =>
        have unnamed : config.flatten = true ∧ config.discriminator = "" := by
          simpa [Directive.Accepts, read] using fits
        simp [Raw.problem?, unnamed]

theorem problem?_customName (package : String) (value : Schema.EnumValue) :
    Raw.problem? .enumValue (customName package value) = Directive.malformed? value.options package .enumValue :=
  (Raw.reads_filled (fun _ => .rfl) fun _ => rfl).problem?_eq value.options package

end Wireform
