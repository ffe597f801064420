import Wireform.Proofs.OrderlyMessages
import Wireform.Proofs.PropertyTables
import Wireform.Proofs.SeenMembers

set_option autoImplicit false

namespace Wireform.Index

/-- Names within a message are distinct, and members of oneofs have no containers. -/
structure Named (index : Index) : Prop where
  jsonNames : ∀ m ∈ index.messages.values, (m.fields.map (·.jsonName)).Nodup
  names : ∀ m ∈ index.messages.values, (m.fields.map (·.name)).Nodup
  oneofs : ∀ m ∈ index.messages.values, (m.oneofs.map (·.name)).Nodup
  members : ∀ m ∈ index.messages.values, ∀ f ∈ m.fields, f.oneof ≠ none → f.isSingular = true

instance (index : Index) : Decidable index.Named :=
  decidable_of_iff ((∀ m ∈ index.messages.values, (m.fields.map (·.jsonName)).Nodup) ∧
      (∀ m ∈ index.messages.values, (m.fields.map (·.name)).Nodup) ∧
      (∀ m ∈ index.messages.values, (m.oneofs.map (·.name)).Nodup) ∧
      ∀ m ∈ index.messages.values, ∀ f ∈ m.fields, f.oneof ≠ none → f.isSingular = true)
    ⟨fun ⟨jsonNames, names, oneofs, members⟩ => ⟨jsonNames, names, oneofs, members⟩,
      fun named => ⟨named.jsonNames, named.names, named.oneofs, named.members⟩⟩

/-- A key of a message and what it is declared as, at the place of one of its fields. -/
inductive Shows (index : Index) : Message → Field → String → Shown → Prop
  | plain {m : Message} {f : Field} (alone : m.groupOf? f = none) (unlifted : f.lifted? = none) :
      Shows index m f f.jsonName (.member .plain (Interface.memberOf index.plans m f))
  | lifted {m c : Message} {f g : Field} {type pre key : String} {shown : Shown} (alone : m.groupOf? f = none)
      (lifted : f.lifted? = some (type, pre)) (found : index.message? type = some c) (inside : g ∈ c.fields)
      (below : Shows index c g key shown) : Shows index m f (pre ++ key) shown
  | tag {m : Message} {f : Field} {group : Oneof × OneofConfig} (grouped : m.groupOf? f = some group)
      (first : group.1.members.head? = some f.name) :
      Shows index m f group.2.discriminator (.tag ((m.oneofMembers group.1).map Field.variantValue))
  | variant {m : Message} {f v : Field} {group : Oneof × OneofConfig} (grouped : m.groupOf? f = some group)
      (first : group.1.members.head? = some f.name) (beside : group.2.flatten = false)
      (member : v ∈ m.oneofMembers group.1) :
      Shows index m f v.jsonName (.member .variant (Interface.memberOf index.plans m v))
  | liftedVariant {m c : Message} {f v g : Field} {group : Oneof × OneofConfig} {type key : String} {shown : Shown}
      (grouped : m.groupOf? f = some group) (first : group.1.members.head? = some f.name)
      (flatten : group.2.flatten = true) (member : v ∈ m.oneofMembers group.1) (typed : v.message? = some type)
      (found : index.message? type = some c) (inside : g ∈ c.fields) (below : Shows index c g key shown) :
      Shows index m f key shown

section Laid

variable {index : Index} (sound : index.Sound)

include sound

theorem message?_type {name : String} {m : Message} (found : index.message? name = some m) {f : Field}
    (inside : f ∈ m.fields) {type : String} (typed : f.message? = some type) {c : Message}
    (there : index.message? type = some c) : bareName type = type ∧ c.fullName = type := by
  have bare := (sound.wellFormed name m found).typeName f inside type typed
  exact ⟨bare, fullName_eq sound bare there⟩

theorem laid_of_message {name : String} {m : Message} (found : index.message? name = some m) :
    (∀ f ∈ m.fields, fieldKeys index.childLayout m "" f = .ok (index.fieldLaid m f)) ∧
      index.laidKeys m.fullName = m.fields.flatMap (index.fieldLaid m) ∧
      (m.lifting?.isSome = true → (index.laidKeys m.fullName).Nodup) := by
  have same : m.fullName = bareName name := sound.named _ m found
  have bare : bareName m.fullName = m.fullName := by rw [same, bareName_idempotent]
  exact laidKeys_eq sound bare (message?_fullName sound.toKeyed found)

theorem laid_of_shows {m : Message} {f : Field} {key : String} {shown : Shown}
    (shows : index.Shows m f key shown) {name : String} (found : index.message? name = some m)
    (inside : f ∈ m.fields) : key ∈ index.fieldLaid m f := by
  induction shows generalizing name with
  | plain alone unlifted =>
    rw [fieldLaid_own ((laid_of_message sound found).1 _ inside) alone, ownKeys_of_unlifted unlifted]
    exact List.mem_singleton_self _
  | lifted alone lifted there among _ ih =>
    rename_i type pre key _ _
    obtain ⟨_, typed, _⟩ := Index.lifted?_eq_some lifted
    obtain ⟨_, same⟩ := message?_type sound found inside typed there
    have laid : key ∈ index.laidKeys type := by
      rw [← same, (laid_of_message sound there).2.1]
      exact List.mem_flatMap.mpr ⟨_, among, ih there among⟩
    rw [fieldLaid_own ((laid_of_message sound found).1 _ inside) alone, ownKeys, lifted]
    exact List.mem_map.mpr ⟨key, laid, rfl⟩
  | tag grouped first =>
    obtain ⟨variants, laid, _⟩ := fieldLaid_group ((laid_of_message sound found).1 _ inside) grouped first
    rw [laid]
    exact List.mem_cons_self
  | variant grouped first beside member =>
    obtain ⟨variants, laid, names, _⟩ := fieldLaid_group ((laid_of_message sound found).1 _ inside) grouped first
    rw [laid, names beside]
    exact List.mem_cons_of_mem _ (List.mem_map.mpr ⟨_, member, rfl⟩)
  | liftedVariant grouped first flatten member typed there among _ ih =>
    obtain ⟨variants, laid, _, lifted⟩ := fieldLaid_group ((laid_of_message sound found).1 _ inside) grouped first
    obtain ⟨_, _, declared⟩ := mem_oneofMembers.mp member
    obtain ⟨_, same⟩ := message?_type sound found (mem_of_field? declared).1 typed there
    rw [laid]
    refine List.mem_cons_of_mem _ (lifted flatten _ member _ typed _ ?_)
    rw [← same, (laid_of_message sound there).2.1]
    exact List.mem_flatMap.mpr ⟨_, among, ih there among⟩

end Laid

section Places

variable {index : Index} (sound : index.Sound) {name : String} {m : Message}
  (found : index.message? name = some m) (names : (m.fields.map (·.jsonName)).Nodup)

include sound found names

theorem places_of_names : index.Places m := by
  have same : m.fullName = bareName name := sound.named _ m found
  have bare : bareName m.fullName = m.fullName := by rw [same, bareName_idempotent]
  have itself := message?_fullName sound.toKeyed found
  cases lifts : m.lifting? with
  | some culprit => exact places_of_sound sound bare itself (by rw [lifts]; rfl)
  | none =>
    obtain ⟨flat, plain⟩ := lifting?_none lifts
    obtain ⟨each, laid, _⟩ := laid_of_message sound found
    have own : ∀ f ∈ m.fields, index.fieldLaid m f = [f.jsonName] := by
      intro f inside
      have unlifted : f.lifted? = none := by rw [Field.lifted?, flat f inside]
      rw [fieldLaid_own (each f inside) (groupOf?_of_plain plain f), ownKeys_of_unlifted unlifted]
    refine ⟨sound.wellFormed name m found, Codec.checked_of_sound sound found, each, laid, ?_, ?_⟩
    · intro f inside
      rw [own f inside]
      exact List.nodup_singleton _
    · intro f first g second differ
      rw [own f first, own g second, List.singleton_disjoint, List.mem_singleton]
      exact fun same => differ (eq_of_nodup names first second same)

end Places

section Declared

variable {index : Index} {m : Message} (sound : index.Sound) {name : String}
  (found : index.message? name = some m) (places : index.Places m) {f h : Field} (inside : f ∈ m.fields)
  (there : h ∈ m.fields) {shown : Shown}

include sound found places inside there

theorem place_of_shows {key : String} (shows : index.Shows m h key shown) (laid : key ∈ index.fieldLaid m f) :
    h = f := by
  by_contra differ
  exact places.apart h there f inside differ (laid_of_shows sound shows found there) laid

theorem shown_plain (alone : m.groupOf? f = none) (unlifted : f.lifted? = none)
    (shows : index.Shows m h f.jsonName shown) : shown = .member .plain (Interface.memberOf index.plans m f) := by
  have laid : f.jsonName ∈ index.fieldLaid m f := by
    rw [fieldLaid_own (places.each f inside) alone, ownKeys_of_unlifted unlifted]
    exact List.mem_singleton_self _
  have same := place_of_shows sound found places inside there shows laid
  subst same
  generalize h.jsonName = key at shows
  cases shows with
  | plain => rfl
  | lifted _ lifted => cases unlifted.symm.trans lifted
  | tag grouped => cases alone.symm.trans grouped
  | variant grouped => cases alone.symm.trans grouped
  | liftedVariant grouped => cases alone.symm.trans grouped

theorem shown_lifted (alone : m.groupOf? f = none) {type pre : String} (lifted : f.lifted? = some (type, pre))
    {c : Message} (known : index.message? type = some c) {key : String} (laid : key ∈ index.laidKeys type)
    (shows : index.Shows m h (pre ++ key) shown) : ∃ g ∈ c.fields, index.Shows c g key shown := by
  have own : pre ++ key ∈ index.fieldLaid m f := by
    rw [fieldLaid_own (places.each f inside) alone, ownKeys, lifted]
    exact List.mem_map.mpr ⟨key, laid, rfl⟩
  have same := place_of_shows sound found places inside there shows own
  subst same
  generalize behind : pre ++ key = whole at shows
  cases shows with
  | plain _ unlifted => cases unlifted.symm.trans lifted
  | lifted _ lifted' known' among below =>
    cases lifted.symm.trans lifted'
    cases known.symm.trans known'
    cases Codec.prefix_injective pre _ _ behind
    exact ⟨_, among, below⟩
  | tag grouped => cases alone.symm.trans grouped
  | variant grouped => cases alone.symm.trans grouped
  | liftedVariant grouped => cases alone.symm.trans grouped

variable {group : Oneof × OneofConfig} (grouped : m.groupOf? f = some group)
  (first : group.1.members.head? = some f.name)

include grouped first

theorem shown_tag (shows : index.Shows m h group.2.discriminator shown) :
    shown = .tag ((m.oneofMembers group.1).map Field.variantValue) := by
  obtain ⟨variants, laid, names, lifted⟩ := fieldLaid_group (places.each f inside) grouped first
  have nodup := places.nodup f inside
  rw [laid, List.nodup_cons] at nodup
  have same := place_of_shows sound found places inside there shows (by rw [laid]; exact List.mem_cons_self)
  subst same
  generalize tagged : group.2.discriminator = key at shows
  cases shows with
  | plain alone => cases alone.symm.trans grouped
  | lifted alone => cases alone.symm.trans grouped
  | tag grouped' =>
    cases grouped.symm.trans grouped'
    rfl
  | variant grouped' _ beside member =>
    cases grouped.symm.trans grouped'
    refine absurd ?_ nodup.1
    rw [names beside, tagged]
    exact List.mem_map.mpr ⟨_, member, rfl⟩
  | liftedVariant grouped' _ flatten member typed known among below =>
    cases grouped.symm.trans grouped'
    refine absurd (lifted flatten _ member _ typed _ ?_) nodup.1
    obtain ⟨_, _, declared⟩ := mem_oneofMembers.mp member
    obtain ⟨_, same⟩ := message?_type sound found (mem_of_field? declared).1 typed known
    rw [tagged, ← same, (laid_of_message sound known).2.1]
    exact List.mem_flatMap.mpr ⟨_, among, laid_of_shows sound below known among⟩

theorem shown_variant {key : String} (laid : key ∈ index.fieldLaid m f) (other : key ≠ group.2.discriminator)
    (shows : index.Shows m h key shown) :
    (group.2.flatten = false ∧ ∃ v ∈ m.oneofMembers group.1, v.jsonName = key ∧
      shown = .member .variant (Interface.memberOf index.plans m v)) ∨
    (group.2.flatten = true ∧ ∃ v ∈ m.oneofMembers group.1, ∃ type c, v.message? = some type ∧
      index.message? type = some c ∧ ∃ g ∈ c.fields, index.Shows c g key shown) := by
  have same := place_of_shows sound found places inside there shows laid
  subst same
  cases shows with
  | plain alone => cases alone.symm.trans grouped
  | lifted alone => cases alone.symm.trans grouped
  | tag grouped' =>
    cases grouped.symm.trans grouped'
    exact absurd rfl other
  | variant grouped' _ beside member =>
    cases grouped.symm.trans grouped'
    exact .inl ⟨beside, _, member, rfl, rfl⟩
  | liftedVariant grouped' _ flatten member typed known among below =>
    cases grouped.symm.trans grouped'
    exact .inr ⟨flatten, _, member, _, _, typed, known, _, among, below⟩

end Declared

section Origins

variable {child : String → String → KeyLayout} {m : Message} {pre key : String} {keys : List String}

theorem origin_of_variantKeys {flatten : Bool} {before : List String} {members : List Field}
    (run : variantKeys child flatten pre before members = .ok keys) (inside : key ∈ keys) :
    key ∈ before ∨ ∃ v ∈ members,
      (flatten = true ∧ ∃ type lifted, v.message? = some type ∧ child type pre = .ok lifted ∧ key ∈ lifted) ∨
      ((flatten = false ∨ v.message? = none) ∧ key = pre ++ v.jsonName) := by
  induction members generalizing before with
  | nil =>
    cases Except.ok.inj run
    exact .inl inside
  | cons v rest ih =>
    by_cases lifts : flatten = true ∧ ∃ type, v.message? = some type
    · obtain ⟨rfl, type, typed⟩ := lifts
      rw [variantKeys_lifted typed] at run
      obtain ⟨lifted, below, run⟩ := bind_eq_ok run
      rcases ih run with before | ⟨w, there, from_w⟩
      · refine (mem_addNew.mp before).imp_right fun own => ⟨v, List.mem_cons_self, .inl ?_⟩
        exact ⟨rfl, type, lifted, typed, below, own⟩
      · exact .inr ⟨w, List.mem_cons_of_mem v there, from_w⟩
    · have plain : flatten = false ∨ v.message? = none := by
        cases flatten with
        | false => exact .inl rfl
        | true => exact .inr (Option.eq_none_iff_forall_ne_some.mpr fun type typed => lifts ⟨rfl, type, typed⟩)
      rw [variantKeys_beside plain] at run
      rcases ih run with before | ⟨w, there, from_w⟩
      · rcases List.mem_append.mp before with before | own
        · exact .inl before
        · exact .inr ⟨v, List.mem_cons_self, .inr ⟨plain, List.mem_singleton.mp own⟩⟩
      · exact .inr ⟨w, List.mem_cons_of_mem v there, from_w⟩

theorem origin_of_fieldsKeys {fields : List Field} (run : fieldsKeys child m pre fields = .ok keys)
    (inside : key ∈ keys) : ∃ f ∈ fields, ∃ own, fieldKeys child m pre f = .ok own ∧ key ∈ own := by
  induction fields generalizing keys with
  | nil =>
    cases Except.ok.inj run
    cases inside
  | cons f rest ih =>
    rw [fieldsKeys] at run
    obtain ⟨own, first, run⟩ := bind_eq_ok run
    obtain ⟨others, later, same⟩ := bind_eq_ok run
    cases Except.ok.inj same
    rcases List.mem_append.mp inside with here | there
    · exact ⟨f, List.mem_cons_self, own, first, here⟩
    · obtain ⟨g, among, from_g⟩ := ih later there
      exact ⟨g, List.mem_cons_of_mem f among, from_g⟩

end Origins

section Existence

variable {index : Index} (sound : index.Sound)

include sound

theorem message_of_member {name : String} {m : Message} (found : index.message? name = some m)
    {group : Oneof × OneofConfig} (grouped : group ∈ m.discriminated) (flatten : group.2.flatten = true) {v : Field}
    (member : v ∈ m.oneofMembers group.1) : ∃ type c, v.message? = some type ∧ index.message? type = some c ∧
      c.wellKnown = false ∧ c.isRootUnwrap = false := by
  obtain ⟨_, _, oneofErrors, _⟩ := Message.errors_parts (sound.errors name m found)
  obtain ⟨_, _, declared⟩ := mem_oneofMembers.mp member
  have clean := Message.member_of_memberErrors (Message.memberErrors_of_oneofErrors oneofErrors grouped) v member
  exact Message.message_of_variantIssues clean.2 (sound.resolved name m found v (mem_of_field? declared).1) flatten

section Below

variable {levels : Nat} {opened : List String}
  (below : ∀ type keys, keysWithin index levels opened type "" = .ok keys → ∀ c, index.message? type = some c →
    ∀ key ∈ keys, ∃ g ∈ c.fields, ∃ shown, index.Shows c g key shown)
  {name : String} {m : Message} (found : index.message? name = some m) {f : Field} {key : String}

include below found

theorem shown_of_variants {oneof : Oneof} {config : OneofConfig} (grouped : m.groupOf? f = some (oneof, config))
    (first : oneof.members.head? = some f.name) {keys : List String}
    (run : variantKeys (keysWithin index levels opened) config.flatten "" [] (m.oneofMembers oneof) = .ok keys)
    (inside : key ∈ keys) : ∃ shown, index.Shows m f key shown := by
  have group := (mem_of_groupOf? grouped).1
  rcases origin_of_variantKeys run inside with never | ⟨v, member, ⟨flatten, type, lifted, typed, laid, own⟩ |
    ⟨plain, rfl⟩⟩
  · cases never
  · obtain ⟨_, c, typed', known, _⟩ := message_of_member sound found group flatten member
    cases typed.symm.trans typed'
    obtain ⟨g, there, shown, shows⟩ := below type lifted laid c known key own
    exact ⟨shown, .liftedVariant grouped first flatten member typed known there shows⟩
  · have beside : config.flatten = false := by
      rcases plain with beside | foreign
      · exact beside
      · rw [← Bool.not_eq_true]
        intro flatten
        obtain ⟨_, _, typed, _⟩ := message_of_member sound found group flatten member
        rw [foreign] at typed
        cases typed
    rw [String.empty_append]
    exact ⟨_, .variant grouped first beside member⟩

theorem shown_of_fieldKeys (there : f ∈ m.fields) {keys : List String}
    (laid : fieldKeys (keysWithin index levels opened) m "" f = .ok keys) (inside : key ∈ keys) :
    ∃ shown, index.Shows m f key shown := by
  cases grouped : m.groupOf? f with
  | none =>
    rw [fieldKeys_alone grouped] at laid
    cases lifted : f.lifted? with
    | none =>
      rw [lifted] at laid
      cases Except.ok.inj laid
      rw [List.mem_singleton, String.empty_append] at inside
      subst inside
      exact ⟨_, .plain grouped lifted⟩
    | some target =>
      obtain ⟨type, pre⟩ := target
      rw [lifted] at laid
      dsimp only at laid
      rw [String.empty_append, ← String.append_empty (s := pre), keysWithin_behind] at laid
      obtain ⟨bare, run, same⟩ := map_eq_ok
        (show (List.map (pre ++ ·) <$> keysWithin index levels opened type "") = .ok keys from laid)
      rw [← same] at inside
      obtain ⟨k, listed, rfl⟩ := List.mem_map.mp inside
      have flattened := Index.lifted?_eq_some lifted
      obtain ⟨_, c, typed, known, _⟩ := (Codec.checked_of_sound sound found f there).flatten flattened.1
      cases typed.symm.trans flattened.2.1
      obtain ⟨g, among, shown, shows⟩ := below type bare run c known k listed
      exact ⟨shown, .lifted grouped lifted known among shows⟩
  -- A oneof is laid out at its first member, the tag before the keys of the variants.
  | some group =>
    obtain ⟨oneof, config⟩ := group
    rw [fieldKeys, grouped] at laid
    dsimp only at laid
    split at laid
    · rename_i first
      obtain ⟨variants, run, same⟩ := bind_eq_ok laid
      rw [← Except.ok.inj same, String.empty_append] at inside
      rcases List.mem_cons.mp inside with rfl | later
      · exact ⟨_, .tag grouped first⟩
      · exact shown_of_variants sound below found grouped first run later
    · cases Except.ok.inj laid
      cases inside

end Below

theorem shown_of_keysWithin (levels : Nat) : ∀ (opened : List String) (name : String) (keys : List String),
    keysWithin index levels opened name "" = .ok keys → ∀ m, index.message? name = some m → ∀ key ∈ keys,
      ∃ f ∈ m.fields, ∃ shown, index.Shows m f key shown := by
  -- By induction on the room: the keys that a lifted message lays out below are declared by that message.
  induction levels with
  | zero =>
    intro opened name keys run m found key inside
    cases Except.ok.inj run
    cases inside
  | succ levels ih =>
    intro opened name keys run m found key inside
    rw [keysWithin] at run
    split at run
    · cases run
    · rw [found] at run
      obtain ⟨f, there, own, laid, among⟩ := origin_of_fieldsKeys run inside
      exact ⟨f, there, shown_of_fieldKeys sound (ih _) found there laid among⟩

theorem shown_of_laid {name : String} {m : Message} (found : index.message? name = some m) {key : String}
    (laid : key ∈ index.laidKeys name) : ∃ f ∈ m.fields, ∃ shown, index.Shows m f key shown := by
  rw [laidKeys] at laid
  split at laid
  · rename_i keys run
    exact shown_of_keysWithin sound _ _ _ keys run m found key laid
  · cases laid

end Existence

/-- A key that a message requires: of a nullable field, its own or of a message that it flattens. -/
inductive Requires (index : Index) : Message → String → Prop
  | own {m : Message} {f : Field} (inside : f ∈ m.fields) (nullable : f.annotations.nullable = true) :
      Requires index m f.jsonName
  | lifted {m c : Message} {f : Field} {type pre key : String} (inside : f ∈ m.fields)
      (lifted : f.lifted? = some (type, pre)) (found : index.message? type = some c) (below : Requires index c key) :
      Requires index m (pre ++ key)

section Properties

variable {index : Index} (sound : index.Sound) (named : index.Named)

def Declares (index : Index) (m : Message) : Prop := index.message? m.fullName = some m ∧ m.wellKnown = false

include sound in
theorem declares_of_found {name : String} {m : Message} (found : index.message? name = some m)
    (own : m.wellKnown = false) : index.Declares m := ⟨message?_fullName sound.toKeyed found, own⟩

theorem message?_of_mem_values {index : Index} (keyed : index.Keyed) {m : Message}
    (inside : m ∈ index.messages.values) (bare : bareName m.fullName = m.fullName) :
    index.message? m.fullName = some m := by
  obtain ⟨key, given⟩ := KeyMap.mem_values.mp inside
  rw [message?, bare, keyed.named key m given]
  exact given

theorem mem_values_of_declares {m : Message} (declares : index.Declares m) : m ∈ index.messages.values :=
  KeyMap.mem_values.mpr ⟨_, declares.1⟩

include sound named

theorem resolved_of_named {m : Message} (declares : index.Declares m) : m.Resolved :=
  resolved_of_names (sound.wellFormed _ m declares.1) (named.oneofs m (mem_values_of_declares declares))
    (named.names m (mem_values_of_declares declares))

theorem first_of_variants {m : Message} (declares : index.Declares m) {f : Field}
    {group : Oneof × OneofConfig} (grouped : m.groupOf? f = some group) :
    (index.seenGroup m group).variants.head?.any (·.field == f.name) = true ↔
      group.1.members.head? = some f.name := by
  have listed := (mem_discriminated.mp (mem_of_groupOf? grouped).1).1
  have wellFormed := sound.wellFormed _ m declares.1
  cases members : group.1.members with
  | nil => exact absurd members (wellFormed.members _ listed)
  | cons name rest =>
    obtain ⟨h, there, rfl, _⟩ := wellFormed.member _ listed name (by simp [members])
    have itself : m.field? h.name = some h :=
      find?_of_nodup (named.names m (mem_values_of_declares declares)) there
    simp [seenGroup, Message.oneofMembers, members, itself, variantOf]

section Fields

variable {child : Message → String → List Property} {m : Message} (declares : index.Declares m) {f : Field}
  (inside : f ∈ m.fields) {pre : String}

include declares inside

theorem fieldProperties_plain (alone : m.groupOf? f = none) (unlifted : f.lifted? = none) :
    Interface.fieldProperties index index.plans child m pre f =
      [.own (pre ++ f.jsonName) .plain (Interface.memberOf index.plans m f)] := by
  have values := mem_values_of_declares declares
  have names := named.names m values
  rw [Interface.fieldProperties, group?_eq sound.toKeyed declares.1 declares.2 names (named.oneofs m values)
    (resolved_of_named sound named declares) inside, alone]
  simp only [Option.map_none, flattened?_memberOf sound.toKeyed declares.1 declares.2 names inside, unlifted]

theorem fieldProperties_lifted (alone : m.groupOf? f = none) {type childPre : String}
    (lifted : f.lifted? = some (type, childPre)) : ∃ c, index.message? type = some c ∧ index.Declares c ∧
      Interface.fieldProperties index index.plans child m pre f = child c (pre ++ childPre) := by
  have values := mem_values_of_declares declares
  have names := named.names m values
  obtain ⟨_, c, typed, known, _, foreign, _⟩ :=
    (Codec.checked_of_sound sound declares.1 f inside).flatten (Index.lifted?_eq_some lifted).1
  cases typed.symm.trans (Index.lifted?_eq_some lifted).2.1
  refine ⟨c, known, declares_of_found sound known foreign, ?_⟩
  rw [Interface.fieldProperties, group?_eq sound.toKeyed declares.1 declares.2 names (named.oneofs m values)
    (resolved_of_named sound named declares) inside, alone]
  simp only [Option.map_none, flattened?_memberOf sound.toKeyed declares.1 declares.2 names inside, lifted, known]

variable {group : Oneof × OneofConfig} (grouped : m.groupOf? f = some group)

include grouped

theorem fieldProperties_later (later : group.1.members.head? ≠ some f.name) :
    Interface.fieldProperties index index.plans child m pre f = [] := by
  have values := mem_values_of_declares declares
  rw [Interface.fieldProperties, group?_eq sound.toKeyed declares.1 declares.2 (named.names m values)
    (named.oneofs m values) (resolved_of_named sound named declares) inside, grouped]
  simp only [Option.map_some, first_of_variants sound named declares grouped, later, if_false]

theorem fieldProperties_group (first : group.1.members.head? = some f.name) :
    Interface.fieldProperties index index.plans child m pre f =
      .discriminator (pre ++ group.2.discriminator) ((m.oneofMembers group.1).map Field.variantValue) ::
        (m.oneofMembers group.1).flatMap fun v =>
          Interface.variantProperties index index.plans child m pre (index.seenGroup m group)
            (index.variantOf group.2 v) := by
  have values := mem_values_of_declares declares
  rw [Interface.fieldProperties, group?_eq sound.toKeyed declares.1 declares.2 (named.names m values)
    (named.oneofs m values) (resolved_of_named sound named declares) inside, grouped]
  simp only [Option.map_some, first_of_variants sound named declares grouped, first, if_true]
  simp [seenGroup, variantOf, Function.comp_def, List.flatMap_map]

omit grouped inside

variable (there : group ∈ m.discriminated) {v : Field} (member : v ∈ m.oneofMembers group.1)

include there member

theorem variantProperties_beside (beside : group.2.flatten = false) :
    Interface.variantProperties index index.plans child m pre (index.seenGroup m group) (index.variantOf group.2 v) =
      [.own (pre ++ v.jsonName) .variant (Interface.memberOf index.plans m v)] := by
  have itself : m.field? v.name = some v := find?_of_nodup (named.names m (mem_values_of_declares declares))
    ((resolved_of_named sound named declares group.1 group.2 there v).mp member).1
  simp only [Interface.variantProperties, seenGroup, variantOf, beside, Bool.false_eq_true, if_false, itself]

omit named in
theorem variantProperties_lifted (flatten : group.2.flatten = true) :
    ∃ type c, v.message? = some type ∧ index.message? type = some c ∧ index.Declares c ∧
      Interface.variantProperties index index.plans child m pre (index.seenGroup m group) (index.variantOf group.2 v) =
        [.lifted (child c pre)] := by
  obtain ⟨type, c, typed, known, foreign, _⟩ := message_of_member sound declares.1 there flatten member
  refine ⟨type, c, typed, known, declares_of_found sound known foreign, ?_⟩
  simp only [Interface.variantProperties, seenGroup, variantOf, flatten, typed, if_true, Option.bind_some, known]

end Fields

theorem shows_of_fieldProperties {child : Message → String → List Property}
    (below : ∀ c, index.Declares c → ∀ pre, ∀ p ∈ child c pre, ∀ key shown, p.Shows key shown →
      ∃ k, key = pre ++ k ∧ ∃ g ∈ c.fields, index.Shows c g k shown)
    {m : Message} (declares : index.Declares m) {f : Field} (inside : f ∈ m.fields) {pre : String} {p : Property}
    (listed : p ∈ Interface.fieldProperties index index.plans child m pre f) {key : String} {shown : Shown}
    (shows : p.Shows key shown) : ∃ k, key = pre ++ k ∧ index.Shows m f k shown := by
  -- The cases are those of the place of the field, as for the keys of a layout.
  cases grouped : m.groupOf? f with
  | none =>
    cases lifted : f.lifted? with
    | none =>
      rw [fieldProperties_plain sound named declares inside grouped lifted, List.mem_singleton] at listed
      subst listed
      cases shows
      exact ⟨f.jsonName, rfl, .plain grouped lifted⟩
    | some target =>
      obtain ⟨type, childPre⟩ := target
      obtain ⟨c, known, declared, same⟩ := fieldProperties_lifted sound named declares inside grouped lifted
      rw [same] at listed
      obtain ⟨k, rfl, g, among, there⟩ := below c declared _ p listed key shown shows
      exact ⟨childPre ++ k, String.append_assoc .., .lifted grouped lifted known among there⟩
  | some group =>
    have there := (mem_of_groupOf? grouped).1
    by_cases first : group.1.members.head? = some f.name
    · rw [fieldProperties_group sound named declares inside grouped first] at listed
      rcases List.mem_cons.mp listed with rfl | later
      · cases shows
        exact ⟨group.2.discriminator, rfl, .tag grouped first⟩
      · obtain ⟨v, member, listed⟩ := List.mem_flatMap.mp later
        cases flatten : group.2.flatten with
        | true =>
          obtain ⟨type, c, typed, known, declared, same⟩ :=
            variantProperties_lifted sound declares there member flatten
          rw [same, List.mem_singleton] at listed
          subst listed
          cases shows with
          | lifted inner shows =>
            obtain ⟨k, rfl, g, among, there⟩ := below c declared pre _ inner key shown shows
            exact ⟨k, rfl, .liftedVariant grouped first flatten member typed known among there⟩
        | false =>
          rw [variantProperties_beside sound named declares there member flatten, List.mem_singleton] at listed
          subst listed
          cases shows
          exact ⟨v.jsonName, rfl, .variant grouped first flatten member⟩
    · rw [fieldProperties_later sound named declares inside grouped first] at listed
      cases listed

theorem shows_of_properties (levels : Nat) : ∀ m, index.Declares m → ∀ pre,
    ∀ p ∈ Interface.propertiesWithin index index.plans levels m pre, ∀ key shown, p.Shows key shown →
      ∃ k, key = pre ++ k ∧ ∃ f ∈ m.fields, index.Shows m f k shown := by
  induction levels with
  | zero =>
    intro m declares pre p listed key shown shows
    obtain ⟨f, inside, listed⟩ := List.mem_flatMap.mp listed
    obtain ⟨k, same, there⟩ :=
      shows_of_fieldProperties sound named (fun _ _ _ _ never => (List.not_mem_nil never).elim) declares inside listed
        shows
    exact ⟨k, same, f, inside, there⟩
  | succ levels ih =>
    intro m declares pre p listed key shown shows
    obtain ⟨f, inside, listed⟩ := List.mem_flatMap.mp listed
    obtain ⟨k, same, there⟩ := shows_of_fieldProperties sound named ih declares inside listed shows
    exact ⟨k, same, f, inside, there⟩

end Properties

end Wireform.Index
