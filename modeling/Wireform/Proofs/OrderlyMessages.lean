import Wireform.Plan.Build
import Wireform.Proofs.LaidKeys

set_option autoImplicit false

namespace Wireform.Index

def variantOf (index : Index) (config : OneofConfig) (member : Field) : Variant :=
  ⟨member.name, member.jsonName, member.variantValue, member.message?,
    match config.flatten, member.message? with
    | true, some child => index.laidKeys child
    | _, _ => []⟩

theorem oneofStep_eq (index : Index) (m : Message) (oneof : Oneof) (config : OneofConfig) :
    oneofStep index m oneof config = ⟨oneof.name, config.discriminator, .single,
      .oneofDiscriminator config.discriminator config.flatten
        ((m.oneofMembers oneof).map (variantOf index config))⟩ := rfl

def oneofKeys (index : Index) (m : Message) (oneof : Oneof) (config : OneofConfig) : List String :=
  config.discriminator :: (m.oneofMembers oneof).flatMap fun member => (index.variantOf config member).childKeys

def Message.LiftedMember (m : Message) (f : Field) : Prop :=
  ∃ oneof config, (oneof, config) ∈ m.discriminated ∧ config.flatten = true ∧ f ∈ m.oneofMembers oneof

def Message.liftedTypes (m : Message) : List String :=
  (m.fields.filterMap Field.lifted?).map (·.1)
    ++ (m.discriminated.filter (·.2.flatten)).flatMap fun group => (m.oneofMembers group.1).filterMap Field.message?

def Message.Resolved (m : Message) : Prop :=
  ∀ oneof config, (oneof, config) ∈ m.discriminated →
    ∀ f, f ∈ m.oneofMembers oneof ↔ f ∈ m.fields ∧ f.oneof = some oneof.name

/-- No step writes a key that is still to be read, or that another leaves on the wire. -/
structure Orderly (index : Index) (m : Message) : Prop where
  names : (m.fields.map (·.jsonName)).Nodup
  oneofNames : (m.oneofs.map (·.name)).Nodup
  fields : m.fields.Pairwise fun f g =>
    g.jsonName ∉ index.ownKeys f ∧ List.Disjoint (index.ownKeys f) (index.ownKeys g)
  members : m.Resolved
  beside : ∀ oneof config, (oneof, config) ∈ m.discriminated → ∀ f ∈ m.fields, ¬ m.LiftedMember f →
    List.Disjoint (index.ownKeys f) (index.oneofKeys m oneof config)
  tag : ∀ oneof config, (oneof, config) ∈ m.discriminated → ∀ member ∈ m.oneofMembers oneof,
    config.discriminator ∉ (index.variantOf config member).childKeys
  oneofs : m.discriminated.Pairwise fun a b =>
    List.Disjoint (index.oneofKeys m a.1 a.2) (index.oneofKeys m b.1 b.2) ∧
      ∀ member ∈ m.oneofMembers b.1, member.jsonName ∉ index.oneofKeys m a.1 a.2
  fieldsLaid : ∀ f ∈ m.fields, ¬ m.LiftedMember f → ∀ key ∈ index.ownKeys f, key ∈ index.laidKeys m.fullName
  oneofsLaid : ∀ oneof config, (oneof, config) ∈ m.discriminated → ∀ key ∈ index.oneofKeys m oneof config,
    key ∈ index.laidKeys m.fullName

/-- No lifted key is the JSON name of a field or member that a later step reads. -/
structure Clear (index : Index) (m : Message) : Prop where
  fields : m.fields.Pairwise fun f g =>
    f.lifted?.isSome = true → g.lifted?.isSome = true → g.jsonName ∉ index.ownKeys f
  members : ∀ f ∈ m.fields, f.lifted?.isSome = true → ∀ g ∈ m.fields, m.LiftedMember g →
    g.jsonName ∉ index.ownKeys f
  oneofs : m.discriminated.Pairwise fun a b => b.2.flatten = true →
    ∀ member ∈ m.oneofMembers b.1, member.jsonName ∉ index.oneofKeys m a.1 a.2

section Groups

variable {m : Message} {oneof : Oneof} {config : OneofConfig} {f : Field}

theorem mem_discriminated : (oneof, config) ∈ m.discriminated ↔ oneof ∈ m.oneofs ∧ oneof.config = some config := by
  simp only [Message.discriminated, List.mem_filterMap, Option.map_eq_some_iff]
  constructor
  · rintro ⟨o, inside, c, given, same⟩
    obtain ⟨rfl, rfl⟩ := Prod.mk.inj same
    exact ⟨inside, given⟩
  · rintro ⟨inside, given⟩
    exact ⟨oneof, inside, config, given, rfl⟩

theorem mem_of_groupOf? (group : m.groupOf? f = some (oneof, config)) :
    (oneof, config) ∈ m.discriminated ∧ f.oneof = some oneof.name := by
  obtain ⟨name, owner, found⟩ := Option.bind_eq_some_iff.mp group
  have same : oneof.name = name := by simpa using List.find?_some found
  exact ⟨List.mem_of_find?_eq_some found, same ▸ owner⟩

theorem discriminated_names (distinct : (m.oneofs.map (·.name)).Nodup) :
    (m.discriminated.map fun group => group.1.name).Nodup := by
  have sub : (m.discriminated.map fun group => group.1.name).Sublist (m.oneofs.map (·.name)) := by
    rw [Message.discriminated, List.map_filterMap]
    induction m.oneofs with
    | nil => exact .slnil
    | cons o rest ih =>
      cases given : o.config with
      | none => simpa [given] using ih.trans (List.sublist_cons_self _ _)
      | some config => simpa [given] using ih
  exact distinct.sublist sub

theorem groupOf?_of_mem (distinct : (m.oneofs.map (·.name)).Nodup)
    (inside : (oneof, config) ∈ m.discriminated) (owner : f.oneof = some oneof.name) :
    m.groupOf? f = some (oneof, config) := by
  rw [Message.groupOf?, owner]
  exact find?_of_nodup (discriminated_names distinct) inside

theorem group_eq_of_name (distinct : (m.oneofs.map (·.name)).Nodup) {other : Oneof × OneofConfig}
    (first : (oneof, config) ∈ m.discriminated) (second : other ∈ m.discriminated)
    (same : oneof.name = other.1.name) : (oneof, config) = other :=
  eq_of_nodup (discriminated_names distinct) first second same

theorem exists_place (wellFormed : m.WellFormed) (distinct : (m.oneofs.map (·.name)).Nodup)
    (inside : (oneof, config) ∈ m.discriminated) :
    ∃ h ∈ m.fields, m.groupOf? h = some (oneof, config) ∧ oneof.members.head? = some h.name := by
  have listed := (mem_discriminated.mp inside).1
  cases members : oneof.members with
  | nil => exact absurd members (wellFormed.members oneof listed)
  | cons name rest =>
    obtain ⟨h, there, rfl, owner⟩ := wellFormed.member oneof listed name (by simp [members])
    exact ⟨h, there, groupOf?_of_mem distinct inside owner, rfl⟩

end Groups

section Laid

variable {index : Index} {name : String} {m : Message}

structure Places (index : Index) (m : Message) : Prop where
  wellFormed : m.WellFormed
  checked : ∀ f ∈ m.fields, f.Checked index m
  each : ∀ f ∈ m.fields, fieldKeys index.childLayout m "" f = .ok (index.fieldLaid m f)
  laid : index.laidKeys m.fullName = m.fields.flatMap (index.fieldLaid m)
  nodup : ∀ f ∈ m.fields, (index.fieldLaid m f).Nodup
  apart : ∀ f ∈ m.fields, ∀ g ∈ m.fields, f ≠ g →
    List.Disjoint (index.fieldLaid m f) (index.fieldLaid m g)

theorem places_of_sound (sound : index.Sound) (bare : bareName name = name)
    (found : index.message? name = some m) (lifts : m.lifting?.isSome = true) : index.Places m := by
  obtain ⟨each, split, nodup⟩ := laidKeys_eq sound bare found
  have all := nodup lifts
  rw [split, List.nodup_flatMap] at all
  rw [← fullName_eq sound bare found] at split
  obtain ⟨fieldErrors, _, _, _⟩ := Message.errors_parts (sound.errors name m found)
  exact
    { wellFormed := sound.wellFormed name m found
      checked := Message.checked_fields fieldErrors (sound.resolved name m found)
      each
      laid := split
      nodup := all.1
      apart := fun f first g second differ =>
        pairwise_forall (fun _ _ disjoint => List.disjoint_symm disjoint) all.2 first second differ }

theorem oneof_of_lifted {f : Field} (checked : f.Checked index m) (lifted : f.lifted?.isSome = true) :
    f.oneof = none := by
  have flatten : f.annotations.flatten = true := by
    rw [Field.lifted?] at lifted
    split at lifted
    · assumption
    · cases lifted
  obtain ⟨_, _, _, _, _, _, _, alone, _⟩ := checked.flatten flatten
  exact alone

theorem ownKeys_of_member {f : Field} (checked : f.Checked index m) {owner : String}
    (member : f.oneof = some owner) : index.ownKeys f = [f.jsonName] := by
  rw [ownKeys]
  cases lifted : f.lifted? with
  | none => rfl
  | some target =>
    have alone := oneof_of_lifted checked (by rw [lifted]; rfl)
    rw [member] at alone
    cases alone

theorem ownKeys_of_unlifted {f : Field} (unlifted : f.lifted? = none) : index.ownKeys f = [f.jsonName] := by
  rw [ownKeys, unlifted]

theorem oneofKeys_laid (places : index.Places m) (distinct : (m.oneofs.map (·.name)).Nodup) {oneof : Oneof}
    {config : OneofConfig} (inside : (oneof, config) ∈ m.discriminated) :
    ∃ h ∈ m.fields, m.groupOf? h = some (oneof, config) ∧
      (∀ key ∈ index.oneofKeys m oneof config, key ∈ index.fieldLaid m h) ∧
      (∀ member ∈ m.oneofMembers oneof, config.discriminator ∉ (index.variantOf config member).childKeys) ∧
      (config.flatten = false → ∀ member ∈ m.oneofMembers oneof,
        member.jsonName ∈ index.fieldLaid m h ∧ member.jsonName ≠ config.discriminator) := by
  obtain ⟨h, there, group, first⟩ := exists_place places.wellFormed distinct inside
  obtain ⟨variants, laid, names, keys⟩ := fieldLaid_group (places.each h there) group first
  have nodup := places.nodup h there
  rw [laid, List.nodup_cons] at nodup
  -- A spread variant's keys are laid at the oneof's first member, beside the tag.
  have lifted : ∀ member ∈ m.oneofMembers oneof, ∀ key ∈ (index.variantOf config member).childKeys,
      key ∈ variants := by
    intro member listed key inside
    rw [variantOf] at inside
    dsimp only at inside
    split at inside
    · rename_i type flatten typed
      exact keys flatten member listed type typed key inside
    · cases inside
  refine ⟨h, there, group, fun key inside => ?_, fun member listed taken => ?_, fun beside member listed => ?_⟩
  · rw [laid]
    rcases List.mem_cons.mp inside with rfl | later
    · exact List.mem_cons_self
    · obtain ⟨member, listed, own⟩ := List.mem_flatMap.mp later
      exact List.mem_cons_of_mem _ (lifted member listed key own)
  · exact nodup.1 (lifted member listed _ taken)
  · have inside : member.jsonName ∈ variants := by
      rw [names beside]
      exact List.mem_map.mpr ⟨member, listed, rfl⟩
    rw [laid]
    exact ⟨List.mem_cons_of_mem _ inside, fun same => nodup.1 (same ▸ inside)⟩

theorem ownKeys_laid (places : index.Places m) (resolved : m.Resolved) {f : Field} (inside : f ∈ m.fields) :
    (m.groupOf? f = none ∧ index.ownKeys f = index.fieldLaid m f) ∨
      (index.ownKeys f = [f.jsonName] ∧ f.lifted? = none ∧ ∃ group, m.groupOf? f = some group ∧
        group ∈ m.discriminated ∧ f ∈ m.oneofMembers group.1) := by
  cases group : m.groupOf? f with
  | none => exact .inl ⟨rfl, (fieldLaid_own (places.each f inside) group).symm⟩
  | some group =>
    obtain ⟨there, owner⟩ := mem_of_groupOf? group
    refine .inr ⟨ownKeys_of_member (places.checked f inside) owner, ?_, _, rfl, there,
      (resolved _ _ there f).mpr ⟨inside, owner⟩⟩
    cases lifted : f.lifted? with
    | none => rfl
    | some target =>
      have alone := oneof_of_lifted (places.checked f inside) (by rw [lifted]; rfl)
      rw [owner] at alone
      cases alone

/-- The keys of two fields are apart unless one is lifted over the other's JSON name. -/
theorem ownKeys_disjoint (places : index.Places m) (distinct : (m.oneofs.map (·.name)).Nodup)
    (resolved : m.Resolved) (clear : index.Clear m) {f g : Field} (first : f ∈ m.fields)
    (second : g ∈ m.fields) (differ : f.jsonName ≠ g.jsonName) :
    List.Disjoint (index.ownKeys f) (index.ownKeys g) := by
  have alone_member {f g : Field} (first : f ∈ m.fields) (second : g ∈ m.fields)
      (differ : f.jsonName ≠ g.jsonName) (alone : m.groupOf? f = none)
      (own : index.ownKeys f = index.fieldLaid m f) {group : Oneof × OneofConfig}
      (inside : group ∈ m.discriminated) (member : g ∈ m.oneofMembers group.1) :
      g.jsonName ∉ index.ownKeys f := by
    cases lifted : group.2.flatten with
    | true =>
      cases target : f.lifted? with
      | none => simpa [ownKeys_of_unlifted target] using Ne.symm differ
      | some target' =>
        exact clear.members f first (by rw [target]; rfl) g second ⟨_, _, inside, lifted, member⟩
    | false =>
      obtain ⟨h, there, placed, _, _, names⟩ := oneofKeys_laid places distinct inside
      intro taken
      rw [own] at taken
      refine places.apart f first h there ?_ taken (names lifted g member).1
      rintro rfl
      rw [alone] at placed
      cases placed
  -- A field writes its keys alone or as a member of a oneof, and two members write their names only.
  rcases ownKeys_laid places resolved first with ⟨alone, own⟩ | ⟨own, _, group, _, inside, member⟩ <;>
    rcases ownKeys_laid places resolved second with ⟨alone', own'⟩ | ⟨own', _, group', _, inside', member'⟩
  · rw [own, own']
    exact places.apart f first g second fun same => differ (congrArg _ same)
  · rw [own']
    exact List.disjoint_singleton.mpr (alone_member first second differ alone own inside' member')
  · rw [own]
    exact List.singleton_disjoint.mpr (alone_member second first (Ne.symm differ) alone' own' inside member)
  · rw [own, own']
    simpa [List.Disjoint] using differ

section Steps

variable (places : index.Places m) (distinct : (m.oneofs.map (·.name)).Nodup) (resolved : m.Resolved)
  (clear : index.Clear m)

include places distinct

include resolved clear in
theorem names_apart {f g : Field} (first : f ∈ m.fields) (second : g ∈ m.fields) (differ : f.jsonName ≠ g.jsonName)
    (free : f.lifted?.isSome = true → g.lifted?.isSome = true → g.jsonName ∉ index.ownKeys f) :
    g.jsonName ∉ index.ownKeys f ∧ List.Disjoint (index.ownKeys f) (index.ownKeys g) := by
  have disjoint := ownKeys_disjoint places distinct resolved clear first second differ
  refine ⟨?_, disjoint⟩
  -- The name of a lifted field is none of its own keys, so disjoint keys say nothing of it.
  cases lifted : g.lifted? with
  | none => exact fun taken => disjoint taken (by simp [ownKeys_of_unlifted lifted])
  | some target =>
    cases lifted' : f.lifted? with
    | none => simpa [ownKeys_of_unlifted lifted'] using Ne.symm differ
    | some target' => exact free (by rw [lifted']; rfl) (by rw [lifted]; rfl)

theorem member_unwritten {f : Field} {group : Oneof × OneofConfig} (inside : group ∈ m.discriminated)
    (beside : group.2.flatten = false) (member : f ∈ m.oneofMembers group.1) {oneof : Oneof} {config : OneofConfig}
    (other : (oneof, config) ∈ m.discriminated) : f.jsonName ∉ index.oneofKeys m oneof config := by
  obtain ⟨h, placed, grouped, _, _, laid⟩ := oneofKeys_laid places distinct inside
  obtain ⟨h', placed', grouped', keys, _, _⟩ := oneofKeys_laid places distinct other
  obtain ⟨at_place, untagged⟩ := laid beside f member
  intro written
  by_cases same : h' = h
  · subst same
    cases Option.some.inj (grouped.symm.trans grouped')
    rw [oneofKeys] at written
    rcases List.mem_cons.mp written with tagged | lower
    · exact untagged tagged
    · obtain ⟨variant, _, own⟩ := List.mem_flatMap.mp lower
      rw [variantOf, beside] at own
      cases own
  · exact places.apart h' placed' h placed same (keys _ written) at_place

include resolved in
theorem ownKeys_unwritten {f : Field} (there : f ∈ m.fields) (plain : ¬ m.LiftedMember f) {oneof : Oneof}
    {config : OneofConfig} (inside : (oneof, config) ∈ m.discriminated) :
    List.Disjoint (index.ownKeys f) (index.oneofKeys m oneof config) := by
  rcases ownKeys_laid places resolved there with ⟨alone, own⟩ | ⟨own, _, other, _, inside', member⟩
  · obtain ⟨h, placed, group, keys, _, _⟩ := oneofKeys_laid places distinct inside
    rw [own]
    intro key taken written
    refine places.apart f there h placed ?_ taken (keys key written)
    rintro rfl
    rw [alone] at group
    cases group
  · rw [own, List.singleton_disjoint]
    cases lifted : other.2.flatten with
    | true => exact absurd ⟨other.1, other.2, inside', lifted, member⟩ plain
    | false => exact member_unwritten places distinct inside' lifted member inside

theorem oneofKeys_disjoint {a b : Oneof × OneofConfig} (first : a ∈ m.discriminated) (second : b ∈ m.discriminated)
    (differ : a.1.name ≠ b.1.name) :
    List.Disjoint (index.oneofKeys m a.1 a.2) (index.oneofKeys m b.1 b.2) := by
  obtain ⟨h, placed, group, keys, _, _⟩ := oneofKeys_laid places distinct first
  obtain ⟨h', placed', group', keys', _, _⟩ := oneofKeys_laid places distinct second
  have apart : h ≠ h' := by
    rintro rfl
    exact differ (congrArg (·.1.name) (Option.some.inj (group.symm.trans group')))
  exact fun key one two => places.apart h placed h' placed' apart (keys key one) (keys' key two)

include resolved in
theorem ownKeys_listed {f : Field} (there : f ∈ m.fields) (plain : ¬ m.LiftedMember f) :
    ∀ key ∈ index.ownKeys f, key ∈ index.laidKeys m.fullName := by
  rw [places.laid]
  rcases ownKeys_laid places resolved there with ⟨_, own⟩ | ⟨own, _, group, _, inside, member⟩
  · exact fun key taken => List.mem_flatMap.mpr ⟨f, there, own ▸ taken⟩
  · obtain ⟨h, placed, _, _, _, names⟩ := oneofKeys_laid places distinct inside
    have beside : group.2.flatten = false := by
      rw [← Bool.not_eq_true]
      exact fun lifted => plain ⟨group.1, group.2, inside, lifted, member⟩
    intro key taken
    rw [own, List.mem_singleton] at taken
    exact List.mem_flatMap.mpr ⟨h, placed, taken ▸ (names beside f member).1⟩

include resolved clear

theorem orderly_of_places (names : (m.fields.map (·.jsonName)).Nodup) : index.Orderly m := by
  have fields : m.fields.Pairwise fun f g => f.jsonName ≠ g.jsonName := List.pairwise_map.mp names
  have oneofs : m.discriminated.Pairwise fun a b => a.1.name ≠ b.1.name :=
    List.pairwise_map.mp (discriminated_names distinct)
  refine
    { names, oneofNames := distinct, members := resolved
      fields := (fields.and clear.fields).imp_of_mem fun first second pair =>
        names_apart places distinct resolved clear first second pair.1 pair.2
      beside := fun oneof config inside f there plain => ownKeys_unwritten places distinct resolved there plain inside
      tag := fun oneof config inside => ?_
      oneofs := (oneofs.and clear.oneofs).imp_of_mem fun {a b} first second pair => ?_
      fieldsLaid := fun f there plain => ownKeys_listed places distinct resolved there plain
      oneofsLaid := fun oneof config inside key written => ?_ }
  · obtain ⟨_, _, _, _, apart, _⟩ := oneofKeys_laid places distinct inside
    exact apart
  · refine ⟨oneofKeys_disjoint places distinct first second pair.1, fun member listed => ?_⟩
    cases lifted : b.2.flatten with
    | true => exact pair.2 lifted member listed
    | false => exact member_unwritten places distinct second lifted listed first
  · obtain ⟨h, placed, _, keys, _, _⟩ := oneofKeys_laid places distinct inside
    rw [places.laid]
    exact List.mem_flatMap.mpr ⟨h, placed, keys key written⟩

end Steps

end Laid

section Names

variable {index : Index} {m : Message}

theorem mem_oneofMembers {oneof : Oneof} {f : Field} :
    f ∈ m.oneofMembers oneof ↔ ∃ name ∈ oneof.members, m.field? name = some f := List.mem_filterMap

theorem mem_of_field? {name : String} {f : Field} (found : m.field? name = some f) :
    f ∈ m.fields ∧ f.name = name :=
  ⟨List.mem_of_find?_eq_some found, by simpa using List.find?_some found⟩

theorem listed_of_owner (wellFormed : m.WellFormed) (distinct : (m.oneofs.map (·.name)).Nodup)
    {oneof : Oneof} (inside : oneof ∈ m.oneofs) {f : Field} (there : f ∈ m.fields)
    (owner : f.oneof = some oneof.name) : f.name ∈ oneof.members := by
  obtain ⟨other, other_inside, same, listed⟩ := wellFormed.owned f there oneof.name owner
  rw [eq_of_nodup distinct inside other_inside same.symm]
  exact listed

theorem resolved_of_names (wellFormed : m.WellFormed) (distinct : (m.oneofs.map (·.name)).Nodup)
    (names : (m.fields.map (·.name)).Nodup) : m.Resolved := by
  intro oneof config inside f
  have declared := (mem_discriminated.mp inside).1
  rw [mem_oneofMembers]
  constructor
  · rintro ⟨name, listed, found⟩
    obtain ⟨there, rfl⟩ := mem_of_field? found
    obtain ⟨g, other, same, owner⟩ := wellFormed.member oneof declared f.name listed
    rw [← eq_of_nodup names other there same]
    exact ⟨other, owner⟩
  · rintro ⟨there, owner⟩
    exact ⟨f.name, listed_of_owner wellFormed distinct declared there owner, find?_of_nodup names there⟩

theorem owner_of_listed (places : index.Places m) (distinct : (m.oneofs.map (·.name)).Nodup)
    (flat : ∀ f ∈ m.fields, f.lifted? = none) (beside : ∀ group ∈ m.discriminated, group.2.flatten = false)
    {oneof : Oneof} {config : OneofConfig} (inside : (oneof, config) ∈ m.discriminated) {g : Field}
    (member : g ∈ m.oneofMembers oneof) : g.oneof = some oneof.name := by
  -- Where nothing is lifted, a name that led to another field would put its key on the wire twice.
  obtain ⟨name, listed, found⟩ := mem_oneofMembers.mp member
  obtain ⟨there, rfl⟩ := mem_of_field? found
  obtain ⟨h, placed, group, _, _, names⟩ := oneofKeys_laid places distinct inside
  have laid := (names (beside _ inside) g member).1
  cases own : m.groupOf? g with
  | none =>
    have at_own : g.jsonName ∈ index.fieldLaid m g := by
      rw [fieldLaid_own (places.each g there) own, ownKeys_of_unlifted (flat g there)]
      exact List.mem_singleton_self _
    refine absurd laid (places.apart g there h placed ?_ at_own)
    rintro rfl
    rw [own] at group
    cases group
  | some other =>
    obtain ⟨other_inside, owner⟩ := mem_of_groupOf? own
    have listed_there := listed_of_owner places.wellFormed distinct (mem_discriminated.mp other_inside).1
      there owner
    have also := mem_oneofMembers.mpr ⟨g.name, listed_there, found⟩
    obtain ⟨h', placed', group', _, _, names'⟩ := oneofKeys_laid places distinct other_inside
    have laid' := (names' (beside _ other_inside) g also).1
    by_cases same : h = h'
    · subst same
      rw [owner, ← congrArg (·.1.name) (Option.some.inj (group.symm.trans group'))]
    · exact absurd laid' (places.apart h placed h' placed' same laid)

theorem members_nodup (wellFormed : m.WellFormed) {oneof : Oneof} (declared : oneof ∈ m.oneofs)
    (values : ((m.oneofMembers oneof).map Field.variantValue).Nodup) : oneof.members.Nodup := by
  have fields := values.of_map
  rw [List.Nodup, Message.oneofMembers, List.pairwise_filterMap] at fields
  refine fields.imp_of_mem fun {a b} listed _ differ same => ?_
  obtain ⟨f, there, rfl, _⟩ := wellFormed.member oneof declared a listed
  have some_field : (m.field? f.name).isSome = true := by
    rw [Message.field?, List.find?_isSome]
    exact ⟨f, there, by simp⟩
  obtain ⟨g, found⟩ := Option.isSome_iff_exists.mp some_field
  exact differ g found g (same ▸ found) rfl

theorem resolved_of_flat (places : index.Places m) (distinct : (m.oneofs.map (·.name)).Nodup)
    (flat : ∀ f ∈ m.fields, f.lifted? = none) (beside : ∀ group ∈ m.discriminated, group.2.flatten = false)
    (clean : m.oneofErrors index = []) : m.Resolved := by
  intro oneof config inside f
  have declared := (mem_discriminated.mp inside).1
  refine ⟨fun member => ?_, fun ⟨there, owner⟩ => ?_⟩
  · obtain ⟨name, _, found⟩ := mem_oneofMembers.mp member
    exact ⟨(mem_of_field? found).1, owner_of_listed places distinct flat beside inside member⟩
  · have listed := listed_of_owner places.wellFormed distinct declared there owner
    have first : (m.field? f.name).isSome = true := by
      rw [Message.field?, List.find?_isSome]
      exact ⟨f, there, by simp⟩
    obtain ⟨g, found⟩ := Option.isSome_iff_exists.mp first
    obtain ⟨g_there, same⟩ := mem_of_field? found
    have member := mem_oneofMembers.mpr ⟨f.name, listed, found⟩
    have g_owner := owner_of_listed places distinct flat beside inside member
    have values := (Message.variantValues_of_memberErrors
      (Message.memberErrors_of_oneofErrors clean inside)).1
    have once := members_nodup places.wellFormed declared values
    rw [places.wellFormed.apart distinct oneof declared once f there g g_there owner g_owner same.symm]
    exact member

theorem orderly_of_plain (sound : index.Sound) {name : String} (bare : bareName name = name)
    (found : index.message? name = some m) (names : (m.fields.map (·.jsonName)).Nodup)
    (distinct : (m.oneofs.map (·.name)).Nodup) (plain : m.lifting? = none) : index.Orderly m := by
  obtain ⟨flat, alone⟩ := lifting?_none plain
  have own : ∀ f ∈ m.fields, index.ownKeys f = [f.jsonName] := by
    intro f inside
    refine ownKeys_of_unlifted ?_
    rw [Field.lifted?, flat f inside]
  have never {group : Oneof × OneofConfig} : group ∉ m.discriminated := by simp [alone]
  refine
    { names, oneofNames := distinct
      fields := (List.pairwise_map.mp names).imp_of_mem fun {f g} first second differ => ?_
      members := fun _ _ inside => absurd inside never
      beside := fun _ _ inside => absurd inside never
      tag := fun _ _ inside => absurd inside never
      oneofs := alone ▸ .nil
      fieldsLaid := fun f inside _ key taken => ?_
      oneofsLaid := fun _ _ inside => absurd inside never }
  · rw [own f first, own g second]
    exact ⟨by simpa using Ne.symm differ, by simpa using Ne.symm differ⟩
  · obtain ⟨each, split, _⟩ := laidKeys_eq sound bare found
    rw [fullName_eq sound bare found, split]
    refine List.mem_flatMap.mpr ⟨f, inside, ?_⟩
    rw [fieldLaid_own (each f inside) (groupOf?_of_plain alone f)]
    exact taken

end Names

section Messages

variable {index : Index} (sound : index.Sound) {name : String} (bare : bareName name = name) {m : Message}
  (found : index.message? name = some m) (names : (m.fields.map (·.jsonName)).Nodup)
  (distinct : (m.oneofs.map (·.name)).Nodup)

include sound bare found names distinct

theorem orderly_of_clear (fieldNames : (m.fields.map (·.name)).Nodup) (clear : index.Clear m) :
    index.Orderly m := by
  cases lifts : m.lifting? with
  | none => exact orderly_of_plain sound bare found names distinct lifts
  | some culprit =>
    have places := places_of_sound sound bare found (by rw [lifts]; rfl)
    exact orderly_of_places places distinct (resolved_of_names places.wellFormed distinct fieldNames) clear names

theorem orderly_of_flat (flat : ∀ f ∈ m.fields, f.lifted? = none)
    (beside : ∀ group ∈ m.discriminated, group.2.flatten = false) : index.Orderly m := by
  cases lifts : m.lifting? with
  | none => exact orderly_of_plain sound bare found names distinct lifts
  | some culprit =>
    have places := places_of_sound sound bare found (by rw [lifts]; rfl)
    obtain ⟨_, _, oneofErrors, _⟩ := Message.errors_parts (sound.errors name m found)
    refine orderly_of_places places distinct (resolved_of_flat places distinct flat beside oneofErrors) ⟨?_, ?_, ?_⟩
      names
    · refine List.pairwise_of_forall_mem_list fun f inside g _ lifted => ?_
      rw [flat f inside] at lifted
      cases lifted
    · intro f inside lifted
      rw [flat f inside] at lifted
      cases lifted
    · refine List.pairwise_of_forall_mem_list fun a _ b inside lifted => ?_
      rw [beside b inside] at lifted
      cases lifted

end Messages

end Wireform.Index
