import Wireform.Proofs.RestoredMessages
import Wireform.Proofs.ShownKeys
import Wireform.Proofs.WrittenFields
import Wireform.Proofs.WrittenOneofs

set_option autoImplicit false

namespace Wireform.Codec

open Index

variable {index : Index} {m : Message} {planned : String → Bool} {encode : String → Json → Result Json}
  {plan : Plan} {doc wire : Doc}

inductive Writes (index : Index) (planned : String → Bool) (encode : String → Json → Result Json) (plan : Plan)
    (m : Message) (doc : Doc) : Field → String → Json → Prop
  | own {f : Field} {v : Json} (unlifted : f.lifted? = none) (kept : ¬ m.LiftedMember f)
      (run : encodeBlock encode plan (bodySteps index planned f) (doc.get? f.jsonName) = .ok (some v)) :
      Writes index planned encode plan m doc f f.jsonName v
  | lifted {f : Field} {k : String} {v : Json} (lifts : Lifts planned encode f doc k v) :
      Writes index planned encode plan m doc f k v
  | tag {f : Field} {group : Oneof × OneofConfig} (grouped : group ∈ m.discriminated)
      (member : f ∈ m.oneofMembers group.1) :
      Writes index planned encode plan m doc f group.2.discriminator (.str f.variantValue)
  | variant {f : Field} {group : Oneof × OneofConfig} {type k : String} {value v : Json} {child : Doc}
      (grouped : group ∈ m.discriminated) (flatten : group.2.flatten = true) (member : f ∈ m.oneofMembers group.1)
      (typed : f.message? = some type) (given : doc.get? f.jsonName = some value)
      (below : ChildWire planned encode type value (.obj child)) (found : child.get? k = some v) :
      Writes index planned encode plan m doc f k v

structure MessageWritten (index : Index) (planned : String → Bool) (encode : String → Json → Result Json)
    (plan : Plan) (m : Message) (doc wire : Doc) : Prop where
  distinct : wire.Distinct
  origin : ∀ k v, wire.get? k = some v → ∃ f ∈ m.fields, Writes index planned encode plan m doc f k v
  own : ∀ f ∈ m.fields, f.lifted? = none → ¬ m.LiftedMember f →
    encodeBlock encode plan (bodySteps index planned f) (doc.get? f.jsonName) = .ok (wire.get? f.jsonName)
  children : ∀ f ∈ m.fields, ∀ type pre, f.lifted? = some (type, pre) → ∀ value,
    doc.get? f.jsonName = some value → ∃ child : Doc, ChildWire planned encode type value (.obj child)
  lifted : ∀ f ∈ m.fields, ∀ k v, Lifts planned encode f doc k v → wire.get? k = some v
  variant : ∀ f ∈ m.fields, m.LiftedMember f → ∀ type, f.message? = some type → ∀ value,
    doc.get? f.jsonName = some value → ∃ child : Doc, ChildWire planned encode type value (.obj child) ∧
      ∀ k v, child.get? k = some v → wire.get? k = some v

section Members

variable (sound : index.Sound) (named : index.Named) (declares : index.Declares m) {f : Field}
  (inside : f ∈ m.fields)

theorem liftedMember_iff : m.LiftedMember f ↔ LiftedBy m m.discriminated f := by
  constructor
  · rintro ⟨oneof, config, grouped, lifts⟩
    exact ⟨(oneof, config), grouped, lifts⟩
  · rintro ⟨⟨oneof, config⟩, grouped, lifts⟩
    exact ⟨oneof, config, grouped, lifts⟩

include sound named declares inside

theorem not_lifted_of_liftedMember (member : m.LiftedMember f) : f.lifted? = none ∧ f.isSingular = true := by
  obtain ⟨oneof, config, grouped, _, listed⟩ := member
  have owner := ((resolved_of_named sound named declares oneof config grouped f).mp listed).2
  exact ⟨unlifted_of_member (checked_of_sound sound declares.1 f inside) owner,
    named.members m (mem_values_of_declares declares) f inside (by rw [owner]; simp)⟩

theorem bodySteps_of_liftedMember (member : m.LiftedMember f) :
    bodySteps index planned f = childSteps index planned f := by
  have checked := checked_of_sound sound declares.1 f inside
  obtain ⟨unlifted, _⟩ := not_lifted_of_liftedMember sound named declares inside member
  obtain ⟨oneof, config, grouped, flatten, listed⟩ := member
  have owner := ((resolved_of_named sound named declares oneof config grouped f).mp listed).2
  obtain ⟨_, _, oneofErrors, _⟩ := Message.errors_parts (sound.errors _ m declares.1)
  have clean := Message.member_of_memberErrors (Message.memberErrors_of_oneofErrors oneofErrors grouped) f listed
  obtain ⟨type, c, typed, known, foreign, _⟩ := message_of_member sound declares.1 grouped flatten listed
  have no_empty : emptySteps f = [] := by
    rw [emptySteps, clean.1, Bool.and_false]
    rfl
  have no_null : nullSteps f = [] := by
    rw [nullSteps, if_neg]
    intro nullable
    have typed' := (checked.nullable nullable).1
    rw [typed] at typed'
    cases typed'
  rw [bodySteps_of_unlifted unlifted, no_empty, no_null,
    recodeSteps_nil checked typed (ne_timestamp_of_own sound.toKeyed known foreign)]
  simp

end Members

section Message

variable (sound : index.Sound) (named : index.Named) (declares : index.Declares m) (orderly : index.Orderly m)

include sound orderly declares in
theorem lifted_apart {f : Field} (inside : f ∈ m.fields) (lifted : f.lifted?.isSome = true) {k : String}
    (own : k ∈ index.ownKeys f) : (∀ group ∈ m.discriminated, k ∉ index.oneofKeys m group.1 group.2) ∧
      ∀ g, LiftedBy m m.discriminated g → k ≠ g.jsonName := by
  have checked := checked_of_sound sound declares.1
  have alone := oneof_of_lifted (checked f inside) lifted
  have plain : ¬ m.LiftedMember f := by
    rintro ⟨oneof, config, grouped, _, listed⟩
    have owner := ((orderly.members oneof config grouped f).mp listed).2
    rw [alone] at owner
    cases owner
  refine ⟨fun group grouped written => orderly.beside group.1 group.2 grouped f inside plain own written, ?_⟩
  rintro g ⟨⟨oneof, config⟩, grouped, flatten, listed⟩ rfl
  obtain ⟨there, owner⟩ := (orderly.members oneof config grouped g).mp listed
  have disjoint : List.Disjoint (index.ownKeys f) (index.ownKeys g) :=
    pairwise_forall (fun _ _ disjoint => List.disjoint_symm disjoint) (orderly.fields.imp fun pair => pair.2) inside
      there fun same => by
        rw [← same, alone] at owner
        cases owner
  exact disjoint own (by rw [ownKeys_of_member (checked g there) owner]; exact List.mem_singleton_self _)

variable {between : Doc} (fields : FieldsWritten index planned encode plan m.fields doc between)
  (object : ∀ f ∈ m.fields, f.lifted?.isSome = true ∨ m.LiftedMember f → ∀ type, f.message? = some type →
    ∀ value, doc.get? f.jsonName = some value → WritesObject index planned encode type value)

include object in
theorem objects_of_lifted {f : Field} (inside : f ∈ m.fields) (type pre : String)
    (lifted : f.lifted? = some (type, pre)) (value : Json) (given : doc.get? f.jsonName = some value) :
    WritesObject index planned encode type value :=
  object f inside (.inl (by rw [lifted]; rfl)) type (lifted?_eq_some lifted).2.1 value given

section Members

variable {f : Field} (inside : f ∈ m.fields) (member : m.LiftedMember f) {type : String}

include sound named declares fields object inside member

theorem member_written (typed : f.message? = some type) {value : Json}
    (given : doc.get? f.jsonName = some value) : ∃ child : Doc, between.get? f.jsonName = some (.obj child) ∧
      ChildWire planned encode type value (.obj child) := by
  obtain ⟨unlifted, singular⟩ := not_lifted_of_liftedMember sound named declares inside member
  obtain ⟨present, objects⟩ := object f inside (.inr member) type typed value given
  have block := fields.own f inside unlifted
  rw [bodySteps_of_liftedMember sound named declares inside member, given] at block
  obtain ⟨w, set, below⟩ := child_of_block typed singular present block
  obtain ⟨child, rfl, _⟩ := objects w below
  exact ⟨child, set, below⟩

theorem member_given {w : Json} (there : between.get? f.jsonName = some w) : ∃ type value,
    f.message? = some type ∧ doc.get? f.jsonName = some value ∧ ChildWire planned encode type value w := by
  obtain ⟨_, _, grouped, flatten, listed⟩ := id member
  obtain ⟨type, _, typed, _⟩ := message_of_member sound declares.1 grouped flatten listed
  cases given : doc.get? f.jsonName with
  | none =>
    have block := fields.own f inside (not_lifted_of_liftedMember sound named declares inside member).1
    rw [bodySteps_of_liftedMember sound named declares inside member, given,
      encodeBlock_passes child_maps (.inl rfl), there] at block
    cases Except.ok.inj block
  | some value =>
    obtain ⟨child, set, below⟩ := member_written sound named declares fields object inside member typed given
    cases there.symm.trans set
    exact ⟨type, value, typed, rfl, below⟩

end Members

include sound named declares fields object in
theorem liftsOne_of_fields (single : m.OneMember doc) {group : Oneof × OneofConfig}
    (grouped : group ∈ m.discriminated) : LiftsOne index m group between := by
  have belongs (f : Field) (listed : f ∈ m.oneofMembers group.1) :=
    (resolved_of_named sound named declares group.1 group.2 grouped f).mp listed
  have given (flatten : group.2.flatten = true) {f : Field} (listed : f ∈ m.oneofMembers group.1) {w : Json}
      (there : between.get? f.jsonName = some w) :=
    member_given sound named declares fields object (belongs f listed).1 ⟨_, _, grouped, flatten, listed⟩ there
  refine ⟨fun flatten f f_listed g g_listed f_set g_set => ?_, fun flatten f listed w there => ?_⟩
  · obtain ⟨_, f_there⟩ := Option.ne_none_iff_exists'.mp f_set
    obtain ⟨_, g_there⟩ := Option.ne_none_iff_exists'.mp g_set
    obtain ⟨_, _, _, f_given, _⟩ := given flatten f_listed f_there
    obtain ⟨_, _, _, g_given, _⟩ := given flatten g_listed g_there
    obtain ⟨f_inside, f_owner⟩ := belongs f f_listed
    obtain ⟨g_inside, g_owner⟩ := belongs g g_listed
    exact single f f_inside g g_inside (by rw [f_owner]; simp) (f_owner.trans g_owner.symm) (by rw [f_given]; simp)
      (by rw [g_given]; simp)
  · obtain ⟨type, value, typed, found, below⟩ := given flatten listed there
    obtain ⟨child, rfl, distinct, keys⟩ := (object f (belongs f listed).1
      (.inr ⟨_, _, grouped, flatten, listed⟩) type typed value found).2 w below
    refine ⟨child, rfl, distinct, fun k own => ?_⟩
    rw [variantOf, flatten, typed]
    exact keys k own

include sound named declares fields object in
theorem writes_of_oneofs (oneofs : OneofsWritten index m m.discriminated between wire)
    (known : ∀ k, doc.get? k ≠ none → ∃ f ∈ m.fields, f.jsonName = k) {k : String} {v : Json}
    (there : wire.get? k = some v) : ∃ f ∈ m.fields, Writes index planned encode plan m doc f k v := by
  have resolved := resolved_of_named sound named declares
  rcases oneofs.origin k v there with ⟨group, grouped, f, listed, rfl, rfl⟩ |
    ⟨group, grouped, flatten, f, listed, child, set, found⟩ | ⟨before, free⟩
  · exact ⟨f, ((resolved group.1 group.2 grouped f).mp listed).1, .tag grouped listed⟩
  · have inside := ((resolved group.1 group.2 grouped f).mp listed).1
    obtain ⟨type, value, typed, given, below⟩ :=
      member_given sound named declares fields object inside ⟨_, _, grouped, flatten, listed⟩ set
    exact ⟨f, inside, .variant grouped flatten listed typed given below found⟩
  · rcases fields.origin k v before with ⟨f, inside, unlifted, rfl⟩ | ⟨f, inside, lifts⟩ | ⟨given, apart⟩
    · refine ⟨f, inside, .own unlifted (fun member => ?_) (before ▸ fields.own f inside unlifted)⟩
      exact free f (liftedMember_iff.mp member) rfl
    · exact ⟨f, inside, .lifted lifts⟩
    · obtain ⟨f, inside, same⟩ := known k (by rw [given]; simp)
      exact absurd same (apart f inside)

include sound named declares orderly

theorem untouched_by_oneofs (oneofs : OneofsWritten index m m.discriminated between wire) {f : Field}
    (inside : f ∈ m.fields) (unlifted : f.lifted? = none) (kept : ¬ m.LiftedMember f) :
    wire.get? f.jsonName = between.get? f.jsonName := by
  have own : f.jsonName ∈ index.ownKeys f := by
    rw [ownKeys_of_unlifted unlifted]
    exact List.mem_singleton_self _
  refine oneofs.others f.jsonName
    (fun group grouped => orderly.beside group.1 group.2 grouped f inside kept own) fun g lifted same => ?_
  obtain ⟨group, grouped, flatten, listed⟩ := lifted
  have there := ((resolved_of_named sound named declares group.1 group.2 grouped g).mp listed).1
  cases eq_of_nodup orderly.names inside there same
  exact kept ⟨group.1, group.2, grouped, flatten, listed⟩

include object

theorem messageWritten_of_run (distinct : doc.Distinct)
    (known : ∀ k, doc.get? k ≠ none → ∃ f ∈ m.fields, f.jsonName = k) (single : m.OneMember doc)
    (run : encodeAll encode plan (innerSteps index m planned) doc = .ok wire) :
    MessageWritten index planned encode plan m doc wire := by
  rw [innerSteps, encodeAll_append] at run
  obtain ⟨between, first, second⟩ := bind_eq_ok run
  have fields : FieldsWritten index planned encode plan m.fields doc between :=
    fieldsWritten_of_run (checked_of_sound sound declares.1) (lifted_not_timestamp sound declares.1)
      (List.pairwise_map.mp orderly.names) orderly.fields distinct
      (fun _ inside => objects_of_lifted object inside) first
  have oneofs : OneofsWritten index m m.discriminated between wire :=
    oneofsWritten_of_run (fun group grouped => orderly.tag group.1 group.2 grouped) orderly.oneofs
      (members_apart orderly) fields.distinct
      (fun _ grouped => liftsOne_of_fields sound named declares fields object single grouped) second
  refine
    { distinct := oneofs.distinct
      origin := fun k v there => writes_of_oneofs sound named declares fields object oneofs known there
      own := fun f inside unlifted kept => ?_
      children := fields.children
      lifted := fun f inside k v lifts => ?_
      variant := fun f inside member type typed value given => ?_ }
  · rw [untouched_by_oneofs sound named declares orderly oneofs inside unlifted kept]
    exact fields.own f inside unlifted
  · have own : k ∈ index.ownKeys f := lifts.mem_ownKeys (objects_of_lifted object inside)
    obtain ⟨unwritten, free⟩ := lifted_apart sound declares orderly inside lifts.isSome own
    rw [oneofs.others _ unwritten free]
    exact fields.lifted f inside k v lifts
  · obtain ⟨child, set, below⟩ := member_written sound named declares fields object inside member typed given
    exact ⟨child, below, oneofs.lifted f (liftedMember_iff.mp member) child set⟩

theorem MessageWritten.laid (written : MessageWritten index planned encode plan m doc wire) :
    ∀ k ∈ wire.keys, k ∈ index.laidKeys m.fullName := by
  intro k present
  obtain ⟨v, there⟩ := Entries.mem_keys_iff.mp present
  obtain ⟨f, inside, writes⟩ := written.origin k v there
  have plain (lifted : f.lifted?.isSome = true) : ¬ m.LiftedMember f := fun member => by
    rw [(not_lifted_of_liftedMember sound named declares inside member).1] at lifted
    cases lifted
  cases writes with
  | own unlifted kept run =>
    refine orderly.fieldsLaid f inside kept _ ?_
    rw [ownKeys_of_unlifted unlifted]
    exact List.mem_singleton_self _
  | lifted lifts =>
    exact orderly.fieldsLaid f inside (plain lifts.isSome) _ (lifts.mem_ownKeys (objects_of_lifted object inside))
  | tag grouped member => exact orderly.oneofsLaid _ _ grouped _ discriminator_mem
  | variant grouped flatten member typed given below found =>
    rename_i group type value child
    obtain ⟨child', same, _, keys⟩ :=
      (object f inside (.inr ⟨_, _, grouped, flatten, member⟩) type typed value given).2 _ below
    cases same
    refine orderly.oneofsLaid _ _ grouped _ (childKeys_mem member ?_)
    rw [variantOf, flatten, typed]
    exact keys k (Entries.mem_keys_iff.mpr ⟨v, found⟩)

end Message

end Wireform.Codec
