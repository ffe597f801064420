import Wireform.Proofs.StepPhases

set_option autoImplicit false

namespace Wireform.Codec

open Json (Alike AlikeAt)
open Index

structure MessageReady (index : Index) (m : Message) (planned : String → Bool)
    (encode decode : String → Json → Result Json) (doc : Doc) : Prop where
  known : ∀ k, doc.get? k ≠ none → ∃ f ∈ m.fields, f.jsonName = k
  values : ∀ f ∈ m.fields, ∀ value, doc.get? f.jsonName = some value →
    Restorable index planned encode decode f value ∧ LiftFits index planned encode f value
  single : ∀ f ∈ m.fields, ∀ g ∈ m.fields, f.oneof ≠ none → f.oneof = g.oneof →
    doc.get? f.jsonName ≠ none → doc.get? g.jsonName ≠ none → f.jsonName = g.jsonName
  variants : ∀ f ∈ m.fields, m.LiftedMember f → ∀ value, doc.get? f.jsonName = some value →
    ∀ type, f.message? = some type → ∀ w, ChildWire planned encode type value w →
      ∃ child : Doc, w = .obj child ∧ ∀ k ∈ child.keys, k ∈ index.laidKeys type

def innerSteps (index : Index) (m : Message) (planned : String → Bool) : List Step :=
  m.fields.flatMap (bodySteps index planned)
    ++ m.discriminated.map fun (oneof, config) => oneofStep index m oneof config

variable {index : Index} {m : Message} {planned : String → Bool}
  {encode decode : String → Json → Result Json} {plan : Plan} {doc between wire : Doc}

section Fields

variable {f : Field}

theorem unlifted_of_member (checked : f.Checked index m) {owner : String} (member : f.oneof = some owner) :
    f.lifted? = none := by
  cases lifted : f.lifted? with
  | none => rfl
  | some target =>
    have alone := oneof_of_lifted checked (by rw [lifted]; rfl)
    rw [member] at alone
    cases alone

theorem absentWire_of_member (checked : f.Checked index m) (presence : f.cardinality = .optional → f.oneof = none)
    {owner : String} (member : f.oneof = some owner) : absentWire f = none := by
  rw [absentWire, if_neg]
  intro nullable
  rw [presence (checked.nullable nullable).2] at member
  cases member

variable (orderly : index.Orderly m)

include orderly

theorem not_own_of_oneofKey (checked : ∀ f ∈ m.fields, f.Checked index m) {oneof : Oneof} {config : OneofConfig}
    (inside : (oneof, config) ∈ m.discriminated) {k : String} (written : k ∈ index.oneofKeys m oneof config)
    (free : ∀ g, LiftedBy m m.discriminated g → k ≠ g.jsonName) (there : f ∈ m.fields) :
    k ∉ index.ownKeys f := by
  by_cases member : m.LiftedMember f
  · obtain ⟨o, c, group, flatten, listed⟩ := member
    have owner := ((orderly.members o c group f).mp listed).2
    rw [ownKeys_of_member (checked f there) owner, List.mem_singleton]
    exact free f ⟨_, group, flatten, listed⟩
  · exact fun own => orderly.beside oneof config inside f there member own written

theorem not_own_of_unlaid (checked : ∀ f ∈ m.fields, f.Checked index m) {k : String}
    (outside : k ∉ index.laidKeys m.fullName) (free : ∀ g, LiftedBy m m.discriminated g → k ≠ g.jsonName)
    (there : f ∈ m.fields) : k ∉ index.ownKeys f := by
  by_cases member : m.LiftedMember f
  · obtain ⟨o, c, group, flatten, listed⟩ := member
    have owner := ((orderly.members o c group f).mp listed).2
    rw [ownKeys_of_member (checked f there) owner, List.mem_singleton]
    exact free f ⟨_, group, flatten, listed⟩
  · exact fun own => outside (orderly.fieldsLaid f there member k own)

end Fields

theorem absent_of_not_own (known : ∀ k, doc.get? k ≠ none → ∃ f ∈ m.fields, f.jsonName = k)
    (done : FieldsDone index planned encode plan m.fields doc between) {k : String}
    (outside : ∀ f ∈ m.fields, k ∉ index.ownKeys f) : between.get? k = none := by
  by_cases named : ∃ g ∈ m.fields, g.jsonName = k
  · obtain ⟨g, there, rfl⟩ := named
    cases lifted : g.lifted? with
    | none => exact absurd (by simp [ownKeys_of_unlifted lifted]) (outside g there)
    | some target => exact done.emptied g there (by rw [lifted]; rfl) outside
  · rw [done.others k fun f there => ⟨outside f there, fun same => named ⟨f, there, same.symm⟩⟩]
    by_contra present
    exact named (known k present)

section Oneofs

variable (keeps : ∀ name, KeepsAlike (decode name)) (own : planned WellKnown.timestamp = false)
  (sound : index.Sound) {name : String} (found : index.message? name = some m) (orderly : index.Orderly m)
  (checked : ∀ f ∈ m.fields, f.Checked index m)
  (singular : ∀ f ∈ m.fields, f.oneof ≠ none → f.isSingular = true)
  (ready : MessageReady index m planned encode decode doc)
  (done : FieldsDone index planned encode plan m.fields doc between)

include keeps own sound found orderly checked singular ready done

theorem oneofReady_of_fieldsDone {oneof : Oneof} {config : OneofConfig}
    (inside : (oneof, config) ∈ m.discriminated) :
    OneofReady index m m.discriminated (oneof, config) between := by
  have wellFormed := sound.wellFormed name m found
  obtain ⟨_, _, oneofErrors, _⟩ := Message.errors_parts (sound.errors name m found)
  have member_of_clean := Message.member_of_memberErrors (Message.memberErrors_of_oneofErrors oneofErrors inside)
  have belongs := orderly.members oneof config inside
  -- What a member has after the steps of the fields came of what it had in the document.
  have outcome (f : Field) (member : f ∈ m.oneofMembers oneof) :
      ValueOutcome index planned encode f (doc.get? f.jsonName) (between.get? f.jsonName) := by
    obtain ⟨there, owner⟩ := (belongs f).mp member
    have unlifted := unlifted_of_member (checked f there) owner
    exact outcome_of_run keeps own (checked f there) unlifted
      (fun value found => (ready.values f there value found).1) (done.run f there unlifted)
  have present (f : Field) (member : f ∈ m.oneofMembers oneof) (set : between.get? f.jsonName ≠ none) :
      doc.get? f.jsonName ≠ none := by
    obtain ⟨there, owner⟩ := (belongs f).mp member
    intro absent
    rw [(outcome f member).1 absent,
      absentWire_of_member (checked f there) (wellFormed.presence f there) owner] at set
    exact set rfl
  have value_at (f : Field) (member : f ∈ m.oneofMembers oneof) (w : Json)
      (set : between.get? f.jsonName = some w) : ∃ value, doc.get? f.jsonName = some value ∧
        w.isNull = false ∧ (recodeSteps index f = [] → ∀ child, f.message? = some child →
          f.isSingular = true → ChildWire planned encode child value w) := by
    obtain ⟨value, given⟩ := Option.ne_none_iff_exists'.mp (present f member (by rw [set]; simp))
    rcases (outcome f member).2 value given with ⟨changes, _⟩ | ⟨other, same, not_null, child⟩
    · rw [(member_of_clean f member).1] at changes
      cases changes
    · rw [set] at same
      cases Option.some.inj same
      exact ⟨value, given, not_null, child⟩
  refine ⟨fun f first g second f_set g_set => ?_, fun f member w set => ?_, fun flatten f member w set => ?_,
    fun k written free => ?_⟩
  · obtain ⟨f_there, f_owner⟩ := (belongs f).mp first
    obtain ⟨g_there, g_owner⟩ := (belongs g).mp second
    exact ready.single f f_there g g_there (by rw [f_owner]; simp) (f_owner.trans g_owner.symm)
      (present f first f_set) (present g second g_set)
  · obtain ⟨_, _, not_null, _⟩ := value_at f member w set
    exact not_null
  · obtain ⟨there, owner⟩ := (belongs f).mp member
    obtain ⟨value, given, _, child⟩ := value_at f member w set
    obtain ⟨type, c, typed, target, own, _⟩ := Message.message_of_variantIssues
      (member_of_clean f member).2 (sound.resolved name m found f there) flatten
    have other := ne_timestamp_of_own sound.toKeyed target own
    obtain ⟨entries, same, keys⟩ := ready.variants f there ⟨_, _, inside, flatten, member⟩ value given type typed w
      (child (recodeSteps_nil (checked f there) typed other) type typed
        (singular f there (by rw [owner]; simp)))
    refine ⟨entries, same, fun k own => ?_⟩
    rw [variantOf]
    dsimp only at flatten ⊢
    rw [flatten, typed]
    exact keys k own
  · exact absent_of_not_own ready.known done fun f there =>
      not_own_of_oneofKey orderly checked inside written free there

end Oneofs

structure MessageDone (index : Index) (m : Message) (planned : String → Bool)
    (encode : String → Json → Result Json) (plan : Plan) (doc wire : Doc) : Prop where
  laid : ∀ k ∈ wire.keys, k ∈ index.laidKeys m.fullName
  run : ∀ f ∈ m.fields, f.lifted? = none → ¬ m.LiftedMember f →
    encodeBlock encode plan (bodySteps index planned f) (doc.get? f.jsonName) = .ok (wire.get? f.jsonName)

section Message

variable (keeps : ∀ name, KeepsAlike (decode name)) (sound : index.Sound) {name : String}
  (found : index.message? name = some m) (orderly : index.Orderly m)
  (singular : ∀ f ∈ m.fields, f.oneof ≠ none → f.isSingular = true)

include sound found in
theorem checked_of_sound : ∀ f ∈ m.fields, f.Checked index m :=
  Message.checked_fields (Message.errors_parts (sound.errors name m found)).1 (sound.resolved name m found)

include sound found singular in
theorem discriminated_of_root {f : Field} (fields : m.fields = [f]) (unwrap : f.annotations.unwrap = true) :
    m.discriminated = [] := by
  have plural := ((checked_of_sound sound found f (by simp [fields])).unwrap unwrap).1
  have formed := sound.wellFormed name m found
  refine List.eq_nil_iff_forall_not_mem.mpr fun ⟨oneof, config⟩ grouped => ?_
  have listed := (mem_discriminated.mp grouped).1
  obtain ⟨first, inside⟩ := List.exists_mem_of_ne_nil _ (formed.members oneof listed)
  obtain ⟨g, there, _, owner⟩ := formed.member oneof listed first inside
  have same : g = f := by simpa [fields] using there
  have single := singular f (by simp [fields]) (by simp [← same, owner])
  rw [plural] at single
  cases single

include sound found in
theorem lifted_not_timestamp : ∀ f ∈ m.fields, ∀ type pre, f.lifted? = some (type, pre) →
    type ≠ WellKnown.timestamp := by
  intro f there type pre lifted
  obtain ⟨flatten, typed, _⟩ := lifted?_eq_some lifted
  obtain ⟨child, c, typed', target, _, own, _⟩ := (checked_of_sound sound found f there).flatten flatten
  cases Option.some.inj (typed.symm.trans typed')
  exact ne_timestamp_of_own sound.toKeyed target own

include orderly in
theorem members_apart : m.discriminated.Pairwise fun a b =>
    ∀ f ∈ m.oneofMembers a.1, ∀ g ∈ m.oneofMembers b.1, f.jsonName ≠ g.jsonName := by
  have different : m.discriminated.Pairwise fun a b => a.1.name ≠ b.1.name :=
    List.pairwise_map.mp (discriminated_names orderly.oneofNames)
  refine different.imp_of_mem fun {a b} first second differ f f_member g g_member same => ?_
  obtain ⟨f_there, f_owner⟩ := (orderly.members a.1 a.2 first f).mp f_member
  obtain ⟨g_there, g_owner⟩ := (orderly.members b.1 b.2 second g).mp g_member
  rw [eq_of_nodup orderly.names f_there g_there same, g_owner] at f_owner
  exact differ (Option.some.inj f_owner).symm

include orderly in
theorem messageDone_of_phases (checked : ∀ f ∈ m.fields, f.Checked index m)
    (known : ∀ k, doc.get? k ≠ none → ∃ f ∈ m.fields, f.jsonName = k)
    (fields : FieldsDone index planned encode plan m.fields doc between)
    (oneofs : OneofsDone index m m.discriminated between wire) :
    MessageDone index m planned encode plan doc wire := by
  refine ⟨fun k inside => ?_, fun f there unlifted plain => ?_⟩
  · by_contra outside
    have unwritten : ∀ group ∈ m.discriminated, k ∉ index.oneofKeys m group.1 group.2 :=
      fun group there written => outside (orderly.oneofsLaid group.1 group.2 there k written)
    refine absurd inside (Entries.get?_eq_none.mp ?_)
    by_cases taken : ∃ g, LiftedBy m m.discriminated g ∧ k = g.jsonName
    · obtain ⟨g, lifted, rfl⟩ := taken
      exact oneofs.emptied g lifted unwritten
    · have free : ∀ g, LiftedBy m m.discriminated g → k ≠ g.jsonName :=
        fun g lifted same => taken ⟨g, lifted, same⟩
      rw [oneofs.others k unwritten free]
      exact absent_of_not_own known fields fun f there =>
        not_own_of_unlaid orderly checked outside free there
  · have own : f.jsonName ∈ index.ownKeys f := by simp [ownKeys_of_unlifted unlifted]
    rw [oneofs.others f.jsonName (fun group inside =>
      orderly.beside group.1 group.2 inside f there plain own)]
    · exact fields.run f there unlifted
    · rintro g ⟨group, inside, flatten, member⟩ same
      obtain ⟨g_there, _⟩ := (orderly.members group.1 group.2 inside g).mp member
      cases eq_of_nodup orderly.names there g_there same
      exact plain ⟨group.1, group.2, inside, flatten, member⟩

include keeps sound found orderly singular in
theorem message_undone (own : planned WellKnown.timestamp = false) (distinct : (Json.obj doc).Distinct)
    (ready : MessageReady index m planned encode decode doc) :
    ∃ wire, Undone encode decode plan (innerSteps index m planned) doc wire ∧
      MessageDone index m planned encode plan doc wire := by
  have checked := checked_of_sound sound found
  obtain ⟨_, _, oneofErrors, _⟩ := Message.errors_parts (sound.errors name m found)
  have different : m.fields.Pairwise fun f g => f.jsonName ≠ g.jsonName := List.pairwise_map.mp orderly.names
  obtain ⟨between, first, fields⟩ := fields_undone keeps own checked
    (lifted_not_timestamp sound found) different orderly.fields distinct fun f there =>
      ⟨ready.values f there, fun _ k _ free => by
        by_contra present
        obtain ⟨g, inside, same⟩ := ready.known k present
        exact free g inside same.symm⟩
  obtain ⟨wire, second, oneofs⟩ := oneofs_undone keeps
    (fun group inside => (Message.variantValues_of_memberErrors
      (Message.memberErrors_of_oneofErrors oneofErrors inside)).1)
    (fun group inside => orderly.tag group.1 group.2 inside) orderly.oneofs (members_apart orderly)
    first.distinct fun group inside =>
      oneofReady_of_fieldsDone keeps own sound found orderly checked singular ready fields inside
  exact ⟨wire, first.append keeps second, messageDone_of_phases orderly checked ready.known fields oneofs⟩

end Message

end Wireform.Codec
