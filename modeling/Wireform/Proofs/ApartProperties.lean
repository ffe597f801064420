import Wireform.Proofs.DeclaredRows
import Wireform.Proofs.RequiredKeys

set_option autoImplicit false

namespace Wireform

namespace Property

structure AllApart (properties : List Property) : Prop where
  each : ∀ p ∈ properties, p.Apart
  pairs : properties.Pairwise Before

theorem AllApart.nil : AllApart [] := ⟨fun _ never => (List.not_mem_nil never).elim, .nil⟩

theorem AllApart.singleton {p : Property} (apart : p.Apart) : AllApart [p] :=
  ⟨fun _ inside => List.mem_singleton.mp inside ▸ apart, List.pairwise_singleton _ _⟩

theorem shows_of_key? {p : Property} (apart : p.Apart) {key : String} (written : p.key? = some key) :
    ∃ shown, p.Shows key shown := by
  cases apart with
  | discriminator k values =>
    cases written
    exact ⟨_, .discriminator key values⟩
  | own k member known =>
    cases written
    exact ⟨_, .own key member known⟩
  | lifted => cases written

end Property

namespace Index

variable {index : Index} (sound : index.Sound) (named : index.Named)

include sound named

section Fields

variable {child : Message → String → List Property}
  (below : ∀ c, index.Declares c → ∀ pre, Property.AllApart (child c pre)) {m : Message} (declares : index.Declares m)
  {f : Field} (inside : f ∈ m.fields) (pre : String)

include below declares inside

theorem apart_of_variants {group : Oneof × OneofConfig} (grouped : m.groupOf? f = some group)
    (first : group.1.members.head? = some f.name) :
    Property.AllApart (Interface.fieldProperties index index.plans child m pre f) := by
  have there := (mem_of_groupOf? grouped).1
  have places := places_of_names sound declares.1 (named.jsonNames m (mem_values_of_declares declares))
  rw [fieldProperties_group sound named declares inside grouped first]
  obtain ⟨variants, laid, names, _⟩ := fieldLaid_group (places.each f inside) grouped first
  have nodup := places.nodup f inside
  rw [laid, List.nodup_cons] at nodup
  cases flatten : group.2.flatten with
  | true =>
    -- Lifted variants write over nothing.
    have lifted {v : Field} (member : v ∈ m.oneofMembers group.1) {p : Property}
        (listed : p ∈ Interface.variantProperties index index.plans child m pre (index.seenGroup m group)
          (index.variantOf group.2 v)) : p.Apart ∧ p.key? = none := by
      obtain ⟨_, c, _, _, declared, same⟩ := variantProperties_lifted sound declares there member flatten
      rw [same, List.mem_singleton] at listed
      subst listed
      exact ⟨.lifted (below c declared pre).each (below c declared pre).pairs, rfl⟩
    refine ⟨fun p listed => ?_, List.pairwise_cons.mpr ⟨fun q listed key written => ?_, ?_⟩⟩
    · rcases List.mem_cons.mp listed with rfl | later
      · exact .discriminator ..
      · obtain ⟨v, member, listed⟩ := List.mem_flatMap.mp later
        exact (lifted member listed).1
    · obtain ⟨v, member, listed⟩ := List.mem_flatMap.mp listed
      rw [(lifted member listed).2] at written
      cases written
    · refine List.Pairwise.imp_of_mem (R := fun _ _ => True) (fun {p q} _ listed _ key written => ?_)
        (List.pairwise_of_forall fun _ _ => trivial)
      obtain ⟨v, member, listed⟩ := List.mem_flatMap.mp listed
      rw [(lifted member listed).2] at written
      cases written
  | false =>
    have own : (m.oneofMembers group.1).flatMap (fun v => Interface.variantProperties index index.plans child m pre
          (index.seenGroup m group) (index.variantOf group.2 v)) =
        (m.oneofMembers group.1).map fun v => .own (pre ++ v.jsonName) .variant (Interface.memberOf index.plans m v) := by
      rw [List.flatMap_congr fun v member => variantProperties_beside sound named declares there member flatten,
        List.map_eq_flatMap]
    rw [names flatten] at nodup
    rw [own]
    refine ⟨fun p listed => ?_, List.pairwise_cons.mpr ⟨fun q listed key written shown shows => ?_, ?_⟩⟩
    · rcases List.mem_cons.mp listed with rfl | later
      · exact .discriminator ..
      · obtain ⟨v, _, rfl⟩ := List.mem_map.mp later
        exact .own _ _ (by decide)
    · obtain ⟨v, member, rfl⟩ := List.mem_map.mp listed
      cases written
      generalize keyed : pre ++ v.jsonName = key at shows
      cases shows
      exact nodup.1 (List.mem_map.mpr ⟨v, member, Codec.prefix_injective pre _ _ keyed⟩)
    · rw [List.pairwise_map]
      refine List.Pairwise.imp (fun {v w} differ key written shown shows => ?_) (List.pairwise_map.mp nodup.2)
      cases written
      generalize keyed : pre ++ w.jsonName = key at shows
      cases shows
      exact differ (Codec.prefix_injective pre _ _ keyed).symm

theorem apart_of_fieldProperties :
    Property.AllApart (Interface.fieldProperties index index.plans child m pre f) := by
  cases grouped : m.groupOf? f with
  | none =>
    cases lifted : f.lifted? with
    | none =>
      rw [fieldProperties_plain sound named declares inside grouped lifted]
      exact .singleton (.own _ _ (by decide))
    | some target =>
      obtain ⟨type, childPre⟩ := target
      obtain ⟨c, _, declared, same⟩ := fieldProperties_lifted sound named declares inside grouped lifted
      rw [same]
      exact below c declared _
  | some group =>
    by_cases first : group.1.members.head? = some f.name
    · exact apart_of_variants sound named below declares inside pre grouped first
    · rw [fieldProperties_later sound named declares inside grouped first]
      exact .nil

end Fields

theorem apart_of_fields {child : Message → String → List Property}
    (below : ∀ c, index.Declares c → ∀ pre, Property.AllApart (child c pre))
    (shown : ∀ c, index.Declares c → ∀ pre, ∀ p ∈ child c pre, ∀ key shown, p.Shows key shown →
      ∃ k, key = pre ++ k ∧ ∃ g ∈ c.fields, index.Shows c g k shown)
    {m : Message} (declares : index.Declares m) (pre : String) :
    Property.AllApart (m.fields.flatMap (Interface.fieldProperties index index.plans child m pre)) := by
  have values := mem_values_of_declares declares
  have places := places_of_names sound declares.1 (named.jsonNames m values)
  have each (f : Field) (inside : f ∈ m.fields) :=
    apart_of_fieldProperties sound named below declares inside pre
  refine ⟨fun p listed => ?_, List.pairwise_flatMap.mpr ⟨fun f inside => (each f inside).pairs, ?_⟩⟩
  · obtain ⟨f, inside, listed⟩ := List.mem_flatMap.mp listed
    exact (each f inside).each p listed
  · refine List.Pairwise.imp_of_mem (fun {f g} first second differ p listed q there key written shown₁ shows => ?_)
      (List.pairwise_map.mp (named.names m values))
    obtain ⟨shown₂, shows'⟩ := Property.shows_of_key? ((each g second).each q there) written
    obtain ⟨k, rfl, at_f⟩ := shows_of_fieldProperties sound named shown declares first listed shows
    obtain ⟨k', same, at_g⟩ := shows_of_fieldProperties sound named shown declares second there shows'
    cases Codec.prefix_injective pre _ _ same
    exact places.apart f first g second (fun same => differ (congrArg _ same)) (laid_of_shows sound at_f declares.1 first)
      (laid_of_shows sound at_g declares.1 second)

theorem apart_of_properties (levels : Nat) : ∀ m, index.Declares m → ∀ pre,
    Property.AllApart (Interface.propertiesWithin index index.plans levels m pre) := by
  induction levels with
  | zero =>
    intro m declares pre
    exact apart_of_fields sound named (fun _ _ _ => .nil) (fun _ _ _ _ never => (List.not_mem_nil never).elim) declares pre
  | succ levels ih =>
    intro m declares pre
    exact apart_of_fields sound named ih (shows_of_properties sound named levels) declares pre

omit sound in
theorem apart_of_unplanned {m : Message} (inside : m ∈ index.messages.values) (pre : String) :
    Property.AllApart (m.fields.map fun f => .own (pre ++ f.jsonName) .plain ⟨f, []⟩) := by
  refine ⟨fun p listed => ?_, List.pairwise_map.mpr ?_⟩
  · obtain ⟨f, _, rfl⟩ := List.mem_map.mp listed
    exact .own _ _ (by decide)
  · refine List.Pairwise.imp (fun {f g} differ key written shown shows => ?_)
      (List.pairwise_map.mp (named.jsonNames m inside))
    cases written
    generalize keyed : pre ++ g.jsonName = key at shows
    cases shows
    exact differ (Codec.prefix_injective pre _ _ keyed).symm

theorem apart_of_message {name : String} {m : Message} (found : index.message? name = some m) :
    Property.AllApart (Interface.properties index index.plans m) := by
  rw [Interface.properties]
  cases own : m.wellKnown with
  | true =>
    rw [properties_of_unplanned (plan?_of_wellKnown sound.toKeyed found own)]
    exact apart_of_unplanned named (KeyMap.mem_values.mpr ⟨_, found⟩) ""
  | false => exact apart_of_properties sound named _ m (declares_of_found sound found own) ""

end Index

end Wireform
