import Wireform.Proofs.RestoredDocuments
import Wireform.Proofs.SeenMembers

set_option autoImplicit false

namespace Wireform

namespace Codec

open Index

section Containers

variable {ε : Type} {f : Json → Except ε Json}

theorem mem_mapItems {items results : List Json} (run : mapItems f items = .ok results) {result : Json}
    (inside : result ∈ results) : ∃ item ∈ items, unlessNull f item = .ok result := by
  induction items generalizing results with
  | nil =>
    cases Except.ok.inj run
    cases inside
  | cons head rest ih =>
    rw [mapItems_cons] at run
    obtain ⟨first, made, later⟩ := bind_eq_ok run
    obtain ⟨others, done, same⟩ := bind_eq_ok later
    cases Except.ok.inj same
    rcases List.mem_cons.mp inside with rfl | there
    · exact ⟨head, List.mem_cons_self, made⟩
    · obtain ⟨item, among, made⟩ := ih done there
      exact ⟨item, List.mem_cons_of_mem head among, made⟩

theorem mem_mapMembers {members results : Entries Json} (run : mapMembers f members = .ok results)
    {result : String × Json} (inside : result ∈ results) :
    ∃ member ∈ members, unlessNull f member.2 = .ok result.2 := by
  induction members generalizing results with
  | nil =>
    cases Except.ok.inj run
    cases inside
  | cons head rest ih =>
    obtain ⟨key, value⟩ := head
    rw [mapMembers_cons] at run
    obtain ⟨first, made, later⟩ := bind_eq_ok run
    obtain ⟨others, done, same⟩ := bind_eq_ok later
    cases Except.ok.inj same
    rcases List.mem_cons.mp inside with rfl | there
    · exact ⟨(key, value), List.mem_cons_self, made⟩
    · obtain ⟨member, among, made⟩ := ih done there
      exact ⟨member, List.mem_cons_of_mem _ among, made⟩

theorem mem_mapContainer {container : Container} {value wire : Json} (shapes : container.Shapes value)
    (run : mapContainer container f value = .ok wire) : container.Shapes wire ∧
      ∀ y ∈ container.values wire, ∃ x ∈ container.values value, unlessNull f x = .ok y := by
  cases container with
  | single =>
    refine ⟨trivial, fun y inside => ⟨value, List.mem_singleton_self _, ?_⟩⟩
    cases List.mem_singleton.mp inside
    cases null : value.isNull with
    | true =>
      cases value with
      | null => exact run
      | _ => cases null
    | false =>
      rw [mapContainer_single f null] at run
      rwa [unlessNull, null]
  | list =>
    cases value with
    | arr items =>
      rw [mapContainer_list] at run
      obtain ⟨results, made, rfl⟩ := map_eq_ok run
      exact ⟨trivial, fun y inside => mem_mapItems made inside⟩
    | _ => exact shapes.elim
  | mapValues =>
    cases value with
    | obj members =>
      rw [mapContainer_mapValues] at run
      obtain ⟨results, made, rfl⟩ := map_eq_ok run
      refine ⟨trivial, fun y inside => ?_⟩
      obtain ⟨result, there, rfl⟩ := List.mem_map.mp inside
      obtain ⟨member, among, made⟩ := mem_mapMembers made there
      exact ⟨member.2, List.mem_map.mpr ⟨member, among, rfl⟩, made⟩
    | _ => exact shapes.elim

end Containers

section Steps

variable {encode : String → Json → Result Json} {plan : Plan}

inductive Turns (encode : String → Json → Result Json) : Transform → Json → Json → Prop
  | nested {type : String} {x y : Json} (made : unlessNull (encode type) x = .ok y) : Turns encode (.nested type) x y
  | unwrapped {element : Option String} {inner : String} {x y : Json}
      (made : unlessNull (ε := CodecError) (fun v => .ok (unwrapValue inner v)) x = .ok y) :
      Turns encode (.unwrapValues element inner) x y
  | recoded {transform : Transform} {x y : Json} (recodes : transform.recodes = true)
      (made : unlessNull transform.encodeValue x = .ok y) : Turns encode transform x y

inductive Turned (encode : String → Json → Result Json) : List Step → Json → Json → Prop
  | nil (x : Json) : Turned encode [] x x
  | cons {step : Step} {rest : List Step} {x y z : Json} (first : Turns encode step.transform x y)
      (later : Turned encode rest y z) : Turned encode (step :: rest) x z

theorem turns_of_encodeAt {step : Step} (maps : step.transform.maps = true) {value : Json}
    (shapes : step.container.Shapes value) {o : Option Json} (run : encodeAt encode plan step (some value) = .ok o) :
    ∃ wire, o = some wire ∧ step.container.Shapes wire ∧
      ∀ y ∈ step.container.values wire, ∃ x ∈ step.container.values value, Turns encode step.transform x y := by
  have finish {ε : Type} {f : Json → Except ε Json} {wire : Json}
      (made : mapContainer step.container f value = .ok wire)
      (turns : ∀ x y, unlessNull f x = .ok y → Turns encode step.transform x y) :
      step.container.Shapes wire ∧
        ∀ y ∈ step.container.values wire, ∃ x ∈ step.container.values value, Turns encode step.transform x y := by
    obtain ⟨stays, each⟩ := mem_mapContainer shapes made
    refine ⟨stays, fun y inside => ?_⟩
    obtain ⟨x, there, made⟩ := each y inside
    exact ⟨x, there, turns x y made⟩
  rw [encodeAt] at run
  cases transform : step.transform with
  | nested type =>
    rw [transform] at run finish
    obtain ⟨wire, made, rfl⟩ := map_eq_ok run
    exact ⟨wire, rfl, finish made fun x y => .nested⟩
  | unwrapValues element inner =>
    rw [transform] at run finish
    obtain ⟨wire, made, rfl⟩ := map_eq_ok run
    exact ⟨wire, rfl, finish made fun x y => .unwrapped⟩
  | integerAsNumber _ | enumCustomNames _ _ | enumAsNumber _ _ | timestampAs _ | bytesAs _ =>
    rw [transform] at run finish
    obtain ⟨wire, made, rfl⟩ := map_eq_ok run
    exact ⟨wire, rfl, finish (mapError_eq_ok made) fun x y => .recoded rfl⟩
  | emptyValueAs | unwrapRoot | flatten | nullable | oneofDiscriminator =>
    rw [transform] at maps
    cases maps

theorem turned_of_block {container : Container} {steps : List Step}
    (maps : ∀ step ∈ steps, step.transform.maps = true ∧ step.container = container) {value : Json}
    (shapes : container.Shapes value) {o : Option Json} (run : encodeBlock encode plan steps (some value) = .ok o) :
    ∃ wire, o = some wire ∧ container.Shapes wire ∧
      ∀ y ∈ container.values wire, ∃ x ∈ container.values value, Turned encode steps x y := by
  induction steps generalizing value with
  | nil =>
    cases Except.ok.inj run
    exact ⟨value, rfl, shapes, fun y inside => ⟨y, inside, .nil y⟩⟩
  | cons step rest ih =>
    obtain ⟨between, first, later⟩ := bind_eq_ok run
    obtain ⟨mapping, rfl⟩ := maps step List.mem_cons_self
    obtain ⟨middle, rfl, stays, each⟩ := turns_of_encodeAt mapping shapes first
    obtain ⟨wire, rfl, ends, others⟩ := ih (fun step inside => maps step (List.mem_cons_of_mem _ inside)) stays later
    refine ⟨wire, rfl, ends, fun z inside => ?_⟩
    obtain ⟨y, there, later⟩ := others z inside
    obtain ⟨x, here, first⟩ := each y there
    exact ⟨x, here, .cons first later⟩

end Steps

section Fields

variable {index : Index} {m : Message} {planned : String → Bool} {f : Field}
  {encode : String → Json → Result Json} {plan : Plan}

inductive Left (index : Index) (planned : String → Bool) (encode : String → Json → Result Json) (f : Field)
    (o : Option Json) (wire : Json) : Prop
  | null (written : wire = .null) (writes : f.writesNull = true)
  | values {value : Json} (given : o = some value) (shapes : f.container.Shapes wire)
      (each : ∀ y ∈ f.container.values wire, ∃ x ∈ f.container.values value,
        Turned encode (childSteps index planned f ++ recodeSteps index f) x y)

theorem empty_of_block {o p : Option Json} (run : encodeBlock encode plan (emptySteps f) o = .ok p) :
    p = o ∨ p = none ∨ (p = some .null ∧ f.writesNull = true) := by
  rw [emptySteps] at run
  split at run
  · obtain ⟨between, first, last⟩ := bind_eq_ok run
    cases Except.ok.inj last
    rw [encodeAt] at first
    simp only [Field.step] at first
    split at first
    · split at first
      · rename_i behavior
        cases Except.ok.inj first
        exact .inr (.inr ⟨rfl, by simp [Field.writesNull, behavior]⟩)
      · cases Except.ok.inj first
        exact .inr (.inl rfl)
      · exact .inl (Except.ok.inj first).symm
      · exact .inl (Except.ok.inj first).symm
    · exact .inl (Except.ok.inj first).symm
  · exact .inl (Except.ok.inj run).symm

theorem null_of_block {o : Option Json} {wire : Json} (run : encodeBlock encode plan (nullSteps f) o = .ok (some wire)) :
    o = some wire ∨ (o = none ∧ wire = .null ∧ f.writesNull = true) := by
  rw [nullSteps] at run
  split at run
  · rename_i nullable
    obtain ⟨between, first, last⟩ := bind_eq_ok run
    cases Except.ok.inj last
    have same : some (o.getD .null) = some wire := Except.ok.inj first
    cases o with
    | none => exact .inr ⟨rfl, (Option.some.inj same).symm, by simp [Field.writesNull, nullable]⟩
    | some value => exact .inl same
  · exact .inl (Except.ok.inj run)

theorem left_of_block (unlifted : f.lifted? = none) {o : Option Json}
    (shapes : ∀ value, o = some value → f.container.Shapes value) {wire : Json}
    (run : encodeBlock encode plan (bodySteps index planned f) o = .ok (some wire)) :
    Left index planned encode f o wire := by
  rw [bodySteps_of_unlifted unlifted, List.append_assoc, encodeBlock_append] at run
  obtain ⟨p, empty, run⟩ := bind_eq_ok run
  rw [encodeBlock_append] at run
  obtain ⟨q, core, null⟩ := bind_eq_ok run
  -- What the empty-value step leaves decides: nothing, a value kept whole, or a value for the core to turn.
  have absent (missing : p = none) : Left index planned encode f o wire := by
    rw [encodeBlock_passes core_maps (.inl missing)] at core
    cases Except.ok.inj core
    rcases null_of_block null with there | ⟨_, written, writes⟩
    · rw [missing] at there
      cases there
    · exact .null written writes
  rcases empty_of_block empty with rfl | missing | ⟨empty, writes⟩
  · cases p with
    | none => exact absent rfl
    | some value =>
      obtain ⟨between, rfl, stays, each⟩ := turned_of_block
        (fun step inside => ⟨core_maps step inside, core_container step inside⟩) (shapes value rfl) core
      rcases null_of_block null with same | ⟨never, _⟩
      · cases same
        exact .values rfl stays each
      · cases never
  · exact absent missing
  · rw [encodeBlock_passes core_maps (.inr empty)] at core
    cases Except.ok.inj core
    rcases null_of_block null with same | ⟨never, _⟩
    · rw [empty] at same
      exact .null (Option.some.inj same).symm writes
    · rw [empty] at never
      cases never

end Fields

end Codec

end Wireform
