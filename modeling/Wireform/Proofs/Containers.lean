import Wireform.Codec.Encode
import Wireform.Codec.Decode
import Wireform.Proofs.Basic
import Wireform.Proofs.ValueTransforms

set_option autoImplicit false

namespace Wireform.Codec

variable {ε δ : Type}

def unlessNull (f : Json → Except ε Json) (value : Json) : Except ε Json :=
  if value.isNull then pure value else f value

def addressed : Container → Json → List Json
  | .single, value => [value].filter (!·.isNull)
  | .list, .arr items => items.filter (!·.isNull)
  | .mapValues, .obj members => (members.map (·.2)).filter (!·.isNull)
  | _, _ => []

theorem mem_addressed_item {items : List Json} {item : Json} (inside : item ∈ items) (present : item.isNull = false) :
    item ∈ addressed .list (.arr items) :=
  List.mem_filter.mpr ⟨inside, by rw [present]; rfl⟩

theorem mem_addressed_member {members : Entries Json} {member : String × Json} (inside : member ∈ members)
    (present : member.2.isNull = false) : member.2 ∈ addressed .mapValues (.obj members) :=
  List.mem_filter.mpr ⟨List.mem_map_of_mem inside, by rw [present]; rfl⟩

theorem mapItems_cons (f : Json → Except ε Json) (item : Json) (rest : List Json) :
    mapItems f (item :: rest) = do
      let result ← unlessNull f item
      let results ← mapItems f rest
      return result :: results := by
  rw [mapItems, unlessNull]
  cases item.isNull <;> rfl

theorem mapMembers_cons (f : Json → Except ε Json) (key : String) (value : Json)
    (rest : List (String × Json)) :
    mapMembers f ((key, value) :: rest) = do
      let result ← unlessNull f value
      let results ← mapMembers f rest
      return (key, result) :: results := by
  rw [mapMembers, unlessNull]
  cases value.isNull <;> rfl

theorem mapItems_ok {f : Json → Except ε Json} {items results : List Json}
    (run : mapItems f items = .ok results) :
    List.Forall₂ (fun item result => unlessNull f item = .ok result) items results := by
  induction items generalizing results with
  | nil =>
    rw [mapItems] at run
    cases Except.ok.inj run
    exact .nil
  | cons item rest ih =>
    rw [mapItems_cons] at run
    obtain ⟨result, first, later⟩ := bind_eq_ok run
    obtain ⟨others, done, same⟩ := bind_eq_ok later
    cases Except.ok.inj same
    exact .cons first (ih done)

theorem keys_mapMembers {f : Json → Except ε Json} {members results : Entries Json}
    (run : mapMembers f members = .ok results) : results.keys = members.keys := by
  induction members generalizing results with
  | nil =>
    rw [mapMembers] at run
    cases Except.ok.inj run
    rfl
  | cons member rest ih =>
    rw [mapMembers_cons] at run
    obtain ⟨result, _, later⟩ := bind_eq_ok run
    obtain ⟨others, done, same⟩ := bind_eq_ok later
    cases Except.ok.inj same
    have keys := ih done
    simp only [Entries.keys] at keys
    simp [Entries.keys, keys]

theorem get?_mapMembers {f : Json → Except ε Json} {members results : Entries Json}
    (run : mapMembers f members = .ok results) (key : String) :
    (members.get? key = none ∧ results.get? key = none) ∨
      ∃ value result, members.get? key = some value ∧ results.get? key = some result ∧
        unlessNull f value = .ok result := by
  induction members generalizing results with
  | nil =>
    rw [mapMembers] at run
    cases Except.ok.inj run
    exact .inl ⟨rfl, rfl⟩
  | cons member rest ih =>
    obtain ⟨k, v⟩ := member
    rw [mapMembers_cons] at run
    obtain ⟨result, first, later⟩ := bind_eq_ok run
    obtain ⟨others, done, same⟩ := bind_eq_ok later
    cases Except.ok.inj same
    by_cases hit : k = key
    · exact .inr ⟨v, result, by simp [Entries.get?, hit], by simp [Entries.get?, hit], first⟩
    · simpa [Entries.get?, hit] using ih done

theorem mapMembers_of_all {f : Json → Except ε Json} {members : Entries Json}
    (all : ∀ member ∈ members, ∃ result, unlessNull f member.2 = .ok result) :
    ∃ results : Entries Json, mapMembers f members = .ok results := by
  induction members with
  | nil => exact ⟨[], rfl⟩
  | cons member rest ih =>
    obtain ⟨result, first⟩ := all member (by simp)
    obtain ⟨results, done⟩ := ih fun other inside => all other (by simp [inside])
    refine ⟨(member.1, result) :: results, ?_⟩
    rw [mapMembers_cons, first, ok_bind, done, ok_bind]
    rfl

def passed (g : Json → Json) (members : List (String × Json)) : List (String × Json) :=
  members.map fun (key, value) => (key, if value.isNull then value else g value)

theorem mapMembers_pure (g : Json → Json) (members : List (String × Json)) :
    mapMembers (ε := ε) (fun value => .ok (g value)) members = .ok (passed g members) := by
  induction members with
  | nil => rfl
  | cons member rest ih =>
    obtain ⟨key, value⟩ := member
    rw [mapMembers_cons, ih, unlessNull]
    cases null : value.isNull <;> simp [passed, null, pure, Except.pure, ok_bind]

theorem mapMembers_then_pure {f : Json → Except ε Json} (g : Json → Json) {members : List (String × Json)}
    (present : ∀ member ∈ members, member.2.isNull = false → ∀ result, f member.2 = .ok result →
      result.isNull = false) :
    passed g <$> mapMembers f members = mapMembers (fun value => g <$> f value) members := by
  induction members with
  | nil => rfl
  | cons member rest ih =>
    obtain ⟨key, value⟩ := member
    have later := ih fun other inside => present other (by simp [inside])
    rw [mapMembers_cons, mapMembers_cons, ← later]
    cases null : value.isNull with
    | true =>
      simp only [unlessNull, null, if_true, pure, Except.pure, ok_bind]
      cases mapMembers f rest with
      | error fault => rfl
      | ok others => simp [passed, null, Functor.map, Except.map, ok_bind]
    | false =>
      simp only [unlessNull, null, Bool.false_eq_true, if_false]
      cases made : f value with
      | error fault => rfl
      | ok result =>
        have there := present (key, value) (by simp) null result made
        cases mapMembers f rest with
        | error fault => rfl
        | ok others => simp [passed, there, Functor.map, Except.map, ok_bind, pure, Except.pure]

theorem mapMembers_passed (f : Json → Except ε Json) {g : Json → Json}
    (present : ∀ value, value.isNull = false → (g value).isNull = false) (members : List (String × Json)) :
    mapMembers f (passed g members) = mapMembers (fun value => f (g value)) members := by
  induction members with
  | nil => rfl
  | cons member rest ih =>
    obtain ⟨key, value⟩ := member
    rw [mapMembers_cons, ← ih, passed, List.map_cons, mapMembers_cons]
    cases null : value.isNull with
    | true => simp [unlessNull, null, passed]
    | false => simp [unlessNull, null, present value null, passed]

def RestoresWithin (encode : Json → Except ε Json) (decode : Json → Except δ Json) (container : Container)
    (value : Json) : Prop :=
  ∀ inner ∈ addressed container value, Restores encode decode inner

variable {encode : Json → Except ε Json} {decode : Json → Except δ Json}

theorem unlessNull_restores {value : Json} (distinct : value.Distinct)
    (restores : value.isNull = false → Restores encode decode value) :
    ∃ wire, unlessNull encode value = .ok wire ∧ wire.Distinct ∧
      ∃ back, unlessNull decode wire = .ok back ∧ Json.Alike back value := by
  cases null : value.isNull with
  | true =>
    refine ⟨value, by simp [unlessNull, null, pure, Except.pure], distinct, value, ?_,
      Json.Alike.refl distinct⟩
    simp [unlessNull, null, pure, Except.pure]
  | false =>
    obtain ⟨wire, encoded, present, wire_distinct, back, decoded, alike⟩ := restores null
    refine ⟨wire, by simp [unlessNull, null, encoded], wire_distinct, back, ?_, alike⟩
    simp [unlessNull, present, decoded]

theorem mapItems_restores {items : List Json} (distinct : ∀ item ∈ items, item.Distinct)
    (restores : ∀ item ∈ items, item.isNull = false → Restores encode decode item) :
    ∃ wires, mapItems encode items = .ok wires ∧ (∀ wire ∈ wires, wire.Distinct) ∧
      ∃ backs, mapItems decode wires = .ok backs ∧ List.Forall₂ Json.Alike backs items := by
  induction items with
  | nil => exact ⟨[], rfl, by simp, [], rfl, .nil⟩
  | cons item rest ih =>
    obtain ⟨wires, encoded, wires_distinct, backs, decoded, alike⟩ :=
      ih (fun other inside => distinct other (by simp [inside]))
        (fun other inside => restores other (by simp [inside]))
    obtain ⟨wire, first, wire_distinct, back, undone, same⟩ :=
      unlessNull_restores (distinct item (by simp)) (restores item (by simp))
    refine ⟨wire :: wires, ?_, ?_, back :: backs, ?_, .cons same alike⟩
    · rw [mapItems_cons, first, ok_bind, encoded, ok_bind]
      rfl
    · simpa using ⟨wire_distinct, wires_distinct⟩
    · rw [mapItems_cons, undone, ok_bind, decoded, ok_bind]
      rfl

theorem mapMembers_restores {members : Entries Json} (distinct : (Json.obj members).Distinct)
    (restores : ∀ member ∈ members, member.2.isNull = false → Restores encode decode member.2) :
    ∃ wires : Entries Json, mapMembers encode members = .ok wires ∧ (Json.obj wires).Distinct ∧
      ∃ backs : Entries Json, mapMembers decode wires = .ok backs ∧ Json.Alike (.obj backs) (.obj members) := by
  obtain ⟨keys, values⟩ := Json.distinct_obj.mp distinct
  have each : ∀ member ∈ members, ∃ wire, unlessNull encode member.2 = .ok wire ∧ wire.Distinct ∧
      ∃ back, unlessNull decode wire = .ok back ∧ Json.Alike back member.2 := by
    intro member inside
    exact unlessNull_restores (values member.1 member.2 (Entries.get?_of_mem keys inside))
      (restores member inside)
  obtain ⟨wires, encoded⟩ := mapMembers_of_all fun member inside =>
    (each member inside).imp fun _ spec => spec.1
  have wire_keys : wires.Distinct := by
    rw [Entries.Distinct, keys_mapMembers encoded]
    exact keys
  -- A value on the wire came of the value under the same key.
  have under : ∀ key wire, wires.get? key = some wire → ∃ value, members.get? key = some value ∧
      wire.Distinct ∧ ∃ back, unlessNull decode wire = .ok back ∧ Json.Alike back value := by
    intro key wire found
    rcases get?_mapMembers encoded key with ⟨_, absent⟩ | ⟨value, result, known, there, applied⟩
    · rw [absent] at found
      cases found
    · obtain ⟨_, first, spec⟩ := each _ (Entries.mem_of_get? known)
      cases Except.ok.inj (applied.symm.trans first)
      cases Option.some.inj (there.symm.trans found)
      exact ⟨value, known, spec⟩
  obtain ⟨backs, decoded⟩ := mapMembers_of_all (f := decode) fun member inside => by
    obtain ⟨_, _, _, back, undone, _⟩ := under _ _ (Entries.get?_of_mem wire_keys inside)
    exact ⟨back, undone⟩
  have back_keys : backs.Distinct := by
    rw [Entries.Distinct, keys_mapMembers decoded]
    exact wire_keys
  refine ⟨wires, encoded, Json.distinct_obj.mpr ⟨wire_keys, ?_⟩, backs, decoded,
    Json.alike_obj.mpr ⟨back_keys, keys, fun key => ?_⟩⟩
  · intro key wire found
    obtain ⟨_, _, wire_distinct, _⟩ := under key wire found
    exact wire_distinct
  · rcases get?_mapMembers decoded key with ⟨absent, gone⟩ | ⟨wire, back, found, there, applied⟩
    · rcases get?_mapMembers encoded key with ⟨unknown, _⟩ | ⟨_, _, _, present, _⟩
      · rw [gone, unknown]
        trivial
      · rw [absent] at present
        cases present
    · obtain ⟨value, known, _, other, undone, alike⟩ := under key wire found
      cases Except.ok.inj (applied.symm.trans undone)
      rw [there, known]
      exact alike

theorem mapContainer_single (f : Json → Except ε Json) {value : Json}
    (present : value.isNull = false) : mapContainer .single f value = f value := by
  cases value with
  | null => cases present
  | _ => rfl

theorem mapContainer_list (f : Json → Except ε Json) (items : List Json) :
    mapContainer .list f (.arr items) = .arr <$> mapItems f items := rfl

theorem mapContainer_mapValues (f : Json → Except ε Json) (members : Entries Json) :
    mapContainer .mapValues f (.obj members) = .obj <$> mapMembers f members := rfl

theorem mapContainer_of_ne_obj {ε : Type} {f : Json → Except ε Json} {w : Json} (other : ∀ members, w ≠ .obj members) :
    mapContainer .mapValues f w = .ok w := by
  cases w <;> first | rfl | exact absurd rfl (other _)

theorem mapContainer_restores {container : Container} {value : Json} (distinct : value.Distinct)
    (present : value.isNull = false) (restores : RestoresWithin encode decode container value) :
    Restores (mapContainer container encode) (mapContainer container decode) value := by
  -- A value of another shape than its container's is passed through in both directions.
  have same : ∀ {container : Container},
      (∀ {ε : Type} (f : Json → Except ε Json), mapContainer container f value = .ok value) →
        Restores (mapContainer container encode) (mapContainer container decode) value :=
    fun stays => ⟨value, stays encode, present, distinct, value, stays decode,
      Json.Alike.refl distinct⟩
  cases container with
  | single =>
    obtain ⟨wire, encoded, there, wire_distinct, back, decoded, alike⟩ :=
      restores value (by simp [addressed, present])
    refine ⟨wire, ?_, there, wire_distinct, back, ?_, alike⟩
    · rw [mapContainer_single encode present, encoded]
    · rw [mapContainer_single decode there, decoded]
  | list =>
    cases value with
    | arr items =>
      obtain ⟨wires, encoded, wire_distinct, backs, decoded, alike⟩ :=
        mapItems_restores (Json.distinct_arr.mp distinct)
          fun item inside there => restores item (mem_addressed_item inside there)
      refine ⟨.arr wires, ?_, rfl, Json.distinct_arr.mpr wire_distinct, .arr backs, ?_,
        Json.alike_arr.mpr alike⟩
      · rw [mapContainer_list, encoded]
        rfl
      · rw [mapContainer_list, decoded]
        rfl
    | null => cases present
    | _ => exact same fun _ => rfl
  | mapValues =>
    cases value with
    | obj members =>
      obtain ⟨wires, encoded, wire_distinct, backs, decoded, alike⟩ :=
        mapMembers_restores distinct
          fun member inside there => restores member.2 (mem_addressed_member inside there)
      refine ⟨.obj wires, ?_, rfl, wire_distinct, .obj backs, ?_, alike⟩
      · rw [mapContainer_mapValues, encoded]
        rfl
      · rw [mapContainer_mapValues, decoded]
        rfl
    | null => cases present
    | _ => exact same fun _ => rfl

section Alike

open Json (Alike)

def Carries (f : Json → Except ε Json) (g : Json → Except δ Json) (value other : Json) : Prop :=
  ∀ result, f value = .ok result → ∃ other_result, g other = .ok other_result ∧ Alike result other_result

def KeepsAlike (f : Json → Except ε Json) : Prop :=
  ∀ value other result, Alike value other → f value = .ok result →
    ∃ other_result, f other = .ok other_result ∧ Alike result other_result

variable {f : Json → Except ε Json} {g : Json → Except δ Json}

theorem unlessNull_carries {value other : Json} (alike : Alike value other)
    (carries : value.isNull = false → Carries f g value other) : Carries (unlessNull f) (unlessNull g) value other := by
  intro result run
  rw [unlessNull] at run ⊢
  rw [← Json.alike_isNull alike]
  split at run
  · rename_i null
    cases Except.ok.inj run
    exact ⟨other, by rw [if_pos null]; rfl, alike⟩
  · rename_i present
    obtain ⟨back, done, same⟩ := carries (Bool.not_eq_true _ ▸ present) result run
    exact ⟨back, by rw [if_neg present, done], same⟩

theorem mapItems_carries {items others results : List Json} (alike : List.Forall₂ Alike items others)
    (carries : ∀ x ∈ items, ∀ y ∈ others, x.isNull = false → Alike x y → Carries f g x y)
    (run : mapItems f items = .ok results) :
    ∃ other_results, mapItems g others = .ok other_results ∧ List.Forall₂ Alike results other_results := by
  induction alike generalizing results with
  | nil =>
    rw [mapItems] at run
    cases Except.ok.inj run
    exact ⟨[], rfl, .nil⟩
  | cons first _ ih =>
    rw [mapItems_cons] at run
    obtain ⟨result, head, later⟩ := bind_eq_ok run
    obtain ⟨rest, tail, same⟩ := bind_eq_ok later
    cases Except.ok.inj same
    obtain ⟨back, done, alike⟩ := unlessNull_carries first
      (fun present => carries _ List.mem_cons_self _ List.mem_cons_self present first) _ head
    obtain ⟨backs, all, alikes⟩ := ih (fun x inside y there =>
      carries x (List.mem_cons_of_mem _ inside) y (List.mem_cons_of_mem _ there)) tail
    refine ⟨back :: backs, ?_, .cons alike alikes⟩
    rw [mapItems_cons, done, ok_bind, all, ok_bind]
    rfl

theorem mapMembers_carries {members others results : Entries Json} (alike : Alike (.obj members) (.obj others))
    (carries : ∀ key x y, (key, x) ∈ members → (key, y) ∈ others → x.isNull = false → Alike x y → Carries f g x y)
    (run : mapMembers f members = .ok results) :
    ∃ other_results : Entries Json, mapMembers g others = .ok other_results ∧
      Alike (.obj results) (.obj other_results) := by
  obtain ⟨keys, other_keys, under⟩ := Json.alike_obj.mp alike
  -- Alike objects may list their keys in other orders, so the runs are compared under each key.
  have each : ∀ key other, others.get? key = some other → ∃ result other_result,
      results.get? key = some result ∧ unlessNull g other = .ok other_result ∧ Alike result other_result := by
    intro key other found
    have alike := under key
    rw [found] at alike
    obtain ⟨value, known, alike⟩ := Json.alikeAt_some alike
    rcases get?_mapMembers run key with ⟨absent, _⟩ | ⟨value', result, there, made, applied⟩
    · rw [known] at absent
      cases absent
    · cases Option.some.inj (known.symm.trans there)
      obtain ⟨back, done, same⟩ := unlessNull_carries alike
        (fun present => carries key _ _ (Entries.mem_of_get? known) (Entries.mem_of_get? found) present alike) _ applied
      exact ⟨result, back, made, done, same⟩
  obtain ⟨backs, done⟩ := mapMembers_of_all (f := g) fun member inside => by
    obtain ⟨_, back, _, applied, _⟩ := each _ _ (Entries.get?_of_mem other_keys inside)
    exact ⟨back, applied⟩
  refine ⟨backs, done, Json.alike_obj.mpr ⟨?_, ?_, fun key => ?_⟩⟩
  · rw [Entries.Distinct, keys_mapMembers run]
    exact keys
  · rw [Entries.Distinct, keys_mapMembers done]
    exact other_keys
  · rcases get?_mapMembers done key with ⟨absent, gone⟩ | ⟨other, back, found, there, applied⟩
    · rcases get?_mapMembers run key with ⟨_, missing⟩ | ⟨_, _, present, _, _⟩
      · rw [gone, missing]
        trivial
      · have alike := under key
        rw [present, absent] at alike
        exact alike.elim
    · obtain ⟨result, back', made, applied', alike⟩ := each key other found
      cases Except.ok.inj (applied.symm.trans applied')
      rw [made, there]
      exact alike

theorem mapContainer_carries {container : Container} {value other : Json} (alike : Alike value other)
    (carries : ∀ x ∈ addressed container value, ∀ y ∈ addressed container other, Alike x y → Carries f g x y) :
    Carries (mapContainer container f) (mapContainer container g) value other := by
  intro result run
  -- A value of another kind than the container stays as it is, on both sides.
  have stays (value_stays : mapContainer container f value = .ok value)
      (other_stays : mapContainer container g other = .ok other) :
      ∃ other_result, mapContainer container g other = .ok other_result ∧ Alike result other_result := by
    rw [value_stays] at run
    cases Except.ok.inj run
    exact ⟨other, other_stays, alike⟩
  cases null : value.isNull with
  | true =>
    cases value with
    | null =>
      cases Json.alike_null alike.symm
      exact stays rfl rfl
    | _ => cases null
  | false =>
    have other_present := null
    rw [Json.alike_isNull alike] at other_present
    cases container with
    | single =>
      rw [mapContainer_single f null] at run
      rw [mapContainer_single g other_present]
      exact carries value (by simp [addressed, null]) other (by simp [addressed, other_present]) alike result run
    | list =>
      rcases Json.alike_cases alike with ⟨leaf, rfl⟩ | ⟨items, others, rfl, rfl, alikes⟩ | ⟨members, others, rfl, rfl⟩
      · cases other <;> first | exact stays rfl rfl | exact leaf.elim
      · rw [mapContainer_list] at run
        obtain ⟨results, mapped, rfl⟩ := map_eq_ok run
        have each : ∀ x ∈ items, ∀ y ∈ others, x.isNull = false → Alike x y → Carries f g x y :=
          fun x inside y there present alike => carries x (mem_addressed_item inside present) y
            (mem_addressed_item there (Json.alike_isNull alike ▸ present)) alike
        obtain ⟨backs, done, same⟩ := mapItems_carries alikes each mapped
        refine ⟨.arr backs, ?_, Json.alike_arr.mpr same⟩
        rw [mapContainer_list, done]
        rfl
      · exact stays rfl rfl
    | mapValues =>
      rcases Json.alike_cases alike with ⟨leaf, rfl⟩ | ⟨items, others, rfl, rfl, _⟩ | ⟨members, others, rfl, rfl⟩
      · cases other <;> first | exact stays rfl rfl | exact leaf.elim
      · exact stays rfl rfl
      · rw [mapContainer_mapValues] at run
        obtain ⟨results, mapped, rfl⟩ := map_eq_ok run
        obtain ⟨backs, done, same⟩ := mapMembers_carries alike (fun key x y inside there present alike =>
          carries x (mem_addressed_member inside present) y
            (mem_addressed_member there (Json.alike_isNull alike ▸ present)) alike) mapped
        refine ⟨.obj backs, ?_, same⟩
        rw [mapContainer_mapValues, done]
        rfl

theorem mapContainer_keepsAlike (keeps : KeepsAlike f) (container : Container) :
    KeepsAlike (mapContainer container f) := fun _ _ result alike run =>
  mapContainer_carries alike (fun x _ y _ alike result run => keeps x y result alike run) result run

end Alike

end Wireform.Codec
