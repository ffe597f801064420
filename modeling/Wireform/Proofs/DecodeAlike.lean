import Wireform.Proofs.Containers

set_option autoImplicit false

namespace Wireform

def Transform.isLocal : Transform → Bool
  | .unwrapRoot _ _ | .flatten _ _ _ | .oneofDiscriminator _ _ _ => false
  | _ => true

namespace Codec

def whenPresent {ε : Type} (f : Json → Except ε Json) : Option Json → Except ε (Option Json)
  | none => .ok none
  | some value => some <$> f value

def encodeAt (encode : String → Json → Result Json) (plan : Plan) (step : Step) :
    Option Json → Result (Option Json) :=
  match step.transform with
  | .emptyValueAs behavior => fun o =>
    if o.any isEmptyObject then
      match behavior with
      | .null => .ok (some .null)
      | .omit => .ok none
      | .unspecified | .preserve => .ok o
    else .ok o
  | .nested messageType => whenPresent (mapContainer step.container (encode messageType))
  | .unwrapValues _ inner =>
    whenPresent (mapContainer step.container fun v => .ok (unwrapValue inner v))
  | .nullable => fun o => .ok (some (o.getD .null))
  | .integerAsNumber _ | .enumCustomNames _ _ | .enumAsNumber _ _ | .timestampAs _ | .bytesAs _ =>
    whenPresent fun value =>
      (mapContainer step.container step.transform.encodeValue value).mapError
        (.invalidValue plan.message step)
  | .unwrapRoot _ _ | .flatten _ _ _ | .oneofDiscriminator _ _ _ => .ok

def restoreEmpty : EmptyBehavior → Option Json → Option Json
  | .null, some .null => some (.obj [])
  | _, o => o

theorem restoreEmpty_of_ne (behavior : EmptyBehavior) {o : Option Json} (other : o ≠ some .null) :
    restoreEmpty behavior o = o := by
  unfold restoreEmpty
  split
  · exact absurd rfl other
  · rfl

def dropNull : Option Json → Option Json
  | some .null => none
  | o => o

theorem dropNull_of_ne {o : Option Json} (other : o ≠ some .null) : dropNull o = o := by
  unfold dropNull
  split
  · exact absurd rfl other
  · rfl

def decodeAt (decode : String → Json → Result Json) (plan : Plan) (step : Step) :
    Option Json → Result (Option Json) :=
  match step.transform with
  | .emptyValueAs behavior => fun o => .ok (restoreEmpty behavior o)
  | .nested messageType => whenPresent (mapContainer step.container (decode messageType))
  | .unwrapValues _ inner =>
    whenPresent (mapContainer step.container fun v => .ok (wrapValue inner v))
  | .nullable => fun o => .ok (dropNull o)
  | .integerAsNumber _ | .enumCustomNames _ _ | .enumAsNumber _ _ | .timestampAs _ | .bytesAs _ =>
    whenPresent fun value =>
      (mapContainer step.container step.transform.decodeValue value).mapError
        (.invalidValue plan.message step)
  | .unwrapRoot _ _ | .flatten _ _ _ | .oneofDiscriminator _ _ _ => .ok

theorem mapValues_eq_set (step : Step) (f : Json → Result Json) (doc : Doc) :
    mapValues step f doc =
      (whenPresent (mapContainer step.container f) (doc.get? step.jsonName)).map
        (doc.set step.jsonName) := by
  rw [mapValues]
  cases found : doc.get? step.jsonName with
  | none =>
    simp only [whenPresent, Except.map, Entries.set]
    rw [Entries.erase_of_not_mem found]
  | some value =>
    simp only [whenPresent]
    cases mapContainer step.container f value <;> rfl

theorem recodeValues_eq_set (plan : Plan) (step : Step) (f : Json → Recoded) (doc : Doc) :
    recodeValues plan step f doc =
      (whenPresent (fun value => (mapContainer step.container f value).mapError
        (.invalidValue plan.message step)) (doc.get? step.jsonName)).map (doc.set step.jsonName) := by
  rw [recodeValues, mapValues]
  cases found : doc.get? step.jsonName with
  | none =>
    simp only [whenPresent, Except.map, Except.mapError, Entries.set]
    rw [Entries.erase_of_not_mem found]
  | some value =>
    simp only [whenPresent]
    cases mapContainer step.container f value <;> rfl

theorem set_unchanged {ε : Type} {doc : Doc} {key : String} {o : Option Json}
    (found : doc.get? key = o) :
    (Except.ok doc : Except ε Doc) = (Except.ok o : Except ε (Option Json)).map (doc.set key) := by
  subst found
  rw [Except.map, Entries.set_get?]

theorem encodeStep_eq_set (encode : String → Json → Result Json) (plan : Plan) {step : Step}
    (isLocal : step.transform.isLocal = true) (doc : Doc) :
    encodeStep encode plan step doc =
      (encodeAt encode plan step (doc.get? step.jsonName)).map (doc.set step.jsonName) := by
  rw [encodeStep, encodeAt]
  cases transform : step.transform with
  | emptyValueAs behavior =>
    by_cases empty : (doc.get? step.jsonName).any isEmptyObject = true
    · simp only [empty, if_true]
      cases behavior with
      | unspecified => exact set_unchanged rfl
      | preserve => exact set_unchanged rfl
      | _ => rfl
    · simp only [empty, Bool.false_eq_true, if_false]
      exact set_unchanged rfl
  | nested messageType => exact mapValues_eq_set step _ doc
  | unwrapValues elementType inner => exact mapValues_eq_set step _ doc
  | nullable =>
    cases found : doc.get? step.jsonName with
    | none => simp [Entries.contains, found, Except.map, Entries.set]
    | some value =>
      simp only [Entries.contains, found, Option.isSome_some, if_true, Option.getD_some]
      exact set_unchanged found
  | integerAsNumber unsigned => exact recodeValues_eq_set plan step _ doc
  | enumCustomNames enumType table => exact recodeValues_eq_set plan step _ doc
  | enumAsNumber enumType table => exact recodeValues_eq_set plan step _ doc
  | timestampAs format => exact recodeValues_eq_set plan step _ doc
  | bytesAs encoding => exact recodeValues_eq_set plan step _ doc
  | unwrapRoot elementType isMap => simp [transform, Transform.isLocal] at isLocal
  | flatten messageType pre childKeys => simp [transform, Transform.isLocal] at isLocal
  | oneofDiscriminator discriminator lifted variants =>
    simp [transform, Transform.isLocal] at isLocal

theorem decodeStep_eq_set (decode : String → Json → Result Json) (plan : Plan) {step : Step}
    (isLocal : step.transform.isLocal = true) (doc : Doc) :
    decodeStep decode plan step doc =
      (decodeAt decode plan step (doc.get? step.jsonName)).map (doc.set step.jsonName) := by
  rw [decodeStep, decodeAt]
  cases transform : step.transform with
  | emptyValueAs behavior =>
    cases behavior with
    | null =>
      cases found : doc.get? step.jsonName with
      | none => exact set_unchanged found
      | some value =>
        cases value with
        | null => rfl
        | _ => exact set_unchanged found
    | _ => exact set_unchanged rfl
  | nested messageType => exact mapValues_eq_set step _ doc
  | unwrapValues elementType inner => exact mapValues_eq_set step _ doc
  | nullable =>
    cases found : doc.get? step.jsonName with
    | none => exact set_unchanged found
    | some value =>
      cases value with
      | null => rfl
      | _ => exact set_unchanged found
  | integerAsNumber unsigned => exact recodeValues_eq_set plan step _ doc
  | enumCustomNames enumType table => exact recodeValues_eq_set plan step _ doc
  | enumAsNumber enumType table => exact recodeValues_eq_set plan step _ doc
  | timestampAs format => exact recodeValues_eq_set plan step _ doc
  | bytesAs encoding => exact recodeValues_eq_set plan step _ doc
  | unwrapRoot elementType isMap => simp [transform, Transform.isLocal] at isLocal
  | flatten messageType pre childKeys => simp [transform, Transform.isLocal] at isLocal
  | oneofDiscriminator discriminator lifted variants =>
    simp [transform, Transform.isLocal] at isLocal

end Codec

end Wireform

namespace Wireform.Codec

open Json (Alike AlikeAt)

theorem whenPresent_keepsAlike {ε : Type} {f : Json → Except ε Json} (keeps : KeepsAlike f)
    {o p r : Option Json} (alike : AlikeAt o p) (run : whenPresent f o = .ok r) :
    ∃ q, whenPresent f p = .ok q ∧ AlikeAt r q := by
  cases o with
  | none =>
    cases Json.none_alikeAt alike
    cases Except.ok.inj run
    exact ⟨none, rfl, trivial⟩
  | some value =>
    obtain ⟨other, rfl, alike⟩ := Json.some_alikeAt alike
    obtain ⟨result, applied, rfl⟩ := map_eq_ok run
    obtain ⟨back, done, same⟩ := keeps value other result alike applied
    refine ⟨some back, ?_, same⟩
    rw [whenPresent, done]
    rfl

theorem mapError_keepsAlike {ε δ : Type} {f : Json → Except ε Json} (keeps : KeepsAlike f)
    (fault : ε → δ) : KeepsAlike fun value => (f value).mapError fault := by
  intro value other result alike run
  obtain ⟨back, done, same⟩ := keeps value other result alike (mapError_eq_ok run)
  exact ⟨back, by simp only [done, Except.mapError], same⟩

theorem wrapValue_keepsAlike (key : String) :
    KeepsAlike fun value => (.ok (wrapValue key value) : Result Json) := by
  intro value other result alike run
  cases Except.ok.inj run
  refine ⟨_, rfl, ?_⟩
  have nothing : Alike (.obj []) (.obj []) := Alike.refl Json.distinct_empty
  rcases Json.alike_cases alike with ⟨leaf, rfl⟩ | ⟨items, others, rfl, rfl, each⟩ | ⟨members, others, rfl, rfl⟩
  · cases other <;> first | exact nothing | exact leaf.elim
  · cases each with
    | nil => exact nothing
    | cons =>
      refine Json.alike_obj.mpr
        ⟨Entries.distinct_single _ _, Entries.distinct_single _ _, fun other_key => ?_⟩
      by_cases hit : key = other_key
      · simpa [Entries.get?, hit, AlikeAt] using alike
      · simp [Entries.get?, hit, AlikeAt]
  · exact nothing

theorem null_iff_of_alikeAt {o p : Option Json} (alike : AlikeAt o p) : o = some .null ↔ p = some .null := by
  constructor
  · rintro rfl
    obtain ⟨w, rfl, same⟩ := Json.some_alikeAt alike
    rw [Json.alike_null same.symm]
  · rintro rfl
    obtain ⟨w, rfl, same⟩ := Json.alikeAt_some alike
    rw [Json.alike_null same]

theorem restoreEmpty_alike (behavior : EmptyBehavior) {o p : Option Json} (alike : AlikeAt o p) :
    AlikeAt (restoreEmpty behavior o) (restoreEmpty behavior p) := by
  by_cases null : o = some .null
  · cases null
    cases (null_iff_of_alikeAt alike).mp rfl
    cases behavior <;> exact Alike.refl (by first | exact Json.distinct_empty | trivial)
  · rw [restoreEmpty_of_ne behavior null,
      restoreEmpty_of_ne behavior fun same => null ((null_iff_of_alikeAt alike).mpr same)]
    exact alike

theorem dropNull_alike {o p : Option Json} (alike : AlikeAt o p) : AlikeAt (dropNull o) (dropNull p) := by
  by_cases null : o = some .null
  · cases null
    cases (null_iff_of_alikeAt alike).mp rfl
    trivial
  · rw [dropNull_of_ne null, dropNull_of_ne fun same => null ((null_iff_of_alikeAt alike).mpr same)]
    exact alike

variable {decode : String → Json → Result Json} {plan : Plan}

theorem decodeAt_keepsAlike (keeps : ∀ name, KeepsAlike (decode name)) {step : Step}
    {o p r : Option Json} (alike : AlikeAt o p) (run : decodeAt decode plan step o = .ok r) :
    ∃ q, decodeAt decode plan step p = .ok q ∧ AlikeAt r q := by
  -- What recodes values does so alike, whatever the transform.
  have recoded : ∀ transform : Transform, ∀ fault : ValueFault → CodecError, whenPresent (fun value =>
      (mapContainer step.container transform.decodeValue value).mapError fault) o = .ok r →
      ∃ q, whenPresent (fun value =>
        (mapContainer step.container transform.decodeValue value).mapError fault) p = .ok q ∧
          AlikeAt r q := by
    intro transform fault run
    have each : KeepsAlike transform.decodeValue := fun _ _ _ => Transform.decodeValue_alike
    exact whenPresent_keepsAlike (mapError_keepsAlike (mapContainer_keepsAlike each _) _) alike run
  rw [decodeAt] at run ⊢
  cases transform : step.transform with
  | emptyValueAs behavior =>
    rw [transform] at run
    cases Except.ok.inj run
    exact ⟨_, rfl, restoreEmpty_alike behavior alike⟩
  | nested messageType =>
    rw [transform] at run
    exact whenPresent_keepsAlike (mapContainer_keepsAlike (keeps messageType) _) alike run
  | unwrapValues elementType inner =>
    rw [transform] at run
    exact whenPresent_keepsAlike (mapContainer_keepsAlike (wrapValue_keepsAlike inner) _) alike run
  | nullable =>
    rw [transform] at run
    cases Except.ok.inj run
    exact ⟨_, rfl, dropNull_alike alike⟩
  | integerAsNumber unsigned =>
    rw [transform] at run
    exact recoded _ _ run
  | enumCustomNames enumType table =>
    rw [transform] at run
    exact recoded _ _ run
  | enumAsNumber enumType table =>
    rw [transform] at run
    exact recoded _ _ run
  | timestampAs format =>
    rw [transform] at run
    exact recoded _ _ run
  | bytesAs encoding =>
    rw [transform] at run
    exact recoded _ _ run
  | unwrapRoot elementType isMap =>
    rw [transform] at run
    cases Except.ok.inj run
    exact ⟨p, rfl, alike⟩
  | flatten messageType pre childKeys =>
    rw [transform] at run
    cases Except.ok.inj run
    exact ⟨p, rfl, alike⟩
  | oneofDiscriminator discriminator lifted variants =>
    rw [transform] at run
    cases Except.ok.inj run
    exact ⟨p, rfl, alike⟩

section Documents

variable {doc other : Doc}

theorem alike_set (alike : Alike (.obj doc) (.obj other)) (key : String) {o p : Option Json}
    (same : AlikeAt o p) : Alike (.obj (doc.set key o)) (.obj (other.set key p)) := by
  obtain ⟨distinct, other_distinct, under⟩ := Json.alike_obj.mp alike
  refine Json.alike_obj.mpr
    ⟨Entries.distinct_set distinct key o, Entries.distinct_set other_distinct key p, fun k => ?_⟩
  rw [Entries.get?_set distinct, Entries.get?_set other_distinct]
  split
  · exact same
  · exact under k

theorem alike_insert (alike : Alike (.obj doc) (.obj other)) (key : String) {v w : Json}
    (same : Alike v w) : Alike (.obj (doc.insert key v)) (.obj (other.insert key w)) :=
  alike_set alike key (o := some v) (p := some w) same

theorem alike_erase (alike : Alike (.obj doc) (.obj other)) (key : String) :
    Alike (.obj (doc.erase key)) (.obj (other.erase key)) :=
  alike_set alike key (o := none) (p := none) trivial

theorem alike_isEmpty (alike : Alike (.obj doc) (.obj other)) : doc.isEmpty = other.isEmpty := by
  obtain ⟨_, _, under⟩ := Json.alike_obj.mp alike
  cases doc with
  | nil =>
    cases other with
    | nil => rfl
    | cons entry rest => simpa [Entries.get?, AlikeAt] using under entry.1
  | cons entry rest =>
    cases other with
    | nil => simpa [Entries.get?, AlikeAt] using under entry.1
    | cons => rfl

theorem gather_alike (place : String → String) (keys : List String) {child other_child : Doc}
    (alike : Alike (.obj doc) (.obj other)) (children : Alike (.obj child) (.obj other_child)) :
    Alike (.obj (gather place keys doc child).1) (.obj (gather place keys other other_child).1) ∧
      Alike (.obj (gather place keys doc child).2) (.obj (gather place keys other other_child).2) := by
  induction keys generalizing doc other child other_child with
  | nil => exact ⟨alike, children⟩
  | cons key rest ih =>
    have under := (Json.alike_obj.mp alike).2.2 (place key)
    simp only [gather]
    cases found : doc.get? (place key) with
    | none =>
      rw [found] at under
      rw [Json.none_alikeAt under]
      exact ih alike children
    | some value =>
      rw [found] at under
      obtain ⟨other_value, there, same⟩ := Json.some_alikeAt under
      rw [there]
      exact ih (alike_erase alike _) (alike_insert children key same)

end Documents

section Steps

variable {doc other result : Doc}

theorem decodeOneof_alike (step : Step) (flatten : Bool) (variants : List Variant)
    (alike : Alike (.obj doc) (.obj other))
    (run : decodeOneof plan step flatten variants doc = .ok result) :
    ∃ other_result, decodeOneof plan step flatten variants other = .ok other_result ∧
      Alike (.obj result) (.obj other_result) := by
  -- A tag that is read is a text or null, so both documents have the same one.
  have under := (Json.alike_obj.mp alike).2.2 step.jsonName
  have bare := alike_erase alike step.jsonName
  rw [decodeOneof] at run ⊢
  cases found : doc.get? step.jsonName with
  | none =>
    rw [found] at under run
    rw [Json.none_alikeAt under]
    cases Except.ok.inj run
    exact ⟨_, rfl, bare⟩
  | some tag =>
    rw [found] at under run
    obtain ⟨other_tag, there, same⟩ := Json.some_alikeAt under
    rw [there]
    cases tag with
    | null =>
      cases Json.alike_null same.symm
      cases Except.ok.inj run
      exact ⟨_, rfl, bare⟩
    | str text =>
      cases Json.alike_str same.symm
      simp only at run ⊢
      cases named : variants.find? (·.value == text) with
      | none =>
        rw [named] at run
        cases run
      | some variant =>
        rw [named] at run
        cases flatten with
        | false =>
          cases Except.ok.inj run
          exact ⟨_, rfl, bare⟩
        | true =>
          obtain ⟨docs, children⟩ := gather_alike id variant.childKeys bare
            (Alike.refl Json.distinct_empty)
          cases Except.ok.inj run
          exact ⟨_, rfl, alike_insert docs variant.jsonName children⟩
    | bool value => cases run
    | num number => cases run
    | arr items => cases run
    | obj members => cases run

theorem decodeStep_alike (keeps : ∀ name, KeepsAlike (decode name)) (step : Step)
    (alike : Alike (.obj doc) (.obj other)) (run : decodeStep decode plan step doc = .ok result) :
    ∃ other_result, decodeStep decode plan step other = .ok other_result ∧
      Alike (.obj result) (.obj other_result) := by
  -- A local step is a change under one key; what is left gathers keys from the whole document.
  by_cases isLocal : step.transform.isLocal = true
  · rw [decodeStep_eq_set decode plan isLocal] at run ⊢
    obtain ⟨o, made, rfl⟩ := map_eq_ok run
    obtain ⟨p, done, same⟩ :=
      decodeAt_keepsAlike keeps ((Json.alike_obj.mp alike).2.2 step.jsonName) made
    refine ⟨other.set step.jsonName p, ?_, alike_set alike _ same⟩
    rw [done]
    rfl
  · rw [decodeStep] at run ⊢
    cases transform : step.transform with
    | unwrapRoot elementType isMap =>
      rw [transform] at run
      cases Except.ok.inj run
      exact ⟨other, rfl, alike⟩
    | flatten messageType pre childKeys =>
      rw [transform] at run
      obtain ⟨docs, children⟩ := gather_alike (pre ++ ·) childKeys alike
        (Alike.refl Json.distinct_empty)
      cases Except.ok.inj run
      refine ⟨_, rfl, ?_⟩
      rw [alike_isEmpty children]
      split
      · exact docs
      · exact alike_insert docs _ children
    | oneofDiscriminator discriminator lifted variants =>
      rw [transform] at run
      exact decodeOneof_alike step lifted variants alike run
    | _ => exact absurd (by simp [transform, Transform.isLocal]) isLocal

theorem decodeSteps_alike (keeps : ∀ name, KeepsAlike (decode name)) (steps : List Step)
    (alike : Alike (.obj doc) (.obj other)) (run : decodeSteps decode plan steps doc = .ok result) :
    ∃ other_result, decodeSteps decode plan steps other = .ok other_result ∧
      Alike (.obj result) (.obj other_result) := by
  induction steps generalizing doc other with
  | nil =>
    cases Except.ok.inj run
    exact ⟨other, rfl, alike⟩
  | cons step rest ih =>
    obtain ⟨between, first, later⟩ := bind_eq_ok run
    obtain ⟨other_between, done, same⟩ := decodeStep_alike keeps step alike first
    obtain ⟨other_result, all, alike⟩ := ih same later
    refine ⟨other_result, ?_, alike⟩
    rw [decodeSteps, done, ok_bind, all]

end Steps

theorem wrapRoot_alike (plan : Plan) (root : Step) {value other : Json} {doc : Doc}
    (alike : Alike value other) (run : wrapRoot plan root value = .ok doc) :
    ∃ other_doc, wrapRoot plan root other = .ok other_doc ∧ Alike (.obj doc) (.obj other_doc) := by
  have nothing : Alike (.obj []) (.obj []) := Alike.refl Json.distinct_empty
  have single : ∀ {value other : Json}, Alike value other →
      Alike (.obj [(root.jsonName, value)]) (.obj [(root.jsonName, other)]) :=
    fun same => alike_insert nothing root.jsonName same
  -- Only emptiness decides whether the root is kept, and alike containers are empty together.
  cases value with
  | null =>
    cases Json.alike_null alike.symm
    cases Except.ok.inj run
    exact ⟨[], rfl, nothing⟩
  | arr items =>
    obtain ⟨others, rfl, alikes⟩ := Json.alike_of_arr alike.symm
    cases alikes with
    | nil =>
      cases Except.ok.inj run
      exact ⟨[], rfl, nothing⟩
    | cons _ _ =>
      cases Except.ok.inj run
      exact ⟨_, rfl, single alike⟩
  | obj members =>
    obtain ⟨others, rfl, _⟩ := Json.alike_of_obj alike.symm
    have empty := alike_isEmpty alike
    cases members with
    | nil =>
      cases others with
      | nil =>
        cases Except.ok.inj run
        exact ⟨[], rfl, nothing⟩
      | cons entry rest => cases empty
    | cons member members =>
      cases others with
      | nil => cases empty
      | cons entry rest =>
        cases Except.ok.inj run
        exact ⟨_, rfl, single alike⟩
  | bool value => cases run
  | num number => cases run
  | str text => cases run

def openWire (plan : Plan) (name : String) (value : Json) : Result Doc :=
  match plan.rootUnwrap? with
  | some root => wrapRoot plan root value
  | none => expectObject name value

theorem openWire_alike (plan : Plan) (name : String) {value other : Json} {doc : Doc}
    (alike : Alike value other) (run : openWire plan name value = .ok doc) :
    ∃ other_doc, openWire plan name other = .ok other_doc ∧ Alike (.obj doc) (.obj other_doc) := by
  rw [openWire] at run ⊢
  cases found : plan.rootUnwrap? with
  | some root =>
    rw [found] at run
    exact wrapRoot_alike plan root alike run
  | none =>
    rw [found] at run
    cases value with
    | obj members =>
      obtain ⟨others, rfl, same⟩ := Json.alike_of_obj alike.symm
      cases Except.ok.inj run
      exact ⟨others, rfl, same.symm⟩
    | _ => cases run

theorem decodeWithin_unplanned {codec : Codec} {levels : Nat} {name : String}
    (unplanned : codec.plan? (levels + 1) name = .ok none) (value : Json) :
    decodeWithin codec (levels + 1) name value = .ok value := by
  rw [decodeWithin, unplanned]
  rfl

theorem decodeWithin_planned {codec : Codec} {levels : Nat} {name : String} {plan : Plan}
    (planned : codec.plan? (levels + 1) name = .ok (some plan)) (value : Json) :
    decodeWithin codec (levels + 1) name value = do
      let doc ← openWire plan name value
      return .obj (← decodeSteps (decodeWithin codec levels) plan plan.steps.reverse doc) := by
  rw [decodeWithin, planned, ok_bind, openWire]
  dsimp only
  cases plan.rootUnwrap? <;> rfl

theorem decodeWithin_zero (codec : Codec) (name : String) (value result : Json) :
    decodeWithin codec 0 name value ≠ .ok result := by
  intro run
  obtain ⟨_, refused, _⟩ := bind_eq_ok run
  rw [plan?] at refused
  split at refused <;> cases refused

theorem decodeWithin_keepsAlike (codec : Codec) (levels : Nat) (name : String) :
    KeepsAlike (decodeWithin codec levels name) := by
  induction levels generalizing name with
  | zero =>
    intro value other result alike run
    exact absurd run (decodeWithin_zero codec name value result)
  | succ levels ih =>
    intro value other result alike run
    cases found : codec.plan? (levels + 1) name with
    | error fault =>
      rw [decodeWithin, found] at run
      cases run
    | ok found_plan =>
      cases found_plan with
      | none =>
        rw [decodeWithin_unplanned found] at run ⊢
        cases Except.ok.inj run
        exact ⟨other, rfl, alike⟩
      | some plan =>
        rw [decodeWithin_planned found] at run ⊢
        obtain ⟨doc, opened, run⟩ := bind_eq_ok run
        obtain ⟨undone, steps, same⟩ := bind_eq_ok run
        cases Except.ok.inj same
        obtain ⟨other_doc, other_opened, alike⟩ := openWire_alike plan name alike opened
        obtain ⟨other_undone, other_steps, alike⟩ := decodeSteps_alike ih _ alike steps
        refine ⟨.obj other_undone, ?_, alike⟩
        rw [other_opened, ok_bind, other_steps, ok_bind]
        rfl

end Wireform.Codec
