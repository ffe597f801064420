import Wireform.Proofs.DecodeAlike
import Wireform.Proofs.PlannedSteps

set_option autoImplicit false

namespace Wireform

namespace Codec

section Levels

variable {codec : Codec} {levels : Nat} {name : String}

theorem encodeWithin_zero (codec : Codec) (name : String) (value result : Json) :
    encodeWithin codec 0 name value ≠ .ok result := by
  intro run
  obtain ⟨_, refused, _⟩ := bind_eq_ok run
  rw [plan?] at refused
  split at refused <;> cases refused

theorem encodeWithin_unplanned (unplanned : codec.plan? (levels + 1) name = .ok none) (value : Json) :
    encodeWithin codec (levels + 1) name value = .ok value := by
  rw [encodeWithin, unplanned]
  rfl

theorem encodeWithin_planned {plan : Plan} (planned : codec.plan? (levels + 1) name = .ok (some plan))
    (doc : Doc) : encodeWithin codec (levels + 1) name (.obj doc) =
      encodeSteps (encodeWithin codec levels) plan plan.steps doc := by
  rw [encodeWithin, planned, ok_bind]
  rfl

theorem obj_of_encodeWithin {plan : Plan} (planned : codec.plan? (levels + 1) name = .ok (some plan))
    {value wire : Json} (run : encodeWithin codec (levels + 1) name value = .ok wire) :
    ∃ doc : Doc, value = .obj doc ∧ encodeSteps (encodeWithin codec levels) plan plan.steps doc = .ok wire := by
  cases value with
  | obj doc =>
    rw [encodeWithin_planned planned] at run
    exact ⟨doc, rfl, run⟩
  | _ =>
    rw [encodeWithin, planned] at run
    cases run

end Levels

section More

variable {ε : Type} {f g : Json → Except ε Json} (agree : ∀ value result, f value = .ok result → g value = .ok result)

include agree

theorem unlessNull_mono {value result : Json} (run : unlessNull f value = .ok result) :
    unlessNull g value = .ok result := by
  rw [unlessNull] at run ⊢
  split at run
  · rename_i null
    rw [if_pos null]
    exact run
  · rename_i present
    rw [if_neg present]
    exact agree value result run

theorem mapItems_mono {items results : List Json} (run : mapItems f items = .ok results) :
    mapItems g items = .ok results := by
  induction items generalizing results with
  | nil => exact run
  | cons item rest ih =>
    rw [mapItems_cons] at run ⊢
    obtain ⟨result, first, run⟩ := bind_eq_ok run
    obtain ⟨others, later, same⟩ := bind_eq_ok run
    rw [unlessNull_mono agree first, ok_bind, ih later, ok_bind]
    exact same

theorem mapMembers_mono {members results : List (String × Json)} (run : mapMembers f members = .ok results) :
    mapMembers g members = .ok results := by
  induction members generalizing results with
  | nil => exact run
  | cons member rest ih =>
    obtain ⟨key, value⟩ := member
    rw [mapMembers_cons] at run ⊢
    obtain ⟨result, first, run⟩ := bind_eq_ok run
    obtain ⟨others, later, same⟩ := bind_eq_ok run
    rw [unlessNull_mono agree first, ok_bind, ih later, ok_bind]
    exact same

theorem mapContainer_mono {container : Container} {value result : Json}
    (run : mapContainer container f value = .ok result) : mapContainer container g value = .ok result := by
  unfold mapContainer at run ⊢
  split at run
  · exact run
  · split at run
    · exact agree _ result run
    · obtain ⟨results, mapped, rfl⟩ := map_eq_ok run
      rw [mapItems_mono agree mapped]
      rfl
    · obtain ⟨results, mapped, rfl⟩ := map_eq_ok run
      rw [mapMembers_mono agree mapped]
      rfl
    · exact run

theorem mapValues_mono {step : Step} {doc result : Doc} (run : mapValues step f doc = .ok result) :
    mapValues step g doc = .ok result := by
  rw [mapValues] at run ⊢
  split at run
  · exact run
  · obtain ⟨made, mapped, same⟩ := bind_eq_ok run
    rw [mapContainer_mono agree mapped, ok_bind]
    exact same

end More

section Steps

variable {encode more : String → Json → Result Json} {plan : Plan}
  (agree : ∀ name value result, encode name value = .ok result → more name value = .ok result)

include agree

theorem encodeStep_mono {step : Step} {doc result : Doc} (run : encodeStep encode plan step doc = .ok result) :
    encodeStep more plan step doc = .ok result := by
  rw [encodeStep] at run ⊢
  cases transform : step.transform with
  | nested child =>
    rw [transform] at run
    exact mapValues_mono (agree child) run
  | _ =>
    rw [transform] at run
    exact run

theorem encodeSteps_mono {steps : List Step} {doc : Doc} {result : Json}
    (run : encodeSteps encode plan steps doc = .ok result) : encodeSteps more plan steps doc = .ok result := by
  induction steps generalizing doc with
  | nil => exact run
  | cons step rest ih =>
    rw [encodeSteps] at run ⊢
    split at run
    · exact run
    · obtain ⟨between, first, later⟩ := bind_eq_ok run
      rw [encodeStep_mono agree first, ok_bind]
      exact ih later

end Steps

section DecodeSteps

variable {decode more : String → Json → Result Json} {plan : Plan}
  (agree : ∀ name value result, decode name value = .ok result → more name value = .ok result)

include agree

theorem decodeStep_mono {step : Step} {doc result : Doc} (run : decodeStep decode plan step doc = .ok result) :
    decodeStep more plan step doc = .ok result := by
  rw [decodeStep] at run ⊢
  cases transform : step.transform with
  | nested child =>
    rw [transform] at run
    exact mapValues_mono (agree child) run
  | _ =>
    rw [transform] at run
    exact run

theorem decodeSteps_mono {steps : List Step} {doc result : Doc}
    (run : decodeSteps decode plan steps doc = .ok result) : decodeSteps more plan steps doc = .ok result := by
  induction steps generalizing doc with
  | nil => exact run
  | cons step rest ih =>
    obtain ⟨between, first, later⟩ := bind_eq_ok run
    rw [decodeSteps, decodeStep_mono agree first, ok_bind]
    exact ih later

end DecodeSteps

variable {codec : Codec} {levels : Nat}

theorem plan?_succ (codec : Codec) (levels other : Nat) (name : String) :
    codec.plan? (levels + 1) name = codec.plan? (other + 1) name := by
  simp [plan?]

theorem encodeWithin_succ {name : String} {value result : Json}
    (run : encodeWithin codec levels name value = .ok result) :
    encodeWithin codec (levels + 1) name value = .ok result := by
  induction levels generalizing name value result with
  | zero => exact absurd run (encodeWithin_zero codec name value result)
  | succ levels ih =>
    cases found : codec.plan? (levels + 1) name with
    | error fault =>
      rw [encodeWithin, found] at run
      cases run
    | ok given =>
      have again := (plan?_succ codec (levels + 1) levels name).trans found
      cases given with
      | none =>
        rw [encodeWithin_unplanned found] at run
        rw [encodeWithin_unplanned again]
        exact run
      | some plan =>
        obtain ⟨doc, rfl, steps⟩ := obj_of_encodeWithin found run
        rw [encodeWithin_planned again]
        exact encodeSteps_mono (fun name value result => ih) steps

theorem encodeWithin_mono {more : Nat} (fewer : levels ≤ more) {name : String} {value result : Json}
    (run : encodeWithin codec levels name value = .ok result) :
    encodeWithin codec more name value = .ok result := by
  induction fewer with
  | refl => exact run
  | step _ ih => exact encodeWithin_succ ih

theorem decodeWithin_succ {name : String} {value result : Json}
    (run : decodeWithin codec levels name value = .ok result) :
    decodeWithin codec (levels + 1) name value = .ok result := by
  induction levels generalizing name value result with
  | zero => exact absurd run (decodeWithin_zero codec name value result)
  | succ levels ih =>
    cases found : codec.plan? (levels + 1) name with
    | error fault =>
      rw [decodeWithin, found] at run
      cases run
    | ok given =>
      have again := (plan?_succ codec (levels + 1) levels name).trans found
      cases given with
      | none =>
        rw [decodeWithin_unplanned found] at run
        rw [decodeWithin_unplanned again]
        exact run
      | some plan =>
        rw [decodeWithin_planned found] at run
        obtain ⟨doc, opened, run⟩ := bind_eq_ok run
        obtain ⟨undone, steps, same⟩ := bind_eq_ok run
        rw [decodeWithin_planned again, opened, ok_bind,
          decodeSteps_mono (fun name value result => ih) steps]
        exact same

theorem decodeWithin_mono {more : Nat} (fewer : levels ≤ more) {name : String} {value result : Json}
    (run : decodeWithin codec levels name value = .ok result) :
    decodeWithin codec more name value = .ok result := by
  induction fewer with
  | refl => exact run
  | step _ ih => exact decodeWithin_succ ih

end Codec

end Wireform
