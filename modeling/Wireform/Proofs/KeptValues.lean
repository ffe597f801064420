import Wireform.Proofs.RoundTrip

set_option autoImplicit false

namespace Wireform

namespace Json

/-- A value that comes back: nothing is lost of it but that it was null, or of which kind an empty container was. -/
inductive Kept : Json → Json → Prop
  | same (w : Json) : Kept w w
  | empty {w v : Json} (blank : w = .null ∨ w = .arr [] ∨ w = .obj []) (stands : v = .arr [] ∨ v = .obj []) : Kept w v
  | items {ws vs : List Json} (each : List.Forall₂ Kept ws vs) : Kept (.arr ws) (.arr vs)
  | members {ws vs : Entries Json} (keys : ws.map (·.1) = vs.map (·.1))
      (each : List.Forall₂ Kept (ws.map (·.2)) (vs.map (·.2))) : Kept (.obj ws) (.obj vs)

theorem Kept.present {w v : Json} (kept : Kept w v) (there : w.isNull = false) : v.isNull = false := by
  cases kept with
  | same => exact there
  | empty _ stands => rcases stands with rfl | rfl <;> rfl
  | items => rfl
  | members => rfl

theorem Kept.filled {container : Container} {w v : Json} (kept : Kept w v) (filled : Codec.Filled container w) :
    Codec.Filled container v := by
  cases kept with
  | same => exact filled
  | empty blank =>
    unfold Codec.Filled at filled
    rcases blank with rfl | rfl | rfl <;> split at filled <;> first | exact filled.elim | cases ‹_ = _›
  | items each =>
    cases container <;> cases each <;> first | exact filled.elim | trivial
  | @members ws vs keys =>
    cases container <;> cases ws <;> first | exact filled.elim | cases vs <;> first | cases keys | trivial

theorem kept_single {key : String} {w : Json} {members : Entries Json} (kept : Kept (.obj [(key, w)]) (.obj members)) :
    ∃ v, members = [(key, v)] ∧ Kept w v := by
  cases kept with
  | same => exact ⟨w, rfl, .same w⟩
  | empty blank => rcases blank with never | never | never <;> cases never
  | members keys each =>
    match members, each with
    | [(l, v)], .cons within .nil =>
      cases keys
      exact ⟨v, rfl, within⟩

theorem kept_obj {ws vs : Entries Json} (distinct : ws.Distinct) (keys : vs.keys = ws.keys)
    (each : ∀ k, Option.Rel Kept (ws.get? k) (vs.get? k)) : Kept (.obj ws) (.obj vs) :=
  .members keys.symm (Entries.forall₂_of_get? distinct keys each)

def isListOrEmpty : Json → Bool
  | .arr _ => true
  | value => Codec.isEmptyObject value

end Json

namespace Codec

variable {ε δ : Type}

/-- A wire value that is decoded is kept by encoding, and what that gives is decoded to the same. -/
structure Returns (decode : Json → Except ε Json) (encode : Json → Except δ Json) (w b : Json) : Prop where
  present : w.isNull = false → b.isNull = false
  back : ∃ v, encode b = .ok v ∧ Json.Kept w v ∧ decode v = .ok b

section Containers

variable {decode : Json → Except ε Json} {encode : Json → Except δ Json}

theorem Returns.of_unchanged {w : Json} (decodes : decode w = .ok w) (encodes : encode w = .ok w) :
    Returns decode encode w w :=
  ⟨id, w, encodes, .same w, decodes⟩

theorem unlessNull_returns {w b : Json} (run : unlessNull decode w = .ok b)
    (returns : w.isNull = false → decode w = .ok b → Returns decode encode w b) :
    ∃ v, unlessNull encode b = .ok v ∧ Json.Kept w v ∧ unlessNull decode v = .ok b := by
  rw [unlessNull] at run
  split at run
  · -- Null is passed over in both directions.
    rename_i null
    cases Except.ok.inj run
    exact ⟨w, by rw [unlessNull, if_pos null]; rfl, .same w, by rw [unlessNull, if_pos null]; rfl⟩
  · rename_i there
    have there : w.isNull = false := by simpa using there
    obtain ⟨present, v, encoded, kept, decoded⟩ := returns there run
    refine ⟨v, ?_, kept, ?_⟩
    · rw [unlessNull, if_neg (by simp [present there])]
      exact encoded
    · rw [unlessNull, if_neg (by simp [kept.present there])]
      exact decoded

variable (encode)

theorem mapItems_returns {ws bs : List Json} (run : mapItems decode ws = .ok bs)
    (returns : ∀ w ∈ ws, w.isNull = false → ∀ b, decode w = .ok b → Returns decode encode w b) :
    ∃ vs, mapItems encode bs = .ok vs ∧ List.Forall₂ Json.Kept ws vs ∧ mapItems decode vs = .ok bs := by
  induction ws generalizing bs with
  | nil =>
    cases Except.ok.inj run
    exact ⟨[], rfl, .nil, rfl⟩
  | cons w rest ih =>
    rw [mapItems_cons] at run
    obtain ⟨b, first, run⟩ := bind_eq_ok run
    obtain ⟨more, later, same⟩ := bind_eq_ok run
    cases Except.ok.inj same
    obtain ⟨v, encoded, kept, decoded⟩ := unlessNull_returns first fun there => returns w List.mem_cons_self there b
    obtain ⟨vs, all, each, undone⟩ := ih later fun other inside => returns other (List.mem_cons_of_mem w inside)
    refine ⟨v :: vs, ?_, .cons kept each, ?_⟩
    · rw [mapItems_cons, encoded, ok_bind, all, ok_bind]
      rfl
    · rw [mapItems_cons, decoded, ok_bind, undone, ok_bind]
      rfl

theorem mapMembers_returns {ws bs : Entries Json} (run : mapMembers decode ws = .ok bs)
    (within : ∀ w ∈ addressed .mapValues (.obj ws), ∀ b, decode w = .ok b → Returns decode encode w b) :
    ∃ vs, mapMembers encode bs = .ok vs ∧ Json.Kept (.obj ws) (.obj vs) ∧ mapMembers decode vs = .ok bs := by
  have returns : ∀ member ∈ ws, member.2.isNull = false → ∀ b, decode member.2 = .ok b →
      Returns decode encode member.2 b := by
    intro member inside there
    refine within member.2 (List.mem_filter.mpr ⟨List.mem_map_of_mem inside, ?_⟩)
    rw [there]
    rfl
  clear within
  suffices ∃ vs : Entries Json, mapMembers encode bs = .ok vs ∧
      List.Forall₂ Json.Kept (ws.map (·.2)) (vs.map (·.2)) ∧ mapMembers decode vs = .ok bs by
    obtain ⟨vs, encoded, each, decoded⟩ := this
    exact ⟨vs, encoded, .members ((keys_mapMembers run).symm.trans (keys_mapMembers decoded)) each, decoded⟩
  induction ws generalizing bs with
  | nil =>
    cases Except.ok.inj run
    exact ⟨[], rfl, .nil, rfl⟩
  | cons member rest ih =>
    obtain ⟨key, w⟩ := member
    rw [mapMembers_cons] at run
    obtain ⟨b, first, run⟩ := bind_eq_ok run
    obtain ⟨more, later, same⟩ := bind_eq_ok run
    cases Except.ok.inj same
    obtain ⟨v, encoded, kept, decoded⟩ :=
      unlessNull_returns first fun there => returns (key, w) List.mem_cons_self there b
    obtain ⟨vs, all, each, undone⟩ :=
      ih later fun other inside => returns other (List.mem_cons_of_mem (key, w) inside)
    refine ⟨(key, v) :: vs, ?_, .cons kept each, ?_⟩
    · rw [mapMembers_cons, encoded, ok_bind, all, ok_bind]
      rfl
    · rw [mapMembers_cons, decoded, ok_bind, undone, ok_bind]
      rfl

variable {encode}

theorem mapContainer_returns {container : Container} {w b : Json} (run : mapContainer container decode w = .ok b)
    (returns : ∀ x ∈ addressed container w, ∀ y, decode x = .ok y → Returns decode encode x y) :
    Returns (mapContainer container decode) (mapContainer container encode) w b := by
  -- Null and values of another shape are left alone, whatever the function.
  have stays (still : ∀ {δ : Type} (f : Json → Except δ Json), mapContainer container f w = .ok w) :
      Returns (mapContainer container decode) (mapContainer container encode) w b := by
    cases Except.ok.inj (run.symm.trans (still decode))
    exact .of_unchanged (still decode) (still encode)
  cases null : w.isNull with
  | true =>
    refine stays fun f => ?_
    cases w <;> first | rfl | cases null
  | false =>
    cases container with
    | single =>
      rw [mapContainer_single decode null] at run
      have alone : w ∈ addressed .single w := by simp [addressed, null]
      obtain ⟨present, v, encoded, kept, decoded⟩ := returns w alone b run
      refine ⟨present, v, ?_, kept, ?_⟩
      · rw [mapContainer_single encode (present null), encoded]
      · rw [mapContainer_single decode (kept.present null), decoded]
    | list =>
      cases w with
      | arr ws =>
        obtain ⟨bs, mapped, rfl⟩ := map_eq_ok run
        obtain ⟨vs, encoded, each, decoded⟩ := mapItems_returns encode mapped fun x inside there =>
          returns x (List.mem_filter.mpr ⟨inside, by rw [there]; rfl⟩)
        refine ⟨fun _ => rfl, .arr vs, ?_, .items each, ?_⟩
        · rw [mapContainer_list, encoded]
          rfl
        · rw [mapContainer_list, decoded]
          rfl
      | null => cases null
      | _ => exact stays fun _ => rfl
    | mapValues =>
      cases w with
      | obj ws =>
        obtain ⟨bs, mapped, rfl⟩ := map_eq_ok run
        obtain ⟨vs, encoded, kept, decoded⟩ := mapMembers_returns encode mapped returns
        refine ⟨fun _ => rfl, .obj vs, ?_, kept, ?_⟩
        · rw [mapContainer_mapValues, encoded]
          rfl
        · rw [mapContainer_mapValues, decoded]
          rfl
      | null => cases null
      | _ => exact stays fun _ => rfl

end Containers

section Wrapping

variable {inner : String} {w : Json} (listed : w.isListOrEmpty = true)

include listed

theorem kept_of_wrapValue {members : Entries Json} (kept : Json.Kept (wrapValue inner w) (.obj members)) :
    Collapsed inner (.obj members) ∧ Json.Kept w (unwrapValue inner (.obj members)) := by
  have nothing (none_left : members = []) (blank : w = .arr [] ∨ w = .obj []) :
      Collapsed inner (.obj members) ∧ Json.Kept w (unwrapValue inner (.obj members)) := by
    subst none_left
    exact ⟨.inl rfl, .empty (.inr blank) (.inl rfl)⟩
  have emptied (kept : Json.Kept (.obj []) (.obj members)) : members = [] := by
    cases kept with
    | same => rfl
    | empty _ stands => rcases stands with same | same <;> cases same; rfl
    | members keys => exact List.map_eq_nil_iff.mp keys.symm
  cases w with
  | arr items =>
    cases items with
    | nil => exact nothing (emptied kept) (.inl rfl)
    | cons item rest =>
      -- A filled list stays filled, so that what is left of it is wrapped again.
      obtain ⟨v, rfl, within⟩ := Json.kept_single kept
      obtain ⟨other, more, rfl⟩ := arr_of_filled (within.filled trivial)
      exact ⟨.inr ⟨other, more, rfl⟩, by simpa [unwrapValue, Json.get?, Entries.get?] using within⟩
  | obj ws =>
    cases ws with
    | nil => exact nothing (emptied kept) (.inr rfl)
    | cons => cases listed
  | _ => cases listed

theorem wrap_returns : Returns (ε := ε) (δ := δ) (fun v => .ok (wrapValue inner v)) (fun v => .ok (unwrapValue inner v))
    w (wrapValue inner w) := by
  obtain ⟨members, wrapped⟩ : ∃ members, wrapValue inner w = .obj members := by
    unfold wrapValue
    split <;> exact ⟨_, rfl⟩
  have kept : Json.Kept (wrapValue inner w) (.obj members) := wrapped ▸ .same _
  obtain ⟨collapsed, kept⟩ := kept_of_wrapValue listed kept
  refine ⟨fun _ => isNull_wrapValue inner w, _, rfl, ?_, ?_⟩
  · rw [wrapped]
    exact kept
  · rw [wrapped, wrapValue_unwrapValue collapsed]

theorem nested_wrap_returns {decode : Json → Except ε Json} {encode : Json → Except δ Json} {b : Json}
    (returns : Returns decode encode (wrapValue inner w) b)
    (object : ∀ v, encode b = .ok v → ∃ members, v = .obj members) :
    Returns (fun v => decode (wrapValue inner v)) (fun v => unwrapValue inner <$> encode v) w b := by
  obtain ⟨present, v, encoded, kept, decoded⟩ := returns
  obtain ⟨members, rfl⟩ := object v encoded
  obtain ⟨collapsed, kept⟩ := kept_of_wrapValue listed kept
  refine ⟨fun _ => present (isNull_wrapValue inner w), unwrapValue inner (.obj members), ?_, kept, ?_⟩
  · rw [encoded]
    rfl
  · rw [wrapValue_unwrapValue collapsed]
    exact decoded

end Wrapping

end Codec

end Wireform
