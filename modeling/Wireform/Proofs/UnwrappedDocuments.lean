import Wireform.Proofs.GivenSteps
import Wireform.Proofs.UnwrappedFields

set_option autoImplicit false

namespace Wireform

namespace Codec

open Index

def Leads (codec : Codec) (name child : String) : Prop :=
  ∃ plan, codec.plans.plan? name = some plan ∧ child ∈ plan.nestedMessages

def OnlyReshapes (codec : Codec) (name : String) : Prop :=
  ∀ other plan, Relation.ReflTransGen codec.Leads name other → codec.plans.plan? other = some plan →
    ∀ step ∈ plan.steps, step.transform.reshapes = true

/-- In a wire value of a message, a step of its plan addresses a value. -/
inductive Addresses (codec : Codec) (name : String) (w : Json) (plan : Plan) (step : Step) (x : Json) : Prop
  | intro {doc : Doc} {value : Json} (planned : codec.plans.plan? name = some plan)
      (opens : openWire plan name w = .ok doc) (inside : step ∈ plan.steps)
      (given : doc.get? step.jsonName = some value) (there : x ∈ addressed step.container value)

/-- Decoding a value of one message hands a value to the plan of another: as it stands on the wire, or wrapped in a
message if it stands in an unwrapped map. -/
inductive HandsOn (codec : Codec) : String × Json → String × Json → Prop
  | plain {name child : String} {w x : Json} {plan : Plan} {step : Step}
      (addresses : codec.Addresses name w plan step x) (nested : step.transform = .nested child)
      (alone : ∀ other ∈ plan.steps, other.jsonName = step.jsonName → other.transform.unwrapsValues = false) :
      HandsOn codec (name, w) (child, x)
  | wrapped {name child inner : String} {elementType : Option String} {w x : Json} {plan : Plan} {step other : Step}
      (addresses : codec.Addresses name w plan step x) (nested : step.transform = .nested child)
      (beside : other ∈ plan.steps) (same : other.jsonName = step.jsonName)
      (unwraps : other.transform = .unwrapValues elementType inner) :
      HandsOn codec (name, w) (child, wrapValue inner x)

/-- Wherever decoding a wire value comes to an unwrapped map, the values of the map are lists. -/
def ListsUnwrapped (codec : Codec) (name : String) (w : Json) : Prop :=
  ∀ other v plan step x, Relation.ReflTransGen codec.HandsOn (name, w) (other, v) →
    codec.Addresses other v plan step x → step.transform.unwrapsValues = true → x.isListOrEmpty = true

section Handing

variable {codec : Codec} {name child : String} {w x : Json}

theorem OnlyReshapes.of_leads (reshapes : codec.OnlyReshapes name) (leads : codec.Leads name child) :
    codec.OnlyReshapes child :=
  fun other plan reached => reshapes other plan (.head leads reached)

theorem ListsUnwrapped.of_handsOn (lists : codec.ListsUnwrapped name w) (hands : codec.HandsOn (name, w) (child, x)) :
    codec.ListsUnwrapped child x :=
  fun other v plan step y reached => lists other v plan step y (.head hands reached)

end Handing

def ReturnsBelow (index : Index) (levels : Nat) : Prop :=
  ∀ name w b, index.codec.OnlyReshapes name → w.Distinct → index.codec.ListsUnwrapped name w →
    decodeWithin index.codec levels name w = .ok b →
      Returns (decodeWithin index.codec levels name) (encodeWithin index.codec levels name) w b

section Plans

variable {index : Index} {m : Message} {names : List String}

theorem mem_planOf_of_body {f : Index.Field} (inside : f ∈ m.fields) {step : Step}
    (there : step ∈ bodySteps index names.contains f) : step ∈ (planOf index names m).steps := by
  rw [planOf_steps]
  exact List.mem_append_left _ (List.mem_append_left _ (List.mem_flatMap.mpr ⟨f, inside, there⟩))

section Reshaping

variable (reshapes : ∀ step ∈ (planOf index names m).steps, step.transform.reshapes = true)

include reshapes

theorem discriminated_of_reshaping : m.discriminated = [] := by
  refine List.eq_nil_iff_forall_not_mem.mpr fun group grouped => ?_
  have never := reshapes _ (mem_planOf.mpr (.inr ⟨group, grouped, rfl⟩))
  cases never

theorem lifted?_of_reshaping {f : Index.Field} (inside : f ∈ m.fields) : f.lifted? = none := by
  cases lifted : f.lifted? with
  | none => rfl
  | some target =>
    have never := reshapes _ (mem_planOf.mpr (.inl ⟨f, inside, _, _, .lifted lifted, rfl⟩))
    cases never

theorem bodySteps_of_reshaping {f : Index.Field} (inside : f ∈ m.fields) :
    bodySteps index names.contains f = childSteps index names.contains f := by
  have own (step : Step) (there : step ∈ bodySteps index names.contains f) : step.transform.reshapes = true :=
    reshapes step (mem_planOf_of_body inside there)
  rw [bodySteps_of_unlifted (lifted?_of_reshaping reshapes inside)] at own ⊢
  -- Each of the other kinds of steps would be in the plan.
  have empty : emptySteps f = [] := List.eq_nil_iff_forall_not_mem.mpr fun step there => by
    have never := own step (by simp [there])
    obtain ⟨_, _, rfl⟩ := mem_emptySteps.mp there
    cases never
  have recode : recodeSteps index f = [] := List.eq_nil_iff_forall_not_mem.mpr fun step there => by
    have never := own step (by simp [there])
    obtain ⟨transform, rfl, recodes⟩ := recodes_of_mem index f there
    cases (Transform.recodes_of_reshapes never).symm.trans recodes
  have null : nullSteps f = [] := List.eq_nil_iff_forall_not_mem.mpr fun step there => by
    have never := own step (by simp [there])
    obtain ⟨_, rfl⟩ := mem_nullSteps.mp there
    cases never
  simp [empty, recode, null]

end Reshaping

end Plans

section Fields

variable {index : Index} (sound : index.Sound) {levels : Nat} (below : ReturnsBelow index levels) {name : String}
  {m : Message} (found : index.message? name = some m) (planned : m.fullName ∈ index.planned)
  (apart : (m.fields.map (·.jsonName)).Nodup) (reshapes : index.codec.OnlyReshapes name) {w : Json}
  (lists : index.codec.ListsUnwrapped name w) {doc : Doc}
  (opens : openWire (planOf index index.planned m) name w = .ok doc)

include sound below found planned apart reshapes lists opens

theorem returning_of_lists {f : Index.Field} (inside : f ∈ m.fields) {value : Json}
    (given : doc.get? f.jsonName = some value) (distinct : value.Distinct) :
    Returning index index.planned.contains (decodeWithin index.codec levels) (encodeWithin index.codec levels) f
      value := by
  have plan := (plan?_eq_some sound.toKeyed).mpr ⟨m, found, planned, rfl⟩
  have nested {child : String} (typed : f.message? = some child) (own : index.planned.contains child = true) :
      f.step f.container (.nested child) ∈ (planOf index index.planned m).steps :=
    mem_planOf.mpr (.inl ⟨f, inside, _, _, .nested typed own, rfl⟩)
  have unwrapping {child : String} {t : Transform} (typed : f.message? = some child)
      (unwraps : unwrapValues? index f child = some t) :
      f.step .mapValues t ∈ (planOf index index.planned m).steps := by
    obtain ⟨c, list, known, first, map, plain, isList, rfl⟩ := unwrapValues?_eq_some index f unwraps
    exact mem_planOf.mpr (.inl ⟨f, inside, _, _, .values map typed known first plain isList, rfl⟩)
  have leads {child : String} (typed : f.message? = some child) (own : index.planned.contains child = true) :
      index.codec.OnlyReshapes child :=
    reshapes.of_leads ⟨_, plan, List.mem_filterMap.mpr ⟨_, nested typed own, rfl⟩⟩
  have clean {x : Json} {container : Container} (there : x ∈ addressed container value) : x.Distinct :=
    Container.distinct_of_mem distinct (mem_addressed there).1
  refine
    { child := fun child typed own whole x there y decoded => ?_
      listed := fun child elementType inner typed unwraps x there => ?_
      wrapped := fun child elementType inner typed unwraps own => ⟨fun x there y decoded => ?_, fun y v encoded => ?_⟩ }
  · refine below child x y (leads typed own) (clean there) (lists.of_handsOn ?_) decoded
    refine .plain (.intro plan opens (nested typed own) given there) rfl fun other listed same => ?_
    obtain ⟨g, among, container, transform, gives, rfl⟩ | ⟨group, _, rfl⟩ := mem_planOf.mp listed
    · -- Another field would have another name.
      cases eq_of_nodup apart among inside same
      cases gives with
      | values map typed' known first plain isList =>
        cases typed.symm.trans typed'
        simp [unwrapValues?, known, first, map, plain, isList] at whole
      | _ => rfl
    · rfl
  · exact lists name w _ _ x .refl (.intro plan opens (unwrapping typed unwraps) given there) rfl
  · have container : f.container = .mapValues := by
      obtain ⟨_, _, _, _, map, _⟩ := unwrapValues?_eq_some index f unwraps
      exact container_of_map map
    refine below child (wrapValue inner x) y (leads typed own) (wrapValue_distinct inner (clean there))
      (lists.of_handsOn ?_) decoded
    refine .wrapped (.intro plan opens (nested typed own) given ?_) rfl (unwrapping typed unwraps) rfl rfl
    rw [show (f.step f.container (.nested child)).container = .mapValues from container]
    exact there
  · -- A message of which a map keeps the list alone is not unwrapped itself, and so is written as an object.
    obtain ⟨c, list, known, first, _, plain, isList, same⟩ := unwrapValues?_eq_some index f unwraps
    obtain ⟨c', known', _, _, listed⟩ := child_of_planned sound.toKeyed found inside typed own
    cases known.symm.trans known'
    cases levels with
    | zero => exact absurd encoded (encodeWithin_zero _ _ _ _)
    | succ levels =>
      obtain ⟨doc, rfl, _⟩ := obj_of_encodeWithin (plan?_codec sound.toKeyed known listed levels) encoded
      rw [encodeWithin_plain sound known listed plain] at encoded
      obtain ⟨wire, _, rfl⟩ := map_eq_ok encoded
      exact ⟨wire, rfl⟩

theorem inner_return (distinct : (Json.obj doc).Distinct) {back : Doc}
    (run : decodeSteps (decodeWithin index.codec levels) (planOf index index.planned m)
      (innerSteps index m index.planned.contains).reverse doc = .ok back) :
    ∃ again : Doc, encodeAll (encodeWithin index.codec levels) (planOf index index.planned m)
        (innerSteps index m index.planned.contains) back = .ok again ∧
      again.keys = doc.keys ∧ (∀ k, Option.Rel Json.Kept (doc.get? k) (again.get? k)) ∧
      decodeSteps (decodeWithin index.codec levels) (planOf index index.planned m)
        (innerSteps index m index.planned.contains).reverse again = .ok back := by
  obtain ⟨keys, values⟩ := Json.distinct_obj.mp distinct
  have plan := (plan?_eq_some sound.toKeyed).mpr ⟨m, found, planned, rfl⟩
  have own := reshapes name _ .refl plan
  have inner : innerSteps index m index.planned.contains =
      m.fields.flatMap (bodySteps index index.planned.contains) := by
    rw [innerSteps, discriminated_of_reshaping own]
    simp
  rw [inner] at run ⊢
  refine fields_return (List.pairwise_map.mp apart) (fun f inside => lifted?_of_reshaping own inside)
    (fun f inside step there => ?_) keys run fun f inside value q given _ block => ?_
  · rw [bodySteps_of_reshaping own inside] at there
    exact child_maps step there
  · rw [bodySteps_of_reshaping own inside] at block ⊢
    exact child_returns (returning_of_lists sound below found planned apart reshapes lists opens inside given
      (values _ _ given)) block

end Fields

section Levels

variable {index : Index} (sound : index.Sound) {levels : Nat} (below : ReturnsBelow index levels) {name : String}
  {m : Message} (found : index.message? name = some m) (planned : m.fullName ∈ index.planned)
  (apart : (m.fields.map (·.jsonName)).Nodup) (reshapes : index.codec.OnlyReshapes name) {w b : Json}
  (distinct : w.Distinct) (lists : index.codec.ListsUnwrapped name w)
  (decoded : decodeWithin index.codec (levels + 1) name w = .ok b)

include sound below found planned apart reshapes distinct lists decoded

theorem returns_plain (plain : m.isRootUnwrap = false) :
    Returns (decodeWithin index.codec (levels + 1) name) (encodeWithin index.codec (levels + 1) name) w b := by
  have opened := decoded
  rw [decodeWithin_planned (plan?_codec sound.toKeyed found planned levels)] at opened
  obtain ⟨doc, opens, _⟩ := bind_eq_ok opened
  obtain rfl : w = .obj doc := by
    rw [openWire, rootUnwrap?_of_plain plain] at opens
    cases w <;> first | exact congrArg Json.obj (Except.ok.inj opens) | cases opens
  rw [decodeWithin_plain sound found planned plain] at decoded
  obtain ⟨back, run, rfl⟩ := map_eq_ok decoded
  obtain ⟨again, encoded, keys, kept, undone⟩ :=
    inner_return sound below found planned apart reshapes lists opens distinct run
  refine ⟨fun _ => rfl, .obj again, ?_, Json.kept_obj (Json.distinct_obj.mp distinct).1 keys kept, ?_⟩
  · rw [encodeWithin_plain sound found planned plain, encoded]
    rfl
  · rw [decodeWithin_plain sound found planned plain, undone]
    rfl

theorem returns_root (isRoot : m.isRootUnwrap = true) :
    Returns (decodeWithin index.codec (levels + 1) name) (encodeWithin index.codec (levels + 1) name) w b := by
  obtain ⟨f, fields, unwrap⟩ := Message.isRootUnwrap_iff.mp isRoot
  have alone := discriminated_of_reshaping
    (reshapes name _ .refl ((plan?_eq_some sound.toKeyed).mpr ⟨m, found, planned, rfl⟩))
  have decodes (v : Json) : decodeWithin index.codec (levels + 1) name v = _ :=
    decodeWithin_root sound found planned fields unwrap alone v
  rw [decodes] at decoded
  obtain ⟨doc, wraps, decoded⟩ := bind_eq_ok decoded
  obtain ⟨back, run, rfl⟩ := map_eq_ok decoded
  have opens : openWire (planOf index index.planned m) name w = .ok doc := by
    rw [openWire, rootUnwrap?_of_root index fields unwrap alone]
    exact wraps
  rcases wrapRoot_eq_ok wraps with ⟨rfl, blank⟩ | ⟨rfl, container, filled⟩
  · -- A document without its field is written as the empty container of the field.
    obtain ⟨again, encoded, keys, _, undone⟩ :=
      inner_return sound below found planned apart reshapes lists opens Json.distinct_empty run
    obtain rfl : again = [] := List.map_eq_nil_iff.mp keys
    refine ⟨fun _ => rfl, emptyContainer f.isMap, ?_, .empty blank ?_, ?_⟩
    · rw [encodeWithin_root sound found planned fields unwrap alone, encoded]
      rfl
    · cases f.isMap
      · exact .inl rfl
      · exact .inr rfl
    · rw [decodes, wrapRoot_empty, ok_bind, undone]
      rfl
  · -- What is under the key of the field stays filled, and so is opened again.
    have single := Json.distinct_single f.jsonName distinct
    obtain ⟨again, encoded, keys, kept, undone⟩ :=
      inner_return sound below found planned apart reshapes lists opens single run
    obtain ⟨v, rfl, whole⟩ := Json.kept_single (Json.kept_obj (Json.distinct_obj.mp single).1 keys kept)
    refine ⟨fun _ => rfl, v, ?_, whole, ?_⟩
    · rw [encodeWithin_root sound found planned fields unwrap alone, encoded]
      simp [Functor.map, Except.map, Entries.get?]
    · rw [decodes, wrapRoot_filled (whole.filled filled), ok_bind]
      exact congrArg (Json.obj <$> ·) undone

end Levels

section Runs

theorem returns_of_levels {index : Index} (sound : index.Sound)
    (apart : ∀ m ∈ index.messages.values, (m.fields.map (·.jsonName)).Nodup) (levels : Nat) :
    ReturnsBelow index levels := by
  -- What a level hands on is returned by the levels below.
  induction levels with
  | zero => exact fun name w b _ _ _ decoded => absurd decoded (decodeWithin_zero _ _ _ _)
  | succ levels ih =>
    intro name w b reshapes distinct lists decoded
    cases found : index.message? name with
    | none =>
      have refused := decoded
      rw [decodeWithin, plan?, show index.codec.index.message? name = none from found] at refused
      cases refused
    | some m =>
      have names := apart m (KeyMap.mem_values.mpr ⟨_, found⟩)
      by_cases planned : m.fullName ∈ index.planned
      · cases isRoot : m.isRootUnwrap with
        | false => exact returns_plain sound ih found planned names reshapes distinct lists decoded isRoot
        | true => exact returns_root sound ih found planned names reshapes distinct lists decoded isRoot
      · have unplanned := plan?_codec_none sound.toKeyed found planned levels
        cases Except.ok.inj ((decodeWithin_unplanned unplanned w).symm.trans decoded)
        exact .of_unchanged decoded (encodeWithin_unplanned unplanned w)

/-- Where plans only apply plans and unwrap, whatever is decoded of a wire value is kept by encoding, if the values of
unwrapped maps are lists. What encoding gives is decoded to the same. -/
theorem decode_encode_keeps {set : Schema.FileSet} {files : List String} {settings : Settings}
    {compiled : Run.Compiled} (run : Run.compile set files settings = .ok compiled)
    (apart : ∀ m ∈ compiled.index.messages.values, (m.fields.map (·.jsonName)).Nodup) {name : String}
    (reshapes : OnlyReshapes ⟨compiled.index, compiled.plans⟩ name) {w b : Json} (distinct : w.Distinct)
    (lists : ListsUnwrapped ⟨compiled.index, compiled.plans⟩ name w)
    (decoded : decode ⟨compiled.index, compiled.plans⟩ name w = .ok b) :
    ∃ v, encode ⟨compiled.index, compiled.plans⟩ name b = .ok v ∧ Json.Kept w v ∧
      decode ⟨compiled.index, compiled.plans⟩ name v = .ok b := by
  obtain ⟨_, _, plans⟩ := Run.compile_spec run
  rw [plans] at reshapes lists decoded ⊢
  exact (returns_of_levels (Run.sound_of_compile run) apart (maxNesting + 1) name w b reshapes distinct lists
    decoded).back

end Runs

section Conditions

variable {codec : Codec} {name : String}

theorem onlyReshapes_of_entries
    (each : ∀ entry ∈ codec.plans.entries, ∀ step ∈ entry.2.steps, step.transform.reshapes = true) :
    codec.OnlyReshapes name :=
  fun _ _ _ given => each _ (KeyMap.mem_entries.mpr given)

theorem listsUnwrapped_of_outermost {plan : Plan} {w : Json} {doc : Doc}
    (given : codec.plans.plan? name = some plan) (opens : openWire plan name w = .ok doc)
    (lists : ∀ step ∈ plan.steps, step.transform.unwrapsValues = true → ∀ value ∈ (doc.get? step.jsonName).toList,
      ∀ x ∈ addressed step.container value, x.isListOrEmpty = true)
    (alone : ∀ entry ∈ codec.plans.entries, ∀ step ∈ entry.2.steps, step.transform.unwrapsValues = true →
      entry.1 = bareName name)
    (outermost : ∀ entry ∈ codec.plans.entries, ∀ child ∈ entry.2.nestedMessages, bareName child ≠ bareName name) :
    codec.ListsUnwrapped name w := by
  intro other v plan' step x reached addresses unwraps
  obtain ⟨planned, opens', inside, value, there⟩ := addresses
  have listed {name : String} {plan : Plan} (planned : codec.plans.plan? name = some plan) :
      (bareName name, plan) ∈ codec.plans.entries := KeyMap.mem_entries.mpr planned
  have same : bareName other = bareName name := alone _ (listed planned) step inside unwraps
  have applied {before : String} {step : Step} {plan : Plan} (planned : codec.plans.plan? before = some plan)
      (inside : step ∈ plan.steps) (nested : step.transform = .nested other) : other ∈ plan.nestedMessages :=
    List.mem_filterMap.mpr ⟨step, inside, by rw [nested]⟩
  rcases Relation.ReflTransGen.cases_tail reached with start | ⟨before, _, hands⟩
  · obtain ⟨rfl, rfl⟩ := Prod.mk.inj start
    cases given.symm.trans planned
    cases Except.ok.inj (opens.symm.trans opens')
    exact lists step inside unwraps _ (by rw [value]; exact List.mem_singleton_self _) x there
  · -- What is handed on is of a message whose plan is applied within another, unlike the one that unwraps.
    exfalso
    cases hands with
    | plain addresses nested =>
      obtain ⟨planned, _, inside, _, _⟩ := addresses
      exact outermost _ (listed planned) other (applied planned inside nested) same
    | wrapped addresses nested =>
      obtain ⟨planned, _, inside, _, _⟩ := addresses
      exact outermost _ (listed planned) other (applied planned inside nested) same

end Conditions

def boards : Schema.FileSet := .ofMessages
  [⟨"Board", [(Schema.Field.ofMessage "quotes" "t.Board.QuotesEntry" []).repeating, .ofKind "title" .string []], [
      .ofEntry "QuotesEntry" (.ofMessage "value" "t.Series" [])], [], [], none⟩,
    .ofFields "Series" [(Schema.Field.ofMessage "prices" "t.Price" [("unwrap", .bool true)]).repeating,
      .ofKind "unit" .string []] [],
    .ofFields "Price" [.ofKind "amount" .string [], .ofMessage "tags" "t.Tags" []] [],
    .ofFields "Tags" [(Schema.Field.ofMessage "items" "t.Tag" [("unwrap", .bool true)]).repeating] [],
    .ofFields "Tag" [.ofKind "text" .string []] []]

def board : Doc := [("title", .str "noon"), ("quotes", .obj [
  ("ACME", .arr [.obj [("amount", .str "7"), ("tags", .arr [.obj [("text", .str "last")]])],
    .obj [("tags", .null), ("amount", .str "8")]]),
  ("NEWT", .obj []), ("OLD", .null)])]

def readBoard : Json := .obj [("title", .str "noon"), ("quotes", .obj [
  ("ACME", .obj [("prices", .arr [
    .obj [("amount", .str "7"), ("tags", .obj [("items", .arr [.obj [("text", .str "last")]])])],
    .obj [("tags", .null), ("amount", .str "8")]])]),
  ("NEWT", .obj []), ("OLD", .null)])]

set_option maxRecDepth 10000 in
theorem decode_encode_keeps_board : ∃ compiled, Run.compile boards [] .default = .ok compiled ∧
    decode ⟨compiled.index, compiled.plans⟩ "t.Board" (.obj board) = .ok readBoard ∧
    ∃ v, encode ⟨compiled.index, compiled.plans⟩ "t.Board" readBoard = .ok v ∧ Json.Kept (.obj board) v ∧
      decode ⟨compiled.index, compiled.plans⟩ "t.Board" v = .ok readBoard := by
  obtain ⟨compiled, run, apart, reshapes, decoded, given, alone, outermost⟩ := Run.exists_compiled
    (fun compiled => (∀ m ∈ compiled.index.messages.values, (m.fields.map (·.jsonName)).Nodup) ∧
      (∀ entry ∈ compiled.plans.entries, ∀ step ∈ entry.2.steps, step.transform.reshapes = true) ∧
      (decode ⟨compiled.index, compiled.plans⟩ "t.Board" (.obj board)).toOption = some readBoard ∧
      ((compiled.plans.plan? "t.Board").any fun plan => plan.rootUnwrap?.isNone && decide (∀ step ∈ plan.steps,
        step.transform.unwrapsValues = true → ∀ value ∈ (board.get? step.jsonName).toList,
          ∀ x ∈ addressed step.container value, x.isListOrEmpty = true)) = true ∧
      (∀ entry ∈ compiled.plans.entries, ∀ step ∈ entry.2.steps, step.transform.unwrapsValues = true →
        entry.1 = bareName "t.Board") ∧
      ∀ entry ∈ compiled.plans.entries, ∀ child ∈ entry.2.nestedMessages, bareName child ≠ bareName "t.Board")
    (show (Run.compile boards [] .default).toOption.any _ = true by decide +kernel)
  obtain ⟨plan, planned, shape⟩ := (Option.any_eq_true ..).mp given
  obtain ⟨plain, lists⟩ := Bool.and_eq_true_iff.mp shape
  have opens : openWire plan "t.Board" (.obj board) = .ok board := by
    rw [openWire, Option.isNone_iff_eq_none.mp plain]
    rfl
  have distinct : (Json.obj board).Distinct := by
    simp [board, Json.Distinct, Json.Distinct.ofMembers, Json.Distinct.ofItems, Entries.Distinct, Entries.keys]
  have unwrapped : ListsUnwrapped ⟨compiled.index, compiled.plans⟩ "t.Board" (.obj board) :=
    listsUnwrapped_of_outermost planned opens (of_decide_eq_true lists) alone outermost
  exact ⟨compiled, run, ok_of_toOption decoded, decode_encode_keeps run apart (onlyReshapes_of_entries reshapes)
    distinct unwrapped (ok_of_toOption decoded)⟩

/-- A wire value is decoded, but encoding gives nothing that keeps it. -/
def Loses (set : Schema.FileSet) (name : String) (w : Json) : Prop :=
  ∃ compiled b, Run.compile set [] .default = .ok compiled ∧
    OnlyReshapes ⟨compiled.index, compiled.plans⟩ name ∧ w.Distinct ∧
    decode ⟨compiled.index, compiled.plans⟩ name w = .ok b ∧
    ∀ v, encode ⟨compiled.index, compiled.plans⟩ name b = .ok v → ¬ Json.Kept w v

set_option maxRecDepth 10000 in
/-- A text among the quotes is read as an empty message, which is written as an empty list. -/
theorem board_loses : Loses boards "t.Board" (.obj [("quotes", .obj [("ACME", .str "closed")])]) := by
  obtain ⟨compiled, run, reshapes, decoded, encoded⟩ := Run.exists_compiled
    (fun compiled => (∀ entry ∈ compiled.plans.entries, ∀ step ∈ entry.2.steps, step.transform.reshapes = true) ∧
      (decode ⟨compiled.index, compiled.plans⟩ "t.Board" (.obj [("quotes", .obj [("ACME", .str "closed")])])).toOption =
        some (.obj [("quotes", .obj [("ACME", .obj [])])]) ∧
      (encode ⟨compiled.index, compiled.plans⟩ "t.Board" (.obj [("quotes", .obj [("ACME", .obj [])])])).toOption =
        some (.obj [("quotes", .obj [("ACME", .arr [])])]))
    (show (Run.compile boards [] .default).toOption.any _ = true by decide +kernel)
  refine ⟨compiled, _, run, onlyReshapes_of_entries reshapes, ⟨by decide, ⟨by decide, trivial, trivial⟩, trivial⟩,
    ok_of_toOption decoded, fun v encodes kept => ?_⟩
  cases Except.ok.inj ((ok_of_toOption encoded).symm.trans encodes)
  obtain ⟨_, same, quotes⟩ := Json.kept_single kept
  cases same
  obtain ⟨_, same, quote⟩ := Json.kept_single quotes
  cases same
  cases quote with
  | empty blank => rcases blank with never | never | never <;> cases never

def racks : Schema.FileSet := .ofMessages
  [.ofFields "Rack" [{ Schema.Field.ofMessage "rows" "t.Rows" [] with givenJsonName := some "k" },
      { Schema.Field.ofMessage "bins" "t.Bins" [] with givenJsonName := some "k" }] [],
    .ofFields "Rows" [(Schema.Field.ofMessage "items" "t.Item" [("unwrap", .bool true)]).repeating] [],
    ⟨"Bins", [(Schema.Field.ofMessage "items" "t.Bins.ItemsEntry" [("unwrap", .bool true)]).repeating], [
      .ofEntry "ItemsEntry" (.ofMessage "value" "t.Item" [])], [], [], none⟩,
    .ofFields "Item" [.ofKind "text" .string []] []]

set_option maxRecDepth 10000 in
/-- The empty list of one is read as an empty document, and is a list again when the other is to be written. -/
theorem rack_loses : Loses racks "t.Rack" (.obj [("k", .arr [])]) := by
  obtain ⟨compiled, run, reshapes, decoded, refused⟩ := Run.exists_compiled
    (fun compiled => (∀ entry ∈ compiled.plans.entries, ∀ step ∈ entry.2.steps, step.transform.reshapes = true) ∧
      (decode ⟨compiled.index, compiled.plans⟩ "t.Rack" (.obj [("k", .arr [])])).toOption =
        some (.obj [("k", .obj [])]) ∧
      (encode ⟨compiled.index, compiled.plans⟩ "t.Rack" (.obj [("k", .obj [])])).toOption = none)
    (show (Run.compile racks [] .default).toOption.any _ = true by decide +kernel)
  refine ⟨compiled, _, run, onlyReshapes_of_entries reshapes, ⟨by decide, trivial, trivial⟩, ok_of_toOption decoded,
    fun v encodes _ => ?_⟩
  rw [encodes] at refused
  cases refused

theorem losing : Loses boards "t.Board" (.obj [("quotes", .obj [("ACME", .str "closed")])]) ∧
    Loses racks "t.Rack" (.obj [("k", .arr [])]) :=
  ⟨board_loses, rack_loses⟩

end Codec

end Wireform
