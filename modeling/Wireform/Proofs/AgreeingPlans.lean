import Wireform.Proofs.LiftedKeys
import Wireform.Proofs.NestingDepth

set_option autoImplicit false

namespace Wireform

inductive Agree {ε δ α β : Type} (R : α → β → Prop) : Except ε α → Except δ β → Prop
  | ok {a : α} {b : β} (related : R a b) : Agree R (.ok a) (.ok b)
  | error (fault : ε) (other : δ) : Agree R (.error fault) (.error other)

namespace Agree

variable {ε δ α β γ η : Type} {R : α → β → Prop} {S : γ → η → Prop} {x : Except ε α} {y : Except δ β}

theorem of_carries (first : ∀ a, x = .ok a → ∃ b, y = .ok b ∧ R a b) (second : ∀ b, y = .ok b → ∃ a, x = .ok a) :
    Agree R x y := by
  cases x with
  | ok a =>
    obtain ⟨b, rfl, related⟩ := first a rfl
    exact .ok related
  | error fault =>
    cases y with
    | ok b =>
      obtain ⟨a, never⟩ := second b rfl
      cases never
    | error other => exact .error fault other

theorem carries (agree : Agree R x y) {a : α} (run : x = .ok a) : ∃ b, y = .ok b ∧ R a b := by
  cases agree with
  | ok related =>
    cases run
    exact ⟨_, rfl, related⟩
  | error => cases run

theorem carries_back (agree : Agree R x y) {b : β} (run : y = .ok b) : ∃ a, x = .ok a ∧ R a b := by
  cases agree with
  | ok related =>
    cases run
    exact ⟨_, rfl, related⟩
  | error => cases run

theorem bind {f : α → Except ε γ} {g : β → Except δ η} (first : Agree R x y)
    (later : ∀ a b, x = .ok a → y = .ok b → R a b → Agree S (f a) (g b)) : Agree S (x >>= f) (y >>= g) := by
  cases first with
  | ok related => exact later _ _ rfl rfl related
  | error fault other => exact .error fault other

theorem trans {ε' ζ : Type} {T : ζ → ζ → Prop} {x : Except ε ζ} {y : Except δ ζ} {z : Except ε' ζ}
    (first : Agree T x y) (transitive : ∀ a b c, T a b → T b c → T a c) (second : Agree T y z) : Agree T x z := by
  cases first with
  | ok related =>
    cases second with
    | ok further => exact .ok (transitive _ _ _ related further)
  | error fault =>
    cases second with
    | error _ other => exact .error fault other

theorem map {f : α → γ} {g : β → η} (agree : Agree R x y) (each : ∀ a b, R a b → S (f a) (g b)) :
    Agree S (x.map f) (y.map g) := by
  cases agree with
  | ok related => exact .ok (each _ _ related)
  | error fault other => exact .error fault other

theorem mapError {ε' δ' : Type} {f : ε → ε'} {g : δ → δ'} (agree : Agree R x y) :
    Agree R (x.mapError f) (y.mapError g) := by
  cases agree with
  | ok related => exact .ok related
  | error fault other => exact .error _ _

end Agree

structure Variant.Like (v w : Variant) : Prop where
  jsonName : v.jsonName = w.jsonName
  value : v.value = w.value
  childKeys : ∀ key, key ∈ v.childKeys ↔ key ∈ w.childKeys

theorem Variant.Like.refl (v : Variant) : v.Like v := ⟨rfl, rfl, fun _ => .rfl⟩

inductive Transform.Like : Transform → Transform → Prop
  | refl (transform : Transform) : Like transform transform
  | flatten {messageType pre : String} {keys others : List String} (same : ∀ key, key ∈ keys ↔ key ∈ others) :
      Like (.flatten messageType pre keys) (.flatten messageType pre others)
  | oneof {discriminator : String} {lifted : Bool} {variants others : List Variant}
      (each : List.Forall₂ Variant.Like variants others) :
      Like (.oneofDiscriminator discriminator lifted variants) (.oneofDiscriminator discriminator lifted others)

structure Step.Like (s t : Step) : Prop where
  jsonName : s.jsonName = t.jsonName
  container : s.container = t.container
  transform : s.transform.Like t.transform

namespace Codec

open Json (Alike AlikeAt)

abbrev DocsAlike (doc other : Doc) : Prop := Alike (.obj doc) (.obj other)

section Values

variable {ε δ : Type}

theorem agree_of_keeps {f : Json → Except ε Json} (keeps : KeepsAlike f) {value other : Json}
    (alike : Alike value other) : Agree Alike (f value) (f other) :=
  .of_carries (fun _ run => keeps _ _ _ alike run) fun _ run =>
    let ⟨back, done, _⟩ := keeps _ _ _ alike.symm run
    ⟨back, done⟩

theorem mapContainer_agree {f : Json → Except ε Json} {g : Json → Except δ Json} {container : Container}
    {value other : Json} (alike : Alike value other)
    (agree : ∀ x ∈ addressed container value, ∀ y, Alike x y → Agree Alike (f x) (g y)) :
    Agree Alike (mapContainer container f value) (mapContainer container g other) := by
  refine .of_carries
    (mapContainer_carries alike fun x inside y _ alike result run => (agree x inside y alike).carries run)
    fun back run => ?_
  have carries : ∀ y ∈ addressed container other, ∀ x ∈ addressed container value, Alike y x → Carries g f y x := by
    intro y _ x inside alike result run
    obtain ⟨back, done, same⟩ := (agree x inside y alike.symm).carries_back run
    exact ⟨back, done, same.symm⟩
  obtain ⟨result, done, _⟩ := mapContainer_carries alike.symm carries back run
  exact ⟨result, done⟩

theorem whenPresent_agree {f : Json → Except ε Json} {g : Json → Except δ Json} {o p : Option Json}
    (alike : AlikeAt o p) (agree : ∀ v ∈ o, ∀ w, Alike v w → Agree Alike (f v) (g w)) :
    Agree AlikeAt (whenPresent f o) (whenPresent g p) := by
  cases o with
  | none =>
    cases Json.none_alikeAt alike
    exact .ok trivial
  | some value =>
    obtain ⟨other, rfl, alike⟩ := Json.some_alikeAt alike
    exact (agree value rfl other alike).map fun _ _ same => same

theorem unwrapValue_keepsAlike (key : String) :
    KeepsAlike fun value => (.ok (unwrapValue key value) : Except ε Json) := by
  intro value other result alike run
  cases Except.ok.inj run
  refine ⟨_, rfl, ?_⟩
  have nothing : Alike (Json.arr []) (.arr []) := Json.alike_arr.mpr .nil
  rcases Json.alike_cases alike with ⟨leaf, rfl⟩ | ⟨items, others, rfl, rfl, _⟩ | ⟨members, others, rfl, rfl⟩
  · cases other <;> first | exact nothing | exact leaf.elim
  · exact nothing
  · exact Json.alike_getD ((Json.alike_obj.mp alike).2.2 key) nothing.1

end Values

namespace Direction

def atKey : Direction → (String → Json → Result Json) → Plan → Step → Option Json → Result (Option Json)
  | .encode => encodeAt
  | .decode => decodeAt

theorem step_eq_set (d : Direction) (inner : String → Json → Result Json) (plan : Plan) {step : Step}
    (isLocal : step.transform.isLocal = true) (doc : Doc) : d.step inner plan step doc =
      (d.atKey inner plan step (doc.get? step.jsonName)).map (doc.set step.jsonName) := by
  cases d with
  | encode => exact encodeStep_eq_set inner plan isLocal doc
  | decode => exact decodeStep_eq_set inner plan isLocal doc

variable {inner other : String → Json → Result Json} {plan plan' : Plan} {s t : Step}

def AgreeWithin (inner other : String → Json → Result Json) (step : Step) (o : Option Json) : Prop :=
  ∀ child, step.transform = .nested child → ∀ held ∈ o, ∀ x ∈ addressed step.container held, ∀ y, Alike x y →
    Agree Alike (inner child x) (other child y)

theorem isEmptyObject_alike {o p : Option Json} (alike : AlikeAt o p) : o.any isEmptyObject = p.any isEmptyObject := by
  cases p with
  | none => rw [Json.alikeAt_none alike]
  | some value =>
    obtain ⟨other, rfl, alike⟩ := Json.alikeAt_some alike
    rcases Json.alike_cases alike with ⟨_, rfl⟩ | ⟨items, others, rfl, rfl, _⟩ | ⟨members, others, rfl, rfl⟩
    · rfl
    · rfl
    · have empty := alike_isEmpty alike
      cases others <;> cases members <;> first | rfl | cases empty

theorem atKey_agree (d : Direction) (container : s.container = t.container) (transform : s.transform = t.transform)
    {o p : Option Json} (alike : AlikeAt o p) (agree : AgreeWithin inner other s o) :
    Agree AlikeAt (d.atKey inner plan s o) (d.atKey other plan' t p) := by
  -- A plain function, one with a fault of its own and a nested document each pass through a container alike.
  have passed {ε : Type} {f : Json → Except ε Json} (keeps : KeepsAlike f) :
      Agree AlikeAt (whenPresent (mapContainer s.container f) o) (whenPresent (mapContainer t.container f) p) := by
    rw [← container]
    exact whenPresent_agree alike fun _ _ _ alike => agree_of_keeps (mapContainer_keepsAlike keeps _) alike
  have recoded {f : Json → Recoded} (keeps : KeepsAlike f) {fault fault' : ValueFault → CodecError} :
      Agree AlikeAt (whenPresent (fun value => (mapContainer s.container f value).mapError fault) o)
        (whenPresent (fun value => (mapContainer t.container f value).mapError fault') p) := by
    rw [← container]
    exact whenPresent_agree alike fun _ _ _ alike => (agree_of_keeps (mapContainer_keepsAlike keeps _) alike).mapError
  have applied {child : String} (nested : s.transform = .nested child) :
      Agree AlikeAt (whenPresent (mapContainer s.container (inner child)) o)
        (whenPresent (mapContainer t.container (other child)) p) := by
    rw [← container]
    exact whenPresent_agree alike fun v there w alike => mapContainer_agree alike (agree child nested v there)
  cases d with
  | encode =>
    rw [atKey, encodeAt, encodeAt, ← transform]
    cases given : s.transform with
    | emptyValueAs behavior =>
      dsimp only
      rw [← isEmptyObject_alike alike]
      split
      · cases behavior <;> first | exact .ok alike | exact .ok (Alike.refl trivial) | exact .ok trivial
      · exact .ok alike
    | nested child => exact applied given
    | unwrapValues elementType key => exact passed (unwrapValue_keepsAlike key)
    | nullable => exact .ok (Json.alike_getD alike trivial)
    | integerAsNumber | enumCustomNames | enumAsNumber | timestampAs | bytesAs =>
      exact recoded fun _ _ _ => Transform.encodeValue_alike
    | unwrapRoot | flatten | oneofDiscriminator => exact .ok alike
  | decode =>
    rw [atKey, decodeAt, decodeAt, ← transform]
    cases given : s.transform with
    | emptyValueAs behavior => exact .ok (restoreEmpty_alike behavior alike)
    | nested child => exact applied given
    | unwrapValues elementType key => exact passed (wrapValue_keepsAlike key)
    | nullable => exact .ok (dropNull_alike alike)
    | integerAsNumber | enumCustomNames | enumAsNumber | timestampAs | bytesAs =>
      exact recoded fun _ _ _ => Transform.decodeValue_alike
    | unwrapRoot | flatten | oneofDiscriminator => exact .ok alike

end Direction

section Lifting

variable {doc other child others : Doc} {plan plan' : Plan} {s t : Step}

theorem extend_alike (alike : DocsAlike doc other) (children : DocsAlike child others) :
    DocsAlike (doc.extend child) (other.extend others) := by
  obtain ⟨doc_keys, other_keys, under⟩ := Json.alike_obj.mp alike
  obtain ⟨child_keys, others_keys, below⟩ := Json.alike_obj.mp children
  refine Json.alike_obj.mpr ⟨Entries.distinct_extend doc_keys _, Entries.distinct_extend other_keys _, fun key => ?_⟩
  rw [Entries.get?_extend _ child_keys, Entries.get?_extend _ others_keys]
  have here := below key
  cases given : child.get? key with
  | none =>
    rw [given] at here
    rw [Json.none_alikeAt here]
    exact under key
  | some value =>
    rw [given] at here
    obtain ⟨value', given', same⟩ := Json.some_alikeAt here
    rw [given']
    exact same

theorem placed_alike {place : String → String} (injective : ∀ a b, place a = place b → a = b)
    (alike : DocsAlike child others) :
    DocsAlike (child.map fun (k, v) => (place k, v)) (others.map fun (k, v) => (place k, v)) := by
  obtain ⟨child_keys, others_keys, under⟩ := Json.alike_obj.mp alike
  refine Json.alike_obj.mpr ⟨distinct_placed injective child_keys, distinct_placed injective others_keys, fun key => ?_⟩
  by_cases lifted : ∃ k, place k = key
  · obtain ⟨k, rfl⟩ := lifted
    rw [get?_placed injective, get?_placed injective]
    exact under k
  · have absent (entries : Doc) : key ∉ entries.keys.map place := fun inside =>
      lifted ((List.mem_map.mp inside).imp fun _ => And.right)
    rw [get?_placed_of_not_mem (absent child), get?_placed_of_not_mem (absent others)]
    trivial

theorem gather_like {place : String → String} (injective : ∀ a b, place a = place b → a = b)
    {keys keys' : List String} (same : ∀ key, key ∈ keys ↔ key ∈ keys') (alike : DocsAlike doc other) :
    DocsAlike (gather place keys doc []).1 (gather place keys' other []).1 ∧
      DocsAlike (gather place keys doc []).2 (gather place keys' other []).2 := by
  obtain ⟨doc_keys, other_keys, under⟩ := Json.alike_obj.mp alike
  obtain ⟨docs, children⟩ := gather_distinct place keys doc_keys Entries.distinct_nil
  obtain ⟨docs', children'⟩ := gather_distinct place keys' other_keys Entries.distinct_nil
  constructor
  · refine Json.alike_obj.mpr ⟨docs, docs', fun key => ?_⟩
    have listed : key ∈ keys.map place ↔ key ∈ keys'.map place := by simp only [List.mem_map, same]
    rw [get?_gather_doc place keys [] doc_keys, get?_gather_doc place keys' [] other_keys]
    simp only [listed]
    split
    · trivial
    · exact under key
  · refine Json.alike_obj.mpr ⟨children, children', fun key => ?_⟩
    rw [get?_gather_child injective keys [] doc_keys, get?_gather_child injective keys' [] other_keys]
    simp only [same]
    split
    · simpa [Entries.get?] using under (place key)
    · trivial

theorem encodeFlatten_agree {inner inner' : String → Json → Result Json} {messageType pre : String}
    {keys keys' : List String} (key : s.jsonName = t.jsonName) (first : s.transform = .flatten messageType pre keys)
    (second : t.transform = .flatten messageType pre keys') (alike : DocsAlike doc other) :
    Agree DocsAlike (encodeStep inner plan s doc) (encodeStep inner' plan' t other) := by
  have under := (Json.alike_obj.mp alike).2.2 s.jsonName
  have bare := alike_erase alike s.jsonName
  simp only [encodeStep, first, second, ← key]
  cases given : doc.get? s.jsonName with
  | none =>
    rw [given] at under
    rw [Json.none_alikeAt under]
    exact .ok alike
  | some value =>
    rw [given] at under
    obtain ⟨value', given', same⟩ := Json.some_alikeAt under
    rw [given']
    rcases Json.alike_cases same with ⟨leaf, rfl⟩ | ⟨items, others, rfl, rfl, _⟩ | ⟨members, others, rfl, rfl⟩
    · cases value' <;> first | exact .ok bare | exact .error _ _ | exact leaf.elim
    · exact .error _ _
    · exact .ok (extend_alike bare (placed_alike (prefix_injective pre) same))

theorem decodeFlatten_agree {inner inner' : String → Json → Result Json} {messageType pre : String}
    {keys keys' : List String} (key : s.jsonName = t.jsonName) (first : s.transform = .flatten messageType pre keys)
    (second : t.transform = .flatten messageType pre keys') (same : ∀ key, key ∈ keys ↔ key ∈ keys')
    (alike : DocsAlike doc other) :
    Agree DocsAlike (decodeStep inner plan s doc) (decodeStep inner' plan' t other) := by
  obtain ⟨docs, children⟩ := gather_like (prefix_injective pre) same alike
  simp only [decodeStep, first, second, ← key]
  refine .ok ?_
  rw [alike_isEmpty children]
  split
  · exact docs
  · exact alike_insert docs _ children

def SetAlike (first second : Variant × Json) : Prop :=
  first.1.jsonName = second.1.jsonName ∧ first.1.value = second.1.value ∧ Alike first.2 second.2

theorem setVariant?_like {variants variants' : List Variant} (each : List.Forall₂ Variant.Like variants variants')
    (alike : DocsAlike doc other) :
    Option.Rel SetAlike (setVariant? variants doc) (setVariant? variants' other) := by
  have under := (Json.alike_obj.mp alike).2.2
  induction each with
  | nil => exact .none
  | @cons v w rest rest' like _ ih =>
    have here := under v.jsonName
    rw [setVariant?, setVariant?] at ih ⊢
    rw [List.findSome?_cons, List.findSome?_cons, ← like.jsonName]
    cases given : doc.get? v.jsonName with
    | none =>
      rw [given] at here
      rw [Json.none_alikeAt here]
      exact ih
    | some value =>
      rw [given] at here
      obtain ⟨value', given', same⟩ := Json.some_alikeAt here
      have null := Json.alike_isNull same
      rw [given']
      dsimp only
      rw [← null]
      cases value.isNull with
      | true => exact ih
      | false => exact .some ⟨like.jsonName, like.value, same⟩

theorem encodeOneof_agree {tag : String} {lifted : Bool} {variants variants' : List Variant}
    (sets : Option.Rel SetAlike (setVariant? variants doc) (setVariant? variants' other)) (alike : DocsAlike doc other) :
    Agree DocsAlike (encodeOneof plan s tag lifted variants doc) (encodeOneof plan' t tag lifted variants' other) := by
  rw [encodeOneof, encodeOneof]
  generalize first : setVariant? variants doc = set at sets
  generalize second : setVariant? variants' other = set' at sets
  cases sets with
  | none => exact .ok alike
  | @some a b related =>
    obtain ⟨v, value⟩ := a
    obtain ⟨w, value'⟩ := b
    obtain ⟨key, named, same⟩ := related
    dsimp only at key named same ⊢
    rw [← key, ← named]
    have tagged {docs docs' : Doc} (same : DocsAlike docs docs') : Agree DocsAlike
        (.ok (docs.insert tag (.str v.value)) : Result Doc) (.ok (docs'.insert tag (.str v.value)) : Result Doc) :=
      .ok (alike_insert same tag (Alike.refl (a := .str v.value) trivial))
    cases lifted with
    | false => exact tagged alike
    | true =>
      rcases Json.alike_cases same with ⟨leaf, rfl⟩ | ⟨items, others, rfl, rfl, _⟩ | ⟨members, others, rfl, rfl⟩
      · cases value' <;> first | exact .error _ _ | exact leaf.elim
      · exact .error _ _
      · exact tagged (extend_alike (alike_erase alike _) same)

theorem decodeOneof_agree {lifted : Bool} {variants variants' : List Variant} (key : s.jsonName = t.jsonName)
    (named : ∀ tag, Option.Rel (fun v w => lifted = true → v.Like w) (variants.find? (·.value == tag))
      (variants'.find? (·.value == tag))) (alike : DocsAlike doc other) :
    Agree DocsAlike (decodeOneof plan s lifted variants doc) (decodeOneof plan' t lifted variants' other) := by
  -- Decoding looks a tag up among the variants; of what it finds, only a oneof that lifts its members needs more.
  have under := (Json.alike_obj.mp alike).2.2 s.jsonName
  have bare := alike_erase alike s.jsonName
  rw [decodeOneof, decodeOneof, ← key]
  cases given : doc.get? s.jsonName with
  | none =>
    rw [given] at under
    rw [Json.none_alikeAt under]
    exact .ok bare
  | some value =>
    rw [given] at under
    obtain ⟨value', given', same⟩ := Json.some_alikeAt under
    rw [given']
    rcases Json.alike_cases same with ⟨leaf, rfl⟩ | ⟨items, others, rfl, rfl, _⟩ | ⟨members, others, rfl, rfl⟩
    · cases value' with
      | null => exact .ok bare
      | bool | num => exact .error _ _
      | arr | obj => exact leaf.elim
      | str tag =>
        have found := named tag
        dsimp only
        generalize variants.find? (·.value == tag) = v at found
        generalize variants'.find? (·.value == tag) = w at found
        cases found with
        | none => exact .error _ _
        | some like =>
          cases lifted with
          | false => exact .ok bare
          | true =>
            have injective (a b : String) (same : id a = id b) : a = b := same
            obtain ⟨docs, children⟩ := gather_like injective (like rfl).childKeys bare
            simp only [if_true, ← (like rfl).jsonName]
            exact .ok (alike_insert docs _ children)
    · exact .error _ _
    · exact .error _ _

theorem find?_like {variants variants' : List Variant} (each : List.Forall₂ Variant.Like variants variants')
    (tag : String) : Option.Rel Variant.Like (variants.find? (·.value == tag)) (variants'.find? (·.value == tag)) := by
  induction each with
  | nil => exact .none
  | cons like _ ih =>
    rw [List.find?_cons, List.find?_cons, ← like.value]
    split
    · exact .some like
    · exact ih

end Lifting

namespace Direction

variable {inner other : String → Json → Result Json} {plan plan' : Plan} {s t : Step} {doc doc' : Doc}

theorem flatten_of_like {transform : Transform} {messageType pre : String} {keys : List String}
    (like : Transform.Like (.flatten messageType pre keys) transform) :
    ∃ others, transform = .flatten messageType pre others ∧ ∀ key, key ∈ keys ↔ key ∈ others := by
  cases like with
  | refl => exact ⟨keys, rfl, fun _ => .rfl⟩
  | flatten same => exact ⟨_, rfl, same⟩

theorem oneof_of_like {transform : Transform} {tag : String} {lifted : Bool} {variants : List Variant}
    (like : Transform.Like (.oneofDiscriminator tag lifted variants) transform) :
    ∃ others, transform = .oneofDiscriminator tag lifted others ∧ List.Forall₂ Variant.Like variants others := by
  cases like with
  | refl => exact ⟨variants, rfl, List.forall₂_same.mpr fun v _ => .refl v⟩
  | oneof each => exact ⟨_, rfl, each⟩

theorem transform_eq_of_like (like : s.transform.Like t.transform) (isLocal : s.transform.isLocal = true) :
    s.transform = t.transform := by
  generalize s.transform = first at like isLocal
  generalize t.transform = second at like
  cases like with
  | refl => rfl
  | flatten => cases isLocal
  | oneof => cases isLocal

theorem step_agree (d : Direction) (like : s.Like t) (alike : DocsAlike doc doc')
    (agree : AgreeWithin inner other s (doc.get? s.jsonName)) :
    Agree DocsAlike (d.step inner plan s doc) (d.step other plan' t doc') := by
  have under := (Json.alike_obj.mp alike).2.2 s.jsonName
  -- A local step works under its own key alone; the others spread over the document and are met one by one.
  by_cases isLocal : s.transform.isLocal = true
  · have transform := transform_eq_of_like like.transform isLocal
    rw [step_eq_set d inner plan isLocal, step_eq_set d other plan' (transform ▸ isLocal), ← like.jsonName]
    exact (atKey_agree d like.container transform under agree).map fun _ _ same => alike_set alike _ same
  · have transforms := like.transform
    cases first : s.transform with
    | flatten messageType pre keys =>
      rw [first] at transforms
      obtain ⟨keys', second, same⟩ := flatten_of_like transforms
      cases d with
      | encode => exact encodeFlatten_agree like.jsonName first second alike
      | decode => exact decodeFlatten_agree like.jsonName first second same alike
    | oneofDiscriminator tag lifted variants =>
      rw [first] at transforms
      obtain ⟨variants', second, each⟩ := oneof_of_like transforms
      cases d with
      | encode =>
        simp only [Direction.step, encodeStep, first, second]
        exact encodeOneof_agree (setVariant?_like each alike) alike
      | decode =>
        simp only [Direction.step, decodeStep, first, second]
        exact decodeOneof_agree like.jsonName (fun tag => rel_imp_mem (find?_like each tag) fun _ _ _ like _ => like)
          alike
    | unwrapRoot elementType isMap =>
      rw [first] at transforms
      generalize second : t.transform = transform at transforms
      cases transforms
      cases d <;> simp only [Direction.step, encodeStep, decodeStep, first, second] <;> exact .ok alike
    | _ => simp [first, Transform.isLocal] at isLocal

end Direction

end Codec

def Plan.Like (plan other : Plan) : Prop := List.Forall₂ Step.Like plan.steps other.steps

theorem Step.Like.refl (s : Step) : s.Like s := ⟨rfl, rfl, .refl _⟩

theorem Transform.Like.isRootUnwrap {transform other : Transform} (like : transform.Like other) :
    transform.isRootUnwrap = other.isRootUnwrap := by
  cases like <;> rfl

namespace Plan.Like

variable {plan other : Plan} (like : plan.Like other)

include like

theorem rootUnwrap? : Option.Rel Step.Like plan.rootUnwrap? other.rootUnwrap? := by
  rw [Plan.rootUnwrap?, Plan.rootUnwrap?]
  rw [Plan.Like] at like
  generalize plan.steps = steps at like
  generalize other.steps = others at like
  induction like with
  | nil => exact .none
  | cons first _ ih =>
    rw [List.find?_cons, List.find?_cons, first.transform.isRootUnwrap]
    split
    · exact .some first
    · exact ih

theorem steps (d : Codec.Direction) : List.Forall₂ Step.Like (d.steps plan) (d.steps other) := by
  cases d with
  | encode =>
    rw [Codec.Direction.steps, Codec.Direction.steps]
    rw [Plan.Like] at like
    generalize plan.steps = steps at like
    generalize other.steps = others at like
    induction like with
    | nil => exact .nil
    | cons first _ ih =>
      rw [List.takeWhile_cons, List.takeWhile_cons, first.transform.isRootUnwrap]
      split
      · exact .cons first ih
      · exact .nil
  | decode => exact List.forall₂_reverse_iff.mpr like

end Plan.Like

namespace Codec.Direction

open Json (Alike AlikeAt)

variable {d : Direction} {inner other : String → Json → Result Json} {plan plan' : Plan} {doc doc' : Doc}

theorem agreeWithin_of_keeps (keeps : ∀ name, KeepsAlike (inner name)) (step : Step) (o : Option Json) :
    AgreeWithin inner inner step o :=
  fun child _ _ _ _ _ _ alike => agree_of_keeps (keeps child) alike

theorem pass_agree {steps others : List Step} (like : List.Forall₂ Step.Like steps others) (alike : DocsAlike doc doc')
    (agree : ∀ before step after between, steps = before ++ step :: after →
      d.pass inner plan before doc = .ok between → AgreeWithin inner other step (between.get? step.jsonName)) :
    Agree DocsAlike (d.pass inner plan steps doc) (d.pass other plan' others doc') := by
  induction like generalizing doc doc' with
  | nil => cases d <;> exact .ok alike
  | @cons s t rest rest' first _ ih =>
    have empty : d.pass inner plan [] doc = .ok doc := by cases d <;> rfl
    rw [pass_cons, pass_cons]
    refine (d.step_agree first alike (agree [] s rest doc rfl empty)).bind fun a b here _ same => ?_
    refine ih same fun before step after between split passed => ?_
    refine agree (s :: before) step after between (by rw [split, List.cons_append]) ?_
    rw [pass_cons, here, ok_bind, passed]

theorem wrapRoot_agree {root root' : Step} (key : root.jsonName = root'.jsonName) {value value' : Json}
    (alike : Alike value value') : Agree DocsAlike (wrapRoot plan root value) (wrapRoot plan' root' value') := by
  have given (same : Alike value value') :
      Agree DocsAlike (.ok [(root.jsonName, value)] : Result Doc) (.ok [(root'.jsonName, value')] : Result Doc) := by
    refine .ok (key ▸ Json.alike_obj.mpr ⟨Entries.distinct_single _ _, Entries.distinct_single _ _, fun k => ?_⟩)
    simp only [Entries.get?]
    split
    · exact same
    · trivial
  have empty : DocsAlike [] [] := Alike.refl Json.distinct_empty
  rcases Json.alike_cases alike with ⟨leaf, rfl⟩ | ⟨items, others, rfl, rfl, each⟩ | ⟨members, others, rfl, rfl⟩
  · cases value' <;> first | exact .ok empty | exact .error _ _ | exact leaf.elim
  · cases each with
    | nil => exact .ok empty
    | cons => exact given alike
  · have bare := alike_isEmpty alike
    cases members <;> cases others <;> first | exact .ok empty | exact given alike | cases bare

theorem expectObject_agree (name : String) {value value' : Json} (alike : Alike value value') :
    Agree DocsAlike (expectObject name value) (expectObject name value') := by
  refine .of_carries (fun doc run => ?_) fun doc run => ?_
  · cases value with
    | obj members =>
      cases Except.ok.inj run
      obtain ⟨members', rfl, same⟩ := Json.alike_of_obj alike.symm
      exact ⟨members', rfl, same.symm⟩
    | _ => cases run
  · cases value' with
    | obj members =>
      obtain ⟨members', rfl, _⟩ := Json.alike_of_obj alike
      exact ⟨members', rfl⟩
    | _ => cases run

theorem opens_agree (roots : Option.Rel Step.Like plan.rootUnwrap? plan'.rootUnwrap?) (name : String)
    {value value' : Json} (alike : Alike value value') :
    Agree DocsAlike (d.opens plan name value) (d.opens plan' name value') := by
  cases d with
  | encode => exact expectObject_agree name alike
  | decode =>
    rw [opens, openWire, openWire]
    generalize plan.rootUnwrap? = root at roots
    generalize plan'.rootUnwrap? = root' at roots
    cases roots with
    | none => exact expectObject_agree name alike
    | some like => exact wrapRoot_agree like.jsonName alike

theorem closes_alike (roots : Option.Rel Step.Like plan.rootUnwrap? plan'.rootUnwrap?) (alike : DocsAlike doc doc') :
    Alike (d.closes plan doc) (d.closes plan' doc') := by
  cases d with
  | decode => exact alike
  | encode =>
    rw [closes, closes]
    generalize plan.rootUnwrap? = root at roots
    generalize plan'.rootUnwrap? = root' at roots
    cases roots with
    | none => exact alike
    | @some s t like =>
      obtain ⟨field, key, container, transform⟩ := s
      obtain ⟨field', key', container', transform'⟩ := t
      obtain ⟨rfl, _, same⟩ := like
      dsimp only at same
      cases same with
      | flatten | oneof => exact alike
      | refl =>
        cases transform with
        | unwrapRoot elementType isMap =>
          refine Json.alike_getD ((Json.alike_obj.mp alike).2.2 key) ?_
          cases isMap with
          | true => exact Json.distinct_empty
          | false => exact trivial
        | _ => exact alike

theorem applies_agree (like : plan.Like plan') (name : String) {value value' : Json} (alike : Alike value value')
    (agree : ∀ doc before step after between, d.opens plan name value = .ok doc →
      d.steps plan = before ++ step :: after → d.pass inner plan before doc = .ok between →
      AgreeWithin inner other step (between.get? step.jsonName)) :
    Agree Alike (d.applies inner plan name value) (d.applies other plan' name value') := by
  refine (opens_agree like.rootUnwrap? name alike).bind fun doc doc' opened _ same => ?_
  refine (pass_agree (like.steps d) same fun before step after between split passed =>
    agree doc before step after between opened split passed).bind fun _ _ _ _ left => ?_
  exact .ok (closes_alike like.rootUnwrap? left)

section Codecs

variable {codec codec' : Codec}

/-- Under a name, two codecs know a message, and the plans for it come to the same for some values: in two moves, by
steps that are alike and with the plans of the second codec within. -/
structure Matches (d : Direction) (codec codec' : Codec) (fits : String × Json → Prop) (name : String) : Prop where
  known : (codec.index.message? name).isSome = (codec'.index.message? name).isSome
  plans : Option.Rel (fun plan plan' => ∃ between, plan.Like between ∧ ∀ levels value value', fits (name, value) →
    Alike value value' → Agree Alike (d.applies (d.within codec' levels) between name value')
      (d.applies (d.within codec' levels) plan' name value')) (codec.plans.plan? name) (codec'.plans.plan? name)

theorem Matches.missing {fits : String × Json → Prop} {name : String} (alike : d.Matches codec codec' fits name)
    (missing : codec.index.message? name = none) : codec'.index.message? name = none := by
  have known := alike.known
  rw [missing] at known
  exact Option.not_isSome_iff_eq_none.mp (by rw [← known]; decide)

theorem within_agree {fits : String × Json → Prop} (each : ∀ name, d.Matches codec codec' fits name)
    (closed : ∀ a b, fits a → d.Hands codec a b → fits b) (levels : Nat) {name : String} {value value' : Json}
    (fit : fits (name, value)) (alike : Alike value value') :
    Agree Alike (d.within codec levels name value) (d.within codec' levels name value') := by
  -- `closed` keeps the children of a fitting document fitting, so the hypothesis holds one level down.
  induction levels generalizing name value value' with
  | zero =>
    cases found : codec.index.message? name with
    | none =>
      rw [within_unknown d found, within_unknown d ((each name).missing found)]
      exact .error _ _
    | some m =>
      have here : (codec.index.message? name).isSome = true := by rw [found, Option.isSome_some]
      rw [within_zero d here, within_zero d ((each name).known ▸ here)]
      exact .error _ _
  | succ levels ih =>
    cases found : codec.index.message? name with
    | none =>
      rw [within_unknown d found, within_unknown d ((each name).missing found)]
      exact .error _ _
    | some m =>
      have here : (codec.index.message? name).isSome = true := by rw [found, Option.isSome_some]
      have there : (codec'.index.message? name).isSome = true := (each name).known ▸ here
      have plans := (each name).plans
      generalize first : codec.plans.plan? name = planned at plans
      generalize second : codec'.plans.plan? name = planned' at plans
      cases plans with
      | none =>
        rw [within_unplanned d here first, within_unplanned d there second]
        exact .ok alike
      | some related =>
        obtain ⟨between, like, later⟩ := related
        rw [within_planned d here first, within_planned d there second]
        have applied : Agree Alike (d.applies (d.within codec levels) _ name value)
            (d.applies (d.within codec' levels) between name value') :=
          applies_agree like name alike
            fun doc before step after made opened split passed child nested held given x there y same =>
              ih (closed _ _ fit (.intro here first opened split passed nested given there)) same
        exact applied.trans (fun _ _ _ => Alike.trans) (later levels value value' fit alike)

end Codecs

end Codec.Direction

end Wireform
