import Wireform.Proofs.AgreeingPlans

set_option autoImplicit false

namespace Wireform

namespace Codec

open Json (Alike AlikeAt)

namespace Direction

variable {d : Direction} {inner : String → Json → Result Json} {plan plan' : Plan}

theorem applies_keeps (keeps : ∀ name, KeepsAlike (inner name)) (name : String) {value other : Json}
    (alike : Alike value other) : Agree Alike (d.applies inner plan name value) (d.applies inner plan name other) :=
  applies_agree (List.forall₂_same.mpr fun s _ => .refl s) name alike
    fun _ _ step _ _ _ _ _ => agreeWithin_of_keeps keeps step _

theorem within_keeps (d : Direction) (codec : Codec) (levels : Nat) (name : String) :
    KeepsAlike (d.within codec levels name) := by
  induction levels generalizing name with
  | zero =>
    intro value other result alike run
    cases found : codec.index.message? name with
    | none =>
      rw [within_unknown d found] at run
      cases run
    | some m =>
      rw [within_zero d (by rw [found, Option.isSome_some])] at run
      cases run
  | succ levels ih =>
    intro value other result alike run
    cases found : codec.index.message? name with
    | none =>
      rw [within_unknown d found] at run
      cases run
    | some m =>
      have known : (codec.index.message? name).isSome = true := by rw [found, Option.isSome_some]
      cases planned : codec.plans.plan? name with
      | none =>
        rw [within_unplanned d known planned] at run ⊢
        cases Except.ok.inj run
        exact ⟨other, rfl, alike⟩
      | some plan =>
        rw [within_planned d known planned] at run ⊢
        exact (applies_keeps ih name alike).carries run

def Interchanges (d : Direction) (inner : String → Json → Result Json) (plan plan' : Plan) (steps others : List Step) :
    Prop :=
  ∀ doc doc', DocsAlike doc doc' → Agree DocsAlike (d.pass inner plan steps doc) (d.pass inner plan' others doc')

namespace Interchanges

variable {steps others later further : List Step}

theorem trans {plan'' : Plan} {last : List Step} (first : d.Interchanges inner plan plan' steps others)
    (second : d.Interchanges inner plan' plan'' others last) : d.Interchanges inner plan plan'' steps last :=
  fun doc doc' alike =>
    (first doc doc (Alike.refl alike.1)).trans (fun _ _ _ => Alike.trans) (second doc doc' alike)

theorem append (first : d.Interchanges inner plan plan' steps others)
    (second : d.Interchanges inner plan plan' later further) :
    d.Interchanges inner plan plan' (steps ++ later) (others ++ further) := by
  intro doc doc' alike
  rw [pass_append, pass_append]
  exact (first doc doc' alike).bind fun a b _ _ same => second a b same

variable (keeps : ∀ name, KeepsAlike (inner name))

include keeps

theorem refl (steps : List Step) : d.Interchanges inner plan plan' steps steps :=
  fun _ _ alike => pass_agree (List.forall₂_same.mpr fun s _ => .refl s) alike
    fun _ step _ _ _ _ => agreeWithin_of_keeps keeps step _

theorem swap {s t : Step} (first : s.transform.isLocal = true) (second : t.transform.isLocal = true)
    (apart : s.jsonName ≠ t.jsonName) : d.Interchanges inner plan plan' [s, t] [t, s] := by
  intro doc doc' alike
  obtain ⟨distinct, distinct', under⟩ := Json.alike_obj.mp alike
  have pass_two {p : Plan} {a b : Step} (here : a.transform.isLocal = true) (there : b.transform.isLocal = true)
      (apart : a.jsonName ≠ b.jsonName) {doc : Doc} (distinct : doc.Distinct) : d.pass inner p [a, b] doc = (do
        let o ← d.atKey inner p a (doc.get? a.jsonName)
        let q ← d.atKey inner p b (doc.get? b.jsonName)
        return (doc.set a.jsonName o).set b.jsonName q) := by
    rw [pass_cons, d.step_eq_set inner p here]
    cases d.atKey inner p a (doc.get? a.jsonName) with
    | error fault => rfl
    | ok o =>
      have elsewhere : (doc.set a.jsonName o).get? b.jsonName = doc.get? b.jsonName := by
        rw [Entries.get?_set distinct, if_neg apart]
      change d.pass inner p [b] (doc.set a.jsonName o) = _
      rw [pass_cons, d.step_eq_set inner p there, elsewhere]
      cases d.atKey inner p b (doc.get? b.jsonName) with
      | error fault => rfl
      | ok q => cases d <;> rfl
  have at_key (s : Step) : Agree AlikeAt (d.atKey inner plan s (doc.get? s.jsonName))
      (d.atKey inner plan' s (doc'.get? s.jsonName)) :=
    d.atKey_agree rfl rfl (under s.jsonName) (agreeWithin_of_keeps keeps s _)
  have one := at_key s
  have two := at_key t
  rw [pass_two first second apart distinct, pass_two second first apart.symm distinct']
  -- Both orders look at the same two values, so they fail alike.
  generalize d.atKey inner plan s (doc.get? s.jsonName) = x at one
  generalize d.atKey inner plan' s (doc'.get? s.jsonName) = x' at one
  generalize d.atKey inner plan t (doc.get? t.jsonName) = y at two
  generalize d.atKey inner plan' t (doc'.get? t.jsonName) = y' at two
  cases one with
  | error fault other =>
    cases two with
    | error => exact .error _ _
    | ok => exact .error _ _
  | @ok o o' same =>
    cases two with
    | error => exact .error _ _
    | @ok q q' same' =>
      refine .ok (Json.alike_obj.mpr ⟨Entries.distinct_set (Entries.distinct_set distinct _ _) _ _,
        Entries.distinct_set (Entries.distinct_set distinct' _ _) _ _, fun key => ?_⟩)
      rw [Entries.get?_set (Entries.distinct_set distinct _ _), Entries.get?_set distinct,
        Entries.get?_set (Entries.distinct_set distinct' _ _), Entries.get?_set distinct']
      by_cases here : s.jsonName = key
      · subst here
        rw [if_neg apart.symm, if_pos rfl, if_pos rfl]
        exact same
      · rw [if_neg here, if_neg here]
        split
        · exact same'
        · exact under key

end Interchanges

def Apart (steps others : List Step) : Prop := ∀ s ∈ steps, ∀ t ∈ others, s.jsonName ≠ t.jsonName

section Blocks

variable (keeps : ∀ name, KeepsAlike (inner name))

include keeps

theorem move {s : Step} {steps : List Step} (here : s.transform.isLocal = true)
    (there : ∀ t ∈ steps, t.transform.isLocal = true) (apart : ∀ t ∈ steps, s.jsonName ≠ t.jsonName) :
    d.Interchanges inner plan plan' (s :: steps) (steps ++ [s]) := by
  induction steps with
  | nil => exact .refl keeps _
  | cons t rest ih =>
    have first : d.Interchanges inner plan plan ([s, t] ++ rest) ([t, s] ++ rest) :=
      (Interchanges.swap keeps here (there t List.mem_cons_self) (apart t List.mem_cons_self)).append (.refl keeps rest)
    have later := ih (fun u inside => there u (List.mem_cons_of_mem _ inside))
      fun u inside => apart u (List.mem_cons_of_mem _ inside)
    have last : d.Interchanges inner plan plan' ([t] ++ (s :: rest)) ([t] ++ (rest ++ [s])) :=
      .append (.refl keeps [t]) later
    exact first.trans last

theorem exchange {steps others : List Step} (here : ∀ s ∈ steps, s.transform.isLocal = true)
    (there : ∀ t ∈ others, t.transform.isLocal = true) (apart : Apart steps others) :
    d.Interchanges inner plan plan' (steps ++ others) (others ++ steps) := by
  induction steps generalizing plan' with
  | nil =>
    rw [List.nil_append, List.append_nil]
    exact .refl keeps _
  | cons s rest ih =>
    have later : d.Interchanges inner plan plan (rest ++ others) (others ++ rest) :=
      ih (fun u inside => here u (List.mem_cons_of_mem _ inside)) fun u inside => apart u (List.mem_cons_of_mem _ inside)
    have first : d.Interchanges inner plan plan ([s] ++ (rest ++ others)) ([s] ++ (others ++ rest)) :=
      .append (.refl keeps [s]) later
    have last : d.Interchanges inner plan plan' (s :: others ++ rest) (others ++ [s] ++ rest) :=
      (move keeps (here s List.mem_cons_self) there (apart s List.mem_cons_self)).append (.refl keeps rest)
    rw [List.append_assoc] at last
    exact first.trans last

theorem interchanges_of_perm {blocks blocks' : List (List Step)} (order : blocks.Perm blocks')
    (locals : ∀ block ∈ blocks, ∀ s ∈ block, s.transform.isLocal = true) (apart : blocks.Pairwise Apart) :
    d.Interchanges inner plan plan' blocks.flatten blocks'.flatten := by
  induction order generalizing plan plan' with
  | nil => exact .refl keeps _
  | cons block _ ih =>
    exact .append (.refl keeps block)
      (ih (fun b inside => locals b (List.mem_cons_of_mem _ inside)) (List.pairwise_cons.mp apart).2)
  | swap a b rest =>
    obtain ⟨first, _⟩ := List.pairwise_cons.mp apart
    have swapped : d.Interchanges inner plan plan' (b ++ a ++ rest.flatten) (a ++ b ++ rest.flatten) :=
      (exchange keeps (locals b (by simp)) (locals a (by simp)) (first a List.mem_cons_self)).append (.refl keeps _)
    simpa only [List.flatten_cons, List.append_assoc] using swapped
  | @trans start between _ first _ ih ih' =>
    have here : d.Interchanges inner plan plan start.flatten between.flatten := ih locals apart
    refine here.trans (ih' (fun b inside => locals b (first.symm.subset inside)) ?_)
    exact (first.pairwise_iff fun apart t inside s there => (apart s there t inside).symm).mp apart

end Blocks

end Direction

section Oneofs

variable {inner : String → Json → Result Json} {plan plan' : Plan} {doc doc' : Doc}

def IsSet (doc : Doc) (key : String) : Prop := ∃ value, doc.get? key = some value ∧ value.isNull = false

def AtMostOne (variants : List Variant) (doc : Doc) : Prop :=
  ∀ v ∈ variants, ∀ w ∈ variants, IsSet doc v.jsonName → IsSet doc w.jsonName → v = w

theorem isSet_alike (alike : DocsAlike doc doc') {key : String} : IsSet doc key ↔ IsSet doc' key := by
  have carried {doc doc' : Doc} (alike : DocsAlike doc doc') : IsSet doc key → IsSet doc' key := by
    rintro ⟨value, given, present⟩
    have under := (Json.alike_obj.mp alike).2.2 key
    rw [given] at under
    obtain ⟨other, given', same⟩ := Json.some_alikeAt under
    exact ⟨other, given', Json.alike_isNull same ▸ present⟩
  exact ⟨carried alike, carried alike.symm⟩

theorem AtMostOne.mono {variants : List Variant} (once : AtMostOne variants doc)
    (sets : ∀ v ∈ variants, IsSet doc' v.jsonName → IsSet doc v.jsonName) : AtMostOne variants doc' :=
  fun v inside w there first second => once v inside w there (sets v inside first) (sets w there second)

theorem setVariant?_perm {variants variants' : List Variant} (order : variants.Perm variants')
    (once : AtMostOne variants doc) (alike : DocsAlike doc doc') :
    Option.Rel SetAlike (setVariant? variants doc) (setVariant? variants' doc') := by
  have under := (Json.alike_obj.mp alike).2.2
  cases first : setVariant? variants doc with
  | none =>
    cases second : setVariant? variants' doc' with
    | none => exact .none
    | some found =>
      obtain ⟨inside, given, present⟩ := setVariant?_spec second
      obtain ⟨value, given', present'⟩ := (isSet_alike alike).mpr ⟨found.2, given, present⟩
      rw [setVariant?_none first found.1 (order.symm.subset inside) value given'] at present'
      cases present'
  | some found =>
    obtain ⟨v, value⟩ := found
    obtain ⟨inside, given, present⟩ := setVariant?_spec first
    obtain ⟨value', given', present'⟩ := (isSet_alike alike).mp ⟨value, given, present⟩
    cases second : setVariant? variants' doc' with
    | none =>
      rw [setVariant?_none second v (order.subset inside) value' given'] at present'
      cases present'
    | some found' =>
      obtain ⟨w, other⟩ := found'
      obtain ⟨there, here, set⟩ := setVariant?_spec second
      -- The variants that are set are one and the same.
      obtain rfl := once v inside w (order.symm.subset there) ⟨value, given, present⟩
        ((isSet_alike alike).mpr ⟨other, here, set⟩)
      have same := under v.jsonName
      rw [given, here] at same
      exact .some ⟨rfl, rfl, same⟩

theorem unset_of_encodeAt {step : Step} {o p : Option Json} (unset : ∀ v ∈ o, v = .null)
    (run : encodeAt inner plan step o = .ok p) : ∀ v ∈ p, v = .null := by
  rw [encodeAt] at run
  obtain rfl | rfl : o = none ∨ o = some .null := by
    cases o with
    | none => exact .inl rfl
    | some v => exact .inr (congrArg some (unset v rfl))
  all_goals
    generalize step.transform = transform at run
    cases transform <;> cases Except.ok.inj run <;> simp

theorem isSet_of_encodeAll {steps : List Step} (locals : ∀ s ∈ steps, s.transform.isLocal = true)
    (distinct : doc.Distinct) (run : encodeAll inner plan steps doc = .ok doc') {key : String} (set : IsSet doc' key) :
    IsSet doc key := by
  induction steps generalizing doc with
  | nil =>
    cases Except.ok.inj run
    exact set
  | cons step rest ih =>
    obtain ⟨between, first, later⟩ := bind_eq_ok run
    rw [encodeStep_eq_set inner plan (locals step List.mem_cons_self)] at first
    obtain ⟨o, made, rfl⟩ := map_eq_ok first
    obtain ⟨value, given, present⟩ := ih (fun s inside => locals s (List.mem_cons_of_mem _ inside))
      (Entries.distinct_set distinct _ _) later
    rw [Entries.get?_set distinct] at given
    split at given
    · rename_i here
      subst here
      by_contra unset
      have null : ∀ v ∈ doc.get? step.jsonName, v = .null := by
        intro v found
        by_contra other
        exact unset ⟨v, found, by cases v <;> first | rfl | exact absurd rfl other⟩
      cases unset_of_encodeAt null made value given
      cases present
    · exact ⟨value, given, present⟩

end Oneofs

end Codec

def Transform.variants : Transform → List Variant
  | .oneofDiscriminator _ _ variants => variants
  | _ => []

inductive Step.Shuffled : Step → Step → Prop
  | intro {field field' key : String} {container container' : Container} {variants variants' : List Variant}
      (order : variants.Perm variants') :
      Shuffled ⟨field, key, container, .oneofDiscriminator key false variants⟩
        ⟨field', key, container', .oneofDiscriminator key false variants'⟩

structure Plan.Shuffled (plan other : Plan) (blocks blocks' : List (List Step)) (oneofs oneofs' roots : List Step) :
    Prop where
  steps : plan.steps = blocks.flatten ++ oneofs ++ roots
  others : other.steps = blocks'.flatten ++ oneofs' ++ roots
  order : blocks.Perm blocks'
  locals : ∀ block ∈ blocks, ∀ s ∈ block, s.transform.isLocal = true
  apart : blocks.Pairwise Codec.Direction.Apart
  groups : List.Forall₂ Step.Shuffled oneofs oneofs'
  last : ∀ s ∈ roots, s.transform.isRootUnwrap = true
  tags : ∀ s ∈ oneofs, ∀ t ∈ oneofs, ∀ v ∈ t.transform.variants, s.jsonName ≠ v.jsonName

namespace Codec

open Json (Alike AlikeAt)

variable {inner : String → Json → Result Json} {plan plan' : Plan} {doc doc' : Doc} {oneofs oneofs' : List Step}

theorem encodeOneofs_agree (each : List.Forall₂ Step.Shuffled oneofs oneofs')
    (tags : ∀ s ∈ oneofs, ∀ t ∈ oneofs, ∀ v ∈ t.transform.variants, s.jsonName ≠ v.jsonName)
    (once : ∀ s ∈ oneofs, AtMostOne s.transform.variants doc) (alike : DocsAlike doc doc') :
    Agree DocsAlike (encodeAll inner plan oneofs doc) (encodeAll inner plan' oneofs' doc') := by
  induction each generalizing doc doc' with
  | nil => exact .ok alike
  | @cons s t rest rest' first _ ih =>
    obtain @⟨field, field', key, container, container', variants, variants', order⟩ := first
    rw [encodeAll, encodeAll]
    have sets := setVariant?_perm order (once _ List.mem_cons_self) alike
    refine (encodeOneof_agree sets alike).bind fun a b here _ same => ?_
    refine ih (fun s inside t there => tags s (List.mem_cons_of_mem _ inside) t (List.mem_cons_of_mem _ there))
      (fun s inside => ?_) same
    refine (once s (List.mem_cons_of_mem _ inside)).mono fun v there set => ?_
    have apart := tags _ List.mem_cons_self s (List.mem_cons_of_mem _ inside) v there
    rw [encodeOneof] at here
    split at here
    · cases Except.ok.inj here
      exact set
    · cases Except.ok.inj here
      obtain ⟨value, given, present⟩ := set
      rw [Entries.get?_insert, if_neg apart] at given
      exact ⟨value, given, present⟩

theorem decodeOneofs_interchange (keeps : ∀ name, KeepsAlike (inner name))
    (each : List.Forall₂ Step.Shuffled oneofs oneofs') :
    Direction.decode.Interchanges inner plan plan' oneofs.reverse oneofs'.reverse := by
  induction each with
  | nil => exact .refl keeps []
  | @cons s t rest rest' first _ ih =>
    rw [List.reverse_cons, List.reverse_cons]
    refine ih.append fun doc doc' alike => ?_
    obtain @⟨field, field', key, container, container', variants, variants', order⟩ := first
    have named (tag : String) : Option.Rel (fun v w => false = true → v.Like w) (variants.find? (·.value == tag))
        (variants'.find? (·.value == tag)) := by
      have found : (variants.find? (·.value == tag)).isSome = (variants'.find? (·.value == tag)).isSome := by
        rw [Bool.eq_iff_iff, List.find?_isSome, List.find?_isSome]
        exact exists_congr fun v => and_congr_left fun _ => order.mem_iff
      generalize variants.find? (·.value == tag) = o at found
      generalize variants'.find? (·.value == tag) = p at found
      cases o <;> cases p <;> first | exact .none | exact .some nofun | cases found
    refine Agree.bind (decodeOneof_agree (s := ⟨field, key, container, _⟩) (t := ⟨field', key, container', _⟩) rfl named
      alike) fun a b _ _ same => .ok same

theorem decodeSteps_roots {roots : List Step} (last : ∀ s ∈ roots, s.transform.isRootUnwrap = true) (doc : Doc) :
    decodeSteps inner plan roots doc = .ok doc := by
  induction roots with
  | nil => rfl
  | cons s rest ih =>
    have root := last s List.mem_cons_self
    have step : decodeStep inner plan s doc = .ok doc := by
      rw [decodeStep]
      generalize s.transform = transform at root
      cases transform <;> first | rfl | cases root
    rw [decodeSteps, step, ok_bind]
    exact ih fun t inside => last t (List.mem_cons_of_mem _ inside)

end Codec

namespace Plan.Shuffled

open Codec

open Json (Alike AlikeAt)

variable {inner : String → Json → Result Json} {plan other : Plan} {blocks blocks' : List (List Step)}
  {oneofs oneofs' roots : List Step} (shuffled : plan.Shuffled other blocks blocks' oneofs oneofs' roots)

theorem not_root_of_local {s : Step} (isLocal : s.transform.isLocal = true) : s.transform.isRootUnwrap = false := by
  generalize s.transform = transform at isLocal
  cases transform <;> first | rfl | cases isLocal

include shuffled

theorem not_root : (∀ s ∈ blocks.flatten ++ oneofs, s.transform.isRootUnwrap = false) ∧
    ∀ s ∈ blocks'.flatten ++ oneofs', s.transform.isRootUnwrap = false := by
  have groups : (∀ s ∈ oneofs, s.transform.isRootUnwrap = false) ∧ ∀ s ∈ oneofs', s.transform.isRootUnwrap = false := by
    have each := shuffled.groups
    clear shuffled
    induction each with
    | nil => exact ⟨nofun, nofun⟩
    | cons first _ ih =>
      cases first
      exact ⟨List.forall_mem_cons.mpr ⟨rfl, ih.1⟩, List.forall_mem_cons.mpr ⟨rfl, ih.2⟩⟩
  constructor
  · intro s inside
    rcases List.mem_append.mp inside with body | group
    · obtain ⟨block, there, here⟩ := List.mem_flatten.mp body
      exact not_root_of_local (shuffled.locals block there s here)
    · exact groups.1 s group
  · intro s inside
    rcases List.mem_append.mp inside with body | group
    · obtain ⟨block, there, here⟩ := List.mem_flatten.mp body
      exact not_root_of_local (shuffled.locals block (shuffled.order.symm.subset there) s here)
    · exact groups.2 s group

theorem rootUnwrap?_eq : plan.rootUnwrap? = other.rootUnwrap? := by
  have skipped {steps : List Step} (inner : ∀ s ∈ steps, s.transform.isRootUnwrap = false) :
      steps.find? (·.transform.isRootUnwrap) = none :=
    List.find?_eq_none.mpr fun s inside => by rw [inner s inside]; exact Bool.false_ne_true
  rw [rootUnwrap?, rootUnwrap?, shuffled.steps, shuffled.others, @List.find?_append _ _ (_ ++ _),
    @List.find?_append _ _ (_ ++ _), skipped shuffled.not_root.1, skipped shuffled.not_root.2]

theorem roots_alike : Option.Rel Step.Like plan.rootUnwrap? other.rootUnwrap? := by
  rw [shuffled.rootUnwrap?_eq]
  cases other.rootUnwrap? with
  | none => exact .none
  | some root => exact .some (.refl root)

theorem takeWhile_eq {steps : List Step} (inner : ∀ s ∈ steps, s.transform.isRootUnwrap = false) :
    (steps ++ roots).takeWhile (!·.transform.isRootUnwrap) = steps := by
  have none_left : roots.takeWhile (!·.transform.isRootUnwrap) = [] := by
    have last := shuffled.last
    cases roots with
    | nil => rfl
    | cons s rest => rw [List.takeWhile_cons_of_neg (by simp [last s List.mem_cons_self])]
  rw [List.takeWhile_append_of_pos (fun s inside => by rw [inner s inside]; rfl), none_left, List.append_nil]

variable (keeps : ∀ name, KeepsAlike (inner name))

include keeps

theorem encode_agree (name : String) {value : Json} (distinct : value.Distinct)
    (once : ∀ doc, value = .obj doc → ∀ s ∈ oneofs, AtMostOne s.transform.variants doc) :
    Agree Alike (Direction.encode.applies inner plan name value) (Direction.encode.applies inner other name value) := by
  have steps : Direction.encode.steps plan = blocks.flatten ++ oneofs := by
    rw [Direction.steps, shuffled.steps, shuffled.takeWhile_eq shuffled.not_root.1]
  have others : Direction.encode.steps other = blocks'.flatten ++ oneofs' := by
    rw [Direction.steps, shuffled.others, shuffled.takeWhile_eq shuffled.not_root.2]
  refine (Direction.opens_agree (d := .encode) shuffled.roots_alike name (Alike.refl distinct)).bind fun doc doc' opened _ same => ?_
  obtain rfl : value = .obj doc := by
    cases value with
    | obj members =>
      cases Except.ok.inj opened
      rfl
    | _ => cases opened
  rw [steps, others, Direction.pass_append, Direction.pass_append]
  have bodies : Direction.encode.Interchanges inner plan other blocks.flatten blocks'.flatten :=
    Direction.interchanges_of_perm keeps shuffled.order shuffled.locals shuffled.apart
  refine Agree.bind ((bodies doc doc' same).bind fun a b passed _ left => ?_) fun _ _ _ _ left =>
    .ok (Direction.closes_alike (d := .encode) shuffled.roots_alike left)
  refine encodeOneofs_agree shuffled.groups shuffled.tags (fun s inside => (once doc rfl s inside).mono ?_) left
  intro v _ set
  have locals : ∀ s ∈ blocks.flatten, s.transform.isLocal = true := by
    intro s inside
    obtain ⟨block, there, here⟩ := List.mem_flatten.mp inside
    exact shuffled.locals block there s here
  exact isSet_of_encodeAll locals (Json.alike_obj.mp same).1 passed set

theorem decode_agree (name : String) {value : Json} (distinct : value.Distinct) :
    Agree Alike (Direction.decode.applies inner plan name value) (Direction.decode.applies inner other name value) := by
  refine (Direction.opens_agree (d := .decode) shuffled.roots_alike name (Alike.refl distinct)).bind fun doc doc' _ _ same => ?_
  have last : ∀ s ∈ roots.reverse, s.transform.isRootUnwrap = true :=
    fun s inside => shuffled.last s (List.mem_reverse.mp inside)
  have bodies : Direction.decode.Interchanges inner plan other blocks.flatten.reverse blocks'.flatten.reverse := by
    rw [List.reverse_flatten, List.reverse_flatten]
    refine Direction.interchanges_of_perm keeps ?_ ?_ ?_
    · exact (List.reverse_perm _).trans ((shuffled.order.map _).trans (List.reverse_perm _).symm)
    · intro block inside s there
      obtain ⟨original, listed, rfl⟩ := List.mem_map.mp (List.mem_reverse.mp inside)
      exact shuffled.locals original listed s (List.mem_reverse.mp there)
    · rw [List.pairwise_reverse, List.pairwise_map]
      exact shuffled.apart.imp fun apart t inside s there =>
        (apart s (List.mem_reverse.mp there) t (List.mem_reverse.mp inside)).symm
  have passes : Agree DocsAlike (Direction.decode.pass inner plan plan.steps.reverse doc)
      (Direction.decode.pass inner other other.steps.reverse doc') := by
    rw [shuffled.steps, shuffled.others, List.reverse_append, List.reverse_append, List.reverse_append,
      List.reverse_append, Direction.pass_append, Direction.pass_append]
    have skipped (p : Plan) (doc : Doc) : Direction.decode.pass inner p roots.reverse doc = .ok doc :=
      decodeSteps_roots last doc
    rw [skipped, skipped, ok_bind, ok_bind]
    exact (decodeOneofs_interchange keeps shuffled.groups).append bodies doc doc' same
  exact passes.bind fun _ _ _ _ left => .ok left

end Plan.Shuffled

end Wireform
