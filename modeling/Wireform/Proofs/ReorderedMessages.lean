import Wireform.Proofs.DistinctTypes
import Wireform.Proofs.LiftingCycles
import Wireform.Proofs.PlannedMessages
import Wireform.Proofs.ReorderedKeys
import Wireform.Proofs.ReorderedPlans
import Wireform.Proofs.RestoredFields

set_option autoImplicit false

namespace Wireform

theorem KeyMap.get?_map {α β : Type} (f : String → α → β) (m : KeyMap α) (key : String) :
    (m.map f).get? key = (m.get? key).map (f key) := by
  obtain ⟨entries, sorted⟩ := m
  change Entries.get? (entries.map fun entry => (entry.1, f entry.1 entry.2)) key = (Entries.get? entries key).map (f key)
  clear sorted
  induction entries with
  | nil => rfl
  | cons entry rest ih =>
    obtain ⟨k, v⟩ := entry
    rw [List.map_cons, Entries.get?, Entries.get?, ih]
    split
    · rename_i same
      rw [same]
      rfl
    · rfl

theorem KeyMap.size_eq {α β : Type} {a : KeyMap α} {b : KeyMap β}
    (same : ∀ key, (a.get? key).isSome = (b.get? key).isSome) : a.size = b.size := by
  have keys : (a.map fun _ _ => ()) = b.map fun _ _ => () := ext_get? fun key => by
    have here := same key
    rw [get?_map, get?_map]
    cases first : a.get? key <;> cases second : b.get? key <;> simp_all
  have sizes := congrArg (fun m => m.entries.length) keys
  simpa [map, size] using sizes

namespace Index

inductive Message.Shuffled (m : Message) : Message → Prop
  | same : Shuffled m m
  | moved {other : Message} (reordered : m.Reordered other) (names : (m.fields.map (·.name)).Nodup)
      (oneofNames : (m.oneofs.map (·.name)).Nodup) : Shuffled m other

theorem Message.Shuffled.reordered {m other : Message} (shuffled : m.Shuffled other) : m.Reordered other := by
  cases shuffled with
  | same => exact .refl m
  | moved reordered => exact reordered

namespace Message.Reordered

variable {m other : Message} (reordered : m.Reordered other)

include reordered

theorem isRootUnwrap_eq : m.isRootUnwrap = other.isRootUnwrap := by
  rw [Bool.eq_iff_iff, isRootUnwrap_iff, isRootUnwrap_iff]
  refine exists_congr fun f => and_congr_left fun _ => ⟨fun alone => ?_, fun alone => ?_⟩
  · exact (List.singleton_perm.mp (alone ▸ reordered.fields)).symm
  · exact List.perm_singleton.mp (alone ▸ reordered.fields)

theorem unwrapField?_eq (clean : m.unwrapErrors = []) : m.unwrapField? = other.unwrapField? := by
  -- Only one field is unwrapped, so it is the first in any order.
  have fields := reordered.fields.filter (·.annotations.unwrap)
  cases found : m.unwrapField? with
  | some f =>
    rw [unwrapped_once clean found] at fields
    rw [unwrapField?, ← List.head?_filter, ← List.singleton_perm.mp fields]
    rfl
  | none =>
    rw [unwrapField?, ← List.head?_filter, List.head?_eq_none_iff] at found
    rw [found] at fields
    rw [unwrapField?, ← List.head?_filter, List.nil_perm.mp fields]
    rfl

end Message.Reordered

structure Reordered (index other : Index) (moving : String) : Prop where
  sound : index.Sound
  keyed : other.Keyed
  here : Option.Rel Message.Shuffled (index.messages.get? moving) (other.messages.get? moving)
  elsewhere : ∀ key, key ≠ moving → index.messages.get? key = other.messages.get? key
  enums : index.enums = other.enums

namespace Reordered

variable {index other : Index} {moving : String} (reordered : index.Reordered other moving)

include reordered

theorem messages (key : String) : Option.Rel Message.Shuffled (index.messages.get? key) (other.messages.get? key) := by
  by_cases here : key = moving
  · exact here ▸ reordered.here
  · rw [reordered.elsewhere key here]
    cases other.messages.get? key with
    | none => exact .none
    | some m => exact .some .same

theorem found {name : String} {m : Message} (there : index.message? name = some m) :
    ∃ m', other.message? name = some m' ∧ m.Shuffled m' :=
  exists_of_rel (reordered.messages (bareName name)) there

theorem origin {name : String} {m' : Message} (there : other.message? name = some m') :
    ∃ m, index.message? name = some m ∧ m.Shuffled m' :=
  exists_of_rel_right (reordered.messages (bareName name)) there

theorem known (name : String) : (index.message? name).isSome = (other.message? name).isSome :=
  isSome_eq_of_rel (reordered.messages (bareName name))

theorem missing {name : String} : index.message? name = none ↔ other.message? name = none := by
  rw [← Option.not_isSome_iff_eq_none, ← Option.not_isSome_iff_eq_none, reordered.known]

theorem enum?_eq (name : String) : index.enum? name = other.enum? name := by
  rw [enum?, enum?, reordered.enums]

theorem levels_eq : levels index = levels other := by
  rw [levels, levels, KeyMap.size_eq fun key => isSome_eq_of_rel (reordered.messages key)]

section Keys

theorem lifted_members {name : String} {m : Message} (there : index.message? name = some m) :
    ∀ group ∈ m.discriminated, group.2.flatten = true →
      ∀ member ∈ m.oneofMembers group.1, member.message?.isSome = true := by
  intro group inside flatten member listed
  obtain ⟨_, _, clean, _⟩ := Message.errors_parts (reordered.sound.errors name m there)
  have issues := (Message.member_of_memberErrors (Message.memberErrors_of_oneofErrors clean inside) member listed).2
  obtain ⟨_, _, found⟩ := mem_oneofMembers.mp listed
  have resolved := reordered.sound.resolved name m there member (mem_of_field? found).1
  obtain ⟨child, _, typed, _⟩ := Message.message_of_variantIssues issues resolved flatten
  rw [typed, Option.isSome_some]

theorem keysWithin_relays (levels : Nat) (openNames : List String) (name pre : String) :
    Relays (keysWithin index levels openNames name pre) (keysWithin other levels openNames name pre) := by
  induction levels generalizing openNames name pre with
  | zero => exact .refl _
  | succ levels ih =>
    rw [keysWithin, keysWithin]
    split
    · exact .refl _
    · cases there : index.message? name with
      | none =>
        rw [reordered.missing.mp there]
        exact .refl _
      | some m =>
        obtain ⟨m', there', shuffled⟩ := reordered.found there
        rw [there']
        intro keys run
        obtain ⟨between, run, order⟩ := fieldsKeys_relays (fun type pre => ih (openNames ++ [name]) type pre) m
          m.fields keys run
        cases shuffled with
        | same => exact ⟨between, run, order⟩
        | moved moved names oneofNames =>
          obtain ⟨keys', run, order'⟩ := fieldsKeys_reordered (reordered.sound.wellFormed name m there) names oneofNames
            moved (reordered.lifted_members there) (reordered.keyed.wellFormed name m' there') between run
          exact ⟨keys', run, order.trans order'⟩

theorem flattenedKeys_relays (name : String) : Relays (index.flattenedKeys name) (other.flattenedKeys name) := by
  rw [flattenedKeys, flattenedKeys, reordered.levels_eq]
  exact reordered.keysWithin_relays _ _ _ _

theorem laidKeys_perm {name : String} (bare : bareName name = name) :
    (index.laidKeys name).Perm (other.laidKeys name) := by
  obtain ⟨keys, laid⟩ : ∃ keys, index.flattenedKeys name = .ok keys := by
    cases there : index.message? name with
    | none => exact ⟨[], flattenedKeys_foreign there⟩
    | some m => exact (flattenedKeys_ok reordered.sound bare there).imp fun _ => And.left
  obtain ⟨keys', laid', order⟩ := reordered.flattenedKeys_relays name keys laid
  rw [laidKeys_of_ok laid, laidKeys_of_ok laid']
  exact order

end Keys

section Steps

variable {planned planned' : String → Bool} {f : Field}
  (bare : ∀ child, f.message? = some child → bareName child = child)
  (agree : ∀ child, f.message? = some child → planned child = planned' child)

theorem unwrapValues?_eq (f : Field) (child : String) : unwrapValues? index f child = unwrapValues? other f child := by
  rw [unwrapValues?, unwrapValues?]
  cases there : index.message? child with
  | none => rw [reordered.missing.mp there]
  | some m =>
    obtain ⟨m', there', shuffled⟩ := reordered.found there
    obtain ⟨_, clean, _⟩ := Message.errors_parts (reordered.sound.errors child m there)
    rw [there', Option.bind_eq_bind, Option.bind_eq_bind, Option.bind_some, Option.bind_some,
      shuffled.reordered.unwrapField?_eq clean, shuffled.reordered.isRootUnwrap_eq]

theorem recodeSteps_eq (f : Field) : recodeSteps index f = recodeSteps other f := by
  have enums : enumSteps index f = enumSteps other f := by
    rw [enumSteps, enumSteps]
    cases f.enum? with
    | none => rfl
    | some name =>
      dsimp only
      rw [reordered.enum?_eq]
  rw [recodeSteps, recodeSteps, enums]

include agree in
theorem childSteps_eq : childSteps index planned f = childSteps other planned' f := by
  rw [childSteps, childSteps]
  cases typed : f.message? with
  | none => rfl
  | some child =>
    dsimp only
    rw [agree child typed, reordered.unwrapValues?_eq]

include bare in
theorem liftSteps_like : List.Forall₂ Step.Like (liftSteps index f) (liftSteps other f) := by
  rw [liftSteps, liftSteps]
  cases lifted : f.lifted? with
  | none => exact .nil
  | some target =>
    have keys := reordered.laidKeys_perm (bare target.1 (message_of_lifted lifted))
    exact .cons ⟨rfl, rfl, .flatten fun _ => keys.mem_iff⟩ .nil

include bare agree

theorem bodySteps_like : List.Forall₂ Step.Like (bodySteps index planned f) (bodySteps other planned' f) := by
  have same (steps : List Step) : List.Forall₂ Step.Like steps steps := List.forall₂_same.mpr fun s _ => .refl s
  rw [bodySteps, bodySteps, reordered.childSteps_eq agree, reordered.recodeSteps_eq f]
  exact List.rel_append (List.rel_append (same _) (List.rel_append (same _) (reordered.liftSteps_like bare))) (same _)

theorem fieldSteps_like {m m' : Message} (moved : m.Reordered m') :
    List.Forall₂ Step.Like (fieldSteps index m planned f) (fieldSteps other m' planned' f) := by
  have same (steps : List Step) : List.Forall₂ Step.Like steps steps := List.forall₂_same.mpr fun s _ => .refl s
  rw [fieldSteps_eq, fieldSteps_eq, reordered.childSteps_eq agree, reordered.recodeSteps_eq f, rootSteps, rootSteps,
    moved.isRootUnwrap_eq]
  exact List.rel_append (List.rel_append (same _) (List.rel_append (same _) (reordered.liftSteps_like bare))) (same _)

end Steps

section Plans

variable {name : String} {m m' : Message} (there : index.message? name = some m) (moved : m.Reordered m')

include there moved

theorem deviates_iff : m.Deviates index ↔ m'.Deviates other := by
  have groups : m.discriminated = [] ↔ m'.discriminated = [] := by
    have related := moved.discriminated
    generalize m.discriminated = first at related
    generalize m'.discriminated = second at related
    cases related <;> simp
  have fields : (∃ f ∈ m.fields, fieldSteps index m (fun _ => false) f ≠ []) ↔
      ∃ f ∈ m'.fields, fieldSteps other m' (fun _ => false) f ≠ [] := by
    refine exists_congr fun f => ?_
    rw [moved.fields.mem_iff]
    refine and_congr_right fun inside => not_congr ?_
    have bare := (reordered.sound.wellFormed name m there).typeName f (moved.fields.symm.subset inside)
    have like : List.Forall₂ Step.Like (fieldSteps index m (fun _ => false) f) (fieldSteps other m' (fun _ => false) f) :=
      reordered.fieldSteps_like bare (fun _ _ => rfl) moved
    generalize fieldSteps index m (fun _ => false) f = first at like
    generalize fieldSteps other m' (fun _ => false) f = second at like
    cases like <;> simp
  rw [← hasDirectTransform_iff, ← hasDirectTransform_iff, hasDirectTransform, hasDirectTransform]
  simp only [Bool.or_eq_true, Bool.not_eq_true', List.isEmpty_eq_false_iff, List.any_eq_true, ne_eq, groups]
  exact or_congr_right fields

end Plans

theorem rewritten_iff (name : String) : index.Rewritten name ↔ other.Rewritten name := by
  constructor
  · rintro ⟨target, t, path, found, own, deviates⟩
    have arrives : other.Rewritten target := by
      obtain ⟨t', found', shuffled⟩ := reordered.found found
      exact ⟨target, t', .here target, found', shuffled.reordered.wellKnown ▸ own,
        (reordered.deviates_iff found shuffled.reordered).mp deviates⟩
    clear found own deviates
    induction path with
    | here => exact arrives
    | field there plain inside typed _ ih =>
      obtain ⟨m', there', shuffled⟩ := reordered.found there
      obtain ⟨last, l, rest, found⟩ := ih arrives
      exact ⟨last, l, .field there' (shuffled.reordered.wellKnown ▸ plain) (shuffled.reordered.fields.subset inside) typed
        rest, found⟩
  · rintro ⟨target, t', path, found', own, deviates⟩
    have arrives : index.Rewritten target := by
      obtain ⟨t, found, shuffled⟩ := reordered.origin found'
      exact ⟨target, t, .here target, found, shuffled.reordered.wellKnown ▸ own,
        (reordered.deviates_iff found shuffled.reordered).mpr deviates⟩
    clear found' own deviates
    induction path with
    | here => exact arrives
    | field there' plain inside typed _ ih =>
      obtain ⟨m, there, shuffled⟩ := reordered.origin there'
      obtain ⟨last, l, rest, found⟩ := ih arrives
      exact ⟨last, l, .field there (shuffled.reordered.wellKnown ▸ plain)
        (shuffled.reordered.fields.symm.subset inside) typed rest, found⟩

theorem planned_eq {child : String} (bare : bareName child = child) :
    index.planned.contains child = other.planned.contains child := by
  rw [Bool.eq_iff_iff, contains_planned_iff reordered.sound.toKeyed bare, contains_planned_iff reordered.keyed bare]
  exact reordered.rewritten_iff child

theorem planOf_like {name : String} {m : Message} (there : index.message? name = some m) :
    (planOf index index.planned m).Like (planOf other other.planned m) := by
  have bare := (reordered.sound.wellFormed name m there).typeName
  have oneofs (group : Oneof × OneofConfig) :
      (oneofStep index m group.1 group.2).Like (oneofStep other m group.1 group.2) := by
    rw [oneofStep_eq, oneofStep_eq]
    refine ⟨rfl, rfl, .oneof ?_⟩
    rw [List.forall₂_map_left_iff, List.forall₂_map_right_iff, List.forall₂_same]
    intro member listed
    refine ⟨rfl, rfl, fun key => ?_⟩
    obtain ⟨_, _, named⟩ := mem_oneofMembers.mp listed
    rw [variantOf, variantOf]
    dsimp only
    split
    · rename_i child _ typed
      exact (reordered.laidKeys_perm (bare member (mem_of_field? named).1 child typed)).mem_iff
    · rfl
  have bodies : List.Forall₂ Step.Like (m.fields.flatMap (bodySteps index index.planned.contains))
      (m.fields.flatMap (bodySteps other other.planned.contains)) := by
    exact forall₂_flatMap fun f inside =>
      reordered.bodySteps_like (bare f inside) fun child typed => reordered.planned_eq (bare f inside child typed)
  rw [Plan.Like, planOf_steps, planOf_steps]
  refine List.rel_append (List.rel_append bodies ?_) (List.forall₂_same.mpr fun s _ => .refl s)
  rw [List.forall₂_map_left_iff, List.forall₂_map_right_iff, List.forall₂_same]
  exact fun group _ => oneofs group

section Moved

variable {name : String} {m m' : Message} (there : index.message? name = some m) (moved : m.Reordered m')
  (names : (m.fields.map (·.name)).Nodup) (oneofNames : (m.oneofs.map (·.name)).Nodup)
  (jsonNames : (m.fields.map (·.jsonName)).Nodup) (unlifted : ∀ f ∈ m.fields, f.lifted? = none)
  (beside : ∀ group ∈ m.discriminated, group.2.flatten = false)

omit reordered in
theorem rootSteps_moved (moved : m.Reordered m') : m.fields.flatMap (rootSteps m) = m'.fields.flatMap (rootSteps m') := by
  have same : rootSteps m = rootSteps m' := by
    funext f
    rw [rootSteps, rootSteps, moved.isRootUnwrap_eq]
  rw [← same]
  cases alone : m.isRootUnwrap with
  | true =>
    obtain ⟨f, only, _⟩ := Message.isRootUnwrap_iff.mp alone
    rw [only, List.singleton_perm.mp (only ▸ moved.fields)]
  | false =>
    have nothing (fields : List Field) : fields.flatMap (rootSteps m) = [] :=
      List.flatMap_eq_nil_iff.mpr fun f _ => by rw [rootSteps, alone, Bool.and_false, if_neg Bool.false_ne_true]
    rw [nothing, nothing]

include there moved names oneofNames jsonNames unlifted beside

theorem planOf_shuffled (planned : List String) :
    (planOf other planned m).Shuffled (planOf other planned m')
      (m.fields.map (bodySteps other planned.contains)) (m'.fields.map (bodySteps other planned.contains))
      (m.discriminated.map fun group => oneofStep other m group.1 group.2)
      (m'.discriminated.map fun group => oneofStep other m' group.1 group.2) (m.fields.flatMap (rootSteps m)) where
  steps := by rw [planOf_steps, List.flatMap_def]
  others := by rw [planOf_steps, List.flatMap_def, rootSteps_moved moved]
  order := moved.fields.map _
  locals := by
    intro block inside s listed
    obtain ⟨f, there, rfl⟩ := List.mem_map.mp inside
    exact (Codec.staysAt_of_unlifted other planned.contains (unlifted f there) s listed).2
  apart := by
    rw [List.pairwise_map]
    refine (List.pairwise_map.mp jsonNames).imp_of_mem fun {f g} inside also differ s first t second => ?_
    rw [(Codec.staysAt_of_unlifted other planned.contains (unlifted f inside) s first).1,
      (Codec.staysAt_of_unlifted other planned.contains (unlifted g also) t second).1]
    exact differ
  groups := by
    rw [List.forall₂_map_left_iff, List.forall₂_map_right_iff]
    refine forall₂_imp_mem moved.discriminated fun group inside group' same => ?_
    obtain ⟨oneof, config⟩ := group
    obtain ⟨oneof', config'⟩ := group'
    obtain ⟨same, rfl⟩ := same
    dsimp only
    rw [oneofStep_eq, oneofStep_eq, beside _ inside]
    exact .intro ((moved.oneofMembers names same).map _)
  last := by
    intro s inside
    obtain ⟨f, _, listed⟩ := List.mem_flatMap.mp inside
    obtain ⟨_, _, rfl⟩ := mem_rootSteps.mp listed
    rfl
  tags := by
    intro s first t second v listed
    obtain ⟨group, inside, rfl⟩ := List.mem_map.mp first
    obtain ⟨group', inside', rfl⟩ := List.mem_map.mp second
    obtain ⟨f, member, rfl⟩ := List.mem_map.mp listed
    -- The bare name finds the same message, which is orderly because it is flat: no tag is a field's key.
    have orderly : index.Orderly m := by
      have again : index.message? (bareName name) = some m := by
        rw [message?, bareName_idempotent]
        exact there
      exact orderly_of_flat reordered.sound (bareName_idempotent name) again jsonNames oneofNames unlifted beside
    obtain ⟨_, _, named⟩ := mem_oneofMembers.mp member
    have declared := (mem_of_field? named).1
    have unlifting : ¬ m.LiftedMember f := by
      rintro ⟨oneof, config, listed, lifts, _⟩
      rw [beside _ listed] at lifts
      cases lifts
    have apart := orderly.beside group.1 group.2 inside f declared unlifting
    rw [ownKeys_of_unlifted (unlifted f declared)] at apart
    intro same
    have same : group.2.discriminator = f.jsonName := same
    exact apart (List.mem_singleton_self _) (same ▸ List.mem_cons_self)

end Moved

end Reordered

section Checks

variable {index : Index} {m : Message} {oneof : Oneof} {config : OneofConfig}

theorem memberErrors_eq_nil {used : KeyMap String} {members : List Field}
    (values : (members.map Field.variantValue).Nodup)
    (unused : ∀ member ∈ members, used.get? member.variantValue = none)
    (each : ∀ member ∈ members, member.annotations.changesEmpty = false ∧
      Message.variantIssues index oneof config member = []) :
    Message.memberErrors index m oneof config used members = [] := by
  induction members generalizing used with
  | nil => rfl
  | cons member rest ih =>
    obtain ⟨fresh, values⟩ := List.nodup_cons.mp values
    obtain ⟨empty, issues⟩ := each member List.mem_cons_self
    have still : ∀ other ∈ rest, (used.insert member.variantValue member.name).get? other.variantValue = none := by
      intro other inside
      rw [KeyMap.get?_insert, if_neg fun same => fresh (List.mem_map.mpr ⟨other, inside, same.symm⟩)]
      exact unused other (List.mem_cons_of_mem _ inside)
    have later := ih values still fun other inside => each other (List.mem_cons_of_mem _ inside)
    simp only [Message.memberErrors, unused member List.mem_cons_self, empty, issues, later, issueIf,
      Bool.false_eq_true, if_false, List.append_nil, List.map_nil]

theorem repeatedKeys_eq_nil {seen keys : List String} (distinct : (seen ++ keys).Nodup) :
    Message.repeatedKeys seen keys = [] := by
  induction keys generalizing seen with
  | nil => rfl
  | cons key rest ih =>
    have fresh : key ∉ seen := fun inside =>
      (List.nodup_append.mp distinct).2.2 key inside key List.mem_cons_self rfl
    rw [Message.repeatedKeys, List.count_eq_zero_of_not_mem fresh, if_neg (by decide)]
    exact ih (by rwa [List.append_assoc])

theorem unwrapErrors_reordered {m' : Message} (moved : m.Reordered m') (clean : m.unwrapErrors = []) :
    m'.unwrapErrors = [] := by
  have fields := moved.fields.filter (·.annotations.unwrap)
  rw [Message.unwrapErrors] at clean ⊢
  split at clean
  · rename_i alone
    rw [alone] at fields
    rw [List.nil_perm.mp fields]
  · rename_i first others split
    simp only [List.append_eq_nil_iff, List.map_eq_nil_iff] at clean
    obtain ⟨⟨rfl, besides⟩, overrides⟩ := clean
    rw [split] at fields
    rw [← List.singleton_perm.mp fields]
    simp only [List.append_eq_nil_iff, List.map_eq_nil_iff]
    refine ⟨⟨trivial, by rwa [← moved.fields.length_eq]⟩, ?_⟩
    rw [← moved.isRootUnwrap_eq]
    split at overrides
    · rename_i root
      rw [if_pos root, List.map_eq_nil_iff]
      exact List.map_eq_nil_iff.mp overrides
    · rename_i root
      rw [if_neg root]

end Checks

namespace Reordered

variable {index other : Index} {moving : String} (reordered : index.Reordered other moving)

include reordered

theorem child_related (f : Field) : Option.Rel (fun c c' : Message => c.fullName = c'.fullName ∧
      c.wellKnown = c'.wellKnown ∧ c.isRootUnwrap = c'.isRootUnwrap)
    (f.message?.bind index.message?) (f.message?.bind other.message?) := by
  cases f.message? with
  | none => exact .none
  | some child =>
    have related := reordered.messages (bareName child)
    rw [Option.bind_some, Option.bind_some, message?, message?]
    exact rel_imp_mem related fun c _ c' shuffled =>
      ⟨shuffled.reordered.fullName, shuffled.reordered.wellKnown, shuffled.reordered.isRootUnwrap_eq⟩

theorem flattenIssues_eq (f : Field) : f.flattenIssues index = f.flattenIssues other := by
  have related := reordered.child_related f
  simp only [Field.flattenIssues]
  generalize f.message?.bind index.message? = c at related
  generalize f.message?.bind other.message? = c' at related
  cases related with
  | none => rfl
  | some same => simp only [same.1, same.2.1, same.2.2]

theorem variantIssues_eq {o o' : Oneof} (named : o.name = o'.name) (config : OneofConfig) (member : Field) :
    Message.variantIssues index o config member = Message.variantIssues other o' config member := by
  have related := reordered.child_related member
  simp only [Message.variantIssues]
  generalize member.message?.bind index.message? = c at related
  generalize member.message?.bind other.message? = c' at related
  cases related with
  | none => rw [named]
  | some same => simp only [same.1, same.2.1, same.2.2, named]

variable {m m' : Message} (shuffled : m.Shuffled m')

theorem issues_eq (moved : m.Reordered m') (f : Field) : f.issues index m = f.issues other m' := by
  have enums : f.enumIssues index = f.enumIssues other := by
    simp only [Field.enumIssues, reordered.enum?_eq]
  have groups : (m.groupOf? f).isNone = (m'.groupOf? f).isNone := by
    rw [← Option.not_isSome, ← Option.not_isSome, isSome_eq_of_rel (moved.groupOf? f)]
  simp only [Field.issues, enums, reordered.flattenIssues_eq, groups]

theorem fieldErrors_clean (moved : m.Reordered m') (clean : m.fieldErrors index = []) : m'.fieldErrors other = [] := by
  rw [Message.fieldErrors, List.flatMap_eq_nil_iff] at clean ⊢
  intro f inside
  have before := clean f ((moved.fields.filter _).symm.subset inside)
  rw [List.map_eq_nil_iff] at before ⊢
  rwa [← reordered.issues_eq moved]

theorem memberErrors_clean {o o' : Oneof} (named : o.name = o'.name) {config : OneofConfig} {members members' : List Field}
    (order : members.Perm members') (clean : Message.memberErrors index m o config .empty members = []) :
    Message.memberErrors other m' o' config .empty members' = [] := by
  obtain ⟨values, _⟩ := Message.variantValues_of_memberErrors clean
  refine memberErrors_eq_nil ((order.map _).nodup_iff.mp values) (fun _ _ => rfl) fun member inside => ?_
  obtain ⟨empty, issues⟩ := Message.member_of_memberErrors clean member (order.symm.subset inside)
  exact ⟨empty, reordered.variantIssues_eq named config member ▸ issues⟩

include shuffled

theorem oneofErrors_clean (clean : m.oneofErrors index = []) : m'.oneofErrors other = [] := by
  rw [Message.oneofErrors, List.flatMap_eq_nil_iff] at clean ⊢
  intro group' inside'
  cases shuffled with
  | same => exact reordered.memberErrors_clean rfl (.refl _) (clean group' inside')
  | moved moved names =>
    obtain ⟨⟨oneof, config⟩, inside, same, rfl⟩ := exists_of_forall₂ moved.discriminated inside'
    exact reordered.memberErrors_clean same.name (moved.oneofMembers names same) (clean _ inside)

omit reordered in
theorem lifting?_isSome (lifts : m'.lifting?.isSome = true) : m.lifting?.isSome = true := by
  by_contra none_there
  obtain ⟨flat, alone⟩ := lifting?_none (Option.not_isSome_iff_eq_none.mp none_there)
  have flat' : m'.fields.find? (·.annotations.flatten) = none := List.find?_eq_none.mpr fun f inside => by
    rw [flat f (shuffled.reordered.fields.symm.subset inside)]
    exact Bool.false_ne_true
  have alone' : m'.discriminated = [] := by
    have related := shuffled.reordered.discriminated
    rw [alone] at related
    exact List.forall₂_nil_left_iff.mp related
  rw [Message.lifting?, flat', alone'] at lifts
  cases lifts

theorem keyErrors_clean {name : String} (there : index.message? name = some m) : m'.keyErrors other = [] := by
  cases lifts : m'.lifting? with
  | none => rw [Message.keyErrors, lifts]
  | some culprit =>
    have again : index.message? m.fullName = some m := by
      rw [reordered.sound.named _ m there, message?, bareName_idempotent]
      exact there
    have bare : bareName m.fullName = m.fullName := by
      rw [reordered.sound.named _ m there, bareName_idempotent]
    obtain ⟨keys, laid, distinct⟩ := flattenedKeys_ok reordered.sound bare again
    obtain ⟨keys', laid', order⟩ := reordered.flattenedKeys_relays m.fullName keys laid
    have nodup : keys'.Nodup :=
      order.nodup_iff.mp (distinct (lifting?_isSome shuffled (by rw [lifts, Option.isSome_some])))
    rw [Message.keyErrors, lifts, ← shuffled.reordered.fullName, laid']
    dsimp only
    rw [repeatedKeys_eq_nil (by simpa using nodup), List.map_nil]

theorem errors_clean {name : String} (there : index.message? name = some m) : m'.errors other = [] := by
  obtain ⟨fields, unwrap, oneofs, _⟩ := Message.errors_parts (reordered.sound.errors name m there)
  rw [Message.errors, reordered.fieldErrors_clean shuffled.reordered fields,
    unwrapErrors_reordered shuffled.reordered unwrap, reordered.oneofErrors_clean shuffled oneofs,
    reordered.keyErrors_clean shuffled there]
  rfl

omit shuffled

theorem report_clean (files : index.files = other.files) (clean : index.report.errors = [])
    (problems : other.problems = []) : other.report.errors = [] := by
  rw [report_errors, problems, List.nil_append, List.flatMap_eq_nil_iff, ← files]
  intro file inside
  rw [List.append_eq_nil_iff, List.flatMap_eq_nil_iff, List.flatMap_eq_nil_iff]
  constructor
  · intro m' listed
    obtain ⟨name, _, there'⟩ := List.mem_filterMap.mp listed
    obtain ⟨m, there, shuffled⟩ := reordered.origin there'
    exact reordered.errors_clean shuffled there
  · intro e listed
    refine enum_errors_of_report clean inside ?_
    rw [enumsIn, funext reordered.enum?_eq]
    exact listed

end Reordered

end Index

end Wireform
