import Wireform.Proofs.Evaluation
import Wireform.Proofs.ReorderedMessages
import Wireform.Proofs.ReorderedSets

set_option autoImplicit false

namespace Wireform

def Transform.lifts : Transform → Bool
  | .flatten _ _ _ => true
  | .oneofDiscriminator _ lifted _ => lifted
  | _ => false

def Plan.LiftsNothing (plan : Plan) : Prop := ∀ step ∈ plan.steps, step.transform.lifts = false

namespace Index

def Message.SetsOnce (m : Message) (doc : Codec.Doc) : Prop :=
  ∀ group ∈ m.discriminated, ∀ f ∈ m.oneofMembers group.1, ∀ g ∈ m.oneofMembers group.1,
    Codec.IsSet doc f.jsonName → Codec.IsSet doc g.jsonName → f = g

theorem unlifted_of_plan {index : Index} {names : List String} {m : Message}
    (plain : (planOf index names m).LiftsNothing) :
    (∀ f ∈ m.fields, f.lifted? = none) ∧ ∀ group ∈ m.discriminated, group.2.flatten = false := by
  constructor
  · intro f inside
    cases lifted : f.lifted? with
    | none => rfl
    | some target =>
      have step := plain _ (mem_planOf.mpr (.inl ⟨f, inside, _, _, .lifted lifted, rfl⟩))
      cases step
  · intro group inside
    exact plain _ (mem_planOf.mpr (.inr ⟨group, inside, rfl⟩))

/-- Wherever encoding a value comes to a document of a message, of each discriminated oneof at most one member is set. -/
def SetsOnceWithin (index : Index) (message : String) (start : String × Json) : Prop :=
  ∀ n name doc, Chain (Codec.Direction.encode.Hands index.codec) n start (name, .obj doc) → bareName name = message →
    ∀ m, index.message? name = some m → m.SetsOnce doc

namespace Reordered

open Codec Codec.Direction
open Json (Alike)

variable {index other : Index} {moving : String} (reordered : index.Reordered other moving)
  (jsonNames : ∀ m, index.messages.get? moving = some m → (m.fields.map (·.jsonName)).Nodup)
  (plain : ∀ name plan, bareName name = moving → index.plans.plan? name = some plan → plan.LiftsNothing)

include reordered jsonNames plain

theorem plans_related (name : String) : Option.Rel (fun plan plan' => ∃ between, plan.Like between ∧
      (between = plan' ∨ bareName name = moving ∧ ∃ m blocks blocks' oneofs roots, index.message? name = some m ∧
        between.Shuffled plan' blocks blocks' (m.discriminated.map fun group => oneofStep other m group.1 group.2) oneofs
          roots))
    (index.plans.plan? name) (other.plans.plan? name) := by
  cases given : index.plans.plan? name with
  | none =>
    cases given' : other.plans.plan? name with
    | none => exact .none
    | some plan' =>
      have rewritten := (exists_plan_iff reordered.keyed).mp ⟨plan', given'⟩
      obtain ⟨plan, again⟩ := (exists_plan_iff reordered.sound.toKeyed).mpr ((reordered.rewritten_iff name).mpr rewritten)
      rw [given] at again
      cases again
  | some plan =>
    have rewritten := (exists_plan_iff reordered.sound.toKeyed).mp ⟨plan, given⟩
    obtain ⟨plan', given'⟩ := (exists_plan_iff reordered.keyed).mpr ((reordered.rewritten_iff name).mp rewritten)
    rw [given']
    obtain ⟨m, there, _, rfl⟩ := (plan?_eq_some reordered.sound.toKeyed).mp given
    obtain ⟨m', there', _, rfl⟩ := (plan?_eq_some reordered.keyed).mp given'
    refine .some ⟨_, reordered.planOf_like there, ?_⟩
    -- Only the moved message's plan is shuffled; every other message is declared as before.
    by_cases here : bareName name = moving
    · obtain ⟨found, there'', shuffled⟩ := reordered.found there
      cases Option.some.inj (there'.symm.trans there'')
      cases shuffled with
      | same => exact .inl rfl
      | moved moved names oneofNames =>
        obtain ⟨unlifted, beside⟩ := unlifted_of_plan (plain name _ here given)
        exact .inr ⟨here, m, _, _, _, _, there,
          reordered.planOf_shuffled there moved names oneofNames (jsonNames m (here ▸ there)) unlifted beside _⟩
    · have same : index.message? name = other.message? name := reordered.elsewhere _ here
      rw [there, there'] at same
      cases Option.some.inj same
      exact .inl rfl

theorem decode_matches (name : String) : decode.Matches index.codec other.codec (fun _ => True) name where
  known := reordered.known name
  plans := by
    refine rel_imp_mem (reordered.plans_related jsonNames plain name) fun plan _ plan' related => ?_
    obtain ⟨between, like, rfl | ⟨_, m, _, _, _, _, _, shuffled⟩⟩ := related
    · exact ⟨between, like, fun levels value value' _ alike =>
        applies_keeps (within_keeps decode _ levels) name (Alike.refl alike.2.1)⟩
    · exact ⟨between, like, fun levels value value' _ alike =>
        shuffled.decode_agree (within_keeps decode _ levels) name alike.2.1⟩

theorem encode_matches (name : String) :
    Direction.encode.Matches index.codec other.codec (SetsOnceWithin index moving) name where
  known := reordered.known name
  plans := by
    refine rel_imp_mem (reordered.plans_related jsonNames plain name) fun plan _ plan' related => ?_
    obtain ⟨between, like, rfl | ⟨here, m, _, _, _, _, there, shuffled⟩⟩ := related
    · exact ⟨between, like, fun levels value value' _ alike =>
        applies_keeps (within_keeps .encode _ levels) name (Alike.refl alike.2.1)⟩
    · refine ⟨between, like, fun levels value value' fits alike =>
        shuffled.encode_agree (within_keeps .encode _ levels) name alike.2.1 ?_⟩
      rintro doc' rfl s inside
      obtain ⟨group, listed, rfl⟩ := List.mem_map.mp inside
      obtain ⟨doc, rfl, same⟩ := Json.alike_of_obj alike
      have once := fits 0 name doc (.nil _) here m there group listed
      intro v first w second set also
      obtain ⟨f, member, rfl⟩ := List.mem_map.mp first
      obtain ⟨g, member', rfl⟩ := List.mem_map.mp second
      rw [once f member g member' ((isSet_alike same).mpr set) ((isSet_alike same).mpr also)]

theorem encode_agree {name : String} {value value' : Json} (once : SetsOnceWithin index moving (name, value))
    (alike : Alike value value') :
    Agree Alike (encode index.codec name value) (encode other.codec name value') := by
  refine Direction.within_agree (d := .encode) (reordered.encode_matches jsonNames plain) ?_ (maxNesting + 1) once alike
  exact fun _ _ fits hands n name doc chain => fits (n + 1) name doc (.cons hands chain)

theorem decode_agree (name : String) {value value' : Json} (alike : Alike value value') :
    Agree Alike (decode index.codec name value) (decode other.codec name value') :=
  Direction.within_agree (d := .decode) (reordered.decode_matches jsonNames plain) (fun _ _ _ _ => trivial)
    (maxNesting + 1) trivial alike

end Reordered

end Index

instance (plan : Plan) : Decidable plan.LiftsNothing :=
  inferInstanceAs (Decidable (∀ step ∈ plan.steps, step.transform.lifts = false))

namespace Codec

instance (doc : Doc) (key : String) : Decidable (IsSet doc key) :=
  decidable_of_iff ((doc.get? key).any (!·.isNull) = true) (by simp [IsSet, Option.any_eq_true])

end Codec

namespace Index

theorem Message.SetsOnce.of_keys {m : Message} {doc : Codec.Doc} (jsonNames : (m.fields.map (·.jsonName)).Nodup)
    (keys : ∀ group ∈ m.discriminated, ∀ f ∈ m.oneofMembers group.1, ∀ g ∈ m.oneofMembers group.1,
      Codec.IsSet doc f.jsonName → Codec.IsSet doc g.jsonName → f.jsonName = g.jsonName) : m.SetsOnce doc := by
  intro group listed f first g second set also
  obtain ⟨_, _, there⟩ := mem_oneofMembers.mp first
  obtain ⟨_, _, there'⟩ := mem_oneofMembers.mp second
  exact eq_of_nodup jsonNames (mem_of_field? there).1 (mem_of_field? there').1 (keys group listed f first g second set also)

theorem SetsOnceWithin.of_flat {index : Index} {name : String} {doc : Codec.Doc}
    (flat : ∀ plan ∈ index.plans.plan? name, plan.nestedMessages = [])
    (once : ∀ m ∈ index.message? name, m.SetsOnce doc) (message : String) :
    index.SetsOnceWithin message (name, .obj doc) := by
  intro n other reached chain _ m there
  cases chain with
  | nil => exact once m there
  | cons hands _ =>
    cases hands with
    | @intro _ child _ _ _ plan _ _ before after step _ _ planned _ split _ nested =>
      have inside : step ∈ plan.steps := Codec.Direction.step_mem (split ▸ List.mem_append_right _ List.mem_cons_self)
      have listed := Codec.Direction.mem_nestedMessages inside nested
      rw [flat plan planned] at listed
      cases listed

end Index

namespace Run

open Codec (encode decode)
open Json (Alike)

/-- The fields of a message may be declared in any order, if its names tell its fields and its oneofs apart and its
plan lifts no keys. -/
theorem field_order_irrelevant {set : Schema.FileSet} {files : List String} {settings : Settings} {compiled : Compiled}
    (run : compile set files settings = .ok compiled) {name : String} {m : Index.Message}
    (there : compiled.index.message? name = some m) (names : (m.fields.map (·.name)).Nodup)
    (oneofNames : (m.oneofs.map (·.name)).Nodup) (jsonNames : (m.fields.map (·.jsonName)).Nodup)
    (plain : ∀ plan ∈ compiled.plans.plan? name, plan.LiftsNothing)
    {order : List Schema.Field → List Schema.Field} (permutes : ∀ fields, (order fields).Perm fields) :
    ∃ other, compile (set.reorder order (Index.bareName name)) files settings = .ok other ∧
      ∀ root value, value.Distinct →
        (compiled.index.SetsOnceWithin (Index.bareName name) (root, value) →
          Agree Alike (encode ⟨compiled.index, compiled.plans⟩ root value) (encode ⟨other.index, other.plans⟩ root value)) ∧
        Agree Alike (decode ⟨compiled.index, compiled.plans⟩ root value)
          (decode ⟨other.index, other.plans⟩ root value) := by
  obtain ⟨built, clean, plans⟩ := compile_spec run
  obtain ⟨other, built'⟩ := Index.build_reorder permutes (Index.bareName name) built
  have reordered : compiled.index.Reordered other (Index.bareName name) := by
    refine Index.index_reorder permutes _ built built' (sound_of_compile run) fun m' there' => ?_
    cases Option.some.inj (there.symm.trans there')
    exact ⟨names, oneofNames⟩
  -- Where names tell fields and oneofs apart, no check depends on their order.
  have accepted : other.report.errors = [] :=
    reordered.report_clean (Index.files_reorder permutes _ built built') clean
      (Index.problems_reorder permutes _ built built' (Index.problems_of_report clean))
  have json : ∀ m', compiled.index.messages.get? (Index.bareName name) = some m' →
      (m'.fields.map (·.jsonName)).Nodup := by
    intro m' there'
    cases Option.some.inj (there.symm.trans there')
    exact jsonNames
  -- A plan is found by the bare name, so it is the same under every name of the message.
  have lifts : ∀ again plan, Index.bareName again = Index.bareName name →
      compiled.index.plans.plan? again = some plan → plan.LiftsNothing := by
    intro again plan same planned
    refine plain plan ?_
    rw [PlanSet.plan?, same] at planned
    rw [plans]
    exact planned
  refine ⟨_, compile_of_clean built' accepted, fun root value distinct => ?_⟩
  have alike : Alike value value := .refl distinct
  rw [plans]
  exact ⟨fun once => reordered.encode_agree json lifts once alike, reordered.decode_agree json lifts root alike⟩

-- A message of which one field is set, and one has another form on the wire.
def picks : Schema.FileSet := .ofMessages
  [.ofFields "Pick" [.ofMember "left" .string 0, .ofKind "count" .int64 [("int64_encoding", .str "NUMBER")],
    .ofMember "right" .string 0] [.ofDiscriminator "side" "kind"]]

def pick : Codec.Doc := [("count", .str "5"), ("right", .str "x")]

set_option maxRecDepth 10000 in
theorem field_order_irrelevant_pick : ∃ compiled other, compile picks [] .default = .ok compiled ∧
    compile (picks.reorder List.reverse "t.Pick") [] .default = .ok other ∧
    encode ⟨compiled.index, compiled.plans⟩ "t.Pick" (.obj pick) =
      .ok (.obj [("count", .int 5), ("right", .str "x"), ("kind", .str "right")]) ∧
    Agree Alike (encode ⟨compiled.index, compiled.plans⟩ "t.Pick" (.obj pick))
      (encode ⟨other.index, other.plans⟩ "t.Pick" (.obj pick)) := by
  obtain ⟨compiled, run, found, known, plain, flat, encoded⟩ := exists_compiled (fun compiled =>
      (compiled.index.message? "t.Pick").isSome = true ∧
      (∀ m ∈ compiled.index.message? "t.Pick", (m.fields.map (·.name)).Nodup ∧ (m.oneofs.map (·.name)).Nodup ∧
        (m.fields.map (·.jsonName)).Nodup ∧ ∀ group ∈ m.discriminated, ∀ f ∈ m.oneofMembers group.1,
          ∀ g ∈ m.oneofMembers group.1, Codec.IsSet pick f.jsonName → Codec.IsSet pick g.jsonName →
            f.jsonName = g.jsonName) ∧
      (∀ plan ∈ compiled.plans.plan? "t.Pick", plan.LiftsNothing) ∧
      (∀ plan ∈ compiled.plans.plan? "t.Pick", plan.nestedMessages = []) ∧
      (encode ⟨compiled.index, compiled.plans⟩ "t.Pick" (.obj pick)).toOption =
        some (.obj [("count", .int 5), ("right", .str "x"), ("kind", .str "right")]))
    (show (compile picks [] .default).toOption.any _ = true by decide +kernel)
  obtain ⟨m, there⟩ := Option.isSome_iff_exists.mp found
  obtain ⟨names, oneofNames, jsonNames, keys⟩ := known m there
  obtain ⟨other, run', same⟩ := field_order_irrelevant run there names oneofNames jsonNames plain List.reverse_perm
  have once : ∀ m ∈ compiled.index.message? "t.Pick", m.SetsOnce pick := by
    intro m' there'
    cases Option.some.inj (there.symm.trans there')
    exact .of_keys jsonNames keys
  rw [(compile_spec run).2.2] at flat
  have distinct : (Json.obj pick).Distinct := ⟨by decide, trivial, trivial, trivial⟩
  exact ⟨compiled, other, run, run', ok_of_toOption encoded, (same "t.Pick" _ distinct).1 (.of_flat flat once _)⟩

/-- A document of a message that lifts nothing, with one member of each oneof, of which the wire form depends on the
order of the fields. -/
def Turns (set : Schema.FileSet) (doc : Codec.Doc) : Prop :=
  ∃ compiled other, compile set [] .default = .ok compiled ∧
    compile (set.reorder List.reverse "t.M") [] .default = .ok other ∧ compiled.index.Regular ∧
    (∀ plan ∈ compiled.plans.plan? "t.M", plan.LiftsNothing) ∧ (Json.obj doc).Distinct ∧
    (∀ m ∈ compiled.index.message? "t.M", m.SetsOnce doc) ∧
    ¬ Agree Alike (encode ⟨compiled.index, compiled.plans⟩ "t.M" (.obj doc))
      (encode ⟨other.index, other.plans⟩ "t.M" (.obj doc))

theorem turns_of_run {set : Schema.FileSet} {doc : Codec.Doc} (first second : Json) (distinct : (Json.obj doc).Distinct)
    (differ : first.sorted ≠ second.sorted)
    (check : (compile set [] .default).toOption.any (fun compiled => decide (compiled.index.Regular ∧
      (∀ plan ∈ compiled.plans.plan? "t.M", plan.LiftsNothing) ∧
      (∀ m ∈ compiled.index.message? "t.M", (m.fields.map (·.jsonName)).Nodup ∧ ∀ group ∈ m.discriminated,
        ∀ f ∈ m.oneofMembers group.1, ∀ g ∈ m.oneofMembers group.1, Codec.IsSet doc f.jsonName →
          Codec.IsSet doc g.jsonName → f.jsonName = g.jsonName) ∧
      (encode ⟨compiled.index, compiled.plans⟩ "t.M" (.obj doc)).toOption = some first)) = true)
    (check' : (compile (set.reorder List.reverse "t.M") [] .default).toOption.any (fun other =>
      decide ((encode ⟨other.index, other.plans⟩ "t.M" (.obj doc)).toOption = some second)) = true) : Turns set doc := by
  obtain ⟨compiled, run, regular, plain, known, encoded⟩ := exists_compiled _ check
  obtain ⟨other, run', encoded'⟩ := exists_compiled _ check'
  refine ⟨compiled, other, run, run', regular, plain, distinct,
    fun m there => .of_keys (known m there).1 (known m there).2, ?_⟩
  rw [ok_of_toOption encoded, ok_of_toOption encoded']
  rintro ⟨alike⟩
  exact differ alike.2.2

-- Two oneofs of one name: the second has a member that goes by the key under which the first is told.
def twins : Schema.FileSet := .ofMessages
  [.ofFields "M" [.ofMember "a" .string 0, { Schema.Field.ofMember "b" .string 1 with givenJsonName := some "kind" },
    .ofMember "c" .string 1] [.ofDiscriminator "side" "kind", .ofDiscriminator "side" "tag"]]

-- Two fields of one name.
def namesakes : Schema.FileSet := .ofMessages
  [.ofFields "M" [{ Schema.Field.ofMember "a" .string 0 with givenJsonName := some "x" },
    { Schema.Field.ofKind "a" .string [] with givenJsonName := some "y" }] [.ofDiscriminator "side" "kind"]]

-- A message within another, beside a child whose keys are lifted.
def strays : Schema.FileSet := .ofMessages
  [.ofFields "M" [.ofMember "a" .string 0, .ofMember "b" .string 0, .ofMessage "n" "t.N" []]
      [.ofDiscriminator "side" "kind"],
    .ofFields "N" [.ofMessage "f" "t.C" [("flatten", .bool true)], .ofMessage "m" "t.M" []] [],
    .ofFields "C" [.ofKind "x" .string []] []]

set_option maxRecDepth 10000 in
/-- The order matters where oneofs share a name, where fields do, as only one order is then accepted, and where a child
brings a key that its message does not declare and that is that of a nested message once it is lifted. -/
theorem field_order_matters :
    Turns twins [("a", .str "1"), ("c", .str "2")] ∧
    (∃ compiled fault, compile namesakes [] .default = .ok compiled ∧ compiled.index.Regular ∧
      (∀ plan ∈ compiled.plans.plan? "t.M", plan.LiftsNothing) ∧
      compile (namesakes.reorder List.reverse "t.M") [] .default = .error fault) ∧
    Turns strays [("n", .obj [("f", .obj [("m", .obj [("a", .str "1"), ("b", .str "2")])])])] := by
  refine ⟨?twins, ?namesakes, ?strays⟩
  case twins =>
    exact turns_of_run (.obj [("a", .str "1"), ("c", .str "2"), ("kind", .str "a"), ("tag", .str "b")])
      (.obj [("a", .str "1"), ("c", .str "2"), ("kind", .str "a"), ("tag", .str "c")])
      ⟨by decide, trivial, trivial, trivial⟩ (by decide)
      (by decide +kernel) (by decide +kernel)
  case namesakes =>
    obtain ⟨compiled, run, regular, plain⟩ := exists_compiled (fun compiled => compiled.index.Regular ∧
        ∀ plan ∈ compiled.plans.plan? "t.M", plan.LiftsNothing)
      (show (compile namesakes [] .default).toOption.any _ = true by decide +kernel)
    have rejected : (compile (namesakes.reorder List.reverse "t.M") [] .default).toOption = none := by decide +kernel
    cases run' : compile (namesakes.reorder List.reverse "t.M") [] .default with
    | error fault => exact ⟨compiled, fault, run, regular, plain, rfl⟩
    | ok other =>
      rw [run'] at rejected
      cases rejected
  case strays =>
    exact turns_of_run
      (.obj [("n", .obj [("m", .obj [("a", .str "1"), ("b", .str "2"), ("kind", .str "a")])])])
      (.obj [("n", .obj [("m", .obj [("a", .str "1"), ("b", .str "2"), ("kind", .str "b")])])])
      ⟨by decide, ⟨by decide, ⟨by decide, ⟨by decide, trivial, trivial, trivial⟩, trivial⟩, trivial⟩, trivial⟩ (by decide)
      (by decide +kernel) (by decide +kernel)

end Run

end Wireform
