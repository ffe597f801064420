import Mathlib.Data.List.DropRight
import Wireform.Index.Build
import Wireform.Proofs.Basic

set_option autoImplicit false

namespace Wireform.Index

theorem bareName_idempotent (name : String) : bareName (bareName name) = bareName name := by
  simp [bareName, List.dropWhile_idempotent]

structure Message.WellFormed (m : Message) : Prop where
  typeName : ∀ f ∈ m.fields, ∀ child, f.message? = some child → bareName child = child
  enumName : ∀ f ∈ m.fields, ∀ name, f.enum? = some name → bareName name = name
  members : ∀ o ∈ m.oneofs, o.members ≠ []
  member : ∀ o ∈ m.oneofs, ∀ name ∈ o.members, ∃ f ∈ m.fields, f.name = name ∧ f.oneof = some o.name
  owned : ∀ f ∈ m.fields, ∀ name, f.oneof = some name → ∃ o ∈ m.oneofs, o.name = name ∧ f.name ∈ o.members
  presence : ∀ f ∈ m.fields, f.cardinality = .optional → f.oneof = none
  apart : (m.oneofs.map (·.name)).Nodup → ∀ o ∈ m.oneofs, o.members.Nodup → ∀ f ∈ m.fields, ∀ g ∈ m.fields,
    f.oneof = some o.name → g.oneof = some o.name → f.name = g.name → f = g

def ValueType.BareNames : ValueType → Prop
  | .scalar _ => True
  | .enum name | .message name => bareName name = name

theorem ValueType.BareNames.message {type : ValueType} (bare : BareNames type) {name : String}
    (given : type.message? = some name) : bareName name = name := by
  cases type with
  | message other => exact Option.some.inj given ▸ bare
  | _ => cases given

theorem ValueType.BareNames.enum {type : ValueType} (bare : BareNames type) {name : String}
    (given : type.enum? = some name) : bareName name = name := by
  cases type with
  | enum other => exact Option.some.inj given ▸ bare
  | _ => cases given

theorem bareName_typeRef (field : Schema.Field) : bareName (field.typeRef?.getD "") = field.typeRef?.getD "" := by
  rw [Schema.Field.typeRef?]
  split
  · rfl
  · rename_i name given
    by_cases empty : (String.ofList (name.toList.dropWhile (· == '.'))).isEmpty = true
    · simp only [empty, if_true]
      rfl
    · simp only [empty, Bool.false_eq_true, if_false, Option.getD_some]
      exact bareName_idempotent name

theorem mapShape_bareNames {all : Declarations} {entry : Declared Schema.Message} {shape : Shape}
    (run : mapShape all entry = .ok shape) : ValueType.BareNames shape.2 := by
  simp only [mapShape, bind, Except.bind, pure, Except.pure, throw, throwThe, MonadExceptOf.throw] at run
  split at run
  · split at run
    · rename_i value _
      split at run
      · split at run
        · exact Except.ok.inj run ▸ bareName_typeRef value
        · cases run
      · split at run
        · exact Except.ok.inj run ▸ bareName_typeRef value
        · cases run
      · split at run
        · exact Except.ok.inj run ▸ bareName_typeRef value
        · cases run
      · split at run
        · exact Except.ok.inj run ▸ trivial
        · cases run
    · cases run
  · cases run

theorem shapeOf_bareNames {all : Declarations} {field : Schema.Field} {shape : Shape}
    (run : shapeOf all field = .ok shape) : ValueType.BareNames shape.2 := by
  rw [shapeOf] at run
  split at run
  · split at run
    · split at run
      · exact mapShape_bareNames run
      · exact Except.ok.inj run ▸ bareName_typeRef field
    · split at run
      · exact Except.ok.inj run ▸ bareName_typeRef field
      · cases run
  · split at run
    · split at run
      · exact mapShape_bareNames run
      · exact Except.ok.inj run ▸ bareName_typeRef field
    · split at run
      · exact Except.ok.inj run ▸ bareName_typeRef field
      · cases run
  · split at run
    · exact Except.ok.inj run ▸ bareName_typeRef field
    · cases run
  · split at run
    · exact Except.ok.inj run ▸ trivial
    · cases run

theorem placeholder_bareNames (field : Schema.Field) : ValueType.BareNames (placeholder field).2 := by
  rw [placeholder]
  dsimp only
  split <;> exact bareName_typeRef field

section Fields

variable (all : Declarations) (package : String) (message : Schema.Message) (field : Schema.Field)

@[simp] theorem resolveField_name : (resolveField all package message field).1.name = field.name := by
  cases field with
  | mk => rfl

theorem resolveField_bareNames :
    ValueType.BareNames (resolveField all package message field).1.type := by
  simp only [resolveField]
  cases shaped : shapeOf all field with
  | ok shape => exact shapeOf_bareNames shaped
  | error issue => exact placeholder_bareNames field

theorem resolveField_oneof : (resolveField all package message field).1.oneof =
    (field.realOneof?.bind fun i => message.oneofs[i]?).map (·.name) := by
  cases field with
  | mk => rfl

end Fields

theorem plainCardinality_optional {field : Schema.Field} (optional : plainCardinality field = .optional) :
    field.proto3Optional = true := by
  rw [plainCardinality] at optional
  split at optional
  · cases optional
  · split at optional
    · assumption
    · cases optional

theorem mapShape_cardinality {all : Declarations} {entry : Declared Schema.Message} {shape : Shape}
    (run : mapShape all entry = .ok shape) : shape.1.isMap = true := by
  simp only [mapShape, bind, Except.bind, pure, Except.pure, throw, throwThe, MonadExceptOf.throw] at run
  repeat' split at run
  all_goals first | cases run; done | exact Except.ok.inj run ▸ rfl

theorem shapeOf_cardinality {all : Declarations} {field : Schema.Field} {shape : Shape}
    (run : shapeOf all field = .ok shape) : shape.1.isMap = true ∨ shape.1 = plainCardinality field := by
  rw [shapeOf] at run
  repeat' split at run
  all_goals first
    | cases run; done
    | exact .inl (mapShape_cardinality run)
    | exact .inr (Except.ok.inj run ▸ rfl)

theorem resolveField_presence (all : Declarations) (package : String) (message : Schema.Message)
    (field : Schema.Field)
    (optional : (resolveField all package message field).1.cardinality = .optional) :
    (resolveField all package message field).1.oneof = none := by
  have marked : plainCardinality field = .optional := by
    simp only [resolveField] at optional
    cases shaped : shapeOf all field with
    | ok shape =>
      rw [shaped] at optional
      rcases shapeOf_cardinality shaped with map | plain
      · rw [show shape.1 = .optional from optional] at map
        cases map
      · rw [← plain]
        exact optional
    | error issue =>
      rw [shaped] at optional
      exact optional
  rw [resolveField_oneof, Schema.Field.realOneof?, plainCardinality_optional marked]
  rfl

theorem mem_realOneofs {message : Schema.Message} {oneof : Schema.Oneof} {members : List String} :
    (oneof, members) ∈ realOneofs message ↔ ∃ i, message.oneofs[i]? = some oneof ∧ members ≠ [] ∧
      members = (message.fields.filter fun f => f.realOneof? = some i).map (·.name) := by
  simp only [realOneofs, List.mem_filterMap, Prod.exists, List.mem_zipIdx_iff_getElem?]
  constructor
  · rintro ⟨o, i, there, given⟩
    split at given
    · cases given
    · rename_i some_members
      obtain ⟨rfl, rfl⟩ := Prod.mk.inj (Option.some.inj given)
      exact ⟨i, there, by simpa using some_members, rfl⟩
  · rintro ⟨i, there, some_members, rfl⟩
    refine ⟨oneof, i, there, ?_⟩
    rw [if_neg (by simpa using some_members)]

section Messages

variable {all : Declarations} {package fullName : String} {d : Declared Schema.Message}

theorem mem_resolved_fields {f : Field} :
    f ∈ (resolveMessage all package fullName d).1.fields ↔
      ∃ declared ∈ d.declaration.fields, (resolveField all package d.declaration declared).1 = f := by
  simp [resolveMessage]

theorem mem_resolved_oneofs {o : Oneof} :
    o ∈ (resolveMessage all package fullName d).1.oneofs ↔ ∃ declared members,
      (declared, members) ∈ realOneofs d.declaration ∧
        (⟨declared.name, members, Raw.valueOr none (OneofConfig.ofOneof package declared)⟩ : Oneof) = o := by
  simp [resolveMessage]

theorem resolved_member {o : Oneof} (inside : o ∈ (resolveMessage all package fullName d).1.oneofs)
    {name : String} (member : name ∈ o.members) :
    ∃ f ∈ (resolveMessage all package fullName d).1.fields, f.name = name ∧ f.oneof = some o.name := by
  obtain ⟨declared, members, real, rfl⟩ := mem_resolved_oneofs.mp inside
  obtain ⟨i, found, _, rfl⟩ := mem_realOneofs.mp real
  obtain ⟨f, picked, rfl⟩ := List.mem_map.mp member
  obtain ⟨f_inside, owner⟩ := List.mem_filter.mp picked
  refine ⟨_, mem_resolved_fields.mpr ⟨f, f_inside, rfl⟩, resolveField_name all package d.declaration f, ?_⟩
  rw [resolveField_oneof, of_decide_eq_true owner, Option.bind_some, found, Option.map_some]

theorem resolved_owned {f : Field} (inside : f ∈ (resolveMessage all package fullName d).1.fields)
    {name : String} (owner : f.oneof = some name) :
    ∃ o ∈ (resolveMessage all package fullName d).1.oneofs, o.name = name ∧ f.name ∈ o.members := by
  obtain ⟨declared, declared_inside, rfl⟩ := mem_resolved_fields.mp inside
  rw [resolveField_oneof, Option.map_eq_some_iff] at owner
  obtain ⟨o, found, rfl⟩ := owner
  obtain ⟨i, at_i, there⟩ := Option.bind_eq_some_iff.mp found
  have member : declared.name ∈
      (d.declaration.fields.filter fun f => f.realOneof? = some i).map (·.name) :=
    List.mem_map.mpr ⟨declared, List.mem_filter.mpr ⟨declared_inside, by simpa using at_i⟩, rfl⟩
  have real := mem_realOneofs.mpr ⟨i, there, List.ne_nil_of_mem member, rfl⟩
  refine ⟨_, mem_resolved_oneofs.mpr ⟨o, _, real, rfl⟩, rfl, ?_⟩
  rw [resolveField_name]
  exact member

theorem position_of_name {message : Schema.Message} (distinct : ((realOneofs message).map (·.1.name)).Nodup)
    {f g : Schema.Field} (f_inside : f ∈ message.fields) (g_inside : g ∈ message.fields) {i j : Nat}
    (f_owner : f.realOneof? = some i) (g_owner : g.realOneof? = some j) {first second : Schema.Oneof}
    (at_i : message.oneofs[i]? = some first) (at_j : message.oneofs[j]? = some second)
    (same : first.name = second.name) : i = j := by
  rw [List.Nodup, List.pairwise_map, realOneofs, List.pairwise_filterMap] at distinct
  have real {f : Schema.Field} (inside : f ∈ message.fields) {i : Nat} (owner : f.realOneof? = some i) :
      (message.fields.filter fun f => f.realOneof? = some i).isEmpty = false := by
    have there : f ∈ message.fields.filter fun f => f.realOneof? = some i :=
      List.mem_filter.mpr ⟨inside, by simpa using owner⟩
    rw [List.isEmpty_eq_false_iff]
    exact List.ne_nil_of_mem there
  by_contra differs
  have first_there : (first, i) ∈ message.oneofs.zipIdx := List.mem_zipIdx_iff_getElem?.mpr at_i
  have second_there : (second, j) ∈ message.oneofs.zipIdx := List.mem_zipIdx_iff_getElem?.mpr at_j
  have apart := pairwise_forall (fun a b h x given y found => Ne.symm (h y found x given)) distinct
    first_there second_there (fun pair => differs (Prod.mk.inj pair).2)
  refine apart (first, (message.fields.filter fun f => f.realOneof? = some i).map (·.name)) ?_
    (second, (message.fields.filter fun f => f.realOneof? = some j).map (·.name)) ?_ same
  · exact if_neg (by simpa using real f_inside f_owner)
  · exact if_neg (by simpa using real g_inside g_owner)

theorem resolved_apart (distinct : ((resolveMessage all package fullName d).1.oneofs.map (·.name)).Nodup)
    {o : Oneof} (inside : o ∈ (resolveMessage all package fullName d).1.oneofs) (listed : o.members.Nodup)
    {f g : Field} (f_inside : f ∈ (resolveMessage all package fullName d).1.fields)
    (g_inside : g ∈ (resolveMessage all package fullName d).1.fields) (f_owner : f.oneof = some o.name)
    (g_owner : g.oneof = some o.name) (same : f.name = g.name) : f = g := by
  obtain ⟨f, f_declared, rfl⟩ := mem_resolved_fields.mp f_inside
  obtain ⟨g, g_declared, rfl⟩ := mem_resolved_fields.mp g_inside
  obtain ⟨declared, members, real, rfl⟩ := mem_resolved_oneofs.mp inside
  obtain ⟨i, at_i, some_members, rfl⟩ := mem_realOneofs.mp real
  have names : ((realOneofs d.declaration).map (·.1.name)).Nodup := by
    simpa [resolveMessage, Function.comp_def] using distinct
  have picked : ∀ h ∈ d.declaration.fields,
      (resolveField all package d.declaration h).1.oneof = some declared.name →
        h ∈ d.declaration.fields.filter fun f => f.realOneof? = some i := by
    intro h h_declared owner
    rw [resolveField_oneof, Option.map_eq_some_iff] at owner
    obtain ⟨other, found, same⟩ := owner
    obtain ⟨j, at_j, there⟩ := Option.bind_eq_some_iff.mp found
    obtain ⟨_, member⟩ := List.exists_mem_of_ne_nil _ some_members
    obtain ⟨k, k_picked, _⟩ := List.mem_map.mp member
    obtain ⟨k_declared, k_owner⟩ := List.mem_filter.mp k_picked
    have position := position_of_name names h_declared k_declared at_j (of_decide_eq_true k_owner) there at_i same
    exact List.mem_filter.mpr ⟨h_declared, by simpa [position] using at_j⟩
  rw [resolveField_name, resolveField_name] at same
  rw [eq_of_nodup listed (picked f f_declared f_owner) (picked g g_declared g_owner) same]

theorem resolveMessage_wellFormed : (resolveMessage all package fullName d).1.WellFormed := by
  refine { typeName := ?_, enumName := ?_, members := ?_, member := ?_, owned := ?_, presence := ?_
           apart := ?_ }
  · intro f inside child type
    obtain ⟨declared, _, rfl⟩ := mem_resolved_fields.mp inside
    exact (resolveField_bareNames all package d.declaration declared).message type
  · intro f inside name type
    obtain ⟨declared, _, rfl⟩ := mem_resolved_fields.mp inside
    exact (resolveField_bareNames all package d.declaration declared).enum type
  · intro o inside
    obtain ⟨declared, members, real, rfl⟩ := mem_resolved_oneofs.mp inside
    obtain ⟨_, _, nonempty, _⟩ := mem_realOneofs.mp real
    exact nonempty
  · exact fun o inside name member => resolved_member inside member
  · exact fun f inside name owner => resolved_owned inside owner
  · intro f inside optional
    obtain ⟨declared, _, rfl⟩ := mem_resolved_fields.mp inside
    exact resolveField_presence all package d.declaration declared optional
  · intro distinct o inside listed f f_inside g g_inside f_owner g_owner same
    exact resolved_apart distinct inside listed f_inside g_inside f_owner g_owner same

end Messages

end Wireform.Index
