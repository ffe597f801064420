import Wireform.Proofs.ReadyDocuments

set_option autoImplicit false

namespace Wireform

namespace Json

def identical : Json → Json → Bool
  | .null, .null => true
  | .bool a, .bool b => a == b
  | .num a, .num b => decide (a = b)
  | .str a, .str b => a == b
  | .arr as, .arr bs => ofItems as bs
  | .obj as, .obj bs => ofMembers as bs
  | _, _ => false
where
  ofItems : List Json → List Json → Bool
    | [], [] => true
    | a :: as, b :: bs => identical a b && ofItems as bs
    | _, _ => false
  ofMembers : List (String × Json) → List (String × Json) → Bool
    | [], [] => true
    | (k, a) :: as, (l, b) :: bs => k == l && identical a b && ofMembers as bs
    | _, _ => false

theorem identical_iff (a b : Json) : identical a b = true ↔ a = b := by
  refine identical.induct (fun as bs => identical.ofItems as bs = true ↔ as = bs)
    (fun a b => identical a b = true ↔ a = b) (fun as bs => identical.ofMembers as bs = true ↔ as = bs)
    ?_ ?_ ?_ ?_ ?_ ?_ ?_ ?_ ?_ ?_ ?_ ?_ ?_ a b
  case refine_7 =>
    -- Values of different kinds.
    intro t x
    cases t <;> cases x <;> simp [identical]
  case refine_10 =>
    intro t x _ cons
    cases t <;> cases x <;> first | exact (cons _ _ _ _ rfl rfl).elim | simp [identical.ofItems]
  case refine_13 =>
    intro t x _ cons
    cases t <;> cases x <;> first | exact (cons _ _ _ _ _ _ rfl rfl).elim | simp [identical.ofMembers]
  all_goals
    intros
    simp_all [identical, identical.ofItems, identical.ofMembers]

instance : DecidableEq Json := fun a b => decidable_of_iff _ (identical_iff a b)

end Json

namespace Schema

def Field.ofKind (name : String) (kind : FieldKind) (directives : List (String × Json)) : Field :=
  { (default : Field) with
    name
    kind
    options := some (KeyMap.ofList (directives.map fun (key, value) => ("[sebuf.http." ++ key ++ "]", value))) }

def Field.repeating (field : Field) : Field := { field with label := .repeated }

def Field.ofMessage (name type : String) (directives : List (String × Json)) : Field :=
  { Field.ofKind name .message directives with typeName := some type }

def Field.ofMember (name : String) (kind : FieldKind) (oneof : Int) : Field :=
  { (default : Field) with
    name
    kind
    oneofIndex := some oneof }

def Field.ofEnum (name type : String) (directives : List (String × Json)) : Field :=
  { Field.ofKind name .enum directives with typeName := some type }

def Oneof.ofDiscriminator (name discriminator : String) : Oneof :=
  ⟨name, some (KeyMap.ofList [("[sebuf.http.oneof_config]", .obj [("discriminator", .str discriminator)])])⟩

def Oneof.ofFlattened (name discriminator : String) : Oneof :=
  ⟨name, some (KeyMap.ofList [("[sebuf.http.oneof_config]",
    .obj [("discriminator", .str discriminator), ("flatten", .bool true)])])⟩

def Field.ofVariant (name type : String) (oneof : Int) : Field :=
  { Field.ofMember name .message oneof with typeName := some type }

def Message.ofEntry (name : String) (value : Field) : Message :=
  ⟨name, [{ Field.ofKind "key" .string [] with number := 1 }, { value with number := 2 }], [], [], [],
    some (KeyMap.ofList [("mapEntry", .bool true)])⟩

def Message.ofFields (name : String) (fields : List Field) (oneofs : List Oneof) : Message :=
  ⟨name, fields, [], [], oneofs, none⟩

def Enum.ofNames (name : String) (values : List (String × String)) : Enum :=
  ⟨name, values.zipIdx.map fun ((own, wire), number) =>
    ⟨own, number, some (KeyMap.ofList [("[sebuf.http.enum_value]", .str wire)])⟩, none⟩

def FileSet.ofTypes (messages : List Message) (enums : List Enum) : FileSet :=
  ⟨[⟨"t.proto", "t", [], messages, enums, none, none⟩]⟩

def FileSet.ofMessages (messages : List Message) : FileSet := ⟨[⟨"t.proto", "t", [], messages, [], none, none⟩]⟩

end Schema

theorem ok_of_toOption {ε α : Type} {x : Except ε α} {a : α} (given : x.toOption = some a) : x = .ok a := by
  cases x with
  | error fault => cases given
  | ok b => exact congrArg Except.ok (Option.some.inj given)

theorem exists_ok {ε α : Type} {x : Except ε α} (P : α → Prop) [DecidablePred P]
    (check : x.toOption.any (fun a => decide (P a)) = true) : ∃ a, x = .ok a ∧ P a := by
  cases x with
  | error fault => cases check
  | ok a => exact ⟨a, rfl, of_decide_eq_true check⟩

namespace Run

theorem exists_compiled {set : Schema.FileSet} {files : List String} {settings : Settings}
    (P : Compiled → Prop) [DecidablePred P]
    (check : (compile set files settings).toOption.any (fun compiled => decide (P compiled)) = true) :
    ∃ compiled, compile set files settings = .ok compiled ∧ P compiled :=
  exists_ok P check

end Run

namespace Index

instance (index : Index) : Decidable index.Regular :=
  decidable_of_iff ((∀ m ∈ index.messages.values, (m.fields.map (·.jsonName)).Nodup) ∧
      (∀ m ∈ index.messages.values, ∀ f ∈ m.fields, f.oneof ≠ none → f.isSingular = true) ∧
      (∀ e ∈ index.enums.values, (e.values.map (·.name)).Nodup) ∧
      ∀ e ∈ index.enums.values, ∀ v ∈ e.values, -0x80000000 ≤ v.number ∧ v.number < 0x80000000)
    ⟨fun ⟨names, members, values, numbers⟩ => ⟨names, members, values, numbers⟩,
      fun regular => ⟨regular.jsonNames, regular.members, regular.valueNames, regular.numbers⟩⟩

instance (m : Message) (doc : Codec.Doc) : Decidable (m.OneMember doc) :=
  inferInstanceAs (Decidable (∀ f ∈ m.fields, ∀ g ∈ m.fields, f.oneof ≠ none → f.oneof = g.oneof →
    doc.get? f.jsonName ≠ none → doc.get? g.jsonName ≠ none → f.jsonName = g.jsonName))

def shape? (index : Index) (name : String) : Option (List (String × ValueType)) :=
  (index.message? name).map fun m => m.fields.map fun f => (f.jsonName, f.type)

end Index

namespace Run

open Index Codec

structure Compiled.Singular (compiled : Compiled) : Prop where
  regular : compiled.index.Regular
  singular : ∀ m ∈ compiled.index.messages.values, ∀ f ∈ m.fields, f.isSingular = true
  kept : ∀ m ∈ compiled.index.messages.values, ∀ f ∈ m.fields,
    f.annotations.empty ≠ .omit ∧ f.annotations.changesTimestamp = false
  unnested : ∀ entry ∈ compiled.plans.entries, entry.2.nestedMessages = []

instance (compiled : Compiled) : Decidable compiled.Singular :=
  decidable_of_iff (compiled.index.Regular ∧
      (∀ m ∈ compiled.index.messages.values, ∀ f ∈ m.fields, f.isSingular = true) ∧
      (∀ m ∈ compiled.index.messages.values, ∀ f ∈ m.fields,
        f.annotations.empty ≠ .omit ∧ f.annotations.changesTimestamp = false) ∧
      ∀ entry ∈ compiled.plans.entries, entry.2.nestedMessages = [])
    ⟨fun ⟨regular, singular, kept, unnested⟩ => ⟨regular, singular, kept, unnested⟩,
      fun run => ⟨run.regular, run.singular, run.kept, run.unnested⟩⟩

namespace Compiled.Singular

variable {compiled : Compiled} (singular : compiled.Singular)

include singular

theorem nests (levels : Nat) (name : String) (value : Json) :
    NestsWithin ⟨compiled.index, compiled.plans⟩ (levels + 1) name value := by
  intro plan given step inside child nested
  have none_left := singular.unnested _ (KeyMap.mem_entries.mpr given)
  have listed : child ∈ plan.nestedMessages := List.mem_filterMap.mpr ⟨step, inside, by rw [nested]⟩
  rw [none_left] at listed
  cases listed

theorem lossless {m : Index.Message} (inside : m ∈ compiled.index.messages.values) {f : Index.Field}
    (there : f ∈ m.fields) (value : Json) : compiled.index.Lossless f value := by
  have single := singular.singular m inside f there
  obtain ⟨kept, unchanged⟩ := singular.kept m inside f there
  refine ⟨fun plural => ?_, fun omitted => absurd omitted kept, fun changes => ?_,
    fun child _ _ _ unwraps => ?_⟩
  · rw [single] at plural
    cases plural
  · rw [unchanged] at changes
    cases changes
  · rw [unwrapValues?_none (not_map_of_singular single)] at unwraps
    cases unwraps

theorem fits (sound : compiled.index.Sound) {rule : Rule} {name : String}
    (own : WellKnown.isMessage (bareName name) = false) {listed : List (String × ValueType)}
    (shape : compiled.index.shape? name = some listed) {doc : Doc} (known : ∀ k ∈ doc.keys, k ∈ listed.map (·.1))
    (values : ∀ entry ∈ listed, ∀ value, doc.get? entry.1 = some value →
      value.isNull = false ∧ Fits compiled.index rule entry.2 value)
    (rules : ∀ m, compiled.index.message? name = some m → rule.document m doc ∧ ∀ f ∈ m.fields, ∀ value,
      doc.get? f.jsonName = some value → rule.value m f value) :
    Fits compiled.index rule (.message name) (.obj doc) := by
  obtain ⟨m, found, same⟩ := Option.map_eq_some_iff.mp shape
  have container {f : Index.Field} (inside : f ∈ m.fields) : f.container = .single :=
    container_of_singular (singular.singular m (KeyMap.mem_values.mpr ⟨_, found⟩) f inside)
  have value_at {f : Index.Field} (inside : f ∈ m.fields) {value : Json}
      (given : doc.get? f.jsonName = some value) :
      value.isNull = false ∧ Fits compiled.index rule f.type value := by
    have entry : (f.jsonName, f.type) ∈ m.fields.map fun f => (f.jsonName, f.type) :=
      List.mem_map.mpr ⟨f, inside, rfl⟩
    rw [same] at entry
    exact values _ entry value given
  refine .message found (by rw [sound.wellKnown _ m found, own]) (fun k present => ?_)
    (fun f inside value given => ?_) (fun f inside value given x there => ?_) (rules m found).1
  · have key := known k (Entries.mem_keys_iff.mpr (Option.ne_none_iff_exists'.mp present))
    rw [← same, List.map_map] at key
    exact List.mem_map.mp key
  · refine ⟨(value_at inside given).1, ?_, (rules m found).2 f inside value given⟩
    rw [container inside]
    trivial
  · rw [container inside, Container.values_singular, List.mem_singleton] at there
    rw [there]
    exact (value_at inside given).2

end Compiled.Singular

end Run

end Wireform
