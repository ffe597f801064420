import Wireform.Proofs.RestoredSets
import Wireform.Schema.Merge

set_option autoImplicit false

namespace Wireform

namespace Entries

variable {α β : Type} {as bs : Entries α} {f : α → β}

theorem agree_iff (first : as.Distinct) (second : bs.Distinct) :
    (as.length = bs.length ∧ ∀ key a, (key, a) ∈ as → ∃ b, bs.get? key = some b ∧ f a = f b) ↔
      ∀ key, (as.get? key).map f = (bs.get? key).map f := by
  constructor
  · rintro ⟨size, covered⟩ key
    have within : as.keys ⊆ bs.keys := fun key inside => by
      obtain ⟨⟨_, a⟩, there, rfl⟩ := List.mem_map.mp inside
      obtain ⟨b, found, _⟩ := covered _ a there
      exact mem_keys_of_mem (mem_of_get? found)
    -- There are no more keys in the second than in the first, so no key is left to it alone.
    have all := (List.subperm_of_subset first within).perm_of_length_le (by simp [keys, size])
    cases found : as.get? key with
    | some a =>
      obtain ⟨b, there, same⟩ := covered key a (mem_of_get? found)
      rw [there, Option.map_some, Option.map_some, same]
    | none =>
      have absent : bs.get? key = none := get?_eq_none.mpr fun inside => get?_eq_none.mp found (all.mem_iff.mpr inside)
      rw [absent]
  · intro agree
    have shared (key : String) : key ∉ as.keys ↔ key ∉ bs.keys := by
      rw [← get?_eq_none, ← get?_eq_none, ← Option.map_eq_none_iff (f := f), agree, Option.map_eq_none_iff]
    have perm : as.keys.Perm bs.keys := (List.perm_ext_iff_of_nodup first second).mpr fun key =>
      not_iff_not.mp (shared key)
    refine ⟨by simpa [keys] using perm.length_eq, fun key a inside => ?_⟩
    have same := agree key
    rw [get?_of_mem first inside] at same
    obtain ⟨b, found, same⟩ := Option.map_eq_some_iff.mp same.symm
    exact ⟨b, found, same.symm⟩

end Entries

namespace Number

def normal : Number → Number
  | .int n => .int n
  | .float x => .float (if x.isZero then .zero else x)

theorem same_iff (a b : Number) : a.same b = true ↔ a.normal = b.normal := by
  cases a with
  | int n => cases b <;> simp [same, normal]
  | float x =>
    cases b with
    | int n => simp [same, normal]
    | float y =>
      have zero : Binary64.zero.isZero = true := rfl
      simp only [same, normal, Binary64.sameValue, Bool.or_eq_true, Bool.and_eq_true, decide_eq_true_eq, float.injEq]
      by_cases first : x.isZero = true <;> by_cases second : y.isZero = true <;> simp only [first, second] <;> grind

end Number

namespace Json

def mapNumbers (f : Number → Number) : Json → Json
  | .num n => .num (f n)
  | .arr items => .arr (ofItems items)
  | .obj members => .obj (ofMembers members)
  | value => value
where
  ofItems : List Json → List Json
    | [] => []
    | item :: rest => mapNumbers f item :: ofItems rest
  ofMembers : List (String × Json) → List (String × Json)
    | [] => []
    | (key, value) :: rest => (key, mapNumbers f value) :: ofMembers rest

def normal (value : Json) : Json := (value.mapNumbers Number.normal).sorted

theorem mapNumbers_ofItems (f : Number → Number) (items : List Json) :
    mapNumbers.ofItems f items = items.map (mapNumbers f) := by
  induction items with
  | nil => rfl
  | cons item rest ih => rw [mapNumbers.ofItems, ih, List.map_cons]

theorem get?_mapNumbers (f : Number → Number) (members : Entries Json) (key : String) :
    Entries.get? (mapNumbers.ofMembers f members) key = (members.get? key).map (mapNumbers f) := by
  induction members with
  | nil => rfl
  | cons entry rest ih =>
    obtain ⟨k, v⟩ := entry
    rw [mapNumbers.ofMembers, Entries.get?, Entries.get?, ih]
    split <;> rfl

theorem normal_arr_iff {as bs : List Json} :
    (Json.arr as).normal = (Json.arr bs).normal ↔ as.map normal = bs.map normal := by
  simp only [normal, mapNumbers, sorted, mapNumbers_ofItems, sorted_ofItems, arr.injEq, List.map_map]
  rfl

theorem normal_obj_iff {as bs : Entries Json} :
    (Json.obj as).normal = (Json.obj bs).normal ↔ ∀ key, (as.get? key).map normal = (bs.get? key).map normal := by
  have under (members : Entries Json) (key : String) :
      Entries.get? (sorted.ofMembers (mapNumbers.ofMembers Number.normal members)) key =
        (members.get? key).map normal := by
    rw [get?_sorted, get?_mapNumbers, Option.map_map]
    rfl
  simp only [normal, mapNumbers, sorted, obj.injEq]
  constructor
  · intro same key
    rw [← under, same, under]
  · intro agree
    -- Sorted members are determined by what stands under each key.
    refine Entries.Sorted.ext (sorted_ofMembers _) (sorted_ofMembers _) fun key => ?_
    rw [under, under, agree]

theorem same_iff {a b : Json} (first : a.Distinct) (second : b.Distinct) : a.same b = true ↔ a.normal = b.normal := by
  -- Members are compared under the keys of the first object only, and what is said of them is one-sided too. Objects
  -- have as many members besides, by which no key of the second one is left over.
  refine same.induct
    (fun as bs => Distinct.ofItems as → Distinct.ofItems bs →
      (same.items as bs = true ↔ as.map normal = bs.map normal))
    (fun a b => a.Distinct → b.Distinct → (a.same b = true ↔ a.normal = b.normal))
    (fun as bs => Distinct.ofMembers as → Distinct.ofMembers bs →
      (same.members as bs = true ↔ ∀ key a, (key, a) ∈ as → ∃ b, Entries.get? bs key = some b ∧ a.normal = b.normal))
    ?null ?bool ?num ?str ?arr ?obj ?differ ?noItems ?items ?itemsDiffer ?noMembers ?members a b first second
  case null => simp [same]
  case bool => simp [same, normal, mapNumbers, sorted]
  case num =>
    intro a b _ _
    simpa [same, normal, mapNumbers, sorted] using Number.same_iff a b
  case str => simp [same, normal, mapNumbers, sorted]
  case arr =>
    intro as bs ih first second
    rw [same, ih first second, normal_arr_iff]
  case obj =>
    intro as bs ih first second
    rw [normal_obj_iff, ← Entries.agree_iff first.1 second.1, ← ih first.2 second.2, same, Bool.and_eq_true, beq_iff_eq]
  case differ =>
    -- Values of different kinds.
    intro a b
    cases a <;> cases b <;> simp [same, normal, mapNumbers, sorted]
  case noItems => simp [same.items]
  case items =>
    intro a as b bs head tail first second
    rw [same.items, Bool.and_eq_true, head first.1 second.1, tail first.2 second.2, List.map_cons, List.map_cons,
      List.cons.injEq]
  case itemsDiffer =>
    intro as bs neither both
    cases as with
    | nil => cases bs <;> simp [same.items] at neither ⊢
    | cons a as =>
      cases bs with
      | nil => simp [same.items]
      | cons b bs => exact (both a as b bs rfl rfl).elim
  case noMembers => simp [same.members]
  case members =>
    intro key a as bs head tail first second
    rw [same.members, Bool.and_eq_true, tail first.2 second]
    simp only [List.mem_cons, Prod.mk.injEq]
    cases found : Entries.get? bs key with
    | none =>
      simp only [Bool.false_eq_true, false_and, false_iff]
      intro all
      obtain ⟨b, there, _⟩ := all key a (.inl ⟨rfl, rfl⟩)
      cases found.symm.trans there
    | some b =>
      have distinct : b.Distinct := distinct_members.mp second key b (Entries.mem_of_get? found)
      simp only [head b first.1 distinct]
      constructor
      · rintro ⟨same, others⟩ other value (⟨rfl, rfl⟩ | later)
        · exact ⟨b, found, same⟩
        · exact others other value later
      · intro all
        obtain ⟨b', there, same⟩ := all key a (.inl ⟨rfl, rfl⟩)
        cases found.symm.trans there
        exact ⟨same, fun other value later => all other value (.inr later)⟩

end Json

namespace Schema

def Options.normal (options : Options) : Options := options.map fun _ value => value.normal

theorem Options.same_iff {as bs : Entries Json} (first : ∀ entry ∈ as, entry.2.Distinct)
    (second : ∀ entry ∈ bs, entry.2.Distinct) : Options.same as bs = true ↔
      as.map (fun entry => (entry.1, entry.2.normal)) = bs.map fun entry => (entry.1, entry.2.normal) := by
  induction as generalizing bs with
  | nil => cases bs <;> simp [Options.same]
  | cons a as ih =>
    cases bs with
    | nil => simp [Options.same]
    | cons b bs =>
      obtain ⟨here, later⟩ := List.forall_mem_cons.mp first
      obtain ⟨there, others⟩ := List.forall_mem_cons.mp second
      simp [Options.same, ih later others, Json.same_iff here there]

theorem Options.sameOption_iff {a b : Option Options} (first : WellKeyed a) (second : WellKeyed b) :
    Options.sameOption a b = true ↔ a.map Options.normal = b.map Options.normal := by
  have values {o : Option Options} (keyed : WellKeyed o) {options : Options} (given : o = some options) :
      ∀ entry ∈ options.entries, entry.2.Distinct := fun entry inside =>
    keyed options given entry.2 (List.mem_map.mpr ⟨entry, inside, rfl⟩)
  cases a with
  | none => cases b <;> simp [Options.sameOption]
  | some a =>
    cases b with
    | none => simp [Options.sameOption]
    | some b =>
      simp [Options.sameOption, Options.same_iff (values first rfl) (values second rfl), Options.normal, KeyMap.map]

theorem sameList_iff {α β : Type} {same : α → α → Bool} {normal : α → β} {as bs : List α}
    (each : ∀ a ∈ as, ∀ b ∈ bs, same a b = true ↔ normal a = normal b) :
    sameList same as bs = true ↔ as.map normal = bs.map normal := by
  induction as generalizing bs with
  | nil => cases bs <;> simp [sameList]
  | cons a as ih =>
    cases bs with
    | nil => simp [sameList]
    | cons b bs =>
      rw [sameList, Bool.and_eq_true, each a List.mem_cons_self b List.mem_cons_self,
        ih fun a inside b there => each a (List.mem_cons_of_mem _ inside) b (List.mem_cons_of_mem _ there),
        List.map_cons, List.map_cons, List.cons.injEq]

def EnumValue.normal (v : EnumValue) : EnumValue := { v with options := v.options.map Options.normal }

def Enum.normal (e : Enum) : Enum :=
  { e with
    values := e.values.map EnumValue.normal
    options := e.options.map Options.normal }

def Oneof.normal (o : Oneof) : Oneof := { o with options := o.options.map Options.normal }

def Field.normal (f : Field) : Field := { f with options := f.options.map Options.normal }

def Message.normal : Message → Message
  | ⟨name, fields, nested, enums, oneofs, options⟩ =>
    ⟨name, fields.map Field.normal, ofNested nested, enums.map Enum.normal, oneofs.map Oneof.normal,
      options.map Options.normal⟩
where
  ofNested : List Message → List Message
    | [] => []
    | m :: rest => normal m :: ofNested rest

def File.normal (f : File) : File :=
  { f with
    messages := f.messages.map Message.normal
    enums := f.enums.map Enum.normal
    options := f.options.map Options.normal }

theorem EnumValue.same_iff {a b : EnumValue} (first : a.WellTyped) (second : b.WellTyped) :
    a.same b = true ↔ a.normal = b.normal := by
  obtain ⟨name, number, options⟩ := a
  obtain ⟨name', number', options'⟩ := b
  simp [EnumValue.same, EnumValue.normal, Options.sameOption_iff first.options second.options, and_assoc]

theorem Enum.same_iff {a b : Enum} (first : a.WellTyped) (second : b.WellTyped) :
    a.same b = true ↔ a.normal = b.normal := by
  have values : sameList EnumValue.same a.values b.values = true ↔
      a.values.map EnumValue.normal = b.values.map EnumValue.normal :=
    sameList_iff fun v inside w there => EnumValue.same_iff (first.values v inside) (second.values w there)
  obtain ⟨name, _, options⟩ := a
  obtain ⟨name', _, options'⟩ := b
  simp [Enum.same, Enum.normal, values, Options.sameOption_iff first.options second.options, and_assoc]

theorem Oneof.same_iff {a b : Oneof} (first : a.WellTyped) (second : b.WellTyped) :
    a.same b = true ↔ a.normal = b.normal := by
  obtain ⟨name, options⟩ := a
  obtain ⟨name', options'⟩ := b
  simp [Oneof.same, Oneof.normal, Options.sameOption_iff (show WellKeyed options from first) second]

theorem Field.same_iff {a b : Field} (first : a.WellTyped) (second : b.WellTyped) :
    a.same b = true ↔ a.normal = b.normal := by
  have options := Options.sameOption_iff first.options second.options
  cases a
  cases b
  simp [Field.same, Field.normal, options, and_assoc]

theorem Message.same_iff {a b : Message} (first : a.WellTyped) (second : b.WellTyped) :
    a.same b = true ↔ a.normal = b.normal := by
  -- Messages nest through lists of messages, so lists are compared in the same induction.
  refine Message.same.induct
    (fun as bs => (∀ a ∈ as, a.WellTyped) → (∀ b ∈ bs, b.WellTyped) →
      (Message.same.sameNested as bs = true ↔ Message.normal.ofNested as = Message.normal.ofNested bs))
    (fun a b => a.WellTyped → b.WellTyped → (a.same b = true ↔ a.normal = b.normal))
    ?message ?none ?cons ?differ a b first second
  case message =>
    intro name fields nested enums oneofs options b ih first second
    obtain ⟨own, inner⟩ := Message.wellTyped_iff.mp first
    obtain ⟨own', inner'⟩ := Message.wellTyped_iff.mp second
    have sameFields : sameList Field.same fields b.fields = true ↔
        fields.map Field.normal = b.fields.map Field.normal :=
      sameList_iff fun f inside g there => Field.same_iff (own.fields f inside) (own'.fields g there)
    have sameEnums : sameList Enum.same enums b.enums = true ↔
        enums.map Enum.normal = b.enums.map Enum.normal :=
      sameList_iff fun e inside d there => Enum.same_iff (own.enums e inside) (own'.enums d there)
    have sameOneofs : sameList Oneof.same oneofs b.oneofs = true ↔
        oneofs.map Oneof.normal = b.oneofs.map Oneof.normal :=
      sameList_iff fun o inside p there => Oneof.same_iff (own.oneofs o inside) (own'.oneofs p there)
    have sameOptions := Options.sameOption_iff own.options own'.options
    cases b
    simp only [Message.same, Message.normal, Bool.and_eq_true, beq_iff_eq, ih inner inner', sameFields, sameEnums,
      sameOneofs, sameOptions, and_assoc, Message.mk.injEq]
  case none => simp [Message.same.sameNested]
  case cons =>
    intro a as b bs head tail first second
    obtain ⟨here, later⟩ := List.forall_mem_cons.mp first
    obtain ⟨there, others⟩ := List.forall_mem_cons.mp second
    rw [Message.same.sameNested, Bool.and_eq_true, head here there, tail later others, Message.normal.ofNested,
      Message.normal.ofNested, List.cons.injEq]
  case differ =>
    intro as bs neither both
    cases as with
    | nil => cases bs <;> simp [Message.same.sameNested, Message.normal.ofNested] at neither ⊢
    | cons a as =>
      cases bs with
      | nil => simp [Message.same.sameNested, Message.normal.ofNested]
      | cons b bs => exact (both a as b bs rfl rfl).elim

theorem File.same_iff {a b : File} (first : a.WellTyped) (second : b.WellTyped) :
    a.same b = true ↔ a.normal = b.normal := by
  have messages : sameList Message.same a.messages b.messages = true ↔
      a.messages.map Message.normal = b.messages.map Message.normal :=
    sameList_iff fun m inside n there => Message.same_iff (first.messages m inside) (second.messages n there)
  have enums : sameList Enum.same a.enums b.enums = true ↔ a.enums.map Enum.normal = b.enums.map Enum.normal :=
    sameList_iff fun e inside d there => Enum.same_iff (first.enums e inside) (second.enums d there)
  have options := Options.sameOption_iff first.options second.options
  cases a
  cases b
  simp only [File.same, File.normal, Bool.and_eq_true, beq_iff_eq, messages, enums, options, and_assoc, File.mk.injEq]

section Equivalence

variable {a b c : File} (first : a.WellTyped) (second : b.WellTyped) (third : c.WellTyped)

include first

theorem File.same_refl : a.same a = true := (File.same_iff first first).mpr rfl

include second

theorem File.same_symm (same : a.same b = true) : b.same a = true :=
  (File.same_iff second first).mpr ((File.same_iff first second).mp same).symm

include third

theorem File.same_trans (same : a.same b = true) (next : b.same c = true) : a.same c = true :=
  (File.same_iff first third).mpr (((File.same_iff first second).mp same).trans ((File.same_iff second third).mp next))

end Equivalence

end Schema

end Wireform
