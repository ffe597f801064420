import Mathlib.Logic.Relation
import Wireform.Proofs.DeclaredPaths
import Wireform.Proofs.ReadValues
import Wireform.Schema.Reader
import Wireform.Schema.Writer

/-!
Descriptor sets that are written and read again. Every set comes back, whatever was read is such a set, and reading does
not tell a label or a type that is named from one that is numbered.
-/

set_option autoImplicit false

namespace Wireform.Schema

open Json (Reader Draft Origin ReadError)
open Json.Reader

section Tables

variable {α : Type}

/-- A value of a table stands for its name, or for its number: the entries count from one on. -/
inductive Spells (table : List (String × α)) : Json → α → Prop
  | byName {name : String} {a : α} (inside : (name, a) ∈ table) : Spells table (.str name) a
  | byNumber {n : Nat} {name : String} {a : α} (there : table[n]? = some (name, a)) : Spells table (.int (n + 1)) a

theorem spelling_eq_ok {allowance : Nat} {value : Json} {spelling : Spelling} :
    Spelling.reader allowance (Draft.ofJson value) = .ok spelling ↔
      (∃ name, value = .str name ∧ spelling = .byName name) ∨
      ∃ n : Int, n < 0x8000000000000000 ∧ value = .int n ∧ spelling = .byNumber n := by
  constructor
  · intro run
    obtain ⟨read, there, run⟩ := bind_eq_ok run
    cases value with
    | str name =>
      cases there
      exact .inl ⟨name, rfl, (Except.ok.inj run).symm⟩
    | num number =>
      cases there
      cases number with
      | float x => cases run
      | int n =>
        simp only at run
        split at run
        · next small => exact .inr ⟨n, small, rfl, (Except.ok.inj run).symm⟩
        · cases run
    | null | bool => cases there; cases run
    | arr | obj =>
      have there := of_lift there
      rw [Draft.ofJson, Draft.toJson] at there
      split at there
      · cases there
      · obtain ⟨_, _, there⟩ := bind_eq_ok there
        obtain ⟨_, _, there⟩ := bind_eq_ok there
        cases there
        cases run
  · rintro (⟨name, rfl, rfl⟩ | ⟨n, small, rfl, rfl⟩)
    · rfl
    · exact if_pos small

theorem spells_iff {table : List (String × α)} (distinct : (table.map (·.1)).Nodup)
    (short : table.length < 0x8000000000000000) (allowance : Nat) {value : Json} {a : α} : Spells table value a ↔
      ∃ spelling, Spelling.reader allowance (Draft.ofJson value) = .ok spelling ∧ spelling.find? table = some a := by
  simp only [spelling_eq_ok]
  constructor
  · intro spells
    cases spells with
    | @byName name _ inside =>
      have found := find?_of_nodup distinct inside
      simp only [beq_eq_decide] at found
      exact ⟨.byName name, .inl ⟨name, rfl, rfl⟩, by rw [Spelling.find?, found, Option.map_some]⟩
    | @byNumber n _ _ there =>
      have inside : n < table.length := (List.getElem?_eq_some_iff.mp there).1
      have found : Spelling.find? table (.byNumber (n + 1)) = (table[n]?).map (·.2) := rfl
      exact ⟨.byNumber (n + 1), .inr ⟨n + 1, by omega, rfl, rfl⟩, by rw [found, there, Option.map_some]⟩
  · rintro ⟨spelling, ⟨name, rfl, rfl⟩ | ⟨n, small, rfl, rfl⟩, found⟩
    · obtain ⟨⟨name', a⟩, there, rfl⟩ := Option.map_eq_some_iff.mp found
      have same : name' = name := by simpa using List.find?_some there
      exact .byName (same ▸ List.mem_of_find?_eq_some there)
    · cases n with
      | negSucc n => cases found
      | ofNat n =>
        cases n with
        | zero => cases found
        | succ n =>
          obtain ⟨⟨name, a⟩, there, rfl⟩ := Option.map_eq_some_iff.mp found
          exact .byNumber there

theorem spelled_eq_ok (table : List (String × α)) (distinct : (table.map (·.1)).Nodup)
    (short : table.length < 0x8000000000000000) (reader : Reader α) (complain : Spelling → ReadError)
    (shape : ∀ allowance draft, reader allowance draft = (do
      let spelling ← Spelling.reader allowance draft
      match spelling.find? table with
      | some a => return a
      | none => .error (complain spelling)))
    {allowance : Nat} {value : Json} {a : α} :
    reader allowance (Draft.ofJson value) = .ok a ↔ Spells table value a := by
  rw [spells_iff distinct short allowance, shape]
  constructor
  · intro run
    obtain ⟨spelling, read, run⟩ := bind_eq_ok run
    refine ⟨spelling, read, ?_⟩
    split at run
    · next found => rw [found]; exact congrArg some (Except.ok.inj run)
    · cases run
  · rintro ⟨spelling, read, found⟩
    rw [read, ok_bind, found]
    rfl

theorem Label.reader_eq_ok {allowance : Nat} {value : Json} {label : Label} :
    Label.reader allowance (Draft.ofJson value) = .ok label ↔ Spells Label.all value label :=
  spelled_eq_ok Label.all (by decide) (by decide) Label.reader
    (fun spelling => .mismatch (.unknownLabel spelling.text) none)
    fun _ _ => bind_congr fun spelling => by cases spelling.find? Label.all <;> rfl

theorem FieldKind.reader_eq_ok {allowance : Nat} {value : Json} {kind : FieldKind} :
    FieldKind.reader allowance (Draft.ofJson value) = .ok kind ↔ Spells FieldKind.all value kind :=
  spelled_eq_ok FieldKind.all (by decide) (by decide) FieldKind.reader
    (fun spelling => .mismatch (.unknownKind spelling.text) none)
    fun _ _ => bind_congr fun spelling => by cases spelling.find? FieldKind.all <;> rfl

theorem Label.reads_name (label : Label) : Reads Label.reader (.str label.name) label := fun _ _ =>
  Label.reader_eq_ok.mpr (.byName (by cases label <;> decide))

theorem FieldKind.reads_name (kind : FieldKind) : Reads FieldKind.reader (.str kind.name) kind := fun _ _ =>
  FieldKind.reader_eq_ok.mpr (.byName (by cases kind <;> decide))

end Tables

def WellKeyed (options : Option Options) : Prop := ∀ o ∈ options, ∀ value ∈ o.values, value.Distinct

@[mk_iff]
structure EnumValue.WellTyped (v : EnumValue) : Prop where
  number : IsInt32 v.number
  options : WellKeyed v.options

@[mk_iff]
structure Enum.WellTyped (e : Enum) : Prop where
  values : ∀ v ∈ e.values, v.WellTyped
  options : WellKeyed e.options

def Oneof.WellTyped (o : Oneof) : Prop := WellKeyed o.options

@[mk_iff]
structure Field.WellTyped (f : Field) : Prop where
  number : IsInt32 f.number
  oneofIndex : ∀ n ∈ f.oneofIndex, IsInt32 n
  options : WellKeyed f.options

@[mk_iff]
structure Message.OwnTyped (m : Message) : Prop where
  fields : ∀ f ∈ m.fields, f.WellTyped
  enums : ∀ e ∈ m.enums, e.WellTyped
  oneofs : ∀ o ∈ m.oneofs, o.WellTyped
  options : WellKeyed m.options

def Message.WellTyped (m : Message) : Prop := ∀ path n, m.Holds path n → n.OwnTyped

structure File.WellTyped (f : File) : Prop where
  messages : ∀ m ∈ f.messages, m.WellTyped
  enums : ∀ e ∈ f.enums, e.WellTyped
  options : WellKeyed f.options

def FileSet.WellTyped (s : FileSet) : Prop := ∀ f ∈ s.files, f.WellTyped

theorem Message.wellTyped_iff {m : Message} : m.WellTyped ↔ m.OwnTyped ∧ ∀ inner ∈ m.nested, inner.WellTyped := by
  constructor
  · intro typed
    exact ⟨typed [] m (.here m), fun inner inside path n holds => typed _ n (.inner inside holds)⟩
  · rintro ⟨own, nested⟩ path n holds
    cases holds with
    | here => exact own
    | inner inside below => exact nested _ inside _ _ below

section Written

variable {origin : Origin}

theorem reads_optionalText (text : Option String) : Reads (option string) (optionalText text) text := by
  cases text with
  | none => exact reads_null
  | some text => exact reads_some (reads_string text) nofun

theorem reads_optionalOptions {options : Option Options} (keyed : WellKeyed options) :
    Reads (option keyMap) (optionalOptions options) options := by
  cases options with
  | none => exact reads_null
  | some o => exact reads_some (reads_keyMap (keyed o rfl)) nofun

theorem reads_map {α : Type} {reader : Reader α} {write : α → Json} {as : List α}
    (reads : ∀ a ∈ as, Reads reader (write a) a) : Reads (list reader) (.arr (as.map write)) as :=
  reads_list (List.forall₂_map_left_iff.mpr (List.forall₂_same.mpr reads))

theorem EnumValue.reads_toJson {v : EnumValue} (typed : v.WellTyped) :
    Reads (EnumValue.reader origin) v.toJson v :=
  Record.reads_of_fills origin (by simp [member]) <|
    .cons (takes _ _ _ (reads_string v.name)) <|
    .cons (takes _ _ _ (reads_int32 typed.number)) <|
    .cons (takes _ _ _ (reads_optionalOptions typed.options)) (.nil _)

theorem Enum.reads_toJson {e : Enum} (typed : e.WellTyped) : Reads (Enum.reader origin) e.toJson e :=
  Record.reads_of_fills origin (by simp [member]) <|
    .cons (takes _ _ _ (reads_string e.name)) <|
    .cons (takes _ _ _ (reads_map fun v inside => EnumValue.reads_toJson (typed.values v inside))) <|
    .cons (takes _ _ _ (reads_optionalOptions typed.options)) (.nil _)

theorem Oneof.reads_toJson {o : Oneof} (typed : o.WellTyped) : Reads (Oneof.reader origin) o.toJson o :=
  Record.reads_of_fills origin (by simp [member]) <|
    .cons (takes _ _ _ (reads_string o.name)) <|
    .cons (takes _ _ _ (reads_optionalOptions typed)) (.nil _)

theorem reads_position {position : Json} {index : Option Int} (absent : index = none → position = .null)
    (given : ∀ n, index = some n → position = .int n) (small : ∀ n ∈ index, IsInt32 n) :
    Reads (option int32) position index := by
  cases index with
  | none => exact absent rfl ▸ reads_null
  | some n => exact given n rfl ▸ reads_some (reads_int32 (small n rfl)) nofun

theorem Field.reads_toJson {f : Field} (typed : f.WellTyped) : Reads (Field.reader origin) f.toJson f :=
  Record.reads_of_fills origin (by simp [member, requiredMember]) <|
    .cons (takes _ _ _ (reads_string f.name)) <|
    .cons (takes _ _ _ (reads_int32 typed.number)) <|
    .cons (takes _ _ _ (Label.reads_name f.label)) <|
    .cons (takes_required _ _ _ (FieldKind.reads_name f.kind)) <|
    .cons (takes _ _ _ (reads_optionalText f.typeName)) <|
    .cons (takes _ _ _ (reads_optionalText f.givenJsonName)) <|
    .cons (takes _ _ _ (reads_bool f.proto3Optional)) <|
    .cons (takes _ _ _ (reads_position (fun absent => by rw [absent]) (fun n given => by rw [given])
      typed.oneofIndex)) <|
    .cons (takes _ _ _ (reads_optionalOptions typed.options)) (.nil _)

theorem nestedToJson_eq (ms : List Message) : Message.toJson.nestedToJson ms = ms.map Message.toJson := by
  induction ms with
  | nil => rfl
  | cons m rest ih => rw [Message.toJson.nestedToJson, ih, List.map_cons]

theorem Message.toJson_eq (m : Message) : m.toJson = .obj [
    ("name", .str m.name),
    ("field", .arr (m.fields.map Field.toJson)),
    ("nestedType", .arr (m.nested.map Message.toJson)),
    ("enumType", .arr (m.enums.map Enum.toJson)),
    ("oneofDecl", .arr (m.oneofs.map Oneof.toJson)),
    ("options", optionalOptions m.options)] := by
  obtain ⟨name, fields, nested, enums, oneofs, options⟩ := m
  rw [Message.toJson, nestedToJson_eq]

theorem Message.reads_record {nested : Reader Message} {m : Message} (own : m.OwnTyped)
    (inner : ∀ child ∈ m.nested, Reads nested child.toJson child) :
    Reads ((Message.record origin nested).reader origin) m.toJson m := by
  obtain ⟨name, fields, children, enums, oneofs, options⟩ := m
  rw [Message.toJson_eq]
  exact Record.reads_of_fills origin (by simp [Message.record, member]) <|
    .cons (takes _ _ _ (reads_string name)) <|
    .cons (takes _ _ _ (reads_map fun f inside => Field.reads_toJson (own.fields f inside))) <|
    .cons (takes _ _ _ (reads_map inner)) <|
    .cons (takes _ _ _ (reads_map fun e inside => Enum.reads_toJson (own.enums e inside))) <|
    .cons (takes _ _ _ (reads_map fun o inside => Oneof.reads_toJson (own.oneofs o inside))) <|
    .cons (takes _ _ _ (reads_optionalOptions own.options)) (.nil _)

theorem Message.reads_within {levels : Nat} {m : Message} (typed : m.WellTyped)
    (enough : (Draft.ofJson m.toJson).height < levels) : Reads (Message.readerWithin origin levels) m.toJson m := by
  -- Messages nested in a message stand lower in its value.
  induction levels generalizing m with
  | zero => exact absurd enough (Nat.not_lt_zero _)
  | succ levels ih =>
    obtain ⟨own, nested⟩ := Message.wellTyped_iff.mp typed
    refine Message.reads_record own fun child inside => ih (nested child inside) ?_
    -- A nested message stands two containers lower: in the array of its place, in the object of the message.
    rw [Message.toJson_eq] at enough
    obtain ⟨above, rfl, room⟩ := Draft.height_obj_le.mp (Nat.le_of_lt_succ enough)
    obtain ⟨below, rfl, lower⟩ := Draft.height_arr_le.mp
      (room ("nestedType", .arr (m.nested.map Message.toJson)) (by simp))
    have height := lower child.toJson (List.mem_map_of_mem inside)
    omega

theorem Message.reads_toJson {m : Message} (typed : m.WellTyped) : Reads (Message.reader origin) m.toJson m :=
  fun allowance fits => Message.reads_within typed (Nat.lt_succ_of_le fits) allowance fits

theorem File.reads_toJson {f : File} (typed : f.WellTyped) : Reads (File.reader origin) f.toJson f :=
  Record.reads_of_fills origin (by simp [member]) <|
    .cons (takes _ _ _ (reads_string f.name)) <|
    .cons (takes _ _ _ (reads_string f.package)) <|
    .cons (takes _ _ _ (reads_map fun text _ => reads_string text)) <|
    .cons (takes _ _ _ (reads_map fun m inside => Message.reads_toJson (typed.messages m inside))) <|
    .cons (takes _ _ _ (reads_map fun e inside => Enum.reads_toJson (typed.enums e inside))) <|
    .cons (takes _ _ _ (reads_optionalOptions typed.options)) <|
    .cons (takes _ _ _ (reads_optionalText f.syntaxName)) (.nil _)

theorem FileSet.reads_toJson {s : FileSet} (typed : s.WellTyped) : Reads (FileSet.reader origin) s.toJson s :=
  Record.reads_of_fills origin (by simp [member]) <|
    .cons (takes _ _ _ (reads_map fun f inside => File.reads_toJson (typed f inside))) (.nil _)

end Written

section Given

variable {origin : Origin}

theorem gives_wellKeyed : Gives (option keyMap) WellKeyed := gives_option gives_keyMap

theorem wellKeyed_none : WellKeyed none := fun _ inside => nomatch inside

theorem isInt32_zero : IsInt32 0 := ⟨by decide, by decide⟩

theorem EnumValue.gives_wellTyped : Gives (EnumValue.reader origin) EnumValue.WellTyped := by
  refine Record.gives ⟨isInt32_zero, wellKeyed_none⟩ ?_
  simp only [List.forall_mem_cons]
  refine ⟨keeps _ (gives_any _) ?name, keeps _ gives_int32 ?number, keeps _ gives_wellKeyed ?options,
    fun _ inside => nomatch inside⟩
  case name => exact fun _ _ _ typed => ⟨typed.number, typed.options⟩
  case number => exact fun _ _ small typed => ⟨small, typed.options⟩
  case options => exact fun _ _ keyed typed => ⟨typed.number, keyed⟩

theorem Enum.gives_wellTyped : Gives (Enum.reader origin) Enum.WellTyped := by
  refine Record.gives ⟨fun _ inside => (nomatch inside), wellKeyed_none⟩ ?_
  simp only [List.forall_mem_cons]
  refine ⟨keeps _ (gives_any _) ?name, keeps _ (gives_list EnumValue.gives_wellTyped) ?values,
    keeps _ gives_wellKeyed ?options, fun _ inside => nomatch inside⟩
  case name => exact fun _ _ _ typed => ⟨typed.values, typed.options⟩
  case values => exact fun _ _ all typed => ⟨all, typed.options⟩
  case options => exact fun _ _ keyed typed => ⟨typed.values, keyed⟩

theorem Oneof.gives_wellTyped : Gives (Oneof.reader origin) Oneof.WellTyped := by
  refine Record.gives wellKeyed_none ?_
  simp only [List.forall_mem_cons]
  exact ⟨keeps _ (gives_any _) fun _ _ _ typed => typed, keeps _ gives_wellKeyed fun _ _ keyed _ => keyed,
    fun _ inside => nomatch inside⟩

theorem Field.gives_wellTyped : Gives (Field.reader origin) Field.WellTyped := by
  refine Record.gives ⟨isInt32_zero, fun _ inside => (nomatch inside), wellKeyed_none⟩ ?_
  simp only [List.forall_mem_cons]
  refine ⟨keeps _ (gives_any _) ?name, keeps _ gives_int32 ?number, keeps _ (gives_any _) ?label,
    keeps_required _ (gives_any _) ?kind, keeps _ (gives_any _) ?typeName, keeps _ (gives_any _) ?jsonName,
    keeps _ (gives_any _) ?optional, keeps _ (gives_option gives_int32) ?position, keeps _ gives_wellKeyed ?options,
    fun _ inside => nomatch inside⟩
  case number => exact fun _ _ small typed => ⟨small, typed.oneofIndex, typed.options⟩
  case position => exact fun _ _ small typed => ⟨typed.number, small, typed.options⟩
  case options => exact fun _ _ keyed typed => ⟨typed.number, typed.oneofIndex, keyed⟩
  all_goals exact fun _ _ _ typed => ⟨typed.number, typed.oneofIndex, typed.options⟩

theorem Message.gives_record {nested : Reader Message} (inner : Gives nested Message.WellTyped) :
    Gives ((Message.record origin nested).reader origin) Message.WellTyped := by
  have gives : Gives ((Message.record origin nested).reader origin)
      fun m => m.OwnTyped ∧ ∀ inner ∈ m.nested, inner.WellTyped := by
    refine Record.gives ⟨⟨?_, ?_, ?_, wellKeyed_none⟩, ?_⟩ ?each
    case each =>
      simp only [Message.record, List.forall_mem_cons]
      refine ⟨keeps _ (gives_any _) ?name, keeps _ (gives_list Field.gives_wellTyped) ?fields,
        keeps _ (gives_list inner) ?nested, keeps _ (gives_list Enum.gives_wellTyped) ?enums,
        keeps _ (gives_list Oneof.gives_wellTyped) ?oneofs, keeps _ gives_wellKeyed ?options,
        fun _ inside => nomatch inside⟩
      case name => exact fun _ _ _ ⟨own, inner⟩ => ⟨⟨own.fields, own.enums, own.oneofs, own.options⟩, inner⟩
      case fields => exact fun _ _ all ⟨own, inner⟩ => ⟨⟨all, own.enums, own.oneofs, own.options⟩, inner⟩
      case nested => exact fun _ _ all ⟨own, _⟩ => ⟨⟨own.fields, own.enums, own.oneofs, own.options⟩, all⟩
      case enums => exact fun _ _ all ⟨own, inner⟩ => ⟨⟨own.fields, all, own.oneofs, own.options⟩, inner⟩
      case oneofs => exact fun _ _ all ⟨own, inner⟩ => ⟨⟨own.fields, own.enums, all, own.options⟩, inner⟩
      case options => exact fun _ _ keyed ⟨own, inner⟩ => ⟨⟨own.fields, own.enums, own.oneofs, keyed⟩, inner⟩
    all_goals exact fun _ inside => nomatch inside
  exact fun allowance draft m run => Message.wellTyped_iff.mpr (gives allowance draft m run)

theorem Message.gives_within (levels : Nat) : Gives (Message.readerWithin origin levels) Message.WellTyped := by
  induction levels with
  | zero => exact fun _ _ _ run => nomatch run
  | succ levels ih => exact Message.gives_record ih

theorem Message.gives_wellTyped : Gives (Message.reader origin) Message.WellTyped := fun allowance =>
  Message.gives_within (allowance + 1) allowance

theorem File.gives_wellTyped : Gives (File.reader origin) File.WellTyped := by
  refine Record.gives ⟨fun _ inside => (nomatch inside), fun _ inside => (nomatch inside), wellKeyed_none⟩ ?_
  simp only [List.forall_mem_cons]
  refine ⟨keeps _ (gives_any _) ?name, keeps _ (gives_any _) ?package, keeps _ (gives_any _) ?dependencies,
    keeps _ (gives_list Message.gives_wellTyped) ?messages, keeps _ (gives_list Enum.gives_wellTyped) ?enums,
    keeps _ gives_wellKeyed ?options, keeps _ (gives_any _) ?syntaxName, fun _ inside => nomatch inside⟩
  case messages => exact fun _ _ all typed => ⟨all, typed.enums, typed.options⟩
  case enums => exact fun _ _ all typed => ⟨typed.messages, all, typed.options⟩
  case options => exact fun _ _ keyed typed => ⟨typed.messages, typed.enums, keyed⟩
  all_goals exact fun _ _ _ typed => ⟨typed.messages, typed.enums, typed.options⟩

theorem FileSet.gives_wellTyped : Gives (FileSet.reader origin) FileSet.WellTyped := by
  refine Record.gives (fun _ inside => nomatch inside) ?_
  simp only [List.forall_mem_cons]
  exact ⟨keeps _ (gives_list File.gives_wellTyped) fun _ _ all _ => all, fun _ inside => nomatch inside⟩

end Given

/-- In the value of a field, the label or the type is spelled otherwise. -/
inductive Field.Respelled : Json → Json → Prop
  | label {before after : Entries Json} {v w : Json} {label : Label} (one : Spells Label.all v label)
      (other : Spells Label.all w label) :
      Respelled (.obj (before ++ ("label", v) :: after)) (.obj (before ++ ("label", w) :: after))
  | kind {before after : Entries Json} {v w : Json} {kind : FieldKind} (one : Spells FieldKind.all v kind)
      (other : Spells FieldKind.all w kind) :
      Respelled (.obj (before ++ ("type", v) :: after)) (.obj (before ++ ("type", w) :: after))

inductive Message.Respelled : Json → Json → Prop
  | field {before after : Entries Json} {first last : List Json} {v w : Json} (inner : Field.Respelled v w) :
      Respelled (.obj (before ++ ("field", .arr (first ++ v :: last)) :: after))
        (.obj (before ++ ("field", .arr (first ++ w :: last)) :: after))
  | nested {before after : Entries Json} {first last : List Json} {v w : Json} (inner : Respelled v w) :
      Respelled (.obj (before ++ ("nestedType", .arr (first ++ v :: last)) :: after))
        (.obj (before ++ ("nestedType", .arr (first ++ w :: last)) :: after))

inductive File.Respelled : Json → Json → Prop
  | message {before after : Entries Json} {first last : List Json} {v w : Json} (inner : Message.Respelled v w) :
      Respelled (.obj (before ++ ("messageType", .arr (first ++ v :: last)) :: after))
        (.obj (before ++ ("messageType", .arr (first ++ w :: last)) :: after))

inductive FileSet.Respelled : Json → Json → Prop
  | file {before after : Entries Json} {first last : List Json} {v w : Json} (inner : File.Respelled v w) :
      Respelled (.obj (before ++ ("file", .arr (first ++ v :: last)) :: after))
        (.obj (before ++ ("file", .arr (first ++ w :: last)) :: after))

section Respelled

variable {v w : Json} {origin : Origin}

theorem indifferent_spellings {α : Type} {table : List (String × α)} {reader : Reader α} {a : α}
    (reads : ∀ {allowance value}, Spells table value a → reader allowance (Draft.ofJson value) = .ok a)
    (one : Spells table v a) (other : Spells table w a) : Indifferent reader v w := by
  refine ⟨?_, fun allowance => (reads one).trans (reads other).symm⟩
  cases one <;> cases other <;> rfl

theorem Field.indifferent (respelled : Field.Respelled v w) : Indifferent (Field.reader origin) v w := by
  cases respelled with
  | label one other =>
    exact Record.indifferent_member (indifferent_spellings Label.reader_eq_ok.mpr one other) origin rfl _ _
  | kind one other =>
    exact Record.indifferent_member (indifferent_spellings FieldKind.reader_eq_ok.mpr one other) origin rfl _ _

theorem Message.indifferent_within (respelled : Message.Respelled v w) (levels : Nat) :
    Indifferent (Message.readerWithin origin (levels + 1)) v w := by
  induction respelled generalizing levels with
  | field inner =>
    exact Record.indifferent_member (indifferent_item (Field.indifferent inner) _ _) origin rfl _ _
  | nested inner ih =>
    refine Record.indifferent_member (indifferent_item ?_ _ _) origin rfl _ _
    -- Where no level is left for what is nested, both values are refused alike.
    cases levels with
    | succ levels => exact ih levels
    | zero => exact ⟨(ih 0).1, fun _ => by simp only [Message.readerWithin, span_ofJson]⟩

theorem Message.indifferent (respelled : Message.Respelled v w) : Indifferent (Message.reader origin) v w :=
  ⟨(@Message.indifferent_within v w origin respelled 0).1, fun allowance =>
    (Message.indifferent_within respelled allowance).2 allowance⟩

theorem File.indifferent (respelled : File.Respelled v w) : Indifferent (File.reader origin) v w := by
  obtain ⟨inner⟩ := respelled
  exact Record.indifferent_member (indifferent_item (Message.indifferent inner) _ _) origin rfl _ _

theorem FileSet.ofJson_eq (respelled : FileSet.Respelled v w) : FileSet.ofJson v = FileSet.ofJson w := by
  obtain ⟨inner⟩ := respelled
  exact readJson_eq (Record.indifferent_member (indifferent_item (File.indifferent inner) _ _) .value rfl _ _)

end Respelled

/-- Every set comes back from the value that is written for it, and so does whatever a value or a text was read as. The
labels and types of a value may be spelled either way, any number of them: exactly the names and the numbers of the
tables stand for one, and nothing is read differently. -/
theorem FileSet.comes_back :
    (∀ s : FileSet, s.WellTyped → FileSet.ofJson s.toJson = .ok s) ∧
    (∀ v s, FileSet.ofJson v = .ok s → s.WellTyped ∧ FileSet.ofJson s.toJson = .ok s) ∧
    (∀ text s, FileSet.parse text = .ok s → s.WellTyped ∧ FileSet.ofJson s.toJson = .ok s) ∧
    (∀ v w, Relation.ReflTransGen FileSet.Respelled v w → FileSet.ofJson v = FileSet.ofJson w) ∧
    (∀ allowance v label, Label.reader allowance (Draft.ofJson v) = .ok label ↔ Spells Label.all v label) ∧
    (∀ allowance v kind, FieldKind.reader allowance (Draft.ofJson v) = .ok kind ↔ Spells FieldKind.all v kind) := by
  have restored (s : FileSet) (typed : s.WellTyped) : FileSet.ofJson s.toJson = .ok s :=
    FileSet.reads_toJson typed _ (Nat.le_refl _)
  refine ⟨restored, ?value, ?text, ?respelled, fun _ _ _ => Label.reader_eq_ok, fun _ _ _ => FieldKind.reader_eq_ok⟩
  case value =>
    intro v s run
    have typed := FileSet.gives_wellTyped _ _ _ run
    exact ⟨typed, restored s typed⟩
  case text =>
    intro text s run
    obtain ⟨s, read, run⟩ := bind_eq_ok run
    obtain ⟨_, _, run⟩ := bind_eq_ok run
    cases run
    have typed := FileSet.gives_wellTyped _ _ _ read
    exact ⟨typed, restored s typed⟩
  case respelled =>
    intro v w steps
    induction steps with
    | refl => rfl
    | tail _ last ih => exact ih.trans (FileSet.ofJson_eq last)

def amounts : Message :=
  ⟨"AmountsEntry", [], [], [], [], some ⟨[("mapEntry", .bool true)], List.pairwise_singleton _ _⟩⟩

def line : Message :=
  ⟨"Line", [⟨"total", 2, .optional, .int64, none, some "total", true, some 0,
      some ⟨[("[sebuf.http.int64_encoding]", .str "INT64_ENCODING_NUMBER")], List.pairwise_singleton _ _⟩⟩],
    [amounts], [⟨"Unit", [⟨"BOX", -1, none⟩], none⟩], [⟨"_total", none⟩], none⟩

def order : Message :=
  ⟨"Order", [⟨"lines", 1, .repeated, .message, some ".shop.Order.Line", none, false, none, none⟩], [line], [], [],
    some KeyMap.empty⟩

def orders : FileSet := ⟨[⟨"shop.proto", "shop", ["money.proto"], [order], [], none, some "proto3"⟩]⟩

def around (field : Json) : Json :=
  .obj [("file", .arr [.obj [("messageType", .arr [.obj [("field", .arr [field])]])]])]

theorem FileSet.orders_come_back : orders.WellTyped ∧ FileSet.ofJson orders.toJson = .ok orders ∧
    FileSet.ofJson (around (.obj [("label", .str "LABEL_REPEATED"), ("type", .str "TYPE_INT64")])) =
      FileSet.ofJson (around (.obj [("label", .int 3), ("type", .int 3)])) := by
  have own : ∀ m ∈ [amounts, line, order], m.OwnTyped := by
    simp [Message.ownTyped_iff, Enum.wellTyped_iff, EnumValue.wellTyped_iff, Oneof.WellTyped, Field.wellTyped_iff,
      WellKeyed, IsInt32, amounts, line, order, KeyMap.values, KeyMap.empty, Json.Distinct]
  simp only [List.forall_mem_cons] at own
  have third : amounts.WellTyped := Message.wellTyped_iff.mpr ⟨own.1, fun _ inside => absurd inside List.not_mem_nil⟩
  have second : line.WellTyped := Message.wellTyped_iff.mpr ⟨own.2.1, List.forall_mem_singleton.mpr third⟩
  have first : order.WellTyped := Message.wellTyped_iff.mpr ⟨own.2.2.1, List.forall_mem_singleton.mpr second⟩
  have typed : orders.WellTyped := List.forall_mem_singleton.mpr
    ⟨List.forall_mem_singleton.mpr first, fun _ inside => absurd inside List.not_mem_nil, wellKeyed_none⟩
  have inside {v w : Json} (field : Field.Respelled v w) : FileSet.Respelled (around v) (around w) :=
    @FileSet.Respelled.file [] [] [] [] _ _ <| @File.Respelled.message [] [] [] [] _ _ <|
      @Message.Respelled.field [] [] [] [] _ _ field
  have label := inside <| @Field.Respelled.label [] [("type", .str "TYPE_INT64")] (.str "LABEL_REPEATED") (.int 3)
    .repeated (.byName (by decide)) (@Spells.byNumber _ _ 2 _ _ rfl)
  have kind := inside <| @Field.Respelled.kind [("label", .int 3)] [] (.str "TYPE_INT64") (.int 3) .int64
    (.byName (by decide)) (@Spells.byNumber _ _ 2 _ _ rfl)
  exact ⟨typed, FileSet.comes_back.1 orders typed, FileSet.comes_back.2.2.2.1 _ _ (.tail (.single label) kind)⟩

end Wireform.Schema
