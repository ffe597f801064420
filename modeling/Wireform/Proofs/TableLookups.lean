import Wireform.Proofs.EnumTables
import Wireform.Proofs.Documents

set_option autoImplicit false

namespace Wireform

namespace GoCode

def found? {κ ν : Type} [DecidableEq κ] (entries : List (κ × ν)) (key : κ) : Option ν :=
  (entries.find? (·.1 == key)).map (·.2)

namespace Table

def text? : Table → String → Option String
  | .texts entries, text => found? entries text
  | _, _ => none

def number? : Table → String → Option Int
  | .numbers entries, text => found? entries text
  | _, _ => none

def name? : Table → Int → Option String
  | .byNumber entries, number => found? entries number
  | _, _ => none

def KeysDistinct : Table → Prop
  | .texts entries => (entries.map (·.1)).Nodup
  | .numbers entries => (entries.map (·.1)).Nodup
  | .byNumber entries => (entries.map (·.1)).Nodup

end Table

section Entries

variable {κ ν α : Type} [DecidableEq κ]

theorem found?_map (items : List α) (key : α → κ) (value : α → ν) (wanted : κ) :
    found? (items.map fun item => (key item, value item)) wanted =
      (items.find? fun item => key item == wanted).map value := by
  rw [found?, List.find?_map, Option.map_map]
  rfl

theorem found?_append (first second : List (κ × ν)) (wanted : κ) :
    found? (first ++ second) wanted = (found? first wanted).or (found? second wanted) := by
  rw [found?, found?, found?, List.find?_append]
  cases first.find? (·.1 == wanted) <;> rfl

end Entries

section Tables

variable (table : List EnumName)

theorem text?_namesTable (text : String) :
    (namesTable table).text? text = (EnumName.named? table text).map (·.wire) :=
  found?_map table _ _ text

theorem number?_numbersTable (text : String) :
    (numbersTable table).number? text = (EnumName.named? table text).map (·.number) :=
  found?_map table _ _ text

theorem text?_valuesTable (text : String) :
    (valuesTable table).text? text = (EnumName.findWire? table (.str text)).map (·.name) := by
  have own : found? ((table.filter fun e => !(table.map (·.wire)).contains e.name).map fun e => (e.name, e.name)) text =
      ((table.filter fun e => !(table.map (·.wire)).contains e.name).find? (·.name == text)).map (·.name) :=
    found?_map _ _ _ text
  rw [valuesTable, Table.text?, found?_append, found?_map, own, EnumName.findWire?, EnumName.named?]
  cases wired : table.find? (·.wire == text) with
  | some e => rfl
  | none =>
    -- The text is no wire name, so the filter keeps every value that it could name.
    have unwired : (table.map (·.wire)).contains text = false := by
      simpa using List.find?_eq_none.mp wired
    have listed (e : EnumName) : ((!(table.map (·.wire)).contains e.name) = true ∧ (e.name == text) = true) ↔
        (e.name == text) = true := by
      refine and_iff_right_of_imp fun same => ?_
      rw [eq_of_beq same, unwired, Bool.not_false]
    simp only [List.find?_filter, listed, Bool.decide_eq_true, Option.map_none, Option.none_or]

theorem firstOfEach_found? (seen : List Int) (number : Int) : found? (firstOfEach seen table) number =
    if number ∈ seen then none else (table.find? (·.number == number)).map (·.name) := by
  induction table generalizing seen with
  | nil => simp [firstOfEach, found?]
  | cons e rest ih =>
    rw [firstOfEach]
    by_cases before : e.number ∈ seen
    · have other : number ∉ seen → e.number ≠ number := fun fresh same => fresh (same ▸ before)
      rw [if_pos (by simpa using before), ih]
      split
      · rfl
      · rename_i fresh
        rw [List.find?_cons_of_neg (by simpa using other fresh)]
    · rw [if_neg (by simpa using before), found?]
      by_cases same : e.number = number
      · subst same
        simp [before]
      · rw [List.find?_cons_of_neg (by simpa using same), List.find?_cons_of_neg (by simpa using same), ← found?, ih]
        simp [Ne.symm same]

theorem name?_byNumberTable (number : Int) :
    (byNumberTable table).name? number = (table.find? (·.number == number)).map (·.name) := by
  rw [byNumberTable, Table.name?, firstOfEach_found?, if_neg (List.not_mem_nil)]

theorem firstOfEach_nodup (seen : List Int) : ((firstOfEach seen table).map (·.1)).Nodup ∧
    ∀ number ∈ (firstOfEach seen table).map (·.1), number ∉ seen := by
  induction table generalizing seen with
  | nil => simp [firstOfEach]
  | cons e rest ih =>
    rw [firstOfEach]
    split
    · exact ih seen
    · rename_i fresh
      obtain ⟨nodup, apart⟩ := ih (seen ++ [e.number])
      refine ⟨List.nodup_cons.mpr ⟨fun inside => apart _ inside (by simp), nodup⟩, fun number inside => ?_⟩
      rcases List.mem_cons.mp inside with rfl | later
      · simpa using fresh
      · exact fun before => apart number later (List.mem_append_left _ before)

variable {table}

theorem namesTable_keys (names : (table.map (·.name)).Nodup) : (namesTable table).KeysDistinct := by
  rw [namesTable, Table.KeysDistinct, List.map_map]
  exact names

theorem numbersTable_keys (names : (table.map (·.name)).Nodup) : (numbersTable table).KeysDistinct := by
  rw [numbersTable, Table.KeysDistinct, List.map_map]
  exact names

theorem byNumberTable_keys : (byNumberTable table).KeysDistinct := (firstOfEach_nodup table []).1

theorem valuesTable_keys (names : (table.map (·.name)).Nodup) (wires : (table.map (·.wire)).Nodup) :
    (valuesTable table).KeysDistinct := by
  rw [valuesTable, Table.KeysDistinct, List.map_append, List.map_map, List.map_map]
  refine List.nodup_append.mpr ⟨wires, names.sublist (List.filter_sublist.map _), ?_⟩
  rintro wire inside name there rfl
  obtain ⟨e, picked, rfl⟩ := List.mem_map.mp there
  have wired : (table.map (·.wire)).contains e.name = true := List.contains_iff_mem.mpr inside
  have unwired := (List.mem_filter.mp picked).2
  rw [wired] at unwired
  cases unwired

end Tables

end GoCode

namespace Index.Enum

open GoCode

def naming (e : Enum) (type : String) : Transform := .enumCustomNames type (e.table EnumValue.wireName)

def numbering (e : Enum) (type : String) : Transform := .enumAsNumber type (e.table fun v => toString v.number)

/-- The tables for the custom names of an enum give what the codec makes of texts. -/
structure NamesAgree (e : Enum) (type : String) (names values : Table) : Prop where
  encoded : ∀ text, (e.naming type).encodeValue (.str text) = .ok (.str ((names.text? text).getD text))
  unnamed : ∀ text, names.text? text = none ↔ ∀ v ∈ e.values, v.name ≠ text
  decoded : ∀ text, (e.naming type).decodeValue (.str text) =
    match values.text? text with
    | some name => .ok (.str name)
    | none => .error (.unknownEnum (.str text))
  returned : ∀ v ∈ e.values, (e.naming type).decodeValue (.str v.wireName) = .ok (.str v.name)
  names_keys : names.KeysDistinct
  values_keys : values.KeysDistinct

/-- The tables for the numbers of an enum give what the codec makes of texts and of numbers of 32 bits. -/
structure NumbersAgree (e : Enum) (type : String) (numbers byNumber : Table) : Prop where
  encoded : ∀ text, (e.numbering type).encodeValue (.str text) =
    .ok (((numbers.number? text).map Json.int).getD (.str text))
  decoded : ∀ n : Int, -0x80000000 ≤ n → n < 0x80000000 → (e.numbering type).decodeValue (.int n) =
    .ok (((byNumber.name? n).map Json.str).getD (.int n))
  numbers_keys : numbers.KeysDistinct
  byNumber_keys : byNumber.KeysDistinct

variable {e : Enum}

theorem table_names (e : Enum) (wire : EnumValue → String) :
    (e.table wire).map EnumName.name = e.values.map (·.name) := by
  rw [Enum.table, List.map_map]
  rfl

theorem named?_table_none {wire : EnumValue → String} {text : String} :
    EnumName.named? (e.table wire) text = none ↔ ∀ v ∈ e.values, v.name ≠ text := by
  rw [EnumName.named?, Enum.table, List.find?_map, Option.map_eq_none_iff, List.find?_eq_none]
  exact forall₂_congr fun v _ => by simp

theorem namesAgree (names : (e.values.map (·.name)).Nodup) (wires : (e.values.map EnumValue.wireName).Nodup)
    (type : String) : e.NamesAgree type (TableKind.ofEnum e .names) (TableKind.ofEnum e .values) := by
  have wires' : ((e.table EnumValue.wireName).map (·.wire)).Nodup := by
    rw [wires_table]
    exact wires
  have names' : ((e.table EnumValue.wireName).map (·.name)).Nodup := by
    rw [table_names]
    exact names
  refine
    { encoded := fun text => ?_
      unnamed := fun text => ?_
      decoded := fun text => ?_
      returned := fun v inside => ?_
      names_keys := namesTable_keys names'
      values_keys := valuesTable_keys names' wires' }
  · rw [TableKind.ofEnum, text?_namesTable]
    simp only [naming, Transform.encodeValue, EnumName.find?]
    cases EnumName.named? (e.table EnumValue.wireName) text <;> rfl
  · rw [TableKind.ofEnum, text?_namesTable, Option.map_eq_none_iff, named?_table_none]
  · rw [TableKind.ofEnum, text?_valuesTable]
    simp only [naming, Transform.decodeValue, EnumName.decode]
    cases EnumName.findWire? (e.table EnumValue.wireName) (.str text) <;> rfl
  · have inside : (⟨v.name, v.number, v.wireName⟩ : EnumName) ∈ e.table EnumValue.wireName :=
      List.mem_map.mpr ⟨v, inside, rfl⟩
    exact EnumName.decode_wire wires' inside

theorem numbersAgree (names : (e.values.map (·.name)).Nodup) (type : String) :
    e.NumbersAgree type (TableKind.ofEnum e .numbers) (TableKind.ofEnum e .byNumber) := by
  have names' : ((e.table fun v => toString v.number).map (·.name)).Nodup := by
    rw [table_names]
    exact names
  refine
    { encoded := fun text => ?_
      decoded := fun n low high => ?_
      numbers_keys := numbersTable_keys names'
      byNumber_keys := byNumberTable_keys }
  · rw [TableKind.ofEnum, number?_numbersTable]
    simp only [numbering, Transform.encodeValue, EnumName.find?]
    cases EnumName.named? (e.table fun v => toString v.number) text <;> rfl
  · have small : n < 0x8000000000000000 := by omega
    have signed := TimestampFormat.toSigned?_int small
    rw [TableKind.ofEnum, name?_byNumberTable]
    simp only [numbering, Transform.decodeValue, EnumName.decode, Json.int, EnumName.findWire?, EnumName.numbered?,
      signed, Option.bind_eq_bind, Option.bind_some]
    cases (e.table fun v => toString v.number).find? (·.number == n) <;> rfl

def shades : Enum :=
  ⟨"t.Shade", "Shade", "t.proto", "t", [⟨"DARK", 0, some "dark"⟩, ⟨"DIM", 0, some "DIM"⟩, ⟨"PALE", 1, some "pale"⟩], false⟩

end Index.Enum

end Wireform
