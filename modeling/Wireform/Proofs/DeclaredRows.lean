import Wireform.Proofs.PropertyTables
import Wireform.TypeScript

set_option autoImplicit false

namespace Wireform

def TypeScript.interfaceText (ident : String) (declared : List Declared) : String :=
  "export interface " ++ ident ++ " \x7b\n" ++ String.join (declared.map Declared.line) ++ "\x7d\n"

structure Row where
  key : String
  shown : Shown
  lifted : Bool

namespace Row

def addLifted (rows lifted : List Row) : List Row :=
  lifted.foldl (fun all row =>
    if all.any (·.key == row.key) then all else all ++ [{ row with lifted := true }]) rows

def add : List Row → Property → List Row
  | rows, .discriminator key values => rows ++ [⟨key, .tag values, false⟩]
  | rows, .own key role member => rows ++ [⟨key, .member role member, false⟩]
  | rows, .lifted properties => addLifted rows (addAll [] properties)
where
  addAll : List Row → List Property → List Row
    | rows, [] => rows
    | rows, property :: rest => addAll (add rows property) rest

def ofProperties (properties : List Property) : List Row := add.addAll [] properties

def declared (context : TypeScript.Context) (row : Row) : TypeScript.Declared :=
  match row.shown with
  | .tag values => ⟨row.key, .literals values, true⟩
  | .member _ seen => ⟨row.key, context.propertyShape seen, row.lifted || !seen.has .nullable⟩

def required (row : Row) : List String :=
  match row.lifted, row.shown with
  | false, .member .plain seen => (seen.transforms.filter (· == .nullable)).map fun _ => row.key
  | _, _ => []

def entry (context : OpenApi.Context) (row : Row) : String × JsonSchema := (row.key, row.shown.schema context)

def object (context : OpenApi.Context) (rows : List Row) : OpenApi.Object :=
  ⟨rows.map (entry context), rows.flatMap required⟩

section Interfaces

variable {context : TypeScript.Context}

theorem declared_key (row : Row) : (row.declared context).key = row.key := by
  unfold declared
  split <;> rfl

theorem declared_lifted (row : Row) :
    ({ row with lifted := true } : Row).declared context = { row.declared context with optional := true } := by
  obtain ⟨key, shown, lifted⟩ := row
  cases shown <;> rfl

theorem any_declared (rows : List Row) (key : String) :
    (rows.map (declared context)).any (·.key == key) = rows.any (·.key == key) := by
  simp only [List.any_map, Function.comp_def, declared_key]

theorem declared_addLifted (rows lifted : List Row) :
    (addLifted rows lifted).map (declared context) =
      TypeScript.addLifted (rows.map (declared context)) (lifted.map (declared context)) := by
  unfold addLifted TypeScript.addLifted
  induction lifted generalizing rows with
  | nil => rfl
  | cons row rest ih =>
    rw [List.map_cons, List.foldl_cons, List.foldl_cons, ih, any_declared, declared_key]
    split
    · rfl
    · rw [List.map_append, List.map_singleton, declared_lifted]
      simp only [declared_key]

mutual

theorem declared_add : ∀ (p : Property) (rows : List Row),
    (add rows p).map (declared context) = TypeScript.addProperty context (rows.map (declared context)) p
  | .discriminator _ _, rows => List.map_append
  | .own _ _ _, rows => List.map_append
  | .lifted properties, rows => by
    rw [add, declared_addLifted, declared_addAll properties [], TypeScript.addProperty, List.map_nil]

theorem declared_addAll : ∀ (properties : List Property) (rows : List Row),
    (add.addAll rows properties).map (declared context) =
      TypeScript.addProperty.addAll context (rows.map (declared context)) properties
  | [], rows => rfl
  | p :: rest, rows => by
    rw [add.addAll, declared_addAll rest, declared_add p, TypeScript.addProperty.addAll]

end

theorem addAll_eq_foldl (properties : List Property) (all : List TypeScript.Declared) :
    TypeScript.addProperty.addAll context all properties =
      properties.foldl (TypeScript.addProperty context) all := by
  induction properties generalizing all with
  | nil => rfl
  | cons p rest ih => exact ih _

theorem declared_keys (context : TypeScript.Context) (rows : List Row) :
    (rows.map (declared context)).map TypeScript.Declared.key = rows.map (·.key) := by
  rw [List.map_map]
  exact List.map_congr_left fun row _ => declared_key row

theorem declaredProperties_eq (properties : List Property) :
    context.declaredProperties properties = (ofProperties properties).map (declared context) := by
  rw [ofProperties, declared_addAll, addAll_eq_foldl]
  rfl

theorem messageText_of_alias {m : Index.Message} {member : Member}
    (form : Interface.ofMessage context.index context.plans m = .alias member) :
    context.messageText m = "export type " ++ m.ident ++ " = " ++ (context.memberShape member).text ++ ";\n" := by
  rw [TypeScript.Context.messageText, form]

theorem messageText_of_object {m : Index.Message} {properties : List Property}
    (form : Interface.ofMessage context.index context.plans m = .object properties) :
    context.messageText m = TypeScript.interfaceText m.ident ((ofProperties properties).map (declared context)) := by
  rw [TypeScript.Context.messageText, form, ← declaredProperties_eq]
  rfl

end Interfaces

end Row

def Property.key? : Property → Option String
  | .discriminator key _ => some key
  | .own key _ _ => some key
  | .lifted _ => none

def Property.Before (first second : Property) : Prop :=
  ∀ key, second.key? = some key → ∀ shown, ¬ first.Shows key shown

inductive Property.Apart : Property → Prop
  | discriminator (key : String) (values : List String) : Apart (.discriminator key values)
  | own (key : String) {role : Role} (member : Member) (known : role ≠ .stray) : Apart (.own key role member)
  | lifted {properties : List Property} (each : ∀ p ∈ properties, Apart p)
      (pairs : properties.Pairwise Property.Before) : Apart (.lifted properties)

namespace Row

theorem mem_addLifted {rows lifted : List Row} {row : Row} (inside : row ∈ addLifted rows lifted) :
    row ∈ rows ∨ ∃ other ∈ lifted, row = { other with lifted := true } := by
  unfold addLifted at inside
  induction lifted generalizing rows with
  | nil => exact .inl inside
  | cons head rest ih =>
    rcases ih inside with before | ⟨other, there, same⟩
    · dsimp only at before
      split at before
      · exact .inl before
      · rcases List.mem_append.mp before with before | own
        · exact .inl before
        · exact .inr ⟨head, List.mem_cons_self, List.mem_singleton.mp own⟩
    · exact .inr ⟨other, List.mem_cons_of_mem _ there, same⟩

mutual

theorem shows_of_add {row : Row} : ∀ (p : Property), p.Apart → ∀ rows, row ∈ add rows p →
    row ∈ rows ∨ p.Shows row.key row.shown
  | .discriminator key values, _, rows, inside => by
    rcases List.mem_append.mp inside with before | own
    · exact .inl before
    · cases List.mem_singleton.mp own
      exact .inr (.discriminator key values)
  | .own key role member, apart, rows, inside => by
    rcases List.mem_append.mp inside with before | own
    · exact .inl before
    · cases List.mem_singleton.mp own
      cases apart with
      | own _ _ known => exact .inr (.own key member known)
  | .lifted properties, apart, rows, inside => by
    rcases mem_addLifted inside with before | ⟨other, there, rfl⟩
    · exact .inl before
    · cases apart with
      | lifted each _ =>
        obtain ⟨p, among, shows⟩ := (shows_of_addAll properties each [] there).resolve_left (nomatch ·)
        exact .inr (.lifted among shows)

theorem shows_of_addAll {row : Row} : ∀ (properties : List Property), (∀ p ∈ properties, p.Apart) → ∀ rows,
    row ∈ add.addAll rows properties → row ∈ rows ∨ ∃ p ∈ properties, p.Shows row.key row.shown
  | [], _, rows, inside => .inl inside
  | p :: rest, each, rows, inside => by
    rcases shows_of_addAll rest (fun q there => each q (List.mem_cons_of_mem p there)) _ inside with
      before | ⟨q, there, shows⟩
    · exact (shows_of_add p (each p List.mem_cons_self) rows before).imp_right fun shows =>
        ⟨p, List.mem_cons_self, shows⟩
    · exact .inr ⟨q, List.mem_cons_of_mem p there, shows⟩

end

section Components

variable {context : OpenApi.Context}

theorem mem_keys_entries {rows : List Row} {key : String} :
    key ∈ Entries.keys (rows.map (entry context)) ↔ rows.any (·.key == key) = true := by
  simp [Entries.keys, entry]

theorem object_append (rows : List Row) (row : Row) (fresh : rows.any (·.key == row.key) = false) :
    object context (rows ++ [row]) =
      ⟨(object context rows).properties.insert row.key (row.shown.schema context),
        (object context rows).required ++ row.required⟩ := by
  have absent : row.key ∉ Entries.keys (rows.map (entry context)) := by
    rw [mem_keys_entries, fresh]
    exact Bool.false_ne_true
  rw [object, object, Entries.insert_of_not_mem absent]
  simp [entry]

theorem required_lifted (row : Row) : ({ row with lifted := true } : Row).required = [] := by
  obtain ⟨key, shown, lifted⟩ := row
  cases shown <;> rfl

theorem contains_object (rows : List Row) (key : String) :
    (object context rows).properties.contains key = rows.any (·.key == key) := by
  rw [Bool.eq_iff_iff, Entries.contains, Option.isSome_iff_exists, ← Entries.mem_keys_iff]
  exact mem_keys_entries

theorem object_addLifted (rows lifted : List Row) :
    object context (addLifted rows lifted) =
      { object context rows with
        properties := OpenApi.Object.addAbsent (object context rows).properties (object context lifted).properties } := by
  unfold addLifted OpenApi.Object.addAbsent
  induction lifted generalizing rows with
  | nil => rfl
  | cons row rest ih =>
    have next : object context (if rows.any (·.key == row.key) then rows else rows ++ [{ row with lifted := true }]) =
        { object context rows with
          properties := if (object context rows).properties.contains row.key then (object context rows).properties
            else (object context rows).properties.insert row.key (row.shown.schema context) } := by
      rw [contains_object]
      cases there : rows.any (·.key == row.key) with
      | true => rfl
      | false =>
        rw [if_neg Bool.false_ne_true, if_neg Bool.false_ne_true]
        refine (object_append rows { row with lifted := true } there).trans ?_
        rw [required_lifted, List.append_nil]
    rw [List.foldl_cons, ih, next]
    rfl

mutual

theorem object_add : ∀ (p : Property), p.Apart → ∀ rows : List Row,
    (∀ key, p.key? = some key → rows.any (·.key == key) = false) →
      object context (add rows p) = OpenApi.Object.add context (object context rows) p
  | .discriminator key values, _, rows, fresh => by
    rw [add, object_append rows _ (fresh key rfl), OpenApi.Object.add]
    simp [required, Shown.schema]
  | .own key .stray member, apart, rows, fresh => by cases apart with | own _ _ known => exact absurd rfl known
  | .own key .variant member, _, rows, fresh => by
    rw [add, object_append rows _ (fresh key rfl), OpenApi.Object.add]
    simp [required, Shown.schema]
  | .own key .plain member, _, rows, fresh => by
    rw [add, object_append rows _ (fresh key rfl), OpenApi.Object.add]
    rfl
  | .lifted properties, apart, rows, _ => by
    cases apart with
    | lifted each pairs =>
      rw [add, object_addLifted, object_addAll properties each pairs [] (fun _ _ _ _ => rfl), OpenApi.Object.add]
      rfl

theorem object_addAll : ∀ (properties : List Property), (∀ p ∈ properties, p.Apart) →
    properties.Pairwise Property.Before → ∀ rows : List Row,
      (∀ p ∈ properties, ∀ key, p.key? = some key → rows.any (·.key == key) = false) →
        object context (add.addAll rows properties) = OpenApi.Object.add.addAll context (object context rows) properties
  | [], _, _, rows, _ => rfl
  | p :: rest, each, pairs, rows, fresh => by
    obtain ⟨before, later⟩ := List.pairwise_cons.mp pairs
    have apart := each p List.mem_cons_self
    rw [add.addAll, OpenApi.Object.add.addAll, ← object_add p apart rows (fresh p List.mem_cons_self)]
    refine object_addAll rest (fun q there => each q (List.mem_cons_of_mem p there)) later (add rows p)
      fun q there key written => ?_
    rw [← Bool.not_eq_true, List.any_eq_true]
    rintro ⟨row, inside, same⟩
    cases beq_iff_eq.mp same
    rcases shows_of_add p apart rows inside with known | shows
    · have absent := fresh q (List.mem_cons_of_mem p there) row.key written
      rw [← Bool.not_eq_true] at absent
      exact absent (List.any_eq_true.mpr ⟨row, known, beq_self_eq_true _⟩)
    · exact before q there row.key written row.shown shows

end

theorem ofProperties_eq {properties : List Property} (each : ∀ p ∈ properties, p.Apart)
    (pairs : properties.Pairwise Property.Before) :
    OpenApi.Object.ofProperties context properties = object context (ofProperties properties) := by
  rw [OpenApi.Object.ofProperties, ← OpenApi.Object.addAll_eq, ofProperties,
    object_addAll properties each pairs [] (fun _ _ _ _ => rfl)]
  rfl

end Components

end Row

end Wireform
