import Wireform.OpenApi
import Wireform.Proofs.DocumentComponents

set_option autoImplicit false

namespace Wireform

inductive Shown where
  | tag (values : List String)
  | member (role : Role) (member : Member)

namespace Shown

def schema (context : OpenApi.Context) : Shown → JsonSchema
  | .tag values => .ofTexts values
  | .member .plain seen => context.propertySchema seen
  | .member _ seen => context.memberSchema seen

def reference? (context : OpenApi.Context) : Shown → Option String
  | .tag _ => none
  | .member _ seen => context.memberReference? seen

end Shown

inductive Property.Shows : Property → String → Shown → Prop
  | discriminator (key : String) (values : List String) : Shows (.discriminator key values) key (.tag values)
  | own (key : String) {role : Role} (member : Member) (known : role ≠ .stray) :
      Shows (.own key role member) key (.member role member)
  | lifted {properties : List Property} {p : Property} {key : String} {shown : Shown} (inside : p ∈ properties)
      (below : Shows p key shown) : Shows (.lifted properties) key shown

theorem Entries.mem_insert {α : Type} {entries : Entries α} {key : String} {value : α} {entry : String × α}
    (inside : entry ∈ entries.insert key value) : entry = (key, value) ∨ entry ∈ entries := by
  induction entries with
  | nil => exact .inl (List.mem_singleton.mp inside)
  | cons head rest ih =>
    obtain ⟨k, v⟩ := head
    simp only [insert] at inside
    split at inside
    · rename_i same
      subst same
      exact (List.mem_cons.mp inside).imp_right (List.mem_cons_of_mem _)
    · rcases List.mem_cons.mp inside with rfl | there
      · exact .inr List.mem_cons_self
      · exact (ih there).imp_right (List.mem_cons_of_mem _)

theorem Entries.contains_insert {α : Type} {entries : Entries α} {key other : String} {value : α}
    (there : other = key ∨ entries.contains other = true) : (entries.insert key value).contains other = true := by
  rw [contains, get?_insert]
  split
  · rfl
  · rename_i differs
    exact there.resolve_left fun same => differs same.symm

namespace OpenApi.Object

variable {context : Context}

section Absent

variable {properties more : Entries JsonSchema}

theorem mem_addAbsent {entry : String × JsonSchema} (inside : entry ∈ addAbsent properties more) :
    entry ∈ properties ∨ entry ∈ more := by
  unfold addAbsent at inside
  induction more generalizing properties with
  | nil => exact .inl inside
  | cons head rest ih =>
    rcases ih inside with before | later
    · dsimp only at before
      split at before
      · exact .inl before
      · rcases Entries.mem_insert before with rfl | before
        · exact .inr List.mem_cons_self
        · exact .inl before
    · exact .inr (List.mem_cons_of_mem _ later)

theorem contains_addAbsent {key : String} (there : properties.contains key = true ∨ key ∈ more.keys) :
    (addAbsent properties more).contains key = true := by
  unfold addAbsent
  induction more generalizing properties with
  | nil => exact there.resolve_right (nomatch ·)
  | cons head rest ih =>
    obtain ⟨k, schema⟩ := head
    apply ih
    rw [Entries.keys, List.map_cons, List.mem_cons] at there
    dsimp only
    split
    · rename_i present
      rcases there with there | rfl | later
      · exact .inl there
      · exact .inl present
      · exact .inr later
    · rcases there with there | rfl | later
      · exact .inl (Entries.contains_insert (.inr there))
      · exact .inl (Entries.contains_insert (.inl rfl))
      · exact .inr later

end Absent

mutual

theorem shows_of_add {entry : String × JsonSchema} : ∀ (p : Property) (o : Object),
    entry ∈ (add context o p).properties →
      entry ∈ o.properties ∨ ∃ shown, p.Shows entry.1 shown ∧ entry.2 = shown.schema context
  | .discriminator key values, o, inside => by
    rcases Entries.mem_insert inside with rfl | before
    · exact .inr ⟨_, .discriminator key values, rfl⟩
    · exact .inl before
  | .own key .stray member, o, inside => .inl inside
  | .own key .variant member, o, inside => by
    rcases Entries.mem_insert inside with rfl | before
    · exact .inr ⟨_, .own key member (by decide), rfl⟩
    · exact .inl before
  | .own key .plain member, o, inside => by
    rcases Entries.mem_insert inside with rfl | before
    · exact .inr ⟨_, .own key member (by decide), rfl⟩
    · exact .inl before
  | .lifted properties, o, inside => by
    rcases mem_addAbsent inside with before | more
    · exact .inl before
    · rcases shows_of_addAll properties empty more with before | ⟨p, there, shown, shows, same⟩
      · cases before
      · exact .inr ⟨shown, .lifted there shows, same⟩

theorem shows_of_addAll {entry : String × JsonSchema} : ∀ (properties : List Property) (o : Object),
    entry ∈ (add.addAll context o properties).properties →
      entry ∈ o.properties ∨ ∃ p ∈ properties, ∃ shown, p.Shows entry.1 shown ∧ entry.2 = shown.schema context
  | [], o, inside => .inl inside
  | p :: rest, o, inside => by
    rcases shows_of_addAll rest (add context o p) inside with before | ⟨q, there, shows⟩
    · rcases shows_of_add p o before with before | shows
      · exact .inl before
      · exact .inr ⟨p, List.mem_cons_self, shows⟩
    · exact .inr ⟨q, List.mem_cons_of_mem p there, shows⟩

end

mutual

theorem contains_add (key : String) : ∀ (p : Property) (o : Object),
    (o.properties.contains key = true ∨ ∃ shown, p.Shows key shown) →
      (add context o p).properties.contains key = true
  | .discriminator _ _, o, there => by
    refine Entries.contains_insert (there.symm.imp_left ?_)
    rintro ⟨_, shows⟩
    cases shows
    rfl
  | .own _ .stray _, o, there => by
    refine there.resolve_right ?_
    rintro ⟨_, shows⟩
    cases shows
    contradiction
  | .own _ .variant _, o, there => by
    refine Entries.contains_insert (there.symm.imp_left ?_)
    rintro ⟨_, shows⟩
    cases shows
    rfl
  | .own _ .plain _, o, there => by
    refine Entries.contains_insert (there.symm.imp_left ?_)
    rintro ⟨_, shows⟩
    cases shows
    rfl
  | .lifted properties, o, there => by
    have lifted := contains_addAll key properties empty
    refine contains_addAbsent (there.imp_right ?_)
    rintro ⟨shown, shows⟩
    cases shows with
    | lifted inside below =>
      obtain ⟨schema, found⟩ := Option.isSome_iff_exists.mp (lifted (.inr ⟨_, inside, shown, below⟩))
      exact Entries.mem_keys_iff.mpr ⟨schema, found⟩

theorem contains_addAll (key : String) : ∀ (properties : List Property) (o : Object),
    (o.properties.contains key = true ∨ ∃ p ∈ properties, ∃ shown, p.Shows key shown) →
      (add.addAll context o properties).properties.contains key = true
  | [], o, there => there.resolve_right fun ⟨_, inside, _⟩ => nomatch inside
  | p :: rest, o, there => by
    have first := contains_add key p o
    refine contains_addAll key rest (add context o p) ?_
    rcases there with before | ⟨q, inside, shows⟩
    · exact .inl (first (.inl before))
    · rcases List.mem_cons.mp inside with same | later
      · exact .inl (first (.inr (same ▸ shows)))
      · exact .inr ⟨q, later, shows⟩

end

theorem addAll_eq (properties : List Property) (o : Object) :
    add.addAll context o properties = properties.foldl (add context) o := by
  induction properties generalizing o with
  | nil => rfl
  | cons p rest ih => exact ih (add context o p)

section Message

variable {properties : List Property}

theorem shows_of_mem {key : String} {schema : JsonSchema}
    (inside : (key, schema) ∈ (ofProperties context properties).properties) :
    ∃ p ∈ properties, ∃ shown, p.Shows key shown ∧ schema = shown.schema context := by
  rw [ofProperties, ← addAll_eq] at inside
  exact (shows_of_addAll properties empty inside).resolve_left (nomatch ·)

variable (context) in
theorem exists_property {p : Property} (inside : p ∈ properties) {key : String} {shown : Shown}
    (shows : p.Shows key shown) : ∃ schema, (ofProperties context properties).properties.get? key = some schema := by
  rw [ofProperties, ← addAll_eq]
  exact Option.isSome_iff_exists.mp (contains_addAll key properties empty (.inr ⟨p, inside, shown, shows⟩))

theorem mem_required {key : String} :
    key ∈ (ofProperties context properties).required ↔ ∃ member, .own key .plain member ∈ properties ∧
      Transform.nullable ∈ member.transforms := by
  suffices ∀ o : Object, key ∈ (properties.foldl (add context) o).required ↔ key ∈ o.required ∨
      ∃ member, .own key .plain member ∈ properties ∧ Transform.nullable ∈ member.transforms by
    rw [ofProperties, this]
    simp [empty]
  induction properties with
  | nil => simp
  | cons p rest ih =>
    intro o
    rw [List.foldl_cons, ih]
    cases p with
    | discriminator key values => simp [add]
    | lifted properties => simp [add]
    | own k role member =>
      cases role <;> simp [add, eq_comm (a := key)]
      grind

end Message

end OpenApi.Object

namespace OpenApi

variable {context : Context}

theorem type_of_elementReference? {member : Member} {type : String}
    (refers : Context.elementReference? member = some type) :
    member.field.message? = some type ∨ member.field.enum? = some type := by
  rw [Context.elementReference?] at refers
  cases typed : member.field.type with
  | scalar => rw [typed] at refers; cases refers
  | enum name =>
    rw [typed] at refers
    dsimp only at refers
    split at refers
    · cases refers
    · exact .inr (by rw [Index.Field.enum?, typed]; exact refers)
  | message name =>
    rw [typed] at refers
    dsimp only at refers
    split at refers
    · cases refers
    · exact .inl (by rw [Index.Field.message?, typed]; exact refers)

theorem ofList_eq (properties : List Property) :
    propertyReferences.ofList context properties = properties.flatMap (propertyReferences context) := by
  induction properties with
  | nil => rfl
  | cons p rest ih => rw [propertyReferences.ofList, ih, List.flatMap_cons]

theorem mem_propertyReferences {p : Property} {key : String} {shown : Shown} (shows : p.Shows key shown)
    {type : String} (refers : shown.reference? context = some type) : type ∈ propertyReferences context p := by
  induction shows with
  | discriminator => cases refers
  | own key member known =>
    rename_i role
    rw [Shown.reference?] at refers
    cases role with
    | stray => exact absurd rfl known
    | plain | variant => simp [propertyReferences, refers]
  | lifted inside _ ih =>
    rw [propertyReferences, ofList_eq]
    exact List.mem_flatMap.mpr ⟨_, inside, ih refers⟩

end OpenApi

namespace JsonSchema

def property? (schema : JsonSchema) (key : String) : Option JsonSchema :=
  match schema with
  | .all keywords => keywords.findSome? fun keyword =>
    match keyword with
    | .properties entries => Entries.get? entries key
    | _ => none
  | _ => none

def requiredKeys : JsonSchema → List String
  | .all keywords => keywords.flatMap fun keyword =>
    match keyword with
    | .required keys => keys
    | _ => []
  | _ => []

theorem property?_object (o : OpenApi.Object) (key : String) : o.schema.property? key = o.properties.get? key := by
  rw [OpenApi.Object.schema, property?]
  cases found : o.properties.get? key with
  | none => by_cases free : o.required.isEmpty = true <;> simp [free, found]
  | some schema => simp [found]

theorem requiredKeys_object (o : OpenApi.Object) : o.schema.requiredKeys = o.required := by
  rw [OpenApi.Object.schema, requiredKeys]
  by_cases free : o.required.isEmpty = true
  · simp [List.isEmpty_iff.mp free]
  · simp [free]

theorem accepts_object {components : Entries JsonSchema} {least : Nat} {o : OpenApi.Object} {members : Entries Json}
    (declared : ∀ key schema, (key, schema) ∈ o.properties → ∀ value, members.get? key = some value →
      Accepts components least schema value)
    (required : ∀ key ∈ o.required, members.contains key = true) :
    Accepts components least o.schema (.obj members) := by
  rw [OpenApi.Object.schema, Accepts.all_iff]
  intro keyword inside
  rw [List.mem_append, List.mem_cons, List.mem_singleton] at inside
  rcases inside with (rfl | rfl) | there
  · exact .type rfl
  · exact .properties declared
  · split at there
    · cases there
    · cases List.mem_singleton.mp there
      exact .required required

theorem accepts_array {components : Entries JsonSchema} {least : Nat} {schema : JsonSchema} {items : List Json}
    (each : ∀ item ∈ items, Accepts components least schema item) :
    Accepts components least (.array schema) (.arr items) := by
  rw [array, Accepts.all_iff]
  intro keyword inside
  simp only [List.mem_cons, List.not_mem_nil, or_false] at inside
  rcases inside with rfl | rfl
  · exact .type rfl
  · exact .items each

theorem accepts_map {components : Entries JsonSchema} {least : Nat} {keywords : List JsonSchema} {members : Entries Json}
    (each : ∀ key value, (key, value) ∈ members → Accepts components least (.all keywords) value) :
    Accepts components least (.map (.all keywords)) (.obj members) := by
  rw [map, Accepts.all_iff]
  intro keyword inside
  simp only [List.mem_cons, List.not_mem_nil, or_false] at inside
  rcases inside with rfl | rfl
  · exact .type rfl
  · exact .additionalProperties each

end JsonSchema

end Wireform
