import Wireform.Proofs.ConformingMessages

set_option autoImplicit false

namespace Wireform

namespace OpenApi.Context

theorem declared_alike (context : Context) {a b : Member} (type : a.field.type = b.field.type)
    (cardinality : a.field.cardinality = b.field.cardinality) (transforms : a.transforms = b.transforms) :
    context.propertySchema a = context.propertySchema b ∧ context.memberReference? a = context.memberReference? b := by
  have unwrapped : context.unwrapped? a = context.unwrapped? b := by
    have list (key : String) : Interface.unwrappedList? context.index context.plans a key =
        Interface.unwrappedList? context.index context.plans b key := by
      simp only [Interface.unwrappedList?, Index.Field.message?, type]
    simp only [unwrapped?, Index.Field.isMap, Member.unwrappedKey?, cardinality, transforms, funext list]
    rfl
  have element : context.elementSchema a = context.elementSchema b := by
    simp only [elementSchema, Member.has, Member.bytesEncoding?, Member.numberedValues?, Member.timestampFormat?, type,
      transforms]
  constructor
  · simp only [propertySchema, memberSchema, Index.Field.isMap, Index.Field.isList, unwrapped, element, cardinality,
      transforms]
    rfl
  · simp only [memberReference?, elementReference?, Member.numberedValues?, unwrapped, type, transforms]
    rfl

end OpenApi.Context

namespace Index

open OpenApi

variable {index : Index} {m : Message}

/-- Members of flattened oneofs that lift nothing themselves, and have fields of one type under one key. -/
def PlainVariants (index : Index) (m : Message) : Prop :=
  ∀ group ∈ m.discriminated, ∀ f ∈ m.oneofMembers group.1, ∀ g ∈ m.oneofMembers group.1,
    ∀ c ∈ (f.message?.bind index.message?).toList, ∀ c' ∈ (g.message?.bind index.message?).toList,
      c.lifting?.isNone = true ∧ ∀ h ∈ c.fields, ∀ h' ∈ c'.fields, h.jsonName = h'.jsonName →
        h.type = h'.type ∧ h.cardinality = h'.cardinality ∧
          (Interface.memberOf index.plans c h).transforms = (Interface.memberOf index.plans c' h').transforms

set_option synthInstance.maxSize 1000 in
instance (index : Index) (m : Message) : Decidable (index.PlainVariants m) :=
  inferInstanceAs (Decidable (∀ group ∈ m.discriminated, ∀ f ∈ m.oneofMembers group.1, ∀ g ∈ m.oneofMembers group.1,
    ∀ c ∈ (f.message?.bind index.message?).toList, ∀ c' ∈ (g.message?.bind index.message?).toList,
      c.lifting?.isNone = true ∧ ∀ h ∈ c.fields, ∀ h' ∈ c'.fields, h.jsonName = h'.jsonName →
        h.type = h'.type ∧ h.cardinality = h'.cardinality ∧
          (Interface.memberOf index.plans c h).transforms = (Interface.memberOf index.plans c' h').transforms))

theorem shown_of_unlifting (plain : m.lifting?.isNone = true) {h : Field} (inside : h ∈ m.fields) {key : String}
    {shown : Shown} (shows : index.Shows m h key shown) :
    key = h.jsonName ∧ shown = .member .plain (Interface.memberOf index.plans m h) := by
  obtain ⟨flat, alone⟩ := lifting?_none (Option.isNone_iff_eq_none.mp plain)
  have ungrouped := groupOf?_of_plain alone
  cases shows with
  | plain => exact ⟨rfl, rfl⟩
  | lifted _ lifted =>
    rw [Field.lifted?, flat h inside] at lifted
    cases lifted
  | tag grouped => cases (ungrouped h).symm.trans grouped
  | variant grouped => cases (ungrouped h).symm.trans grouped
  | liftedVariant grouped => cases (ungrouped h).symm.trans grouped

theorem agrees_of_plain (variants : index.PlainVariants m) (package : String) : index.Agrees package m := by
  intro group grouped _ f member g other _ type c typed known type' c' typed' known' key h inside shown shows h' inside'
    shown' shows'
  have first : c ∈ (f.message?.bind index.message?).toList := by simp [typed, known]
  have second : c' ∈ (g.message?.bind index.message?).toList := by simp [typed', known']
  obtain ⟨plain, alike⟩ := variants group grouped f member g other c first c' second
  obtain ⟨plain', _⟩ := variants group grouped g other f member c' second c first
  obtain ⟨rfl, rfl⟩ := shown_of_unlifting plain inside shows
  obtain ⟨same, rfl⟩ := shown_of_unlifting plain' inside' shows'
  obtain ⟨type, cardinality, transforms⟩ := alike h inside h' inside' same
  refine Context.declared_alike _ ?_ ?_ transforms
  · rw [field_memberOf, field_memberOf, type]
  · rw [field_memberOf, field_memberOf, cardinality]

theorem settled_of_unlifted (unlifted : ∀ f ∈ m.fields, f.lifted?.isNone = true) (few : m.discriminated.length ≤ 1)
    {doc : Codec.Doc} (single : m.OneMember doc) : index.Settled m doc := by
  have never {f : Field} (inside : f ∈ m.fields) {p : Prop} (lifted : f.lifted?.isSome = true) : p := by
    rw [Option.isNone_iff_eq_none.mp (unlifted f inside)] at lifted
    cases lifted
  refine ⟨single, ⟨List.pairwise_of_forall_mem_list fun f inside _ _ lifted => never inside lifted,
    fun f inside lifted => never inside lifted, ?_⟩, fun f inside type pre c key lifted => ?_⟩
  · cases given : m.discriminated with
    | nil => exact .nil
    | cons group rest =>
      rw [given] at few
      cases List.length_eq_zero_iff.mp (Nat.le_zero.mp (Nat.le_of_succ_le_succ few))
      exact List.pairwise_singleton _ _
  · rw [Option.isNone_iff_eq_none.mp (unlifted f inside)] at lifted
    cases lifted

end Index

namespace Run

open Index Codec OpenApi

/-- Each key that the set member lifts is on the wire, with a value that the property of the key accepts. -/
theorem variant_accepted {set : Schema.FileSet} {files : List String} {settings : Settings} {compiled : Compiled}
    (run : compile set files settings = .ok compiled) (named : compiled.index.Named)
    (complete : compiled.index.Complete) {file : File}
    (distinct : ((compiled.index.documented file).map (compiled.index.componentName file.package)).Nodup)
    {name : String} {m : Message} (found : compiled.index.message? name = some m) (own : m.wellKnown = false)
    (listed : m.fullName ∈ file.messages) (agrees : compiled.index.Agrees file.package m)
    {group : Oneof × OneofConfig} (grouped : group ∈ m.discriminated) (flatten : group.2.flatten = true) {f : Field}
    (member : f ∈ m.oneofMembers group.1) {doc : Doc} {value w : Json} (given : doc.get? f.jsonName = some value)
    (keys : (Json.obj doc).Distinct)
    (typed : Typed compiled.index compiled.index.Admits compiled.index.Settled (.message name) (.obj doc))
    (described : Typed compiled.index compiled.index.Admits (compiled.index.Describable file.package) f.type value)
    (encoded : encode ⟨compiled.index, compiled.plans⟩ name (.obj doc) = .ok w) :
    ∃ document component type levels, ∃ child : Doc,
      Document.ofFile? compiled.index compiled.plans file = some document ∧
      document.components.get? (compiled.index.componentName file.package m.fullName) = some component ∧
      f.message? = some type ∧ encodeWithin ⟨compiled.index, compiled.plans⟩ levels type value = .ok (.obj child) ∧
      ∀ key v, child.get? key = some v → w.get? key = some v ∧ ∀ schema, component.property? key = some schema →
        JsonSchema.Accepts document.components.entries v.depth schema v := by
  have sound := sound_of_compile run
  obtain ⟨_, _, plans⟩ := compile_spec run
  rw [plans] at encoded ⊢
  have declares := declares_of_found sound found own
  have among := mem_values_of_declares declares
  obtain ⟨inside, _⟩ := (resolved_of_named sound named declares group.1 group.2 grouped f).mp member
  have lifts : m.LiftedMember f := ⟨group.1, group.2, grouped, flatten, member⟩
  have plain : m.isRootUnwrap = false := by
    rw [← Bool.not_eq_true, Message.isRootUnwrap_iff]
    rintro ⟨g, alone, unwrap⟩
    rw [discriminated_of_root sound found (named.members m among) alone unwrap] at grouped
    cases grouped
  obtain ⟨document, made, describes, component⟩ := Document.exists_describing sound.toKeyed found listed distinct
  obtain ⟨_, same, known, _, values, settled⟩ := doc_of_typed found own typed
  cases same
  obtain ⟨distinct_keys, distincts⟩ := Json.distinct_obj.mp keys
  have object (f : Field) (inside : f ∈ m.fields) (type : String) (typed : f.message? = some type) (value : Json)
      (given : doc.get? f.jsonName = some value) (lifts : f.lifted?.isSome = true ∨ m.LiftedMember f) :=
    have single := (target_of_lifted sound named declares inside lifts).1
    objectWritten_of_typed sound named (fun _ _ settled => settled)
      (values f inside value given value (by rw [container_of_singular single]; exact List.mem_singleton_self _))
      (distincts _ _ given) type (type_of_message? typed)
  obtain ⟨lower, wire, rfl, written, _⟩ :=
    messageWritten_of_typed sound named found own plain settled known distinct_keys object encoded
  -- The member goes through the plan of its own message before its keys are lifted.
  obtain ⟨_, _, c, message, bare, there, own_child, plain_child⟩ :=
    target_of_lifted sound named declares inside (.inr lifts)
  rename_i type
  obtain ⟨child, below, lifted⟩ := written.variant f inside lifts type message value given
  obtain ⟨levels, encoded_child⟩ := encoded_of_childWire there sound bare below
  obtain ⟨_, same, _, laid⟩ := (writesObject_of_written sound named declares inside (.inr lifts) message
    (object f inside type message value given (.inr lifts)) lower).2 _ below
  cases same
  obtain ⟨conforms, _⟩ := encodes_of_typed sound named complete describes described (distincts _ _ given) type c
    (type_of_message? message) there own_child levels _ encoded_child
  refine ⟨document, _, type, levels, child, made, component, message, encoded_child, fun key v held =>
    ⟨lifted key v held, fun schema declared => ?_⟩⟩
  obtain ⟨h, inside', shown, shows, rfl, refers⟩ := shown_of_documented sound named complete declares plain
    (Context.mem_typesOf (List.mem_append_left _ listed)) declared
  exact accepts_variant sound named declares agrees grouped flatten member message there plain_child conforms laid held
    inside' shows refers

def payments : Schema.FileSet := .ofMessages [
  .ofFields "Card" [.ofKind "note" .string [], .ofKind "number" .string []] [],
  .ofFields "Cash" [.ofKind "note" .string []] [],
  .ofFields "Payment" [.ofVariant "card" "t.Card" 0, .ofVariant "cash" "t.Cash" 0] [.ofFlattened "way" "type"]]

def payment : Doc := [("cash", .obj [("note", .str "hi")])]

set_option synthInstance.maxSize 1000 in
/-- Both members lift a note, and the component declares that of the first. -/
theorem variant_accepted_payment : ∃ compiled, compile payments [] .default = .ok compiled ∧
    ∃ w, encode ⟨compiled.index, compiled.plans⟩ "t.Payment" (.obj payment) = .ok w ∧
      ∃ file ∈ compiled.index.files, ∃ document component,
        Document.ofFile? compiled.index compiled.plans file = some document ∧
        document.components.get? "Payment" = some component ∧
        ∃ schema, component.property? "note" = some schema ∧ w.get? "note" = some (.str "hi") ∧
          JsonSchema.Accepts document.components.entries 1 schema (.str "hi") := by
  obtain ⟨compiled, run, named, complete, singular, unlifted, few, variants, suits, shape, inner, single, single', encoded,
    below, file, among, distinct, declared, m, inside, called, own, listed, component_name, group, grouped, flatten, f, member,
    key, type⟩ := exists_compiled
    (fun compiled => compiled.index.Named ∧ compiled.index.Complete ∧
      (∀ m ∈ compiled.index.messages.values, ∀ f ∈ m.fields, f.isSingular = true) ∧
      (∀ m ∈ compiled.index.messages.values, ∀ f ∈ m.fields, f.lifted?.isNone = true) ∧
      (∀ m ∈ compiled.index.messages.values, m.discriminated.length ≤ 1) ∧
      (∀ m ∈ compiled.index.messages.values, compiled.index.PlainVariants m) ∧
      (∀ m ∈ compiled.index.messages.values, ∀ f ∈ m.fields, f.Describable) ∧
      compiled.index.shape? "t.Payment" = some [("card", .message "t.Card"), ("cash", .message "t.Cash")] ∧
      compiled.index.shape? "t.Cash" = some [("note", .scalar .string)] ∧
      (∀ m ∈ compiled.index.messages.values, m.OneMember payment) ∧
      (∀ m ∈ compiled.index.messages.values, m.OneMember [("note", .str "hi")]) ∧
      (encode ⟨compiled.index, compiled.plans⟩ "t.Payment" (.obj payment)).toOption =
        some (.obj [("note", .str "hi"), ("type", .str "cash")]) ∧
      (encode ⟨compiled.index, compiled.plans⟩ "t.Cash" (.obj [("note", .str "hi")])).toOption =
        some (.obj [("note", .str "hi")]) ∧
      ∃ file ∈ compiled.index.files,
        ((compiled.index.documented file).map (compiled.index.componentName file.package)).Nodup ∧
        ((Document.ofFile? compiled.index compiled.plans file).any fun (document : Document) =>
          (document.components.get? "Payment").any fun component => (component.property? "note").isSome) = true ∧
        ∃ m ∈ compiled.index.messages.values, m.fullName = "t.Payment" ∧ m.wellKnown = false ∧
          m.fullName ∈ file.messages ∧ compiled.index.componentName file.package m.fullName = "Payment" ∧
          ∃ group ∈ m.discriminated, group.2.flatten = true ∧ ∃ f ∈ m.oneofMembers group.1, f.jsonName = "cash" ∧
            f.type = .message "t.Cash")
    (show (compile payments [] .default).toOption.any _ = true by decide +kernel)
  have sound := sound_of_compile run
  have found : compiled.index.message? "t.Payment" = some m := by
    rw [← called]
    exact message?_of_mem_values sound.toKeyed inside (by rw [called]; decide)
  have settled (doc : Doc) (single : ∀ m ∈ compiled.index.messages.values, m.OneMember doc) (name : String) (c : Message)
      (there : compiled.index.message? name = some c) : compiled.index.Settled c doc :=
    have listed : c ∈ compiled.index.messages.values := KeyMap.mem_values.mpr ⟨_, there⟩
    settled_of_unlifted (unlifted c listed) (few c listed) (single c listed)
  have cash {rule : Message → Doc → Prop}
      (allowed : ∀ c, compiled.index.message? "t.Cash" = some c → rule c [("note", .str "hi")]) :
      Typed compiled.index compiled.index.Admits rule (.message "t.Cash") (.obj [("note", .str "hi")]) := by
    refine typed_of_shape sound singular (by decide +kernel) inner (by decide) (fun entry inside value given => ?_) allowed
    cases List.mem_singleton.mp inside
    cases given
    exact .leaf (fun _ _ never => nomatch never) (.scalar ⟨"hi", rfl⟩)
  have typed :
      Typed compiled.index compiled.index.Admits compiled.index.Settled (.message "t.Payment") (.obj payment) := by
    refine typed_of_shape sound singular (by decide +kernel) shape (by decide) (fun entry inside value given => ?_)
      (settled payment single _)
    simp only [List.mem_cons, List.not_mem_nil, or_false] at inside
    rcases inside with rfl | rfl <;> cases given
    exact cash (settled _ single' _)
  have described : Typed compiled.index compiled.index.Admits (compiled.index.Describable file.package) f.type
      (.obj [("note", .str "hi")]) := by
    rw [type]
    refine cash fun c there => ⟨settled _ single' _ c there, ?_, ?_⟩
    · exact suits c (KeyMap.mem_values.mpr ⟨_, there⟩)
    · exact agrees_of_plain (variants c (KeyMap.mem_values.mpr ⟨_, there⟩)) _
  obtain ⟨document, component, _, levels, child, made, there, held, written, accepted⟩ :=
    variant_accepted run named complete distinct found own listed (agrees_of_plain (variants m inside) _) grouped flatten
      member (show Entries.get? payment f.jsonName = some (.obj [("note", .str "hi")]) by rw [key]; rfl)
      ⟨by decide, ⟨by decide, trivial, trivial⟩, trivial⟩ typed described (ok_of_toOption encoded)
  have message : f.message? = some "t.Cash" := by rw [Field.message?, type]; rfl
  cases held.symm.trans message
  have same : child = [("note", .str "hi")] := by
    have first := encodeWithin_mono (Nat.le_max_left levels (maxNesting + 1)) written
    have second := encodeWithin_mono (Nat.le_max_right levels (maxNesting + 1)) (ok_of_toOption below)
    exact Json.obj.inj (Except.ok.inj (first.symm.trans second))
  subst same
  rw [component_name] at there
  rw [made, Option.any_some, there, Option.any_some] at declared
  obtain ⟨schema, property⟩ := Option.isSome_iff_exists.mp declared
  obtain ⟨lifted, accepts⟩ := accepted "note" (.str "hi") rfl
  exact ⟨compiled, run, _, ok_of_toOption encoded, file, among, document, component, made, there, schema, property, lifted,
    accepts schema property⟩

def tickets : Schema.FileSet := .ofMessages [
  .ofFields "A" [.ofKind "x" .string []] [], .ofFields "B" [.ofKind "x" .int32 []] [],
  .ofFields "Ticket" [.ofVariant "a" "t.A" 0, .ofVariant "b" "t.B" 0] [.ofFlattened "way" "type"]]

def ticket : Doc := [("b", .obj [("x", .int 5)])]

set_option synthInstance.maxSize 1000 in
/-- The declaration of the first member stands for the key, so that the value of the second is refused. -/
theorem ticket_refused : ∃ compiled, compile tickets [] .default = .ok compiled ∧ compiled.index.Named ∧
    compiled.index.Complete ∧ (∀ m ∈ compiled.index.messages.values, ∀ f ∈ m.fields, f.Describable) ∧
    (Json.obj ticket).Distinct ∧
    Typed compiled.index compiled.index.Admits compiled.index.Settled (.message "t.Ticket") (.obj ticket) ∧
    encode ⟨compiled.index, compiled.plans⟩ "t.Ticket" (.obj ticket) = .ok (.obj [("x", .int 5), ("type", .str "b")]) ∧
    ∃ file ∈ compiled.index.files,
      ((compiled.index.documented file).map (compiled.index.componentName file.package)).Nodup ∧
      ∃ document component schema, Document.ofFile? compiled.index compiled.plans file = some document ∧
        document.components.get? "Ticket" = some component ∧ component.property? "x" = some schema ∧
        JsonSchema.violations (JsonSchema.componentViolations document.components.entries 1) schema (.int 5) ≠ [] := by
  obtain ⟨compiled, run, named, complete, suits, singular, unlifted, few, shape, inner, single, single', encoded, file, among,
    distinct, refused⟩ := exists_compiled
    (fun compiled => compiled.index.Named ∧ compiled.index.Complete ∧
      (∀ m ∈ compiled.index.messages.values, ∀ f ∈ m.fields, f.Describable) ∧
      (∀ m ∈ compiled.index.messages.values, ∀ f ∈ m.fields, f.isSingular = true) ∧
      (∀ m ∈ compiled.index.messages.values, ∀ f ∈ m.fields, f.lifted?.isNone = true) ∧
      (∀ m ∈ compiled.index.messages.values, m.discriminated.length ≤ 1) ∧
      compiled.index.shape? "t.Ticket" = some [("a", .message "t.A"), ("b", .message "t.B")] ∧
      compiled.index.shape? "t.B" = some [("x", .scalar .int32)] ∧
      (∀ m ∈ compiled.index.messages.values, m.OneMember ticket) ∧
      (∀ m ∈ compiled.index.messages.values, m.OneMember [("x", .int 5)]) ∧
      (encode ⟨compiled.index, compiled.plans⟩ "t.Ticket" (.obj ticket)).toOption =
        some (.obj [("x", .int 5), ("type", .str "b")]) ∧
      ∃ file ∈ compiled.index.files,
        ((compiled.index.documented file).map (compiled.index.componentName file.package)).Nodup ∧
        ((Document.ofFile? compiled.index compiled.plans file).any fun (document : Document) =>
          (document.components.get? "Ticket").any fun component => (component.property? "x").any fun schema =>
            !(JsonSchema.violations (JsonSchema.componentViolations document.components.entries 1) schema
              (.int 5)).isEmpty) = true)
    (show (compile tickets [] .default).toOption.any _ = true by decide +kernel)
  have sound := sound_of_compile run
  have settled (doc : Doc) (single : ∀ m ∈ compiled.index.messages.values, m.OneMember doc) (name : String) (c : Message)
      (there : compiled.index.message? name = some c) : compiled.index.Settled c doc :=
    have listed : c ∈ compiled.index.messages.values := KeyMap.mem_values.mpr ⟨_, there⟩
    settled_of_unlifted (unlifted c listed) (few c listed) (single c listed)
  have typed_b : Typed compiled.index compiled.index.Admits compiled.index.Settled (.message "t.B")
      (.obj [("x", .int 5)]) := by
    refine typed_of_shape sound singular (by decide +kernel) inner (by decide) (fun entry inside value given => ?_)
      (settled _ single' _)
    cases List.mem_singleton.mp inside
    cases given
    exact .leaf (fun _ _ never => nomatch never) (.scalar ⟨5, by decide, by decide, rfl⟩)
  have typed :
      Typed compiled.index compiled.index.Admits compiled.index.Settled (.message "t.Ticket") (.obj ticket) := by
    refine typed_of_shape sound singular (by decide +kernel) shape (by decide) (fun entry inside value given => ?_)
      (settled ticket single _)
    simp only [List.mem_cons, List.not_mem_nil, or_false] at inside
    rcases inside with rfl | rfl <;> cases given
    exact typed_b
  obtain ⟨document, made, there⟩ := (Option.any_eq_true _ _).mp refused
  obtain ⟨component, held, there⟩ := (Option.any_eq_true _ _).mp there
  obtain ⟨schema, declared, violated⟩ := (Option.any_eq_true _ _).mp there
  exact ⟨compiled, run, named, complete, suits, ⟨by decide, ⟨by decide, trivial, trivial⟩, trivial⟩, typed,
    ok_of_toOption encoded, file, among, distinct, document, component, schema, made, held, declared,
    by simpa using violated⟩

end Run

end Wireform
