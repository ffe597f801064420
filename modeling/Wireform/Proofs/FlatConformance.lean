import Wireform.Proofs.ClosedDocuments
import Wireform.Proofs.ConformingMessages
import Wireform.Proofs.RoundTrip

set_option autoImplicit false

namespace Wireform

namespace Index

theorem clear_of_flat {index : Index} {m : Message} (flat : m.Flat) : index.Clear m := by
  have unlifted {f : Field} (inside : f ∈ m.fields) {p : Prop} (lifted : f.lifted?.isSome = true) : p := by
    rw [lifted?_of_flat flat f inside] at lifted
    cases lifted
  refine ⟨List.pairwise_of_forall_mem_list fun f inside _ _ lifted => unlifted inside lifted,
    fun f inside lifted => unlifted inside lifted, ?_⟩
  refine List.pairwise_of_forall_mem_list fun a _ b grouped flatten => ?_
  rw [flat.2 b grouped] at flatten
  cases flatten

/-- Nothing of a message is lifted or stands for null, and no value that is null is written by number. -/
structure Message.Still (m : Message) : Prop where
  flat : m.Flat
  present : ∀ f ∈ m.fields, f.annotations.nullable = false ∧ f.annotations.empty ≠ .null
  named : ∀ f ∈ m.fields, f.enum? = some WellKnown.nullValue → f.annotations.enumeration ≠ .number

instance (m : Message) : Decidable m.Still :=
  decidable_of_iff (m.Flat ∧ (∀ f ∈ m.fields, f.annotations.nullable = false ∧ f.annotations.empty ≠ .null) ∧
      ∀ f ∈ m.fields, f.enum? = some WellKnown.nullValue → f.annotations.enumeration ≠ .number)
    ⟨fun ⟨flat, present, named⟩ => ⟨flat, present, named⟩, fun still => ⟨still.flat, still.present, still.named⟩⟩

theorem describable_of_still {index : Index} {m : Message} (still : m.Still) {doc : Codec.Doc} (single : m.OneMember doc)
    (package : String) : index.Describable package m doc := by
  refine ⟨⟨single, clear_of_flat still.flat, fun f inside type pre c key lifted => ?_⟩,
    fun f inside => ⟨still.named f inside, fun writes => ?_⟩, fun group grouped flatten => ?_⟩
  · rw [lifted?_of_flat still.flat f inside] at lifted
    cases lifted
  · obtain ⟨nullable, empty⟩ := still.present f inside
    simp [Field.writesNull, nullable, empty] at writes
  · rw [still.flat.2 group grouped] at flatten
    cases flatten

end Index

namespace Run

open Index Codec OpenApi

def orders : Schema.FileSet := .ofTypes [
  .ofFields "Item" [.ofKind "label" .string []] [],
  .ofFields "Order" [.ofKind "total" .int64 [("int64_encoding", .str "NUMBER")],
    .ofKind "key" .bytes [("bytes_encoding", .str "HEX")], .ofEnum "state" "t.State" [],
    .ofMessage "at" "google.protobuf.Timestamp" [("timestamp_format", .str "UNIX_SECONDS")],
    .ofMessage "item" "t.Item" []] []]
  [.ofNames "State" [("OPEN", "open"), ("SENT", "sent")]]

def order : Doc := [("total", .str "5"), ("key", .str "AQI="), ("state", .str "SENT"),
  ("at", .str "1970-01-01T00:00:05Z"), ("item", .obj [("label", .str "pen")])]

/-- A document that encoding turns into what the component of its message refuses, although JSON names are distinct,
nothing is lifted, nothing stands for null and all types are there. -/
def Refused (set : Schema.FileSet) (name : String) (doc : Doc) : Prop :=
  ∃ compiled, compile set [] .default = .ok compiled ∧
    (∀ m ∈ compiled.index.messages.values, (m.fields.map (·.jsonName)).Nodup ∧ m.Flat ∧
      (∀ f ∈ m.fields, f.annotations.nullable = false ∧ f.annotations.empty ≠ .null) ∧
      (∀ f ∈ m.fields, f.oneof ≠ none → f.isSingular = true) ∧ ∀ f ∈ m.fields, f.Known compiled.index) ∧
    (Json.obj doc).Distinct ∧
    Typed compiled.index compiled.index.Admits Message.OneMember (.message name) (.obj doc) ∧
    ∃ w, encode ⟨compiled.index, compiled.plans⟩ name (.obj doc) = .ok w ∧
      ∃ file ∈ compiled.index.files, name ∈ file.messages ∧
        ((compiled.index.documented file).map (compiled.index.componentName file.package)).Nodup ∧
        ∃ document, Document.ofFile? compiled.index compiled.plans file = some document ∧
          JsonSchema.check document.components.entries (compiled.index.componentName file.package name) w ≠ []

section Refused

variable {set : Schema.FileSet} {name : String} {doc : Doc} (Known : Compiled → Prop) [DecidablePred Known] (w : Json)
  (keys : (Json.obj doc).Distinct)
  (evaluated : (compile set [] .default).toOption.any (fun compiled => decide (Known compiled ∧
    (∀ m ∈ compiled.index.messages.values, (m.fields.map (·.jsonName)).Nodup ∧ m.Flat ∧
      (∀ f ∈ m.fields, f.annotations.nullable = false ∧ f.annotations.empty ≠ .null) ∧
      (∀ f ∈ m.fields, f.oneof ≠ none → f.isSingular = true) ∧ ∀ f ∈ m.fields, f.Known compiled.index) ∧
    (∀ m ∈ compiled.index.messages.values, m.OneMember doc) ∧
    (encode ⟨compiled.index, compiled.plans⟩ name (.obj doc)).toOption = some w ∧
    ∃ file ∈ compiled.index.files, name ∈ file.messages ∧
      ((compiled.index.documented file).map (compiled.index.componentName file.package)).Nodup ∧
      ((Document.ofFile? compiled.index compiled.plans file).any fun (document : Document) =>
        !(JsonSchema.check document.components.entries (compiled.index.componentName file.package name) w).isEmpty) =
          true)) = true)

include keys evaluated

theorem refused_of_evaluated (typed : ∀ compiled, compile set [] .default = .ok compiled → Known compiled →
      (∀ m, compiled.index.message? name = some m → m.OneMember doc) →
      Typed compiled.index compiled.index.Admits Message.OneMember (.message name) (.obj doc)) :
    Refused set name doc := by
  obtain ⟨compiled, run, known, messages, single, encoded, file, among, listed, distinct, refused⟩ :=
    exists_compiled _ evaluated
  obtain ⟨document, made, violated⟩ := (Option.any_eq_true _ _).mp refused
  exact ⟨compiled, run, messages, keys,
    typed compiled run known fun m there => single m (KeyMap.mem_values.mpr ⟨_, there⟩), w, ok_of_toOption encoded, file,
    among, listed, distinct, document, made, by simpa using violated⟩

end Refused

def homonyms : Schema.FileSet := .ofMessages [.ofFields "Tally" [
  { Schema.Field.ofKind "n" .int64 [] with givenJsonName := some "plain" },
  { Schema.Field.ofKind "n" .int64 [("int64_encoding", .str "NUMBER")] with givenJsonName := some "small" }] []]

def rivals : Schema.FileSet := .ofMessages [.ofFields "Tally"
  [.ofMember "a" .string 0, .ofMember "b" .string 1, .ofKind "z" .int32 []]
  [.ofDiscriminator "o" "t", .ofDiscriminator "o" "z"]]

def lookalikes : Schema.FileSet := .ofTypes
  [.ofFields "Tally" [.ofEnum "e" "t.X" []] [], .ofFields "X" [.ofKind "k" .string []] []]
  [.ofNames "X" [("A", "A")]]

def wrappers : Schema.FileSet :=
  ⟨[⟨"t.proto", "t", ["google/protobuf/struct.proto"],
      [{ Schema.Message.ofFields "Tally" [(Schema.Field.ofMessage "d" "t.Tally.DEntry" []).repeating] [] with
          nested := [.ofEntry "DEntry" (.ofMessage "value" "google.protobuf.Struct" [])] },
        .ofFields "Part" [] []], [], none, none⟩,
    ⟨"google/protobuf/struct.proto", "google.protobuf", [],
      [.ofFields "Struct" [(Schema.Field.ofMessage "parts" "t.Part" [("unwrap", .bool true)]).repeating,
        .ofKind "n" .string []] []], [], none, none⟩]⟩

def tally : Doc := [("plain", .str "1")]

def rival : Doc := [("b", .str "1"), ("z", .int 5)]

def lookalike : Doc := [("e", .str "A")]

def wrapper : Doc := [("d", .obj [("a", .obj [("parts", .arr [.int 1])])])]

theorem homonyms_refused : Refused homonyms "t.Tally" tally := by
  refine refused_of_evaluated
    (fun compiled => (∀ m ∈ compiled.index.messages.values, ∀ f ∈ m.fields, f.isSingular = true) ∧
      compiled.index.shape? "t.Tally" = some [("plain", .scalar .int64), ("small", .scalar .int64)])
    (.obj tally) ⟨by decide, trivial, trivial⟩ (by decide +kernel) fun compiled run ⟨singular, shape⟩ single => ?_
  refine typed_of_shape (sound_of_compile run) singular (by decide +kernel) shape (by decide)
    (fun entry inside value given => ?_) single
  simp only [List.mem_cons, List.not_mem_nil, or_false] at inside
  rcases inside with rfl | rfl <;> cases given
  exact .leaf (fun _ _ never => nomatch never) (.scalar ⟨1, rfl, rfl⟩)

theorem rivals_refused : Refused rivals "t.Tally" rival := by
  refine refused_of_evaluated
    (fun compiled => (∀ m ∈ compiled.index.messages.values, ∀ f ∈ m.fields, f.isSingular = true) ∧
      compiled.index.shape? "t.Tally" = some [("a", .scalar .string), ("b", .scalar .string), ("z", .scalar .int32)])
    (.obj [("b", .str "1"), ("z", .str "b")]) ⟨by decide, trivial, trivial, trivial⟩ (by decide +kernel)
    fun compiled run ⟨singular, shape⟩ single => ?_
  refine typed_of_shape (sound_of_compile run) singular (by decide +kernel) shape (by decide)
    (fun entry inside value given => ?_) single
  simp only [List.mem_cons, List.not_mem_nil, or_false] at inside
  rcases inside with rfl | rfl | rfl <;> cases given
  · exact .leaf (fun _ _ never => nomatch never) (.scalar ⟨"1", rfl⟩)
  · exact .leaf (fun _ _ never => nomatch never) (.scalar ⟨5, by decide, by decide, rfl⟩)

theorem lookalikes_refused : Refused lookalikes "t.Tally" lookalike := by
  refine refused_of_evaluated
    (fun compiled => (∀ m ∈ compiled.index.messages.values, ∀ f ∈ m.fields, f.isSingular = true) ∧
      compiled.index.shape? "t.Tally" = some [("e", .enum "t.X")] ∧
      (compiled.index.enum? "t.X").all (fun e => decide (∃ v ∈ e.values, v.name = "A")) = true)
    (.obj lookalike) ⟨by decide, trivial, trivial⟩ (by decide +kernel)
    fun compiled run ⟨singular, shape, values⟩ single => ?_
  refine typed_of_shape (sound_of_compile run) singular (by decide +kernel) shape (by decide)
    (fun entry inside value given => ?_) single
  cases List.mem_singleton.mp inside
  cases given
  refine .leaf (fun _ _ never => nomatch never) (.enum (by decide) fun e there => ?_)
  rw [there, Option.all_some, decide_eq_true_eq] at values
  exact values

theorem wrappers_refused : Refused wrappers "t.Tally" wrapper := by
  refine refused_of_evaluated
    (fun compiled => (compiled.index.message? "t.Tally").any (fun m => decide (m.wellKnown = false ∧
      m.fields.map (fun f => (f.jsonName, f.type, f.container)) =
        [("d", .message "google.protobuf.Struct", .mapValues)])) = true)
    (.obj [("d", .obj [("a", .arr [.int 1])])])
    ⟨by decide, ⟨by decide, ⟨by decide, ⟨trivial, trivial⟩, trivial⟩, trivial⟩, trivial⟩ (by decide +kernel)
    fun compiled run shape single => ?_
  obtain ⟨m, found, shape⟩ := (Option.any_eq_true _ _).mp shape
  obtain ⟨own, fields⟩ := of_decide_eq_true shape
  obtain ⟨f, alone, entry⟩ := List.map_eq_singleton_iff.mp fields
  obtain ⟨key, type, container⟩ :
      f.jsonName = "d" ∧ f.type = .message "google.protobuf.Struct" ∧ f.container = .mapValues := by
    simpa using entry
  have only {g : Field} (inside : g ∈ m.fields) {value : Json} (given : Entries.get? wrapper g.jsonName = some value) :
      g = f ∧ value = .obj [("a", .obj [("parts", .arr [.int 1])])] := by
    rw [alone, List.mem_singleton] at inside
    subst inside
    rw [key] at given
    exact ⟨rfl, (Option.some.inj given).symm⟩
  refine .message found own (fun k present => ⟨f, alone ▸ List.mem_singleton_self f, ?_⟩)
    (fun g inside value given => ?_) (fun g inside value given x there => ?_) (single m found)
  · have listed := Entries.mem_keys_iff.mpr (Option.ne_none_iff_exists'.mp present)
    exact key.trans (List.mem_singleton.mp listed).symm
  · obtain ⟨rfl, rfl⟩ := only inside given
    rw [container]
    trivial
  · obtain ⟨rfl, rfl⟩ := only inside given
    rw [container] at there
    cases List.mem_singleton.mp there
    rw [type]
    refine .leaf (fun name c same there => ?_) (.builtIn (by decide) ⟨_, rfl⟩)
    cases same
    rw [(sound_of_compile run).wellKnown _ c there]
    decide +kernel

end Run

end Wireform
