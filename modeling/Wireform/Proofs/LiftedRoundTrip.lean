import Wireform.Proofs.Evaluation
import Wireform.Proofs.RoundTrip

set_option autoImplicit false

namespace Wireform

namespace Index

def liftable (index : Index) : Rule :=
  ⟨Message.OneMember, fun _ f value => index.Lossless f value ∧ ∀ type pre, f.lifted? = some (type, pre) →
    ∃ w, Codec.encode index.codec type value = .ok w ∧ w ≠ .obj []⟩

def Message.lifts (m : Message) : List (String × String) :=
  m.fields.filterMap fun f => f.lifted?.map fun (type, _) => (f.jsonName, type)

theorem mem_lifts {m : Message} {f : Field} (inside : f ∈ m.fields) {type pre : String}
    (lifted : f.lifted? = some (type, pre)) : (f.jsonName, type) ∈ m.lifts :=
  List.mem_filterMap.mpr ⟨f, inside, by rw [lifted]; rfl⟩

theorem clear_of_fields {index : Index} {m : Message} (alone : m.discriminated.isEmpty = true)
    (fields : m.fields.Pairwise fun f g =>
      f.lifted?.isSome = true → g.lifted?.isSome = true → g.jsonName ∉ index.ownKeys f) : index.Clear m := by
  rw [List.isEmpty_iff] at alone
  refine ⟨fields, fun f _ _ g _ member => ?_, ?_⟩
  · obtain ⟨_, _, never, _⟩ := member
    rw [alone] at never
    cases never
  · rw [alone]
    exact .nil

end Index

namespace Codec

open Json (Alike)
open Index

/-- Where no lifted key is one that a later step reads, documents come back from the wire. -/
theorem decode_encode_of_clear {set : Schema.FileSet} {files : List String} {settings : Settings}
    {compiled : Run.Compiled} (run : Run.compile set files settings = .ok compiled)
    (regular : compiled.index.Regular)
    (oneofs : ∀ m ∈ compiled.index.messages.values, (m.oneofs.map (·.name)).Nodup)
    (fields : ∀ m ∈ compiled.index.messages.values, (m.fields.map (·.name)).Nodup) {name : String} {m : Message}
    (found : compiled.index.message? name = some m)
    (clear : ∀ other c, compiled.index.Reaches name other → compiled.index.message? other = some c →
      compiled.index.Clear c) {d : Json} (distinct : d.Distinct)
    (fits : Fits compiled.index compiled.index.liftable (.message name) d)
    (nests : NestsWithin ⟨compiled.index, compiled.plans⟩ (maxNesting + 1) name d) :
    ∃ w, encode ⟨compiled.index, compiled.plans⟩ name d = .ok w ∧
      ∃ back, decode ⟨compiled.index, compiled.plans⟩ name w = .ok back ∧ Alike back d := by
  have sound := Run.sound_of_compile run
  obtain ⟨_, _, plans⟩ := Run.compile_spec run
  rw [plans] at nests ⊢
  have restoring : Restoring compiled.index compiled.index.liftable name := by
    refine ⟨fun other c reached there => ?_, fun _ _ _ _ _ rules => rules, fun _ _ _ _ _ _ _ rules => rules.1,
      fun _ _ _ _ _ _ value rules type pre lifted levels nothing => ?_⟩
    · have listed : c ∈ compiled.index.messages.values := KeyMap.mem_values.mpr ⟨_, there⟩
      have again : compiled.index.message? (bareName other) = some c := by
        rw [message?, bareName_idempotent]
        exact there
      exact orderly_of_clear sound (bareName_idempotent other) again (regular.jsonNames c listed)
        (oneofs c listed) (fields c listed) (clear other c reached there)
    · -- With more levels to go the result would be the same.
      obtain ⟨w, encoded, filled⟩ := rules.2 type pre lifted
      have first := encodeWithin_mono (Nat.le_max_left levels (maxNesting + 1)) nothing
      have second := encodeWithin_mono (Nat.le_max_right levels (maxNesting + 1)) encoded
      exact filled (Except.ok.inj (second.symm.trans first))
  exact round_trip sound regular restoring found distinct fits nests

def shelves : Schema.FileSet := .ofMessages
  [.ofFields "Shelf" [.ofKind "room" .string [], .ofMessage "label" "t.Label" [("flatten", .bool true),
      ("flatten_prefix", .str "label_")]] [],
    .ofFields "Label" [.ofKind "text" .string []] []]

def shelf : Doc := [("room", .str "north"), ("label", .obj [("text", .str "maps")])]

theorem liftable_of_singular {compiled : Run.Compiled} (singular : compiled.Singular) {name : String} {doc : Doc}
    (single : ∀ m ∈ compiled.index.messages.values, m.OneMember doc) {lifts : List (String × String)}
    (lifted : (compiled.index.message? name).map Message.lifts = some lifts)
    (filled : ∀ entry ∈ lifts, ∀ value, doc.get? entry.1 = some value →
      ∃ w, encode compiled.index.codec entry.2 value = .ok w ∧ w ≠ .obj []) :
    ∀ m, compiled.index.message? name = some m → compiled.index.liftable.document m doc ∧
      ∀ f ∈ m.fields, ∀ value, doc.get? f.jsonName = some value → compiled.index.liftable.value m f value := by
  intro m found
  have listed : m ∈ compiled.index.messages.values := KeyMap.mem_values.mpr ⟨_, found⟩
  rw [found] at lifted
  cases Option.some.inj lifted
  exact ⟨single m listed, fun f inside value given => ⟨singular.lossless listed inside value,
    fun type pre target => filled _ (mem_lifts inside target) value given⟩⟩

set_option maxRecDepth 10000 in
set_option synthInstance.maxSize 512 in
theorem decode_encode_shelf : ∃ compiled, Run.compile shelves [] .default = .ok compiled ∧
    compiled.index.Regular ∧ Fits compiled.index compiled.index.liftable (.message "t.Shelf") (.obj shelf) ∧
    ∃ w, encode ⟨compiled.index, compiled.plans⟩ "t.Shelf" (.obj shelf) = .ok w ∧
      ∃ back, decode ⟨compiled.index, compiled.plans⟩ "t.Shelf" w = .ok back ∧ Alike back (.obj shelf) := by
  let label : Doc := [("text", .str "maps")]
  obtain ⟨compiled, run, singular, oneofs, names, alone, fields, shape, inner, single, single', lifts, none_lifted,
    encoded⟩ := Run.exists_compiled (fun compiled => compiled.Singular ∧
      (∀ m ∈ compiled.index.messages.values, (m.oneofs.map (·.name)).Nodup) ∧
      (∀ m ∈ compiled.index.messages.values, (m.fields.map (·.name)).Nodup) ∧
      (∀ m ∈ compiled.index.messages.values, m.discriminated.isEmpty = true) ∧
      (∀ m ∈ compiled.index.messages.values, m.fields.Pairwise fun f g =>
        f.lifted?.isSome = true → g.lifted?.isSome = true → g.jsonName ∉ compiled.index.ownKeys f) ∧
      compiled.index.shape? "t.Shelf" = some [("room", .scalar .string), ("label", .message "t.Label")] ∧
      compiled.index.shape? "t.Label" = some [("text", .scalar .string)] ∧
      (∀ m ∈ compiled.index.messages.values, m.OneMember shelf) ∧
      (∀ m ∈ compiled.index.messages.values, m.OneMember label) ∧
      (compiled.index.message? "t.Shelf").map Message.lifts = some [("label", "t.Label")] ∧
      (compiled.index.message? "t.Label").map Message.lifts = some [] ∧
      (encode compiled.index.codec "t.Label" (.obj label)).toOption = some (.obj label))
    (show (Run.compile shelves [] .default).toOption.any _ = true by decide +kernel)
  have sound := Run.sound_of_compile run
  obtain ⟨m, found, _⟩ := Option.map_eq_some_iff.mp shape
  have fits_label : Fits compiled.index compiled.index.liftable (.message "t.Label") (.obj label) := by
    refine singular.fits sound (by decide +kernel) inner (by decide) (fun entry inside value given => ?_)
      (liftable_of_singular singular single' none_lifted (by simp))
    rw [List.mem_singleton] at inside
    subst inside
    cases given
    exact ⟨rfl, .scalar ⟨"maps", rfl⟩⟩
  have fits : Fits compiled.index compiled.index.liftable (.message "t.Shelf") (.obj shelf) := by
    refine singular.fits sound (by decide +kernel) shape (by decide) (fun entry inside value given => ?_)
      (liftable_of_singular singular single lifts fun entry inside value given => ?_)
    · simp only [List.mem_cons, List.not_mem_nil, or_false] at inside
      rcases inside with rfl | rfl <;> cases given
      · exact ⟨rfl, .scalar ⟨"north", rfl⟩⟩
      · exact ⟨rfl, fits_label⟩
    · cases List.mem_singleton.mp inside
      cases given
      exact ⟨_, ok_of_toOption encoded, by simp [label]⟩
  exact ⟨compiled, run, singular.regular, fits, decode_encode_of_clear run singular.regular oneofs names found
    (fun other c _ there => clear_of_fields (alone c (KeyMap.mem_values.mpr ⟨_, there⟩))
      (fields c (KeyMap.mem_values.mpr ⟨_, there⟩)))
    ⟨by decide, trivial, ⟨by decide, trivial, trivial⟩, trivial⟩ fits (singular.nests _ _ _)⟩

def letters : Schema.FileSet := .ofMessages
  [.ofFields "Letter" [.ofMessage "a" "t.Top" [("flatten", .bool true)],
      .ofMessage "x" "t.Bottom" [("flatten", .bool true), ("flatten_prefix", .str "b_")]] [],
    .ofFields "Top" [.ofKind "x" .string []] [], .ofFields "Bottom" [.ofKind "y" .string []] []]

def letter : Doc := [("a", .obj [("x", .str "hi")])]

set_option maxRecDepth 10000 in
set_option synthInstance.maxSize 512 in
/-- A key that is lifted over the name of a field still to be lifted is taken for the value of that field. -/
theorem letter_refused : ∃ compiled, Run.compile letters [] .default = .ok compiled ∧
    compiled.index.Regular ∧ (∀ m ∈ compiled.index.messages.values, (m.oneofs.map (·.name)).Nodup) ∧
    (∀ m ∈ compiled.index.messages.values, (m.fields.map (·.name)).Nodup) ∧ (Json.obj letter).Distinct ∧
    Fits compiled.index compiled.index.liftable (.message "t.Letter") (.obj letter) ∧
    NestsWithin ⟨compiled.index, compiled.plans⟩ (maxNesting + 1) "t.Letter" (.obj letter) ∧
    ∀ w, encode ⟨compiled.index, compiled.plans⟩ "t.Letter" (.obj letter) ≠ .ok w := by
  let top : Doc := [("x", .str "hi")]
  obtain ⟨compiled, run, singular, oneofs, names, shape, inner, single, single', lifts, none_lifted, encoded,
    refused⟩ := Run.exists_compiled (fun compiled => compiled.Singular ∧
      (∀ m ∈ compiled.index.messages.values, (m.oneofs.map (·.name)).Nodup) ∧
      (∀ m ∈ compiled.index.messages.values, (m.fields.map (·.name)).Nodup) ∧
      compiled.index.shape? "t.Letter" = some [("a", .message "t.Top"), ("x", .message "t.Bottom")] ∧
      compiled.index.shape? "t.Top" = some [("x", .scalar .string)] ∧
      (∀ m ∈ compiled.index.messages.values, m.OneMember letter) ∧
      (∀ m ∈ compiled.index.messages.values, m.OneMember top) ∧
      (compiled.index.message? "t.Letter").map Message.lifts = some [("a", "t.Top"), ("x", "t.Bottom")] ∧
      (compiled.index.message? "t.Top").map Message.lifts = some [] ∧
      (encode compiled.index.codec "t.Top" (.obj top)).toOption = some (.obj top) ∧
      (encode ⟨compiled.index, compiled.plans⟩ "t.Letter" (.obj letter)).toOption = none)
    (show (Run.compile letters [] .default).toOption.any _ = true by decide +kernel)
  have sound := Run.sound_of_compile run
  have fits_top : Fits compiled.index compiled.index.liftable (.message "t.Top") (.obj top) := by
    refine singular.fits sound (by decide +kernel) inner (by decide) (fun entry inside value given => ?_)
      (liftable_of_singular singular single' none_lifted (by simp))
    rw [List.mem_singleton] at inside
    subst inside
    cases given
    exact ⟨rfl, .scalar ⟨"hi", rfl⟩⟩
  have fits : Fits compiled.index compiled.index.liftable (.message "t.Letter") (.obj letter) := by
    refine singular.fits sound (by decide +kernel) shape (by decide) (fun entry inside value given => ?_)
      (liftable_of_singular singular single lifts fun entry inside value given => ?_)
    · simp only [List.mem_cons, List.not_mem_nil, or_false] at inside
      rcases inside with rfl | rfl <;> cases given
      exact ⟨rfl, fits_top⟩
    · simp only [List.mem_cons, List.not_mem_nil, or_false] at inside
      rcases inside with rfl | rfl <;> cases given
      exact ⟨_, ok_of_toOption encoded, by simp [top]⟩
  refine ⟨compiled, run, singular.regular, oneofs, names, ⟨by decide, ⟨by decide, trivial, trivial⟩, trivial⟩, fits,
    singular.nests _ _ _, fun w encoded => ?_⟩
  rw [encoded] at refused
  cases refused

end Codec

end Wireform
