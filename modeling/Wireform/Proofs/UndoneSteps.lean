import Wireform.Proofs.DecodeAlike

set_option autoImplicit false

namespace Wireform.Codec

open Json (Alike AlikeAt)

section Runs

variable (encode decode : String → Json → Result Json) (plan : Plan)

def encodeAll : List Step → Doc → Result Doc
  | [], doc => .ok doc
  | step :: rest, doc => do encodeAll rest (← encodeStep encode plan step doc)

theorem encodeAll_eq (steps : List Step) (doc : Doc) :
    encodeAll encode plan steps doc = steps.foldlM (fun doc step => encodeStep encode plan step doc) doc := by
  induction steps generalizing doc with
  | nil => rfl
  | cons step rest ih => simp only [encodeAll, List.foldlM_cons, ih]

theorem decodeSteps_eq (steps : List Step) (doc : Doc) :
    decodeSteps decode plan steps doc = steps.foldlM (fun doc step => decodeStep decode plan step doc) doc := by
  induction steps generalizing doc with
  | nil => rfl
  | cons step rest ih => simp only [decodeSteps, List.foldlM_cons, ih]

theorem encodeAll_append (first second : List Step) (doc : Doc) :
    encodeAll encode plan (first ++ second) doc =
      (do encodeAll encode plan second (← encodeAll encode plan first doc)) := by
  simp only [encodeAll_eq, List.foldlM_append]

theorem decodeSteps_append (first second : List Step) (doc : Doc) :
    decodeSteps decode plan (first ++ second) doc =
      (do decodeSteps decode plan second (← decodeSteps decode plan first doc)) := by
  simp only [decodeSteps_eq, List.foldlM_append]

theorem encodeSteps_append {first : List Step}
    (inner : ∀ step ∈ first, step.transform.isRootUnwrap = false) (second : List Step) (doc : Doc) :
    encodeSteps encode plan (first ++ second) doc =
      (do encodeSteps encode plan second (← encodeAll encode plan first doc)) := by
  induction first generalizing doc with
  | nil => rw [List.nil_append, encodeAll, ok_bind]
  | cons step rest ih =>
    have notRoot := inner step (by simp)
    have later := ih fun other inside => inner other (by simp [inside])
    rw [List.cons_append, encodeSteps, encodeAll]
    cases transform : step.transform with
    | unwrapRoot elementType isMap => simp [transform, Transform.isRootUnwrap] at notRoot
    | _ =>
      cases encodeStep encode plan step doc with
      | error fault => rfl
      | ok between => exact later between

def encodeBlock : List Step → Option Json → Result (Option Json)
  | [], o => .ok o
  | step :: rest, o => do encodeBlock rest (← encodeAt encode plan step o)

def decodeBlock : List Step → Option Json → Result (Option Json)
  | [], o => .ok o
  | step :: rest, o => do decodeBlock rest (← decodeAt decode plan step o)

theorem encodeBlock_eq (steps : List Step) (o : Option Json) :
    encodeBlock encode plan steps o = steps.foldlM (fun o step => encodeAt encode plan step o) o := by
  induction steps generalizing o with
  | nil => rfl
  | cons step rest ih => simp only [encodeBlock, List.foldlM_cons, ih]

theorem decodeBlock_eq (steps : List Step) (o : Option Json) :
    decodeBlock decode plan steps o = steps.foldlM (fun o step => decodeAt decode plan step o) o := by
  induction steps generalizing o with
  | nil => rfl
  | cons step rest ih => simp only [decodeBlock, List.foldlM_cons, ih]

theorem encodeBlock_append (first second : List Step) (o : Option Json) :
    encodeBlock encode plan (first ++ second) o =
      (do encodeBlock encode plan second (← encodeBlock encode plan first o)) := by
  simp only [encodeBlock_eq, List.foldlM_append]

theorem decodeBlock_append (first second : List Step) (o : Option Json) :
    decodeBlock decode plan (first ++ second) o =
      (do decodeBlock decode plan second (← decodeBlock decode plan first o)) := by
  simp only [decodeBlock_eq, List.foldlM_append]

end Runs

variable {encode decode : String → Json → Result Json} {plan : Plan}

def StaysAt (key : String) (steps : List Step) : Prop :=
  ∀ step ∈ steps, step.jsonName = key ∧ step.transform.isLocal = true

def Changed (doc : Doc) (key : String) (o : Option Json) (wire : Doc) : Prop :=
  wire.Distinct ∧ ∀ k, wire.get? k = if key = k then o else doc.get? k

section Blocks

variable {key : String} {steps : List Step} {act : Step → Doc → Result Doc}
  {here : Step → Option Json → Result (Option Json)}
  (sets : ∀ step ∈ steps, ∀ doc : Doc, act step doc = (here step (doc.get? key)).map (doc.set key))

include sets

theorem foldlM_of_block {doc : Doc} (distinct : doc.Distinct) {o : Option Json}
    (run : steps.foldlM (fun o step => here step o) (doc.get? key) = .ok o) :
    ∃ wire, steps.foldlM (fun doc step => act step doc) doc = .ok wire ∧ Changed doc key o wire := by
  induction steps generalizing doc with
  | nil =>
    cases Except.ok.inj run
    refine ⟨doc, rfl, distinct, fun k => ?_⟩
    split
    · rename_i same
      rw [same]
    · rfl
  | cons step rest ih =>
    rw [List.foldlM_cons] at run
    obtain ⟨between, first, later⟩ := bind_eq_ok run
    have under : (doc.set key between).get? key = between := by
      rw [Entries.get?_set distinct, if_pos rfl]
    rw [← under] at later
    obtain ⟨wire, done, wire_distinct, changed⟩ :=
      ih (fun other inside => sets other (List.mem_cons_of_mem step inside))
        (Entries.distinct_set distinct key between) later
    refine ⟨wire, ?_, wire_distinct, fun k => ?_⟩
    · rw [List.foldlM_cons, sets step List.mem_cons_self, first]
      exact done
    · rw [changed, Entries.get?_set distinct]
      split <;> rfl

theorem block_of_foldlM {doc wire : Doc} (distinct : doc.Distinct)
    (run : steps.foldlM (fun doc step => act step doc) doc = .ok wire) :
    ∃ o, steps.foldlM (fun o step => here step o) (doc.get? key) = .ok o ∧ Changed doc key o wire := by
  suffices ∃ o, steps.foldlM (fun o step => here step o) (doc.get? key) = .ok o by
    obtain ⟨o, block⟩ := this
    obtain ⟨other, done, changed⟩ := foldlM_of_block sets distinct block
    cases Except.ok.inj (run.symm.trans done)
    exact ⟨o, block, changed⟩
  induction steps generalizing doc with
  | nil => exact ⟨_, rfl⟩
  | cons step rest ih =>
    rw [List.foldlM_cons, sets step List.mem_cons_self] at run
    obtain ⟨between, first, later⟩ := bind_eq_ok run
    obtain ⟨o, made, rfl⟩ := map_eq_ok first
    obtain ⟨q, block⟩ := ih (fun other inside => sets other (List.mem_cons_of_mem step inside))
      (Entries.distinct_set distinct key o) later
    rw [Entries.get?_set distinct, if_pos rfl] at block
    exact ⟨q, by rw [List.foldlM_cons, made, ok_bind, block]⟩

end Blocks

section Stays

variable {key : String} {steps : List Step} (stays : StaysAt key steps) {doc wire : Doc} {o : Option Json}

include stays

theorem encodeStep_at (step : Step) (inside : step ∈ steps) (doc : Doc) :
    encodeStep encode plan step doc = (encodeAt encode plan step (doc.get? key)).map (doc.set key) := by
  obtain ⟨rfl, isLocal⟩ := stays step inside
  exact encodeStep_eq_set encode plan isLocal doc

theorem decodeStep_at (step : Step) (inside : step ∈ steps) (doc : Doc) :
    decodeStep decode plan step doc = (decodeAt decode plan step (doc.get? key)).map (doc.set key) := by
  obtain ⟨rfl, isLocal⟩ := stays step inside
  exact decodeStep_eq_set decode plan isLocal doc

theorem encodeAll_block (distinct : doc.Distinct) (run : encodeBlock encode plan steps (doc.get? key) = .ok o) :
    ∃ wire, encodeAll encode plan steps doc = .ok wire ∧ Changed doc key o wire := by
  rw [encodeBlock_eq] at run
  simp only [encodeAll_eq]
  exact foldlM_of_block (encodeStep_at stays) distinct run

theorem encodeBlock_of_run (distinct : doc.Distinct) (run : encodeAll encode plan steps doc = .ok wire) :
    ∃ o, encodeBlock encode plan steps (doc.get? key) = .ok o ∧ Changed doc key o wire := by
  rw [encodeAll_eq] at run
  simp only [encodeBlock_eq]
  exact block_of_foldlM (encodeStep_at stays) distinct run

theorem decodeSteps_block (distinct : doc.Distinct) (run : decodeBlock decode plan steps (doc.get? key) = .ok o) :
    ∃ back, decodeSteps decode plan steps doc = .ok back ∧ Changed doc key o back := by
  rw [decodeBlock_eq] at run
  simp only [decodeSteps_eq]
  exact foldlM_of_block (decodeStep_at stays) distinct run

theorem decodeBlock_of_run (distinct : wire.Distinct) (run : decodeSteps decode plan steps wire = .ok doc) :
    ∃ o, decodeBlock decode plan steps (wire.get? key) = .ok o ∧ Changed wire key o doc := by
  rw [decodeSteps_eq] at run
  simp only [decodeBlock_eq]
  exact block_of_foldlM (decodeStep_at stays) distinct run

end Stays

structure Undone (encode decode : String → Json → Result Json) (plan : Plan) (steps : List Step)
    (doc wire : Doc) : Prop where
  encoded : encodeAll encode plan steps doc = .ok wire
  distinct : (Json.obj wire).Distinct
  decoded : ∃ back, decodeSteps decode plan steps.reverse wire = .ok back ∧ Alike (.obj back) (.obj doc)

structure UndoneAt (encode decode : String → Json → Result Json) (plan : Plan) (steps : List Step)
    (o p : Option Json) : Prop where
  encoded : encodeBlock encode plan steps o = .ok p
  distinct : ∀ v ∈ p, v.Distinct
  decoded : ∃ back, decodeBlock decode plan steps.reverse p = .ok back ∧ AlikeAt back o

theorem Undone.nil {doc : Doc} (distinct : (Json.obj doc).Distinct) :
    Undone encode decode plan [] doc doc :=
  ⟨rfl, distinct, doc, rfl, Alike.refl distinct⟩

theorem Undone.append (keeps : ∀ name, KeepsAlike (decode name)) {first second : List Step}
    {doc between wire : Doc} (undone : Undone encode decode plan first doc between)
    (later : Undone encode decode plan second between wire) :
    Undone encode decode plan (first ++ second) doc wire := by
  obtain ⟨back, decoded, alike⟩ := later.decoded
  obtain ⟨before, undone_first, same⟩ := undone.decoded
  obtain ⟨other, done, still⟩ := decodeSteps_alike keeps first.reverse alike.symm undone_first
  refine ⟨?_, later.distinct, other, ?_, still.symm.trans same⟩
  · rw [encodeAll_append, undone.encoded, ok_bind, later.encoded]
  · rw [List.reverse_append, decodeSteps_append, decoded, ok_bind, done]

theorem decodeBlock_alike (keeps : ∀ name, KeepsAlike (decode name)) (steps : List Step)
    {o p r : Option Json} (alike : AlikeAt o p) (run : decodeBlock decode plan steps o = .ok r) :
    ∃ q, decodeBlock decode plan steps p = .ok q ∧ AlikeAt r q := by
  induction steps generalizing o p with
  | nil =>
    cases Except.ok.inj run
    exact ⟨p, rfl, alike⟩
  | cons step rest ih =>
    obtain ⟨between, first, later⟩ := bind_eq_ok run
    obtain ⟨other, done, same⟩ := decodeAt_keepsAlike keeps alike first
    obtain ⟨q, all, alike⟩ := ih same later
    refine ⟨q, ?_, alike⟩
    rw [decodeBlock, done, ok_bind, all]

theorem UndoneAt.nil {o : Option Json} (distinct : ∀ v ∈ o, v.Distinct) :
    UndoneAt encode decode plan [] o o :=
  ⟨rfl, distinct, o, rfl, Json.alikeAt_refl distinct⟩

theorem UndoneAt.append (keeps : ∀ name, KeepsAlike (decode name)) {first second : List Step}
    {o between p : Option Json} (undone : UndoneAt encode decode plan first o between)
    (later : UndoneAt encode decode plan second between p) :
    UndoneAt encode decode plan (first ++ second) o p := by
  obtain ⟨back, decoded, alike⟩ := later.decoded
  obtain ⟨before, undone_first, same⟩ := undone.decoded
  obtain ⟨other, done, still⟩ := decodeBlock_alike keeps first.reverse alike.symm undone_first
  refine ⟨?_, later.distinct, other, ?_, still.symm.trans same⟩
  · rw [encodeBlock_append, undone.encoded, ok_bind, later.encoded]
  · rw [List.reverse_append, decodeBlock_append, decoded, ok_bind, done]

theorem changed_distinct {doc wire : Doc} {key : String} {o : Option Json}
    (distinct : (Json.obj doc).Distinct) (value : ∀ v ∈ o, v.Distinct) (changed : Changed doc key o wire) :
    (Json.obj wire).Distinct := by
  obtain ⟨_, values⟩ := Json.distinct_obj.mp distinct
  obtain ⟨keys, under⟩ := changed
  refine Json.distinct_obj.mpr ⟨keys, fun k v found => ?_⟩
  rw [under] at found
  split at found
  · exact value v found
  · exact values k v found

theorem Undone.of_block {key : String} {steps : List Step} (stays : StaysAt key steps) {doc : Doc}
    (distinct : (Json.obj doc).Distinct) {o : Option Json}
    (undone : UndoneAt encode decode plan steps (doc.get? key) o) :
    ∃ wire, Undone encode decode plan steps doc wire ∧ Changed doc key o wire := by
  have keys := (Json.distinct_obj.mp distinct).1
  obtain ⟨wire, encoded, changed⟩ := encodeAll_block stays keys undone.encoded
  obtain ⟨back, decoded, alike⟩ := undone.decoded
  have under : wire.get? key = o := by rw [changed.2, if_pos rfl]
  rw [← under] at decoded
  obtain ⟨doc', run, distinct', changed'⟩ := decodeSteps_block
    (fun step inside => stays step (List.mem_reverse.mp inside)) changed.1 decoded
  refine ⟨wire, ⟨encoded, changed_distinct distinct undone.distinct changed, doc', run, ?_⟩, changed⟩
  refine Json.alike_obj.mpr ⟨distinct', keys, fun k => ?_⟩
  rw [changed', changed.2]
  split
  · rename_i same
    rw [← same]
    exact alike
  · exact Json.alikeAt_refl fun v found => (Json.distinct_obj.mp distinct).2 k v found

end Wireform.Codec
