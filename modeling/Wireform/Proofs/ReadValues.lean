import Wireform.Json.Reader
import Wireform.Proofs.DistinctTypes
import Wireform.Proofs.KeyMaps
import Wireform.Proofs.Basic

/-!
Readers of values that are in memory. A reader takes the value that was written for a thing, wherever it may go as deep
as the value does, and records take the values of their members in order. What any reader can give is said apart, for
drafts of every kind.
-/

set_option autoImplicit false

namespace Wireform

theorem KeyMap.ofList_entries {α : Type} (m : KeyMap α) : ofList m.entries = m := by
  refine ext_get? fun key => ?_
  cases found : m.get? key with
  | some value =>
    refine get?_ofList_of_unique (mem_entries.mpr found) fun other there => ?_
    exact Option.some.inj ((mem_entries.mp there).symm.trans found)
  | none =>
    refine Option.eq_none_iff_forall_ne_some.mpr fun value there => ?_
    rw [mem_entries.mp (mem_of_get?_ofList there)] at found
    cases found

namespace Json

namespace Draft

theorem heights_le {items : List Json} {n : Nat} :
    height.heights (ofJson.ofItems items) ≤ n ↔ ∀ item ∈ items, (ofJson item).height ≤ n := by
  induction items with
  | nil => simp [ofJson.ofItems, height.heights]
  | cons item rest ih => simp [ofJson.ofItems, height.heights, ih]

theorem memberHeights_le {entries : Entries Json} {n : Nat} :
    height.memberHeights (ofJson.ofEntries entries) ≤ n ↔ ∀ entry ∈ entries, (ofJson entry.2).height ≤ n := by
  induction entries with
  | nil => simp [ofJson.ofEntries, height.memberHeights]
  | cons entry rest ih => simp [ofJson.ofEntries, height.memberHeights, ih]

theorem height_arr_le {items : List Json} {n : Nat} :
    (ofJson (.arr items)).height ≤ n ↔ ∃ k, n = k + 1 ∧ ∀ item ∈ items, (ofJson item).height ≤ k := by
  simp only [← heights_le]
  rw [ofJson, height]
  constructor
  · intro fits
    exact ⟨n - 1, by omega, by omega⟩
  · rintro ⟨k, rfl, fits⟩
    omega

theorem height_obj_le {entries : Entries Json} {n : Nat} :
    (ofJson (.obj entries)).height ≤ n ↔ ∃ k, n = k + 1 ∧ ∀ entry ∈ entries, (ofJson entry.2).height ≤ k := by
  simp only [← memberHeights_le]
  rw [ofJson, height]
  constructor
  · intro fits
    exact ⟨n - 1, by omega, by omega⟩
  · rintro ⟨k, rfl, fits⟩
    omega

theorem toMembers_ofEntries {entries : Entries Json} {before : Entries Json} {allowance : Nat}
    (distinct : (before ++ entries).Distinct)
    (values : ∀ entry ∈ entries, (ofJson entry.2).toJson allowance = .ok entry.2) :
    toJson.toMembers allowance before (ofJson.ofEntries entries) = .ok (before ++ entries) := by
  induction entries generalizing before with
  | nil => rw [ofJson.ofEntries, toJson.toMembers, List.append_nil]
  | cons entry rest ih =>
    obtain ⟨key, value⟩ := entry
    have fresh : key ∉ Entries.keys before := by
      rw [Entries.Distinct, Entries.keys, List.map_append, List.map_cons] at distinct
      exact fun inside => (List.nodup_append.mp distinct).2.2 key inside key List.mem_cons_self rfl
    have first : (ofJson value).toJson allowance = .ok value := values (key, value) List.mem_cons_self
    rw [ofJson.ofEntries, toJson.toMembers, Literal.pure, ok_bind, first, ok_bind,
      Entries.insert_of_not_mem fresh, ih ?distinct fun entry inside => values entry (List.mem_cons_of_mem _ inside)]
    -- The key is new, so that the member is put last.
    case distinct => rwa [List.append_assoc, List.singleton_append]
    rw [List.append_assoc, List.singleton_append]

theorem toItems_ofItems {items : List Json} {allowance : Nat}
    (values : ∀ item ∈ items, (ofJson item).toJson allowance = .ok item) :
    toJson.toItems allowance (ofJson.ofItems items) = .ok items := by
  induction items with
  | nil => rfl
  | cons item rest ih =>
    rw [ofJson.ofItems, toJson.toItems, values item List.mem_cons_self, ok_bind,
      ih fun item inside => values item (List.mem_cons_of_mem _ inside), ok_bind]
    rfl

theorem toJson_ofJson : ∀ (value : Json), value.Distinct → ∀ allowance, (ofJson value).height ≤ allowance →
    (ofJson value).toJson allowance = .ok value
  | .null, _, _, _ => rfl
  | .bool _, _, _, _ => rfl
  | .num _, _, _, _ => rfl
  | .str _, _, _, _ => rfl
  | .arr items, distinct, allowance, fits => by
    obtain ⟨k, rfl, inside⟩ := height_arr_le.mp fits
    have values := toItems_ofItems fun item there =>
      toJson_ofJson item (distinct_arr.mp distinct item there) k (inside item there)
    rw [ofJson, toJson, if_neg (Nat.succ_ne_zero k), Nat.add_sub_cancel, values]
    rfl
  | .obj entries, distinct, allowance, fits => by
    obtain ⟨k, rfl, inside⟩ := height_obj_le.mp fits
    obtain ⟨keys, members⟩ := distinct
    have values := toMembers_ofEntries (List.nil_append entries ▸ keys) fun entry there =>
      toJson_ofJson entry.2 (distinct_members.mp members entry.1 entry.2 there) k (inside entry there)
    rw [ofJson, toJson, if_neg (Nat.succ_ne_zero k), Nat.add_sub_cancel, values]
    rfl
termination_by value => sizeOf value
decreasing_by
  · have := List.sizeOf_lt_of_mem there
    simp only [Json.arr.sizeOf_spec]
    omega
  · obtain ⟨key, value⟩ := entry
    have := List.sizeOf_lt_of_mem there
    simp only [Json.obj.sizeOf_spec, Prod.mk.sizeOf_spec] at this ⊢
    omega

end Draft

namespace Reader

def Reads {α : Type} (reader : Reader α) (value : Json) (a : α) : Prop :=
  ∀ allowance, (Draft.ofJson value).height ≤ allowance → reader allowance (Draft.ofJson value) = .ok a

def Gives {α : Type} (reader : Reader α) (Good : α → Prop) : Prop :=
  ∀ allowance draft a, reader allowance draft = .ok a → Good a

section Simple

theorem reads_string (text : String) : Reads string (.str text) text := fun _ _ => rfl

theorem reads_bool (b : Bool) : Reads bool (.bool b) b := fun _ _ => rfl

def IsInt32 (n : Int) : Prop := -0x80000000 ≤ n ∧ n < 0x80000000

theorem reads_int32 {n : Int} (small : IsInt32 n) : Reads int32 (.int n) n := by
  intro allowance _
  have there : int32 allowance (Draft.ofJson (.int n)) =
      if -0x80000000 ≤ n ∧ n < 0x80000000 then .ok n else object (.outOfRange n "i32") [] := rfl
  rw [there, if_pos ⟨small.1, small.2⟩]

theorem reads_json {value : Json} (distinct : value.Distinct) : Reads json value value := by
  intro allowance fits
  rw [json, Draft.toJson_ofJson value distinct allowance fits, lift]

end Simple

section Containers

variable {α : Type} {reader : Reader α}

theorem reads_null : Reads (option reader) .null none := fun _ _ => rfl

theorem reads_some {value : Json} {a : α} (reads : Reads reader value a) (given : value ≠ .null) :
    Reads (option reader) value (some a) := by
  intro allowance fits
  have there := reads allowance fits
  cases value with
  | null => exact absurd rfl given
  | bool b | num n | str s | arr items | obj entries =>
    -- Null alone is read as absent: every other value goes to the reader itself.
    rw [Draft.ofJson] at there ⊢
    rw [option, there]
    rfl
    all_goals exact fun _ same => Draft.noConfusion same

theorem items_ofItems {allowance : Nat} {values : List Json} {as : List α}
    (reads : List.Forall₂ (Reads reader) values as)
    (fits : ∀ value ∈ values, (Draft.ofJson value).height ≤ allowance) :
    items (reader allowance) (Draft.ofJson.ofItems values) = .ok as := by
  induction reads with
  | nil => rfl
  | cons first _ ih =>
    rw [Draft.ofJson.ofItems, items, first allowance (fits _ List.mem_cons_self), ok_bind,
      ih fun value inside => fits value (List.mem_cons_of_mem _ inside), ok_bind]
    rfl

theorem reads_list {values : List Json} {as : List α} (reads : List.Forall₂ (Reads reader) values as) :
    Reads (list reader) (.arr values) as := by
  intro allowance fits
  obtain ⟨k, rfl, inside⟩ := Draft.height_arr_le.mp fits
  rw [Draft.ofJson, list, enter, items_ofItems reads inside]
  rfl

theorem entries_ofEntries {allowance : Nat} {values : Entries Json} {map : KeyMap Json}
    (distinct : ∀ entry ∈ values, entry.2.Distinct)
    (fits : ∀ entry ∈ values, (Draft.ofJson entry.2).height ≤ allowance) :
    entries allowance map (Draft.ofJson.ofEntries values) =
      .ok (values.foldl (fun map entry => map.insert entry.1 entry.2) map) := by
  induction values generalizing map with
  | nil => rfl
  | cons entry rest ih =>
    obtain ⟨key, value⟩ := entry
    have first := reads_json (distinct _ List.mem_cons_self) allowance (fits _ List.mem_cons_self)
    rw [Draft.ofJson.ofEntries, entries, Literal.pure, lift, ok_bind, first, ok_bind,
      ih (fun entry inside => distinct entry (List.mem_cons_of_mem _ inside))
        fun entry inside => fits entry (List.mem_cons_of_mem _ inside)]
    rfl

theorem reads_keyMap {map : KeyMap Json} (distinct : ∀ value ∈ map.values, value.Distinct) :
    Reads keyMap (.obj map.entries) map := by
  intro allowance fits
  obtain ⟨k, rfl, inside⟩ := Draft.height_obj_le.mp fits
  have all : ∀ entry ∈ map.entries, entry.2.Distinct := fun entry there =>
    distinct entry.2 (List.mem_map.mpr ⟨entry, there, rfl⟩)
  rw [Draft.ofJson, keyMap, enter, entries_ofEntries all inside]
  exact congrArg Except.ok map.ofList_entries

end Containers

section Records

variable {α β : Type}

def Member.Takes (m : Member α) (value : Json) (before after : α) : Prop :=
  ∀ allowance, (Draft.ofJson value).height ≤ allowance → m.read allowance (Draft.ofJson value) before = .ok after

theorem takes {reader : Reader β} {value : Json} {b : β} (key : String) (set : β → α → α) (before : α)
    (reads : Reads reader value b) : (member key reader set).Takes value before (set b before) := by
  intro allowance fits
  exact congrArg (Functor.map fun b => set b before) (reads allowance fits)

theorem takes_required {reader : Reader β} {value : Json} {b : β} (key : String) (set : β → α → α) (before : α)
    (reads : Reads reader value b) : (requiredMember key reader set).Takes value before (set b before) :=
  takes key set before reads

inductive Fills : List (Member α) → Entries Json → α → α → Prop
  | nil (a : α) : Fills [] [] a a
  | cons {m : Member α} {members : List (Member α)} {value : Json} {entries : Entries Json} {a b c : α}
      (first : m.Takes value a b) (rest : Fills members entries b c) :
      Fills (m :: members) ((m.key, value) :: entries) a c

namespace Record

variable {record : Record α}

theorem readMembers_of_fills (distinct : (record.members.map (·.key)).Nodup) {members : List (Member α)}
    {entries : Entries Json} {a b : α} (fills : Fills members entries a b) {allowance : Nat} {seen : List String}
    (known : ∀ m ∈ members, m ∈ record.members) (fresh : (members.map (·.key)).Nodup)
    (unseen : ∀ m ∈ members, m.key ∉ seen)
    (fits : ∀ entry ∈ entries, (Draft.ofJson entry.2).height ≤ allowance) :
    record.readMembers allowance (Draft.ofJson.ofEntries entries) seen a =
      .ok (b, (members.map (·.key)).reverse ++ seen) := by
  induction fills generalizing seen with
  | nil => rfl
  | @cons m members value entries a b c first rest ih =>
    -- Keys are distinct, so the member is the one that its key leads to, and it is not there twice.
    have found : record.members.find? (fun other => other.key = m.key) = some m := by
      simpa only [beq_eq_decide] using find?_of_nodup distinct (known m List.mem_cons_self)
    have new : seen.contains m.key = false := by simpa using unseen m List.mem_cons_self
    obtain ⟨apart, fresh⟩ := List.nodup_cons.mp fresh
    have later : ∀ other ∈ members, other.key ∉ m.key :: seen := by
      intro other inside again
      rcases List.mem_cons.mp again with same | before
      · exact apart (List.mem_map.mpr ⟨other, inside, same⟩)
      · exact unseen other (List.mem_cons_of_mem _ inside) before
    rw [Draft.ofJson.ofEntries, readMembers, Literal.pure, lift, ok_bind, found]
    simp only [new, Bool.false_eq_true, if_false]
    rw [first allowance (fits _ List.mem_cons_self), Except.mapError, ok_bind,
      ih (fun other inside => known other (List.mem_cons_of_mem _ inside)) fresh later
        fun entry inside => fits entry (List.mem_cons_of_mem _ inside),
      List.map_cons, List.reverse_cons, List.append_assoc, List.singleton_append]

theorem reads_of_fills (origin : Origin) (distinct : (record.members.map (·.key)).Nodup) {entries : Entries Json}
    {a : α} (fills : Fills record.members entries record.default a) :
    Reads (record.reader origin) (.obj entries) a := by
  intro allowance fits
  obtain ⟨k, rfl, inside⟩ := Draft.height_obj_le.mp fits
  have filled := readMembers_of_fills distinct fills (fun _ there => there) distinct
    (fun _ _ => List.not_mem_nil) inside
  rw [List.append_nil] at filled
  have complete : record.members.find? (fun m => m.required &&
      !(record.members.map fun m => m.key).reverse.contains m.key) = none := by
    refine List.find?_eq_none.mpr fun m there => ?_
    have seen : m.key ∈ (record.members.map fun m => m.key).reverse :=
      List.mem_reverse.mpr (List.mem_map.mpr ⟨m, there, rfl⟩)
    rw [List.contains_iff_mem.mpr seen, Bool.not_true, Bool.and_false]
    exact Bool.false_ne_true
  rw [Draft.ofJson, Record.reader, enter, filled, ok_bind]
  simp only [complete]
  rfl

end Record

end Records

section Indifferent

variable {α β : Type}

def Indifferent (reader : Reader α) (v w : Json) : Prop :=
  (Draft.ofJson v).height = (Draft.ofJson w).height ∧
    ∀ allowance, reader allowance (Draft.ofJson v) = reader allowance (Draft.ofJson w)

theorem span_ofJson (v : Json) : (Draft.ofJson v).span = .none := by
  cases v <;> rfl

theorem readJson_eq {reader : Reader α} {v w : Json} (same : Indifferent reader v w) :
    readJson reader v = readJson reader w := by
  simp only [readJson, same.1, same.2]

theorem indifferent_item {reader : Reader α} {v w : Json} (same : Indifferent reader v w) (before after : List Json) :
    Indifferent (list reader) (.arr (before ++ v :: after)) (.arr (before ++ w :: after)) := by
  have read (allowance : Nat) : items (reader allowance) (Draft.ofJson.ofItems (before ++ v :: after)) =
      items (reader allowance) (Draft.ofJson.ofItems (before ++ w :: after)) := by
    induction before with
    | nil => simp only [List.nil_append, Draft.ofJson.ofItems, items, same.2]
    | cons first rest ih => simp only [List.cons_append, Draft.ofJson.ofItems, items, ih]
  have heights : Draft.height.heights (Draft.ofJson.ofItems (before ++ v :: after)) =
      Draft.height.heights (Draft.ofJson.ofItems (before ++ w :: after)) := by
    clear read
    induction before with
    | nil => simp only [List.nil_append, Draft.ofJson.ofItems, Draft.height.heights, same.1]
    | cons first rest ih => simp only [List.cons_append, Draft.ofJson.ofItems, Draft.height.heights, ih]
  refine ⟨?_, fun allowance => ?_⟩
  · rw [Draft.ofJson, Draft.ofJson, Draft.height, Draft.height, heights]
  · simp only [Draft.ofJson, list, read]

theorem Record.indifferent_member {record : Record α} {reader : Reader β} {v w : Json}
    (same : Indifferent reader v w) (origin : Origin) {key : String} {set : β → α → α} {required : Bool}
    (found : record.members.find? (fun m => m.key = key) = some { member key reader set with required })
    (before after : Entries Json) : Indifferent (record.reader origin)
      (.obj (before ++ (key, v) :: after)) (.obj (before ++ (key, w) :: after)) := by
  have read (allowance : Nat) (seen : List String) (a : α) :
      record.readMembers allowance (Draft.ofJson.ofEntries (before ++ (key, v) :: after)) seen a =
        record.readMembers allowance (Draft.ofJson.ofEntries (before ++ (key, w) :: after)) seen a := by
    induction before generalizing seen a with
    | nil =>
      simp only [List.nil_append, Draft.ofJson.ofEntries, readMembers, Literal.pure, lift, ok_bind, found, member,
        same.2, span_ofJson]
    | cons first rest ih => simp only [List.cons_append, Draft.ofJson.ofEntries, readMembers, ih]
  have heights : Draft.height.memberHeights (Draft.ofJson.ofEntries (before ++ (key, v) :: after)) =
      Draft.height.memberHeights (Draft.ofJson.ofEntries (before ++ (key, w) :: after)) := by
    clear read
    induction before with
    | nil => simp only [List.nil_append, Draft.ofJson.ofEntries, Draft.height.memberHeights, same.1]
    | cons first rest ih => simp only [List.cons_append, Draft.ofJson.ofEntries, Draft.height.memberHeights, ih]
  refine ⟨?_, fun allowance => ?_⟩
  · rw [Draft.ofJson, Draft.ofJson, Draft.height, Draft.height, heights]
  · simp only [Draft.ofJson, Record.reader, read]

end Indifferent

section Given

variable {α β : Type}

theorem not_refused {wanted : String} {draft : Draft} {a : α} (run : refuse wanted draft = .ok a) : False := by
  cases draft with
  | null | bool | arr | obj | broken => cases run
  | num literal span =>
    obtain ⟨number, _, run⟩ := bind_eq_ok run
    cases number <;> cases run
  | str literal span =>
    obtain ⟨found, _, run⟩ := bind_eq_ok run
    cases run

theorem of_lift {x : Except Fault α} {a : α} (run : lift x = .ok a) : x = .ok a := by
  cases x with
  | error fault => cases run
  | ok b => exact congrArg Except.ok (Except.ok.inj run)

theorem of_enter {span : Span} {allowance : Nat} {read : Nat → ReadResult α} {a : α}
    (run : enter span allowance read = .ok a) : ∃ k, read k = .ok a := by
  cases allowance with
  | zero => cases run
  | succ k => exact ⟨k, run⟩

theorem gives_any (reader : Reader α) : Gives reader fun _ => True := fun _ _ _ _ => trivial

theorem gives_int32 : Gives int32 IsInt32 := by
  intro allowance draft n run
  unfold int32 at run
  split at run
  · obtain ⟨number, _, run⟩ := bind_eq_ok run
    cases number with
    | float x => exact (not_refused run).elim
    | int k =>
      simp only at run
      split at run
      · next small => cases run; exact small
      · cases run
  · exact (not_refused run).elim

theorem distinct_of_toMembers {allowance : Nat} {members : List (Key × Draft)} {before entries : Entries Json}
    (run : Draft.toJson.toMembers allowance before members = .ok entries) (distinct : (Json.obj before).Distinct)
    (each : ∀ entry ∈ members, ∀ value, entry.2.toJson allowance = .ok value → value.Distinct) :
    (Json.obj entries).Distinct := by
  induction members generalizing before with
  | nil => cases run; exact distinct
  | cons entry rest ih =>
    obtain ⟨key, draft⟩ := entry
    rw [Draft.toJson.toMembers] at run
    obtain ⟨name, _, run⟩ := bind_eq_ok run
    obtain ⟨value, read, run⟩ := bind_eq_ok run
    have good := each _ List.mem_cons_self value read
    -- A repeated key takes the place of the value that is there.
    refine ih run ?_ fun entry inside => each entry (List.mem_cons_of_mem _ inside)
    obtain ⟨keys, values⟩ := distinct_obj.mp distinct
    refine distinct_obj.mpr ⟨Entries.distinct_insert keys name value, fun other found there => ?_⟩
    rw [Entries.get?_insert] at there
    split at there
    · exact Option.some.inj there ▸ good
    · exact values other found there

theorem distinct_of_toItems {allowance : Nat} {drafts : List Draft} {items : List Json}
    (run : Draft.toJson.toItems allowance drafts = .ok items)
    (each : ∀ draft ∈ drafts, ∀ value, draft.toJson allowance = .ok value → value.Distinct) :
    ∀ item ∈ items, item.Distinct := by
  induction drafts generalizing items with
  | nil => cases run; exact fun _ inside => absurd inside List.not_mem_nil
  | cons draft rest ih =>
    rw [Draft.toJson.toItems] at run
    obtain ⟨value, read, run⟩ := bind_eq_ok run
    obtain ⟨values, others, run⟩ := bind_eq_ok run
    cases run
    intro item inside
    rcases List.mem_cons.mp inside with rfl | later
    · exact each draft List.mem_cons_self item read
    · exact ih others (fun draft there => each draft (List.mem_cons_of_mem _ there)) item later

theorem distinct_of_toJson : ∀ (draft : Draft) (allowance : Nat) (value : Json),
    draft.toJson allowance = .ok value → value.Distinct
  | .null _, _, _, run | .bool _ _, _, _, run => by cases run; trivial
  | .num literal _, _, _, run | .str literal _, _, _, run => by
    obtain ⟨_, _, rfl⟩ := map_eq_ok run
    trivial
  | .arr items stop span, allowance, value, run => by
    rw [Draft.toJson] at run
    split at run
    · cases run
    · obtain ⟨values, read, run⟩ := bind_eq_ok run
      obtain ⟨_, _, run⟩ := bind_eq_ok run
      cases run
      exact distinct_arr.mpr (distinct_of_toItems read fun draft there => distinct_of_toJson draft _)
  | .obj members stop span, allowance, value, run => by
    rw [Draft.toJson] at run
    split at run
    · cases run
    · obtain ⟨entries, read, run⟩ := bind_eq_ok run
      obtain ⟨_, _, run⟩ := bind_eq_ok run
      cases run
      exact distinct_of_toMembers read distinct_empty fun entry there => distinct_of_toJson entry.2 _
  | .broken _ _, _, _, run => by cases run
termination_by draft => sizeOf draft
decreasing_by
  · have := List.sizeOf_lt_of_mem there
    simp only [Draft.arr.sizeOf_spec]
    omega
  · obtain ⟨key, draft⟩ := entry
    have := List.sizeOf_lt_of_mem there
    simp only [Draft.obj.sizeOf_spec, Prod.mk.sizeOf_spec] at this ⊢
    omega

theorem gives_json : Gives json Json.Distinct := fun allowance draft value run =>
  distinct_of_toJson draft allowance value (of_lift run)

theorem distinct_of_entries {allowance : Nat} {members : List (Key × Draft)} {before map : KeyMap Json}
    (run : entries allowance before members = .ok map) (distinct : ∀ value ∈ before.values, value.Distinct) :
    ∀ value ∈ map.values, value.Distinct := by
  induction members generalizing before with
  | nil => cases run; exact distinct
  | cons entry rest ih =>
    obtain ⟨key, draft⟩ := entry
    rw [entries] at run
    obtain ⟨name, _, run⟩ := bind_eq_ok run
    obtain ⟨value, read, run⟩ := bind_eq_ok run
    refine ih run fun other inside => ?_
    obtain ⟨k, there⟩ := KeyMap.mem_values.mp inside
    rw [KeyMap.get?_insert] at there
    split at there
    · exact Option.some.inj there ▸ gives_json _ _ _ read
    · exact distinct other (KeyMap.mem_values.mpr ⟨k, there⟩)

theorem gives_keyMap : Gives keyMap fun map => ∀ value ∈ map.values, value.Distinct := by
  intro allowance draft map run
  unfold keyMap at run
  split at run
  · obtain ⟨k, run⟩ := of_enter run
    obtain ⟨map, read, run⟩ := bind_eq_ok run
    obtain ⟨_, _, run⟩ := bind_eq_ok run
    cases run
    exact distinct_of_entries read fun _ inside => absurd inside List.not_mem_nil
  · exact (not_refused run).elim

variable {reader : Reader α} {Good : α → Prop}

theorem gives_option (gives : Gives reader Good) : Gives (option reader) fun o => ∀ a ∈ o, Good a := by
  intro allowance draft o run
  cases draft with
  | null => cases run; exact fun _ inside => nomatch inside
  | bool | num | str | arr | obj | broken =>
    obtain ⟨a, read, rfl⟩ := map_eq_ok run
    rintro _ ⟨⟩
    exact gives _ _ _ read

theorem of_items {read : Draft → ReadResult α} (gives : ∀ draft a, read draft = .ok a → Good a)
    {drafts : List Draft} {as : List α} (run : items read drafts = .ok as) : ∀ a ∈ as, Good a := by
  induction drafts generalizing as with
  | nil => cases run; exact fun _ inside => absurd inside List.not_mem_nil
  | cons draft rest ih =>
    rw [items] at run
    obtain ⟨a, first, run⟩ := bind_eq_ok run
    obtain ⟨others, later, run⟩ := bind_eq_ok run
    cases run
    intro b inside
    rcases List.mem_cons.mp inside with rfl | there
    · exact gives _ _ first
    · exact ih later b there

theorem gives_list (gives : Gives reader Good) : Gives (list reader) fun as => ∀ a ∈ as, Good a := by
  intro allowance draft as run
  unfold list at run
  split at run
  · obtain ⟨k, run⟩ := of_enter run
    obtain ⟨values, read, run⟩ := bind_eq_ok run
    obtain ⟨_, _, run⟩ := bind_eq_ok run
    cases run
    exact of_items (gives k) read
  · exact (not_refused run).elim

def Member.Keeps (m : Member α) (Good : α → Prop) : Prop :=
  ∀ allowance draft before after, m.read allowance draft before = .ok after → Good before → Good after

theorem keeps {reader : Reader β} {Fine : β → Prop} (key : String) {set : β → α → α} (gives : Gives reader Fine)
    (good : ∀ b a, Fine b → Good a → Good (set b a)) : (member key reader set).Keeps Good := by
  intro allowance draft before after run
  obtain ⟨b, read, rfl⟩ := map_eq_ok run
  exact good b before (gives _ _ _ read)

theorem keeps_required {reader : Reader β} {Fine : β → Prop} (key : String) {set : β → α → α}
    (gives : Gives reader Fine) (good : ∀ b a, Fine b → Good a → Good (set b a)) :
    (requiredMember key reader set).Keeps Good :=
  keeps key gives good

namespace Record

variable {record : Record α}

theorem of_readMembers (each : ∀ m ∈ record.members, m.Keeps Good) {allowance : Nat}
    {drafts : List (Key × Draft)} {seen seen' : List String} {before after : α}
    (run : record.readMembers allowance drafts seen before = .ok (after, seen')) (good : Good before) :
    Good after := by
  induction drafts generalizing seen before with
  | nil => cases run; exact good
  | cons entry rest ih =>
    obtain ⟨key, draft⟩ := entry
    rw [readMembers] at run
    obtain ⟨name, _, run⟩ := bind_eq_ok run
    split at run
    · next m found =>
      split at run
      · cases run
      · obtain ⟨next, read, run⟩ := bind_eq_ok run
        exact ih run (each m (List.mem_of_find?_eq_some found) _ _ _ _ (mapError_eq_ok read) good)
    · split at run
      · cases run
      · obtain ⟨_, _, run⟩ := bind_eq_ok run
        exact ih run good

theorem of_readPositions {members : List (Member α)} (each : ∀ m ∈ members, m.Keeps Good) {allowance : Nat}
    {stop : Option Break} {span : Span} {drafts left : List Draft} {position : Nat} {before after : α}
    (run : record.readPositions allowance stop span members drafts position before = .ok (after, left))
    (good : Good before) : Good after := by
  induction members generalizing drafts position before with
  | nil => cases run; exact good
  | cons m members ih =>
    have others : ∀ other ∈ members, other.Keeps Good := fun other inside => each other (List.mem_cons_of_mem _ inside)
    cases drafts with
    | cons draft rest =>
      rw [readPositions] at run
      obtain ⟨next, read, run⟩ := bind_eq_ok run
      exact ih others run (each m List.mem_cons_self _ _ _ _ (mapError_eq_ok read) good)
    | nil =>
      rw [readPositions] at run
      obtain ⟨_, _, run⟩ := bind_eq_ok run
      split at run
      · cases run
      · exact ih others run good

theorem not_surplus {origin : Origin} {length : Nat} {first : Draft} {a : β}
    (run : surplus origin length first = .ok a) : False := by
  unfold surplus at run
  split at run
  · split at run <;> cases run
  · cases run

theorem gives {origin : Origin} (start : Good record.default) (each : ∀ m ∈ record.members, m.Keeps Good) :
    Gives (record.reader origin) Good := by
  intro allowance draft a run
  unfold Record.reader at run
  -- An array gives the members by position, an object by key. Nothing else is taken.
  split at run
  · obtain ⟨k, run⟩ := of_enter run
    obtain ⟨⟨value, left⟩, read, run⟩ := bind_eq_ok run
    have good := of_readPositions each read start
    cases left with
    | cons first rest => exact (not_surplus run).elim
    | nil =>
      simp only at run
      split at run
      all_goals
        obtain ⟨_, _, run⟩ := bind_eq_ok run
        cases run
        exact good
  · obtain ⟨k, run⟩ := of_enter run
    obtain ⟨⟨value, seen⟩, read, run⟩ := bind_eq_ok run
    have good := of_readMembers each read start
    obtain ⟨_, _, run⟩ := bind_eq_ok run
    split at run
    · cases run
    · cases run
      exact good
  · exact (not_refused run).elim

end Record

end Given

end Reader

end Json

end Wireform
