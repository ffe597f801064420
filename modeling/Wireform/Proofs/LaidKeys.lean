import Wireform.Proofs.AcceptedIndex
import Wireform.Proofs.CheckedMessages

set_option autoImplicit false

namespace Wireform.Index

def LaysOut (child other : String → String → KeyLayout) (type : String) : Prop :=
  ∀ pre keys, child type pre = .ok keys → other type pre = .ok keys

section Change

variable {child other : String → String → KeyLayout} {m : Message} {pre : String}

theorem variantKeys_lifted {member : Field} {type : String} (typed : member.message? = some type)
    (before : List String) (rest : List Field) :
    variantKeys child true pre before (member :: rest) =
      (do variantKeys child true pre (addNew before (← child type pre)) rest) := by
  simp only [variantKeys, typed]

theorem variantKeys_beside {member : Field} {flatten : Bool}
    (plain : flatten = false ∨ member.message? = none) (before : List String) (rest : List Field) :
    variantKeys child flatten pre before (member :: rest) =
      variantKeys child flatten pre (before ++ [pre ++ member.jsonName]) rest := by
  rcases plain with rfl | untyped
  · simp only [variantKeys]
  · simp only [variantKeys, untyped]

theorem variantKeys_laysOut {flatten : Bool} {members : List Field} {before keys : List String}
    (agree : ∀ member ∈ members, ∀ type, member.message? = some type → LaysOut child other type)
    (run : variantKeys child flatten pre before members = .ok keys) :
    variantKeys other flatten pre before members = .ok keys := by
  induction members generalizing before with
  | nil => exact run
  | cons member rest ih =>
    have later (before : List String) := @ih before fun other inside => agree other (by simp [inside])
    cases typed : member.message? with
    | none =>
      rw [variantKeys_beside (.inr typed)] at run ⊢
      exact later _ run
    | some type =>
      cases flatten with
      | false =>
        rw [variantKeys_beside (.inl rfl)] at run ⊢
        exact later _ run
      | true =>
        rw [variantKeys_lifted typed] at run ⊢
        obtain ⟨lifted, found, run⟩ := bind_eq_ok run
        rw [agree member (by simp) type typed pre lifted found, ok_bind]
        exact later _ run

theorem fieldKeys_laysOut {f : Field} {keys : List String}
    (agree : ∀ g ∈ m.fields, ∀ type, g.message? = some type → LaysOut child other type)
    (inside : f ∈ m.fields) (run : fieldKeys child m pre f = .ok keys) :
    fieldKeys other m pre f = .ok keys := by
  rw [fieldKeys] at run ⊢
  split at run
  · rename_i oneof config _
    split at run
    · rename_i first
      obtain ⟨variants, found, same⟩ := bind_eq_ok run
      rw [if_pos first, variantKeys_laysOut (fun member there => ?_) found, ok_bind]
      · exact same
      · obtain ⟨name, _, named⟩ := List.mem_filterMap.mp there
        exact agree member (List.mem_of_find?_eq_some named)
    · rename_i later
      rw [if_neg later]
      exact run
  · split at run
    · rename_i type _ typed _
      exact agree f inside type typed _ keys run
    · exact run

theorem fieldsKeys_laysOut {fields : List Field} {keys : List String}
    (agree : ∀ g ∈ m.fields, ∀ type, g.message? = some type → LaysOut child other type)
    (inside : ∀ f ∈ fields, f ∈ m.fields) (run : fieldsKeys child m pre fields = .ok keys) :
    fieldsKeys other m pre fields = .ok keys := by
  induction fields generalizing keys with
  | nil => exact run
  | cons f rest ih =>
    rw [fieldsKeys] at run ⊢
    obtain ⟨first, found, run⟩ := bind_eq_ok run
    obtain ⟨others, laid, same⟩ := bind_eq_ok run
    rw [fieldKeys_laysOut agree (inside f (by simp)) found, ok_bind,
      ih (fun g there => inside g (by simp [there])) laid, ok_bind]
    exact same

end Change

def unopened (index : Index) (openNames : List String) : Nat :=
  (index.messages.keys.filter fun name => !openNames.contains name).length

theorem unopened_lt {index : Index} {openNames : List String} {name : String} {m : Message}
    (found : index.messages.get? name = some m) (fresh : openNames.contains name = false) :
    index.unopened (openNames ++ [name]) < index.unopened openNames := by
  have inside : name ∈ index.messages.keys := Entries.mem_keys_of_mem (KeyMap.mem_entries.mpr found)
  have split : (index.messages.keys.filter fun other => !(openNames ++ [name]).contains other) =
      (index.messages.keys.filter fun other => !openNames.contains other).filter (· != name) := by
    rw [List.filter_filter]
    congr 1
    funext other
    by_cases same : other = name <;> simp [same]
  rw [unopened, split, unopened]
  refine List.length_filter_lt_length_iff_exists.mpr ⟨name, List.mem_filter.mpr ⟨inside, ?_⟩, by simp⟩
  rw [fresh]
  rfl

theorem keysWithin_laysOut {index : Index} (sound : index.Sound) {levels more : Nat}
    {openNames fewer : List String} (room : index.unopened openNames < levels) (enough : levels ≤ more)
    (closed : ∀ name ∈ fewer, name ∈ openNames) {name : String} (bare : bareName name = name) :
    LaysOut (keysWithin index levels openNames) (keysWithin index more fewer) name := by
  induction levels generalizing more openNames fewer name with
  | zero => exact absurd room (Nat.not_lt_zero _)
  | succ levels ih =>
    intro pre keys run
    obtain ⟨more, rfl⟩ : ∃ k, more = k + 1 := ⟨more - 1, by omega⟩
    rw [keysWithin] at run ⊢
    split at run
    · cases run
    · rename_i fresh
      have still : ¬ fewer.contains name = true := by
        simp only [List.contains_iff_mem] at fresh ⊢
        exact fun inside => fresh (closed name inside)
      rw [if_neg still]
      cases found : index.message? name with
      | none =>
        rw [found] at run
        exact run
      | some m =>
        rw [found] at run
        have known : index.messages.get? name = some m := by
          rw [message?, bare] at found
          exact found
        have smaller := unopened_lt known (Bool.not_eq_true _ ▸ fresh)
        refine fieldsKeys_laysOut (fun g inside type typed => ?_) (fun _ inside => inside) run
        -- Each message opened leaves one name fewer to open, which is what the room counts.
        refine ih (by omega) (by omega) ?_ ((sound.wellFormed name m found).typeName g inside type typed)
        intro other inside
        rcases List.mem_append.mp inside with there | last
        · exact List.mem_append.mpr (.inl (closed other there))
        · exact List.mem_append.mpr (.inr last)

def OnTheWay (openNames : List String) (layout : KeyLayout) : Prop :=
  ∀ cycle, layout = .error cycle → openNames <+: cycle

theorem onTheWay_bind {openNames : List String} {layout : KeyLayout} {next : List String → KeyLayout}
    (first : OnTheWay openNames layout) (later : ∀ keys, OnTheWay openNames (next keys)) :
    OnTheWay openNames (layout >>= next) := by
  intro cycle run
  cases layout with
  | error fault =>
    cases run
    exact first _ rfl
  | ok keys => exact later keys cycle run

theorem onTheWay_ok {openNames keys : List String} : OnTheWay openNames (.ok keys) :=
  fun _ never => nomatch never

section Cycles

variable {child : String → String → KeyLayout} {openNames : List String}
  (children : ∀ type pre, OnTheWay openNames (child type pre))

include children

theorem variantKeys_onTheWay (flatten : Bool) (pre : String) (before : List String)
    (members : List Field) : OnTheWay openNames (variantKeys child flatten pre before members) := by
  induction members generalizing before with
  | nil => exact onTheWay_ok
  | cons member rest ih =>
    cases typed : member.message? with
    | none =>
      rw [variantKeys_beside (.inr typed)]
      exact ih _
    | some type =>
      cases flatten with
      | false =>
        rw [variantKeys_beside (.inl rfl)]
        exact ih _
      | true =>
        rw [variantKeys_lifted typed]
        exact onTheWay_bind (children type pre) fun _ => ih _

theorem fieldsKeys_onTheWay (m : Message) (pre : String) (fields : List Field) :
    OnTheWay openNames (fieldsKeys child m pre fields) := by
  induction fields with
  | nil => exact onTheWay_ok
  | cons f rest ih =>
    rw [fieldsKeys]
    refine onTheWay_bind ?_ fun _ => onTheWay_bind ih fun _ => onTheWay_ok
    rw [fieldKeys]
    split
    · split
      · exact onTheWay_bind (variantKeys_onTheWay children _ pre _ _) fun _ => onTheWay_ok
      · exact onTheWay_ok
    · split
      · exact children _ _
      · exact onTheWay_ok

end Cycles

theorem keysWithin_onTheWay (index : Index) (levels : Nat) (openNames : List String) (name pre : String) :
    OnTheWay openNames (keysWithin index levels openNames name pre) := by
  induction levels generalizing openNames name pre with
  | zero => exact onTheWay_ok
  | succ levels ih =>
    rw [keysWithin]
    split
    · intro cycle found
      cases found
      exact List.prefix_append _ _
    · split
      · exact onTheWay_ok
      · intro cycle found
        have further := fieldsKeys_onTheWay (fun type pre => ih (openNames ++ [name]) type pre) _ _ _ cycle found
        exact (List.prefix_append _ _).trans further

theorem flattenedKeys_head {index : Index} {name : String} {cycle : List String}
    (found : index.flattenedKeys name = .error cycle) : cycle.head? = some name := by
  rw [flattenedKeys, levels, keysWithin, if_neg (by simp)] at found
  split at found
  · cases found
  · have further := fieldsKeys_onTheWay
      (fun type pre => keysWithin_onTheWay index _ ([] ++ [name]) type pre) _ _ _ cycle found
    obtain ⟨rest, rfl⟩ := further
    rfl

def behind (pre : String) (layout : KeyLayout) : KeyLayout := layout.map (List.map (pre ++ ·))

theorem behind_ok (pre : String) (keys : List String) :
    behind pre (.ok keys) = .ok (keys.map (pre ++ ·)) := rfl

theorem addNew_behind (pre : String) (keys more : List String) :
    addNew (keys.map (pre ++ ·)) (more.map (pre ++ ·)) = (addNew keys more).map (pre ++ ·) := by
  induction more generalizing keys with
  | nil => rfl
  | cons key rest ih =>
    have known : (keys.map (pre ++ ·)).contains (pre ++ key) = keys.contains key := by
      rw [Bool.eq_iff_iff]
      simp
    have next : (if (keys.map (pre ++ ·)).contains (pre ++ key) then keys.map (pre ++ ·)
        else keys.map (pre ++ ·) ++ [pre ++ key]) =
        (if keys.contains key then keys else keys ++ [key]).map (pre ++ ·) := by
      rw [known]
      split <;> simp
    rw [addNew, List.map_cons, List.foldl_cons, next]
    exact ih _

section Prefixes

variable {child : String → String → KeyLayout}
  (children : ∀ type p q, child type (p ++ q) = behind p (child type q))

include children

theorem variantKeys_behind (flatten : Bool) (p q : String) (before : List String) (members : List Field) :
    variantKeys child flatten (p ++ q) (before.map (p ++ ·)) members =
      behind p (variantKeys child flatten q before members) := by
  induction members generalizing before with
  | nil => rfl
  | cons member rest ih =>
    have plain : before.map (p ++ ·) ++ [p ++ q ++ member.jsonName] =
        (before ++ [q ++ member.jsonName]).map (p ++ ·) := by simp [String.append_assoc]
    cases typed : member.message? with
    | none =>
      rw [variantKeys_beside (.inr typed), variantKeys_beside (.inr typed), plain, ih]
    | some type =>
      cases flatten with
      | false => rw [variantKeys_beside (.inl rfl), variantKeys_beside (.inl rfl), plain, ih]
      | true =>
        rw [variantKeys_lifted typed, variantKeys_lifted typed, children]
        cases child type q with
        | error cycle => rfl
        | ok lifted =>
          rw [behind_ok, ok_bind, ok_bind, addNew_behind, ih]

theorem fieldKeys_behind (m : Message) (p q : String) (f : Field) :
    fieldKeys child m (p ++ q) f = behind p (fieldKeys child m q f) := by
  rw [fieldKeys, fieldKeys]
  split
  · rename_i oneof config _
    split
    · have variants := variantKeys_behind children config.flatten p q [] (m.oneofMembers oneof)
      rw [List.map_nil] at variants
      rw [variants]
      cases variantKeys child config.flatten q [] (m.oneofMembers oneof) with
      | error cycle => rfl
      | ok keys =>
        rw [behind_ok, ok_bind, ok_bind, String.append_assoc]
        rfl
    · rfl
  · split
    · rw [String.append_assoc, children]
    · rw [behind_ok, String.append_assoc]
      rfl

theorem fieldsKeys_behind (m : Message) (p q : String) (fields : List Field) :
    fieldsKeys child m (p ++ q) fields = behind p (fieldsKeys child m q fields) := by
  induction fields with
  | nil => rfl
  | cons f rest ih =>
    rw [fieldsKeys, fieldsKeys, fieldKeys_behind children, ih]
    cases fieldKeys child m q f with
    | error cycle => rfl
    | ok keys =>
      rw [behind_ok, ok_bind, ok_bind]
      cases fieldsKeys child m q rest with
      | error cycle => rfl
      | ok others =>
        rw [behind_ok, ok_bind, ok_bind]
        exact congrArg Except.ok List.map_append.symm

end Prefixes

theorem keysWithin_behind (index : Index) (levels : Nat) (openNames : List String) (name p q : String) :
    keysWithin index levels openNames name (p ++ q) = behind p (keysWithin index levels openNames name q) := by
  induction levels generalizing openNames name p q with
  | zero => rfl
  | succ levels ih =>
    rw [keysWithin, keysWithin]
    split
    · rfl
    · split
      · rfl
      · exact fieldsKeys_behind (fun type p q => ih _ type p q) _ p q _

def laidKeys (index : Index) (name : String) : List String :=
  match index.flattenedKeys name with
  | .ok keys => keys
  | .error _ => []

def childLayout (index : Index) (type pre : String) : KeyLayout := behind pre (index.flattenedKeys type)

def fieldLaid (index : Index) (m : Message) (f : Field) : List String :=
  match fieldKeys index.childLayout m "" f with
  | .ok keys => keys
  | .error _ => []

theorem laidKeys_of_ok {index : Index} {name : String} {keys : List String}
    (found : index.flattenedKeys name = .ok keys) : index.laidKeys name = keys := by
  rw [laidKeys, found]

theorem unopened_le (index : Index) (openNames : List String) :
    index.unopened openNames ≤ index.messages.size := by
  refine (List.length_filter_le _ _).trans (le_of_eq ?_)
  rw [KeyMap.keys, List.length_map, KeyMap.size]

section Plain

variable {child : String → String → KeyLayout} {m : Message}

theorem groupOf?_of_plain (plain : m.discriminated = []) (f : Field) : m.groupOf? f = none := by
  rw [Message.groupOf?, plain]
  cases f.oneof <;> rfl

theorem lifting?_none (lifts : m.lifting? = none) :
    (∀ f ∈ m.fields, f.annotations.flatten = false) ∧ m.discriminated = [] := by
  rw [Message.lifting?] at lifts
  split at lifts
  · cases lifts
  · cases lifts
  · rename_i absent plain
    refine ⟨fun f inside => ?_, plain⟩
    simpa using List.find?_eq_none.mp absent f inside

theorem fieldsKeys_plain (plain : m.discriminated = []) {fields : List Field}
    (flat : ∀ f ∈ fields, f.annotations.flatten = false) :
    fieldsKeys child m "" fields = .ok (fields.map (·.jsonName)) := by
  induction fields with
  | nil => rfl
  | cons f rest ih =>
    have own : fieldKeys child m "" f = .ok [f.jsonName] := by
      rw [fieldKeys, groupOf?_of_plain plain f]
      simp [flat f (by simp)]
    rw [fieldsKeys, own, ok_bind, ih fun g inside => flat g (by simp [inside]), ok_bind]
    rfl

end Plain

section Sound

variable {index : Index} {name : String}

theorem flattenedKeys_foreign (foreign : index.message? name = none) : index.flattenedKeys name = .ok [] := by
  rw [flattenedKeys, levels, keysWithin, if_neg (by simp), foreign]

theorem fullName_eq (sound : index.Sound) (bare : bareName name = name) {m : Message}
    (found : index.message? name = some m) : m.fullName = name := by
  rw [message?, bare] at found
  exact sound.named name m found

theorem flattenedKeys_ok (sound : index.Sound) (bare : bareName name = name) {m : Message}
    (found : index.message? name = some m) :
    ∃ keys, index.flattenedKeys name = .ok keys ∧ (m.lifting?.isSome = true → keys.Nodup) := by
  obtain ⟨_, _, _, keyErrors⟩ := Message.errors_parts (sound.errors name m found)
  have named := fullName_eq sound bare found
  cases lifts : m.lifting? with
  | some culprit =>
    rcases Message.keys_of_keyErrors keyErrors (by rw [lifts]; rfl) with ⟨keys, laid, nodup⟩ | ⟨cycle, laid, head⟩
    · exact ⟨keys, named ▸ laid, fun _ => nodup⟩
    · exact absurd (flattenedKeys_head laid) head
  | none =>
    obtain ⟨flat, plain⟩ := lifting?_none lifts
    refine ⟨m.fields.map (·.jsonName), ?_, fun never => nomatch never⟩
    rw [flattenedKeys, levels, keysWithin, if_neg (by simp), found]
    exact fieldsKeys_plain plain flat

theorem fieldsKeys_of_flattenedKeys (sound : index.Sound) {m : Message}
    (found : index.message? name = some m) {keys : List String} (laid : index.flattenedKeys name = .ok keys) :
    fieldsKeys index.childLayout m "" m.fields = .ok keys := by
  rw [flattenedKeys, levels, keysWithin, if_neg (by simp), found] at laid
  refine fieldsKeys_laysOut (fun g inside type typed => ?_) (fun _ inside => inside) laid
  intro pre keys run
  have type_bare := (sound.wellFormed name m found).typeName g inside type typed
  have room := unopened_le index ([] ++ [name])
  rw [childLayout, flattenedKeys, levels, ← keysWithin_behind, String.append_empty]
  exact keysWithin_laysOut sound (Nat.lt_succ_of_le room) (by omega) (by simp) type_bare pre keys run

end Sound

theorem flatMap_of_fieldsKeys {index : Index} {m : Message} {fields : List Field} {keys : List String}
    (run : fieldsKeys index.childLayout m "" fields = .ok keys) :
    (∀ f ∈ fields, fieldKeys index.childLayout m "" f = .ok (index.fieldLaid m f)) ∧
      keys = fields.flatMap (index.fieldLaid m) := by
  induction fields generalizing keys with
  | nil =>
    cases Except.ok.inj run
    exact ⟨by simp, rfl⟩
  | cons f rest ih =>
    rw [fieldsKeys] at run
    obtain ⟨own, first, run⟩ := bind_eq_ok run
    obtain ⟨others, later, same⟩ := bind_eq_ok run
    cases Except.ok.inj same
    obtain ⟨each, split⟩ := ih later
    have laid : index.fieldLaid m f = own := by rw [fieldLaid, first]
    refine ⟨fun g inside => ?_, ?_⟩
    · rcases List.mem_cons.mp inside with rfl | there
      · rw [laid, first]
      · exact each g there
    · rw [List.flatMap_cons, laid, ← split]

theorem laidKeys_eq {index : Index} (sound : index.Sound) {name : String} (bare : bareName name = name)
    {m : Message} (found : index.message? name = some m) :
    (∀ f ∈ m.fields, fieldKeys index.childLayout m "" f = .ok (index.fieldLaid m f)) ∧
      index.laidKeys name = m.fields.flatMap (index.fieldLaid m) ∧
      (m.lifting?.isSome = true → (index.laidKeys name).Nodup) := by
  obtain ⟨keys, laid, nodup⟩ := flattenedKeys_ok sound bare found
  obtain ⟨each, split⟩ := flatMap_of_fieldsKeys (fieldsKeys_of_flattenedKeys sound found laid)
  rw [laidKeys_of_ok laid]
  exact ⟨each, split, nodup⟩

def Field.lifted? (f : Field) : Option (String × String) :=
  match f.annotations.flatten, f.message?, f.isSingular with
  | true, some type, true => some (type, f.annotations.flattenPrefix.getD "")
  | _, _, _ => none

def ownKeys (index : Index) (f : Field) : List String :=
  match f.lifted? with
  | some (type, pre) => (index.laidKeys type).map (pre ++ ·)
  | none => [f.jsonName]

theorem fieldKeys_alone {child : String → String → KeyLayout} {m : Message} {f : Field}
    (alone : m.groupOf? f = none) (pre : String) :
    fieldKeys child m pre f = match f.lifted? with
      | some (type, own) => child type (pre ++ own)
      | none => .ok [pre ++ f.jsonName] := by
  rw [fieldKeys, alone, Field.lifted?]
  cases f.annotations.flatten <;> cases f.message? <;> cases f.isSingular <;> rfl

theorem variantKeys_names {child : String → String → KeyLayout} (pre : String) (before : List String)
    (members : List Field) :
    variantKeys child false pre before members = .ok (before ++ members.map fun member => pre ++ member.jsonName) := by
  induction members generalizing before with
  | nil => simp [variantKeys]
  | cons member rest ih =>
    rw [variantKeys_beside (.inl rfl), ih, List.append_assoc]
    rfl

theorem mem_addNew {keys more : List String} {key : String} :
    key ∈ addNew keys more ↔ key ∈ keys ∨ key ∈ more := by
  induction more generalizing keys with
  | nil => simp [addNew]
  | cons first rest ih =>
    rw [addNew, List.foldl_cons]
    refine Iff.trans ih ?_
    by_cases known : first ∈ keys
    · simp only [List.contains_iff_mem, known, if_true, List.mem_cons]
      grind
    · simp only [List.contains_iff_mem, known, if_false, List.mem_append, List.mem_cons]
      grind

theorem mem_variantKeys {index : Index} {pre : String} {before keys : List String} {members : List Field}
    (run : variantKeys index.childLayout true pre before members = .ok keys) :
    (∀ key ∈ before, key ∈ keys) ∧ ∀ member ∈ members, ∀ type, member.message? = some type →
      ∀ key ∈ index.laidKeys type, pre ++ key ∈ keys := by
  induction members generalizing before with
  | nil =>
    cases Except.ok.inj run
    exact ⟨fun _ inside => inside, by simp⟩
  | cons member rest ih =>
    cases typed : member.message? with
    | none =>
      rw [variantKeys_beside (.inr typed)] at run
      obtain ⟨kept, lifted⟩ := ih run
      refine ⟨fun key inside => kept key (by simp [inside]), fun other inside type given => ?_⟩
      rcases List.mem_cons.mp inside with rfl | there
      · rw [typed] at given
        cases given
      · exact lifted other there type given
    | some type =>
      rw [variantKeys_lifted typed] at run
      obtain ⟨own, found, run⟩ := bind_eq_ok run
      obtain ⟨kept, lifted⟩ := ih run
      refine ⟨fun key inside => kept key (mem_addNew.mpr (.inl inside)), fun other inside type' given => ?_⟩
      rcases List.mem_cons.mp inside with rfl | there
      · cases Option.some.inj (typed.symm.trans given)
        obtain ⟨keys, laid, rfl⟩ := map_eq_ok (show (List.map _ <$> index.flattenedKeys type) = .ok _ from found)
        intro key there
        rw [laidKeys_of_ok laid] at there
        exact kept _ (mem_addNew.mpr (.inr (List.mem_map.mpr ⟨key, there, rfl⟩)))
      · exact lifted other there type' given

section Places

variable {index : Index} {m : Message} {f : Field}
  (laid : fieldKeys index.childLayout m "" f = .ok (index.fieldLaid m f))

include laid

theorem fieldLaid_own (alone : m.groupOf? f = none) : index.fieldLaid m f = index.ownKeys f := by
  rw [fieldKeys_alone alone] at laid
  rw [ownKeys]
  cases lifted : f.lifted? with
  | some target =>
    obtain ⟨type, pre⟩ := target
    rw [lifted] at laid
    dsimp only at laid
    rw [childLayout, String.empty_append] at laid
    obtain ⟨keys, found, same⟩ := map_eq_ok (show (List.map _ <$> index.flattenedKeys type) = .ok _ from laid)
    rw [← same]
    dsimp only
    rw [laidKeys_of_ok found]
  | none =>
    rw [lifted] at laid
    dsimp only at laid
    rw [String.empty_append] at laid
    exact (Except.ok.inj laid).symm

theorem fieldLaid_group {oneof : Oneof} {config : OneofConfig} (group : m.groupOf? f = some (oneof, config))
    (first : oneof.members.head? = some f.name) :
    ∃ variants, index.fieldLaid m f = config.discriminator :: variants ∧
      (config.flatten = false → variants = (m.oneofMembers oneof).map (·.jsonName)) ∧
      (config.flatten = true → ∀ member ∈ m.oneofMembers oneof, ∀ type, member.message? = some type →
        ∀ key ∈ index.laidKeys type, key ∈ variants) := by
  rw [fieldKeys, group] at laid
  dsimp only at laid
  rw [if_pos first] at laid
  obtain ⟨variants, found, same⟩ := bind_eq_ok laid
  refine ⟨variants, ?_, fun beside => ?_, fun lifted => ?_⟩
  · rw [← Except.ok.inj same, String.empty_append]
  · rw [beside, variantKeys_names] at found
    simpa using (Except.ok.inj found).symm
  · rw [lifted] at found
    intro member inside type typed key there
    simpa using (mem_variantKeys found).2 member inside type typed key there

end Places

end Wireform.Index
