import Mathlib.Data.List.Chain
import Wireform.Proofs.OrderlyMessages

set_option autoImplicit false

namespace Wireform.Index

/-- The layout of a message goes on with that of the child: a field lifts it, or a oneof lifts what its members
hold. -/
inductive Message.Opens (m : Message) (child : String) : Prop
  | lifted {f : Field} {pre : String} (inside : f ∈ m.fields) (alone : m.groupOf? f = none)
      (lifts : f.lifted? = some (child, pre))
  | variant {oneof : Oneof} {config : OneofConfig} {member : Field} (inside : (oneof, config) ∈ m.discriminated)
      (flatten : config.flatten = true) (listed : member ∈ m.oneofMembers oneof)
      (typed : member.message? = some child)

def Opens (index : Index) (name child : String) : Prop := ∃ m, index.message? name = some m ∧ m.Opens child

section Change

variable {child other : String → String → KeyLayout} {m : Message} {pre : String}

theorem message_of_lifted {f : Field} {type own : String} (lifts : f.lifted? = some (type, own)) :
    f.message? = some type := by
  rw [Field.lifted?] at lifts
  split at lifts
  · rename_i typed _
    cases Option.some.inj lifts
    exact typed
  · cases lifts

theorem Message.Opens.field {type : String} (opens : m.Opens type) : ∃ f ∈ m.fields, f.message? = some type := by
  cases opens with
  | lifted inside _ lifts => exact ⟨_, inside, message_of_lifted lifts⟩
  | variant _ _ listed typed =>
    obtain ⟨_, _, named⟩ := List.mem_filterMap.mp listed
    exact ⟨_, List.mem_of_find?_eq_some named, typed⟩

theorem variantKeys_congr {flatten : Bool} {members : List Field}
    (agree : flatten = true → ∀ member ∈ members, ∀ type, member.message? = some type → child type = other type)
    (before : List String) :
    variantKeys child flatten pre before members = variantKeys other flatten pre before members := by
  induction members generalizing before with
  | nil => rfl
  | cons member rest ih =>
    have later := ih fun lifts g inside => agree lifts g (List.mem_cons_of_mem _ inside)
    cases typed : member.message? with
    | none => rw [variantKeys_beside (.inr typed), variantKeys_beside (.inr typed), later]
    | some type =>
      cases flatten with
      | false => rw [variantKeys_beside (.inl rfl), variantKeys_beside (.inl rfl), later]
      | true =>
        rw [variantKeys_lifted typed, variantKeys_lifted typed, agree rfl member List.mem_cons_self type typed]
        simp only [later]

theorem fieldsKeys_congr (agree : ∀ type, m.Opens type → child type = other type)
    {fields : List Field} (inside : ∀ f ∈ fields, f ∈ m.fields) :
    fieldsKeys child m pre fields = fieldsKeys other m pre fields := by
  have own {f : Field} (there : f ∈ m.fields) : fieldKeys child m pre f = fieldKeys other m pre f := by
    cases group : m.groupOf? f with
    | none =>
      rw [fieldKeys_alone group, fieldKeys_alone group]
      cases lifts : f.lifted? with
      | none => rfl
      | some target => exact congrFun (agree target.1 (.lifted there group lifts)) _
    | some place =>
      rw [fieldKeys, fieldKeys, group]
      dsimp only
      rw [variantKeys_congr fun flatten member listed type typed =>
        agree type (.variant (mem_of_groupOf? group).1 flatten listed typed)]
  induction fields with
  | nil => rfl
  | cons f rest ih =>
    rw [fieldsKeys, fieldsKeys, own (inside f List.mem_cons_self),
      ih fun g there => inside g (List.mem_cons_of_mem _ there)]

end Change

structure LaysAlike (index other : Index) (among : String → Prop) : Prop where
  messages : ∀ name, among name → index.message? name = other.message? name
  closed : ∀ name m, among name → index.message? name = some m → ∀ type, m.Opens type → among type

section Agreement

variable {index other : Index} {among : String → Prop} (keyed : index.Keyed) (agrees : index.LaysAlike other among)

include keyed agrees

theorem keysWithin_agree {levels more : Nat} {openNames : List String} (room : index.unopened openNames < levels)
    (enough : other.unopened openNames < more) {name : String} (known : among name) (bare : bareName name = name) :
    keysWithin index levels openNames name = keysWithin other more openNames name := by
  induction levels generalizing more openNames name with
  | zero => exact absurd room (Nat.not_lt_zero _)
  | succ levels ih =>
    obtain ⟨more, rfl⟩ : ∃ k, more = k + 1 := ⟨more - 1, by omega⟩
    funext pre
    rw [keysWithin, keysWithin]
    split
    · rfl
    · rename_i fresh
      rw [← agrees.messages name known]
      cases found : index.message? name with
      | none => rfl
      | some m =>
        have fewer (some_index : Index) (there : some_index.message? name = some m) :
            some_index.unopened (openNames ++ [name]) < some_index.unopened openNames := by
          rw [message?, bare] at there
          exact unopened_lt there (Bool.not_eq_true _ ▸ fresh)
        have first := fewer index found
        have second := fewer other (agrees.messages name known ▸ found)
        refine fieldsKeys_congr (fun type opens => ?_) (fun _ inside => inside)
        obtain ⟨g, inside, typed⟩ := opens.field
        exact ih (by omega) (by omega) (agrees.closed name m known found type opens)
          ((keyed.wellFormed name m found).typeName g inside type typed)

theorem keysWithin_top {levels more : Nat} (room : index.messages.size + 1 < levels)
    (enough : other.messages.size + 1 < more) {name : String} (known : among name) :
    keysWithin index levels [] name = keysWithin other more [] name := by
  obtain ⟨levels, rfl⟩ : ∃ k, levels = k + 1 := ⟨levels - 1, by omega⟩
  obtain ⟨more, rfl⟩ : ∃ k, more = k + 1 := ⟨more - 1, by omega⟩
  funext pre
  rw [keysWithin, keysWithin, if_neg (by simp), if_neg (by simp), ← agrees.messages name known]
  cases found : index.message? name with
  | none => rfl
  | some m =>
    have first := unopened_le index ([] ++ [name])
    have second := unopened_le other ([] ++ [name])
    refine fieldsKeys_congr (fun type opens => ?_) (fun _ inside => inside)
    obtain ⟨g, inside, typed⟩ := opens.field
    exact keysWithin_agree keyed agrees (by omega) (by omega) (agrees.closed name m known found type opens)
      ((keyed.wellFormed name m found).typeName g inside type typed)

theorem flattenedKeys_agree {name : String} (known : among name) :
    index.flattenedKeys name = other.flattenedKeys name := by
  exact congrFun (keysWithin_top keyed agrees (Nat.lt_succ_self _) (Nat.lt_succ_self _) known) ""

end Agreement

theorem keysWithin_add {index : Index} (keyed : index.Keyed) (more : Nat) (name : String) :
    keysWithin index (levels index + more) [] name = keysWithin index (levels index) [] name := by
  have same : index.LaysAlike index fun _ => True := ⟨fun _ _ => rfl, fun _ _ _ _ _ _ => trivial⟩
  exact keysWithin_top keyed same (by rw [levels]; omega) (Nat.lt_succ_self _) trivial

section Layouts

variable {child : String → String → KeyLayout} {m : Message} {pre : String}

theorem member_of_variantKeys {flatten : Bool} {members : List Field} {before cycle : List String}
    (failed : variantKeys child flatten pre before members = .error cycle) :
    flatten = true ∧ ∃ member ∈ members, ∃ type, member.message? = some type ∧ child type pre = .error cycle := by
  induction members generalizing before with
  | nil => cases failed
  | cons member rest ih =>
    have later {before : List String} (failed : variantKeys child flatten pre before rest = .error cycle) :
        flatten = true ∧ ∃ g ∈ member :: rest, ∃ type, g.message? = some type ∧ child type pre = .error cycle := by
      obtain ⟨lifts, g, inside, fails⟩ := ih failed
      exact ⟨lifts, g, List.mem_cons_of_mem _ inside, fails⟩
    cases typed : member.message? with
    | none => exact later (variantKeys_beside (.inr typed) _ _ ▸ failed)
    | some type =>
      cases flatten with
      | false => exact later (variantKeys_beside (.inl rfl) _ _ ▸ failed)
      | true =>
        rw [variantKeys_lifted typed] at failed
        cases laid : child type pre with
        | error chain =>
          rw [laid] at failed
          cases failed
          exact ⟨rfl, member, List.mem_cons_self, type, typed, laid⟩
        | ok keys =>
          rw [laid, ok_bind] at failed
          exact later failed

theorem opens_of_error {fields : List Field} {cycle : List String} (inside : ∀ f ∈ fields, f ∈ m.fields)
    (failed : fieldsKeys child m pre fields = .error cycle) :
    ∃ type, m.Opens type ∧ ∃ other, child type other = .error cycle := by
  -- By induction on the fields; the first that fails has gone on with a message that fails.
  induction fields with
  | nil => cases failed
  | cons f rest ih =>
    rw [fieldsKeys] at failed
    cases own : fieldKeys child m pre f with
    | ok keys =>
      rw [own, ok_bind] at failed
      cases others : fieldsKeys child m pre rest with
      | ok keys =>
        rw [others] at failed
        cases failed
      | error chain =>
        rw [others] at failed
        cases failed
        exact ih (fun g there => inside g (List.mem_cons_of_mem _ there)) others
    | error chain =>
      rw [own] at failed
      cases failed
      cases group : m.groupOf? f with
      | none =>
        rw [fieldKeys_alone group] at own
        cases lifts : f.lifted? with
        | none =>
          rw [lifts] at own
          cases own
        | some target =>
          rw [lifts] at own
          exact ⟨target.1, .lifted (inside f List.mem_cons_self) group lifts, _, own⟩
      | some place =>
        rw [fieldKeys, group] at own
        dsimp only at own
        split at own
        · cases variants : variantKeys child place.2.flatten pre [] (m.oneofMembers place.1) with
          | ok keys =>
            rw [variants] at own
            cases own
          | error chain =>
            rw [variants] at own
            cases own
            obtain ⟨lifts, member, listed, type, typed, fails⟩ := member_of_variantKeys variants
            exact ⟨type, .variant (mem_of_groupOf? group).1 lifts listed typed, _, fails⟩
        · cases own

theorem members_of_variantKeys {members : List Field} {before keys : List String}
    (laid : variantKeys child true pre before members = .ok keys) :
    ∀ member ∈ members, ∀ type, member.message? = some type → ∃ lifted, child type pre = .ok lifted := by
  induction members generalizing before with
  | nil => exact fun _ inside => nomatch inside
  | cons first rest ih =>
    intro member inside type given
    cases typed : first.message? with
    | none =>
      rw [variantKeys_beside (.inr typed)] at laid
      rcases List.mem_cons.mp inside with rfl | there
      · exact nomatch typed.symm.trans given
      · exact ih laid member there type given
    | some own =>
      rw [variantKeys_lifted typed] at laid
      obtain ⟨lifted, found, laid⟩ := bind_eq_ok laid
      rcases List.mem_cons.mp inside with rfl | there
      · cases Option.some.inj (typed.symm.trans given)
        exact ⟨lifted, found⟩
      · exact ih laid member there type given

theorem fields_of_fieldsKeys {fields : List Field} {keys : List String}
    (laid : fieldsKeys child m pre fields = .ok keys) : ∀ f ∈ fields, ∃ own, fieldKeys child m pre f = .ok own := by
  induction fields generalizing keys with
  | nil => exact fun _ inside => nomatch inside
  | cons first rest ih =>
    rw [fieldsKeys] at laid
    obtain ⟨own, found, laid⟩ := bind_eq_ok laid
    obtain ⟨others, later, _⟩ := bind_eq_ok laid
    intro f inside
    rcases List.mem_cons.mp inside with rfl | there
    · exact ⟨own, found⟩
    · exact ih later f there

theorem ok_of_opens (wellFormed : m.WellFormed) (distinct : (m.oneofs.map (·.name)).Nodup) {keys : List String}
    (laid : fieldsKeys child m pre m.fields = .ok keys) {type : String} (opens : m.Opens type) :
    ∃ other lifted, child type other = .ok lifted := by
  cases opens with
  | lifted inside alone lifts =>
    obtain ⟨own, found⟩ := fields_of_fieldsKeys laid _ inside
    rw [fieldKeys_alone alone, lifts] at found
    exact ⟨_, own, found⟩
  | variant inside flatten listed typed =>
    obtain ⟨h, there, group, first⟩ := exists_place wellFormed distinct inside
    obtain ⟨own, found⟩ := fields_of_fieldsKeys laid h there
    rw [fieldKeys, group] at found
    dsimp only at found
    rw [if_pos first] at found
    obtain ⟨variants, found, _⟩ := bind_eq_ok found
    rw [flatten] at found
    obtain ⟨lifted, ok⟩ := members_of_variantKeys found _ listed _ typed
    exact ⟨_, lifted, ok⟩

end Layouts

section Cycles

variable {index : Index}

theorem chain_of_error {levels : Nat} {openNames : List String} {name pre : String} {cycle : List String}
    (failed : keysWithin index levels openNames name pre = .error cycle) :
    ∃ path last, cycle = openNames ++ (path ++ [last]) ∧ (path ++ [last]).head? = some name ∧
      (path ++ [last]).IsChain index.Opens ∧ last ∈ openNames ++ path := by
  induction levels generalizing openNames name pre with
  | zero => cases failed
  | succ levels ih =>
    rw [keysWithin] at failed
    split at failed
    · rename_i again
      cases failed
      exact ⟨[], name, rfl, rfl, .singleton _, by simpa using again⟩
    · cases found : index.message? name with
      | none =>
        rw [found] at failed
        cases failed
      | some m =>
        rw [found] at failed
        obtain ⟨type, opens, _, failed⟩ := opens_of_error (fun _ inside => inside) failed
        obtain ⟨path, last, rfl, first, chain, again⟩ := ih failed
        refine ⟨name :: path, last, by simp, rfl, ?_, by simpa using again⟩
        refine List.isChain_cons.mpr ⟨fun next head => ?_, chain⟩
        cases Option.some.inj (first.symm.trans head)
        exact ⟨m, found, opens⟩

def Clears (index : Index) (openNames : List String) (name : String) : Prop :=
  ∀ other, Relation.ReflTransGen index.Opens name other →
    other ∉ openNames ∧ ¬ Relation.TransGen index.Opens other other

theorem clears_of_children {openNames : List String} {name : String} (fresh : name ∉ openNames)
    (children : ∀ child, index.Opens name child → index.Clears (openNames ++ [name]) child) :
    index.Clears openNames name := by
  intro other reached
  rcases Relation.ReflTransGen.cases_head reached with rfl | ⟨child, opens, further⟩
  · refine ⟨fresh, fun again => ?_⟩
    obtain ⟨child, opens, back⟩ := Relation.TransGen.head'_iff.mp again
    exact (children child opens name back).1 (by simp)
  · obtain ⟨outside, once⟩ := children child opens other further
    exact ⟨fun inside => outside (by simp [inside]), once⟩

variable (keyed : index.Keyed) (distinct : ∀ m ∈ index.messages.values, (m.oneofs.map (·.name)).Nodup)

include keyed distinct

theorem children_clear {levels : Nat} {openNames : List String} {name pre : String} {keys : List String}
    (room : ∀ m, index.message? name = some m → index.unopened (openNames ++ [name]) < levels)
    (each : ∀ child, bareName child = child → index.unopened (openNames ++ [name]) < levels → ∀ pre keys,
      keysWithin index levels (openNames ++ [name]) child pre = .ok keys → index.Clears (openNames ++ [name]) child)
    (laid : keysWithin index (levels + 1) openNames name pre = .ok keys) : index.Clears openNames name := by
  rw [keysWithin] at laid
  split at laid
  · cases laid
  · rename_i fresh
    refine clears_of_children (by simpa using fresh) fun child entered => ?_
    obtain ⟨m, found, opens⟩ := entered
    rw [found] at laid
    have wellFormed := keyed.wellFormed name m found
    obtain ⟨_, lifted, ok⟩ := ok_of_opens wellFormed (distinct m (KeyMap.mem_values.mpr ⟨_, found⟩)) laid opens
    obtain ⟨f, inside, typed⟩ := opens.field
    exact each child (wellFormed.typeName f inside child typed) (room m found) _ lifted ok

theorem clears_of_ok {levels : Nat} {openNames : List String} (room : index.unopened openNames < levels)
    {name pre : String} (bare : bareName name = name) {keys : List String}
    (laid : keysWithin index levels openNames name pre = .ok keys) : index.Clears openNames name := by
  induction levels generalizing openNames name pre keys with
  | zero => exact absurd room (Nat.not_lt_zero _)
  | succ levels ih =>
    by_cases again : openNames.contains name
    · rw [keysWithin, if_pos again] at laid
      cases laid
    · refine children_clear keyed distinct (fun m found => ?_) (fun child bare room pre keys laid => ih room bare laid) laid
      rw [message?, bare] at found
      have fewer := unopened_lt found (Bool.not_eq_true _ ▸ again)
      omega

theorem clears_of_flattenedKeys {name : String} {keys : List String} (laid : index.flattenedKeys name = .ok keys) :
    index.Clears [] name := by
  have size := unopened_le index ([] ++ [name])
  exact children_clear keyed distinct (fun _ _ => Nat.lt_succ_of_le size)
    (fun child bare room pre keys laid => clears_of_ok keyed distinct room bare laid) laid

end Cycles

theorem transGen_of_isChain {α : Type} {r : α → α → Prop} {a b : α} {path : List α}
    (chain : (a :: (path ++ [b])).IsChain r) : Relation.TransGen r a b := by
  induction path generalizing a with
  | nil => exact .single (List.isChain_pair.mp chain)
  | cons c rest ih =>
    obtain ⟨first, later⟩ := List.isChain_cons_cons.mp chain
    exact .head first (ih later)

theorem reached_of_chain {α : Type} {r : α → α → Prop} {first last : α} {path : List α}
    (head : (path ++ [last]).head? = some first) (chain : (path ++ [last]).IsChain r) (again : last ∈ path) :
    Relation.ReflTransGen r first last ∧ Relation.TransGen r last last := by
  obtain ⟨before, between, rfl⟩ := List.append_of_mem again
  have loop : (last :: (between ++ [last])).IsChain r := by
    have split : before ++ last :: between ++ [last] = before ++ (last :: (between ++ [last])) := by simp
    rw [split] at chain
    exact chain.right_of_append
  refine ⟨?_, transGen_of_isChain loop⟩
  cases before with
  | nil =>
    cases Option.some.inj head
    exact .refl
  | cons start rest =>
    cases Option.some.inj head
    have split : first :: rest ++ last :: between ++ [last] = (first :: (rest ++ [last])) ++ (between ++ [last]) := by
      simp
    rw [split] at chain
    exact (transGen_of_isChain chain.left_of_append).to_reflTransGen

section Failures

variable {index : Index} {name : String}

theorem flattenedKeys_chain {cycle : List String} (failed : index.flattenedKeys name = .error cycle) :
    cycle.head? = some name ∧ cycle.IsChain index.Opens ∧ ∃ path last, cycle = path ++ [last] ∧ last ∈ path := by
  obtain ⟨path, last, rfl, head, chain, again⟩ := chain_of_error failed
  exact ⟨head, chain, path, last, rfl, again⟩

theorem flattenedKeys_error_iff (keyed : index.Keyed)
    (distinct : ∀ m ∈ index.messages.values, (m.oneofs.map (·.name)).Nodup) :
    (∃ cycle, index.flattenedKeys name = .error cycle) ↔
      ∃ other, Relation.ReflTransGen index.Opens name other ∧ Relation.TransGen index.Opens other other := by
  constructor
  · rintro ⟨cycle, failed⟩
    obtain ⟨head, chain, path, last, rfl, again⟩ := flattenedKeys_chain failed
    exact ⟨last, reached_of_chain head chain again⟩
  · rintro ⟨other, reached, again⟩
    cases laid : index.flattenedKeys name with
    | error cycle => exact ⟨cycle, rfl⟩
    | ok keys => exact absurd again (clears_of_flattenedKeys keyed distinct laid other reached).2

end Failures

end Wireform.Index
