import Mathlib.Data.List.Perm.Basic
import Wireform.Load
import Wireform.Proofs.SameFiles

set_option autoImplicit false

namespace Wireform

namespace Schema

def firstOfEachName (files : List File) : List File := files.eraseDupsBy fun a b => a.name == b.name

def Consistent (files : List File) : Prop := ∀ f ∈ files, ∀ g ∈ files, f.name = g.name → f.same g = true

/-- The name of a file is taken by one with other contents. -/
def Taken (files : List File) (file : File) : Prop := ∃ g ∈ files, g.name = file.name ∧ g.same file = false

def SameFiles (files others : List File) : Prop :=
  ∃ order, order.Perm others ∧ List.Forall₂ (fun a b => a.same b = true) files order

def NamesDistinct (files : List File) : Prop := (files.map (·.name)).Nodup

theorem Consistent.subset {files others : List File} (consistent : Consistent files) (part : others ⊆ files) :
    Consistent others :=
  fun f inside g there => consistent f (part inside) g (part there)

theorem Consistent.cons {file : File} {files : List File} (typed : ∀ f ∈ file :: files, f.WellTyped)
    (consistent : Consistent files) (like : ∀ f ∈ files, f.name = file.name → f.same file = true) :
    Consistent (file :: files) := by
  obtain ⟨typedFile, typedFiles⟩ := List.forall_mem_cons.mp typed
  intro f inside g there named
  rcases List.mem_cons.mp inside with rfl | among <;> rcases List.mem_cons.mp there with rfl | beside
  · exact File.same_refl typedFile
  · exact File.same_symm (typedFiles g beside) typedFile (like g beside named.symm)
  · exact like f among named
  · exact consistent f among g beside named

theorem NamesDistinct.eq {files : List File} (distinct : NamesDistinct files) {f g : File} (inside : f ∈ files)
    (there : g ∈ files) (same : f.name = g.name) : f = g :=
  eq_of_nodup distinct inside there same

theorem NamesDistinct.concat {files : List File} (distinct : NamesDistinct files) {file : File}
    (absent : ∀ g ∈ files, g.name ≠ file.name) : NamesDistinct (files ++ [file]) := by
  rw [NamesDistinct, List.map_append, List.map_singleton, ← List.concat_eq_append]
  refine List.Nodup.concat (fun inside => ?_) distinct
  obtain ⟨g, there, same⟩ := List.mem_map.mp inside
  exact absent g there same

theorem Consistent.of_distinct {files : List File} (typed : ∀ f ∈ files, f.WellTyped) (distinct : NamesDistinct files) :
    Consistent files := by
  intro f inside g there same
  cases distinct.eq inside there same
  exact File.same_refl (typed f inside)

namespace FileSet

def mergeFrom (set : FileSet) : List FileSet → Merged
  | [] => ⟨set, none⟩
  | other :: rest =>
    match set.merge other with
    | ⟨merged, none⟩ => mergeFrom merged rest
    | stopped => stopped

def mergeAll (sets : List FileSet) : Merged := mergeFrom ⟨[]⟩ sets

section Step

variable {set : FileSet} {file present : File} (rest : List File)

theorem addFiles_new (absent : ∀ g ∈ set.files, g.name ≠ file.name) :
    addFiles set (file :: rest) = addFiles ⟨set.files ++ [file]⟩ rest := by
  have found : set.files.find? (·.name == file.name) = none := by simpa using absent
  rw [addFiles, found]

theorem addFiles_cons (found : set.files.find? (·.name == file.name) = some present) :
    addFiles set (file :: rest) = if present.same file then addFiles set rest else ⟨set, some file.name⟩ := by
  rw [addFiles, found]

theorem addFiles_present (distinct : NamesDistinct set.files) (inside : present ∈ set.files)
    (named : present.name = file.name) :
    addFiles set (file :: rest) = if present.same file then addFiles set rest else ⟨set, some file.name⟩ :=
  addFiles_cons rest (named ▸ find?_of_nodup distinct inside)

theorem absent_or_present (set : FileSet) (file : File) :
    (∀ g ∈ set.files, g.name ≠ file.name) ∨ ∃ g ∈ set.files, g.name = file.name := by
  by_cases there : ∃ g ∈ set.files, g.name = file.name
  · exact .inr there
  · exact .inl fun g inside same => there ⟨g, inside, same⟩

end Step

section Run

variable {set : FileSet} {files : List File}

theorem files_addFiles (added : (addFiles set files).clash = none) : (addFiles set files).set.files =
    set.files ++ firstOfEachName (files.filter fun f => !(set.files.map (·.name)).contains f.name) := by
  fun_induction addFiles set files with
  | case1 set => simp [firstOfEachName]
  | case2 set file rest absent ih =>
    have fresh : (set.files.map (·.name)).contains file.name = false := by
      simpa using List.find?_eq_none.mp absent
    rw [ih added, List.filter_cons_of_pos (by simpa using fresh), firstOfEachName, firstOfEachName,
      List.eraseDupsBy_cons, List.filter_filter, List.append_assoc, List.singleton_append]
    congr 3
    -- Later files of the name are no longer new once the file is there.
    refine List.filter_congr fun f _ => ?_
    by_cases named : f.name = file.name <;> simp [named]
  | case3 set file rest present found same ih =>
    have named : present.name = file.name := by simpa using List.find?_some found
    have listed : (set.files.map (·.name)).contains file.name = true :=
      List.contains_iff_mem.mpr (List.mem_map.mpr ⟨present, List.mem_of_find?_eq_some found, named⟩)
    rw [ih added, List.filter_cons_of_neg (by rw [listed]; decide)]
  | case4 => cases added

theorem distinct_addFiles (distinct : NamesDistinct set.files) : NamesDistinct (addFiles set files).set.files := by
  fun_induction addFiles set files with
  | case1 set => exact distinct
  | case2 set file rest absent ih => exact ih (distinct.concat (by simpa using List.find?_eq_none.mp absent))
  | case3 set file rest present found same ih => exact ih distinct
  | case4 set file rest present found differ => exact distinct

theorem mem_addFiles {f : File} (inside : f ∈ (addFiles set files).set.files) : f ∈ set.files ∨ f ∈ files := by
  fun_induction addFiles set files with
  | case1 set => exact .inl inside
  | case2 set file rest absent ih =>
    rcases ih inside with before | later
    · rcases List.mem_append.mp before with old | new
      · exact .inl old
      · exact .inr (List.mem_singleton.mp new ▸ List.mem_cons_self)
    · exact .inr (List.mem_cons_of_mem _ later)
  | case3 set file rest present found same ih => exact (ih inside).imp_right (List.mem_cons_of_mem _)
  | case4 set file rest present found differ => exact .inl inside

theorem kept_addFiles {f : File} (inside : f ∈ set.files) : f ∈ (addFiles set files).set.files := by
  fun_induction addFiles set files with
  | case1 set => exact inside
  | case2 set file rest absent ih => exact ih (List.mem_append_left _ inside)
  | case3 set file rest present found same ih => exact ih inside
  | case4 set file rest present found differ => exact inside

theorem clash_none_iff (typed : ∀ f ∈ set.files ++ files, f.WellTyped) (distinct : NamesDistinct set.files) :
    (addFiles set files).clash = none ↔ Consistent (set.files ++ files) := by
  induction files generalizing set with
  | nil =>
    rw [List.append_nil] at typed ⊢
    exact iff_of_true rfl (.of_distinct typed distinct)
  | cons file rest ih =>
    rcases absent_or_present set file with absent | ⟨present, inside, named⟩
    · rw [addFiles_new rest absent, ih (by simpa using typed) (distinct.concat absent), List.append_assoc,
        List.singleton_append]
    · have fewer : set.files ++ rest ⊆ set.files ++ file :: rest := by simp
      have moved : set.files ++ file :: rest ⊆ file :: (set.files ++ rest) := List.perm_middle.subset
      have back : file :: (set.files ++ rest) ⊆ set.files ++ file :: rest := List.perm_middle.symm.subset
      rw [addFiles_present rest distinct inside named]
      by_cases same : present.same file = true
      · have typedAll : ∀ f ∈ file :: (set.files ++ rest), f.WellTyped := fun f there => typed f (back there)
        rw [if_pos same, ih (fun f there => typed f (fewer there)) distinct]
        refine ⟨fun consistent => (consistent.cons typedAll fun f there called => ?_).subset moved,
          fun consistent => consistent.subset fewer⟩
        -- Files of the name are the same as the one that is there, and so as the new one.
        have among : present ∈ set.files ++ rest := List.mem_append_left _ inside
        exact File.same_trans (typedAll f (List.mem_cons_of_mem _ there))
          (typedAll present (List.mem_cons_of_mem _ among)) (typedAll file List.mem_cons_self)
          (consistent f there present among (called.trans named.symm)) same
      · rw [if_neg same]
        refine iff_of_false (by simp) fun consistent => same ?_
        exact consistent present (List.mem_append_left _ inside) file (List.mem_append_right _ List.mem_cons_self) named

theorem stops {name : String} (distinct : NamesDistinct set.files) (clashes : (addFiles set files).clash = some name) :
    ∃ before file after, files = before ++ file :: after ∧ file.name = name ∧
      addFiles set before = ⟨(addFiles set files).set, none⟩ ∧ Taken (addFiles set files).set.files file := by
  induction files generalizing set with
  | nil => cases clashes
  | cons file rest ih =>
    rcases absent_or_present set file with absent | ⟨present, inside, named⟩
    · rw [addFiles_new rest absent] at clashes ⊢
      obtain ⟨before, stopper, after, rfl, called, merged, taken⟩ := ih (distinct.concat absent) clashes
      exact ⟨file :: before, stopper, after, rfl, called, (addFiles_new before absent).trans merged, taken⟩
    · rw [addFiles_present rest distinct inside named] at clashes ⊢
      by_cases same : present.same file = true
      · rw [if_pos same] at clashes ⊢
        obtain ⟨before, stopper, after, rfl, called, merged, taken⟩ := ih distinct clashes
        refine ⟨file :: before, stopper, after, rfl, called, ?_, taken⟩
        rw [addFiles_present before distinct inside named, if_pos same, merged]
      · rw [if_neg same] at clashes ⊢
        exact ⟨[], file, rest, rfl, Option.some.inj clashes, rfl, present, inside, named, by simpa using same⟩

theorem addFiles_again (distinct : NamesDistinct set.files)
    (there : ∀ f ∈ files, ∃ g ∈ set.files, g.name = f.name ∧ g.same f = true) : addFiles set files = ⟨set, none⟩ := by
  induction files with
  | nil => rfl
  | cons file rest ih =>
    obtain ⟨⟨present, inside, named, same⟩, later⟩ := List.forall_mem_cons.mp there
    rw [addFiles_present rest distinct inside named, if_pos same, ih later]

theorem covered (typed : ∀ f ∈ files, f.WellTyped) (distinct : NamesDistinct set.files)
    (added : (addFiles set files).clash = none) :
    ∀ f ∈ files, ∃ g ∈ (addFiles set files).set.files, g.name = f.name ∧ g.same f = true := by
  induction files generalizing set with
  | nil => exact fun f inside => nomatch inside
  | cons file rest ih =>
    obtain ⟨typedFile, typedRest⟩ := List.forall_mem_cons.mp typed
    rw [List.forall_mem_cons]
    rcases absent_or_present set file with absent | ⟨present, inside, named⟩
    · rw [addFiles_new rest absent] at added ⊢
      have there : file ∈ (addFiles ⟨set.files ++ [file]⟩ rest).set.files :=
        kept_addFiles (List.mem_append_right _ List.mem_cons_self)
      exact ⟨⟨file, there, rfl, File.same_refl typedFile⟩, ih typedRest (distinct.concat absent) added⟩
    · rw [addFiles_present rest distinct inside named] at added ⊢
      by_cases same : present.same file = true
      · rw [if_pos same] at added ⊢
        exact ⟨⟨present, kept_addFiles inside, named, same⟩, ih typedRest distinct added⟩
      · rw [if_neg same] at added
        cases added

end Run

section Sequence

variable {set : FileSet} {files more : List File}

theorem addFiles_append (distinct : NamesDistinct set.files) (added : (addFiles set files).clash = none) :
    addFiles set (files ++ more) = addFiles (addFiles set files).set more := by
  induction files generalizing set with
  | nil => rfl
  | cons file rest ih =>
    rw [List.cons_append]
    rcases absent_or_present set file with absent | ⟨present, inside, named⟩
    · rw [addFiles_new rest absent] at added ⊢
      rw [addFiles_new _ absent, ih (distinct.concat absent) added]
    · rw [addFiles_present rest distinct inside named] at added ⊢
      by_cases same : present.same file = true
      · rw [if_pos same] at added ⊢
        rw [addFiles_present _ distinct inside named, if_pos same, ih distinct added]
      · rw [if_neg same] at added
        cases added

theorem addFiles_append_of_clash (distinct : NamesDistinct set.files) (clashes : (addFiles set files).clash ≠ none) :
    addFiles set (files ++ more) = addFiles set files := by
  induction files generalizing set with
  | nil => exact absurd rfl clashes
  | cons file rest ih =>
    rw [List.cons_append]
    rcases absent_or_present set file with absent | ⟨present, inside, named⟩
    · rw [addFiles_new rest absent] at clashes ⊢
      rw [addFiles_new _ absent, ih (distinct.concat absent) clashes]
    · rw [addFiles_present rest distinct inside named] at clashes ⊢
      rw [addFiles_present _ distinct inside named]
      split at clashes
      · next same => rw [if_pos same, if_pos same, ih distinct clashes]
      · next differ => rw [if_neg differ, if_neg differ]

theorem mergeFrom_eq (distinct : NamesDistinct set.files) (sets : List FileSet) :
    mergeFrom set sets = addFiles set (sets.flatMap (·.files)) := by
  induction sets generalizing set with
  | nil => rfl
  | cons other rest ih =>
    have later : NamesDistinct (addFiles set other.files).set.files := distinct_addFiles distinct
    rw [List.flatMap_cons, mergeFrom, merge]
    cases merged : addFiles set other.files with
    | mk next clash =>
      cases clash with
      | none =>
        have added : (addFiles set other.files).clash = none := by rw [merged]
        rw [merged] at later
        rw [addFiles_append distinct added, merged]
        exact ih later
      | some name =>
        have clashes : (addFiles set other.files).clash ≠ none := by rw [merged]; exact nofun
        rw [addFiles_append_of_clash distinct clashes, merged]

theorem mergeAll_eq (sets : List FileSet) : mergeAll sets = addFiles ⟨[]⟩ (sets.flatMap (·.files)) :=
  @mergeFrom_eq ⟨[]⟩ List.nodup_nil sets

end Sequence

theorem map_normal_nodup {files : List File} (distinct : NamesDistinct files) : (files.map File.normal).Nodup := by
  refine List.Nodup.of_map (·.name) ?_
  rwa [List.map_map]

theorem sameFiles_of_perm {files others : List File} (typed : ∀ f ∈ files, f.WellTyped) (perm : others.Perm files)
    (added : (addFiles ⟨[]⟩ files).clash = none) (again : (addFiles ⟨[]⟩ others).clash = none) :
    SameFiles (addFiles ⟨[]⟩ files).set.files (addFiles ⟨[]⟩ others).set.files := by
  have distinct (files : List File) : NamesDistinct (addFiles ⟨[]⟩ files).set.files :=
    @distinct_addFiles ⟨[]⟩ _ List.nodup_nil
  have typedOthers : ∀ f ∈ others, f.WellTyped := fun f inside => typed f (perm.subset inside)
  have part {files : List File} {f : File} (inside : f ∈ (addFiles ⟨[]⟩ files).set.files) : f ∈ files :=
    (mem_addFiles inside).resolve_left List.not_mem_nil
  -- A file of either merge was merged into the other one, where a file is the same.
  have through {first second : List File} (typed : ∀ f ∈ second, f.WellTyped) (within : first ⊆ second)
      (added : (addFiles ⟨[]⟩ second).clash = none) : (addFiles ⟨[]⟩ first).set.files.map File.normal ⊆
        (addFiles ⟨[]⟩ second).set.files.map File.normal := by
    intro form inside
    obtain ⟨f, there, rfl⟩ := List.mem_map.mp inside
    have among := within (part there)
    obtain ⟨g, found, _, same⟩ := @covered ⟨[]⟩ _ typed List.nodup_nil added f among
    exact List.mem_map.mpr ⟨g, found, (File.same_iff (typed g (part found)) (typed f among)).mp same⟩
  have forms : ((addFiles ⟨[]⟩ files).set.files.map File.normal).Perm
      ((addFiles ⟨[]⟩ others).set.files.map File.normal) :=
    (List.perm_ext_iff_of_nodup (map_normal_nodup (distinct _)) (map_normal_nodup (distinct _))).mpr fun form =>
      ⟨fun inside => through typedOthers perm.symm.subset again inside,
        fun inside => through typed perm.subset added inside⟩
  have paired : List.Forall₂ (fun form g => form = File.normal g)
      ((addFiles ⟨[]⟩ others).set.files.map File.normal) (addFiles ⟨[]⟩ others).set.files := by
    rw [List.forall₂_map_left_iff]
    exact List.forall₂_same.mpr fun _ _ => rfl
  -- The normal forms are reordered, and the files of the other merge with them.
  obtain ⟨order, related, reordered⟩ := List.perm_comp_forall₂ forms paired
  refine ⟨order, reordered, ?_⟩
  rw [List.forall₂_map_left_iff] at related
  have typedOrder : ∀ g ∈ order, g.WellTyped := fun g inside => typedOthers g (part (reordered.subset inside))
  have known := (List.forall₂_and_left _ _).mpr ⟨typedOrder, related.flip⟩
  exact forall₂_imp_mem known.flip fun f inside g likeness =>
    (File.same_iff (typed f (part inside)) likeness.1).mpr likeness.2

end FileSet

end Schema

namespace Load

open Schema

theorem foldlM_addFile {files : List (String × ByteArray)} {sets : List FileSet}
    (parsed : List.Forall₂ (fun file set => setOfFile file.1 file.2 = .ok set) files sets) (start : FileSet) :
    files.foldlM addFile start =
      match FileSet.mergeFrom start sets with
      | ⟨set, none⟩ => .ok set
      | ⟨_, some name⟩ => .error (.duplicate name) := by
  induction parsed generalizing start with
  | nil => rfl
  | cons read _ ih =>
    rw [List.foldlM_cons, addFile, read, ok_bind, FileSet.mergeFrom]
    cases start.merge _ with
    | mk merged clash =>
      cases clash with
      | none => exact ih merged
      | some name => rfl

end Load

namespace Schema.FileSet

/-- Sets merge if files of one name are the same, in any order to the same files: the first of each name. Merging some
of them again changes nothing. A merge that fails has merged what stands before the first file whose name is taken.
Folders of descriptors are merged so. -/
theorem sets_merge {sets : List FileSet} (typed : ∀ s ∈ sets, s.WellTyped) :
    ((mergeAll sets).clash = none ↔ Consistent (sets.flatMap (·.files))) ∧
    ((mergeAll sets).clash = none →
      (mergeAll sets).set.files = firstOfEachName (sets.flatMap (·.files)) ∧
      NamesDistinct (mergeAll sets).set.files ∧
      (∀ others, others.Perm sets →
        (mergeAll others).clash = none ∧ SameFiles (mergeAll sets).set.files (mergeAll others).set.files) ∧
      ∀ again, again ⊆ sets → mergeFrom (mergeAll sets).set again = ⟨(mergeAll sets).set, none⟩) ∧
    (∀ name, (mergeAll sets).clash = some name → ∃ before file after,
      sets.flatMap (·.files) = before ++ file :: after ∧ file.name = name ∧
      merge ⟨[]⟩ ⟨before⟩ = ⟨(mergeAll sets).set, none⟩ ∧ Taken before file ∧
      ∀ earlier other later, before = earlier ++ other :: later → ¬ Taken earlier other) ∧
    ∀ files, List.Forall₂ (fun file set => Load.setOfFile file.1 file.2 = .ok set) files sets →
      files.foldlM Load.addFile ⟨[]⟩ =
        match mergeAll sets with
        | ⟨set, none⟩ => .ok set
        | ⟨_, some name⟩ => .error (.duplicate name) := by
  have empty : NamesDistinct (FileSet.mk []).files := List.nodup_nil
  have typedFiles : ∀ f ∈ sets.flatMap (·.files), f.WellTyped := fun f inside => by
    obtain ⟨s, among, there⟩ := List.mem_flatMap.mp inside
    exact typed s among f there
  have merges {files : List File} (typed : ∀ f ∈ files, f.WellTyped) :
      (addFiles ⟨[]⟩ files).clash = none ↔ Consistent files := @clash_none_iff ⟨[]⟩ _ typed empty
  have distinct : NamesDistinct (addFiles ⟨[]⟩ (sets.flatMap (·.files))).set.files := distinct_addFiles empty
  simp only [mergeAll_eq]
  refine ⟨merges typedFiles, fun added => ⟨?first, distinct, ?permuted, ?again⟩, ?failed, fun files parsed => ?loaded⟩
  case first =>
    simpa using files_addFiles added
  case permuted =>
    intro others perm
    have reordered : (others.flatMap (·.files)).Perm (sets.flatMap (·.files)) := perm.flatMap_right _
    have again := (merges fun f inside => typedFiles f (reordered.subset inside)).mpr
      (((merges typedFiles).mp added).subset reordered.subset)
    exact ⟨again, sameFiles_of_perm typedFiles reordered added again⟩
  case again =>
    intro again part
    rw [mergeFrom_eq distinct]
    refine addFiles_again distinct fun f inside => covered typedFiles empty added f ?_
    obtain ⟨s, among, there⟩ := List.mem_flatMap.mp inside
    exact List.mem_flatMap.mpr ⟨s, part among, there⟩
  case failed =>
    intro name clashes
    obtain ⟨before, file, after, split, named, merged, g, inside, same, differ⟩ := stops empty clashes
    have typedBefore : ∀ f ∈ before, f.WellTyped := fun f inside => typedFiles f (split ▸ List.mem_append_left _ inside)
    have consistent : Consistent before := (merges typedBefore).mp (by rw [merged])
    have taken : g ∈ before := by
      rw [← congrArg (·.set.files) merged] at inside
      exact (mem_addFiles inside).resolve_left List.not_mem_nil
    refine ⟨before, file, after, split, named, merged, ⟨g, taken, same, differ⟩, ?_⟩
    rintro earlier other later rfl ⟨f, early, called, differs⟩
    -- An earlier file whose name was taken would have stopped the merge before.
    have alike := consistent f (List.mem_append_left _ early) other (by simp) called
    rw [alike] at differs
    cases differs
  case loaded =>
    rw [Load.foldlM_addFile parsed, ← mergeAll, mergeAll_eq]

def note (name : String) (members : Entries Json) : File :=
  ⟨name, "t", [], [], [], some ⟨[("note", .obj members)], List.pairwise_singleton _ _⟩, none⟩

theorem wellTyped_note {name : String} {members : Entries Json} (distinct : (Json.obj members).Distinct) :
    (note name members).WellTyped where
  messages := by simp [note]
  enums := by simp [note]
  options := by simpa [WellKeyed, note, KeyMap.values] using distinct

/-- The order of keys within options does not tell files apart, other members do. -/
theorem sets_merge_notes :
    let first := note "a.proto" [("draft", .bool true), ("pages", .int 3)]
    let turned := note "a.proto" [("pages", .int 3), ("draft", .bool true)]
    let other := note "b.proto" []
    let longer := note "a.proto" [("draft", .bool true), ("pages", .int 4)]
    (mergeAll [⟨[first]⟩, ⟨[other, turned]⟩]).clash = none ∧
      SameFiles [first, other] [other, turned] ∧
      mergeFrom ⟨[first, other]⟩ [⟨[first]⟩] = ⟨⟨[first, other]⟩, none⟩ ∧
      (mergeAll [⟨[first]⟩, ⟨[other, longer]⟩]).clash = some "a.proto" ∧
      ¬ Consistent [first, other, longer] := by
  intro first turned other longer
  have typedFirst : first.WellTyped := wellTyped_note ⟨by rw [Entries.Distinct]; decide, trivial, trivial, trivial⟩
  have typedTurned : turned.WellTyped := wellTyped_note ⟨by rw [Entries.Distinct]; decide, trivial, trivial, trivial⟩
  have typedOther : other.WellTyped := wellTyped_note Json.distinct_empty
  have typedLonger : longer.WellTyped := wellTyped_note ⟨by rw [Entries.Distinct]; decide, trivial, trivial, trivial⟩
  have added : (mergeAll [⟨[first]⟩, ⟨[other, turned]⟩]).clash = none := by decide +kernel
  have clashes : (mergeAll [⟨[first]⟩, ⟨[other, longer]⟩]).clash = some "a.proto" := by decide +kernel
  have typed : ∀ s ∈ [FileSet.mk [first], ⟨[other, turned]⟩], s.WellTyped := by
    simp [WellTyped, typedFirst, typedTurned, typedOther]
  have typed' : ∀ s ∈ [FileSet.mk [first], ⟨[other, longer]⟩], s.WellTyped := by
    simp [WellTyped, typedFirst, typedLonger, typedOther]
  obtain ⟨_, merges, _⟩ := sets_merge typed
  obtain ⟨_, _, reordered, again⟩ := merges added
  refine ⟨added, (reordered [⟨[other, turned]⟩, ⟨[first]⟩] (.swap _ _ _)).2, again [⟨[first]⟩] (by simp), clashes, ?_⟩
  intro consistent
  cases clashes.symm.trans ((sets_merge typed').1.mpr consistent)

end Schema.FileSet

end Wireform
