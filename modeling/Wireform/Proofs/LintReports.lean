import Wireform.Lint
import Wireform.Proofs.Evaluation
import Wireform.Proofs.AcceptedIndex

set_option autoImplicit false

namespace Wireform

theorem flatMap_filter_perm {α : Type} (key : α → String) {keys : List String} (distinct : keys.Nodup) {items : List α}
    (covered : ∀ item ∈ items, key item ∈ keys) : (keys.flatMap fun k => items.filter (key · == k)).Perm items := by
  induction keys generalizing items with
  | nil =>
    have nothing : items = [] := List.eq_nil_iff_forall_not_mem.mpr fun item inside => nomatch covered item inside
    rw [nothing]
    exact .nil
  | cons k rest ih =>
    obtain ⟨fresh, distinct⟩ := List.nodup_cons.mp distinct
    have later : (rest.flatMap fun other => items.filter (key · == other)) =
        rest.flatMap fun other => (items.filter (!key · == k)).filter (key · == other) := by
      refine List.flatMap_congr fun other there => ?_
      rw [List.filter_filter]
      refine List.filter_congr fun item _ => ?_
      by_cases same : key item = other
      · have apart : key item ≠ k := fun first => fresh (first ▸ same ▸ there)
        simp [same, same ▸ apart]
      · simp [same]
    rw [List.flatMap_cons, later]
    refine (List.Perm.append_left _ (ih distinct fun item inside => ?_)).trans (List.filter_append_perm _ _)
    obtain ⟨there, apart⟩ := List.mem_filter.mp inside
    exact (List.mem_cons.mp (covered item there)).resolve_left (by simpa using apart)

namespace Lint

section Handed

variable (all : List Diagnostic)

theorem assign_perm (seen names : List String) : ((assign all seen names).flatMap (·.diagnostics)).Perm
    (all.filter fun d => names.contains d.file && !seen.contains d.file) := by
  induction names generalizing seen with
  | nil => simp [assign]
  | cons name rest ih =>
    rw [assign, List.flatMap_cons]
    by_cases known : name ∈ seen
    · have same : (all.filter fun d => (name :: rest).contains d.file && !seen.contains d.file) =
          all.filter fun d => rest.contains d.file && !(seen ++ [name]).contains d.file := by
        refine List.filter_congr fun d _ => ?_
        by_cases here : d.file = name
        · simp [here, known]
        · simp [here]
      rw [if_pos (by simpa using known), List.nil_append, same]
      exact ih _
    · -- The first file of a name takes all that is filed under it.
      have own : all.filter (·.file == name) =
          (all.filter fun d => (name :: rest).contains d.file && !seen.contains d.file).filter (·.file == name) := by
        rw [List.filter_filter]
        refine List.filter_congr fun d _ => ?_
        by_cases here : d.file = name
        · simp [here, known]
        · simp [here]
      have later : (all.filter fun d => rest.contains d.file && !(seen ++ [name]).contains d.file) =
          (all.filter fun d => (name :: rest).contains d.file && !seen.contains d.file).filter (!·.file == name) := by
        rw [List.filter_filter]
        refine List.filter_congr fun d _ => ?_
        by_cases here : d.file = name <;> simp [here]
      rw [if_neg (by simpa using known), own]
      refine (List.Perm.append_left _ (ih _)).trans ?_
      rw [later]
      exact List.filter_append_perm _ _

theorem others_perm (names : List String) : ((others all names).flatMap (·.diagnostics)).Perm
    (all.filter fun d => !names.contains d.file) := by
  rw [others, List.flatMap_map]
  refine flatMap_filter_perm (fun d : Diagnostic => d.file) (KeyMap.ofList _).sorted.distinct fun d inside => ?_
  obtain ⟨_, found⟩ := KeyMap.exists_get?_ofList (List.mem_map_of_mem (f := fun d : Diagnostic => (d.file, ())) inside)
  exact Entries.mem_keys_of_mem (KeyMap.mem_entries.mpr found)

theorem file_of_assign {seen names : List String} {r : FileResult} (inside : r ∈ assign all seen names) :
    ∀ d ∈ r.diagnostics, d.file = r.file := by
  induction names generalizing seen with
  | nil => cases inside
  | cons name rest ih =>
    rcases List.mem_cons.mp inside with rfl | later
    · intro d there
      dsimp only at there
      split at there
      · cases there
      · simpa using (List.mem_filter.mp there).2
    · exact ih later

theorem file_of_others {names : List String} {r : FileResult} (inside : r ∈ others all names) :
    ∀ d ∈ r.diagnostics, d.file = r.file := by
  obtain ⟨name, _, rfl⟩ := List.mem_map.mp inside
  intro d there
  simpa using (List.mem_filter.mp there).2

theorem files_assign (seen names : List String) : (assign all seen names).map (·.file) = names := by
  induction names generalizing seen with
  | nil => rfl
  | cons name rest ih => rw [assign, List.map_cons, ih]

end Handed

theorem foldl_countP (p : Diagnostic → Bool) (files : List FileResult) (n : Nat) :
    files.foldl (fun n file => n + file.diagnostics.countP p) n = n + (files.flatMap (·.diagnostics)).countP p := by
  induction files generalizing n with
  | nil => rfl
  | cons file rest ih => rw [List.foldl_cons, ih, List.flatMap_cons, List.countP_append, Nat.add_assoc]

def ofRun (path : String) : Except Run.Error Run.Output → List Diagnostic
  | .ok _ => []
  | .error (.unresolved error) => [ofBuildError path error]
  | .error (.invalid findings) => findings.map ofFinding

/-- How many findings stop a run; what cannot be resolved counts as one. -/
def faults : Except Run.Error Run.Output → Nat
  | .ok _ => 0
  | .error (.unresolved _) => 1
  | .error (.invalid findings) => findings.length

/-- What the checks of a set warn of; one that cannot be resolved is not checked. -/
def checkWarnings (set : Schema.FileSet) (settings : Settings) : List Warning :=
  match Index.build set [] settings with
  | .ok index => index.report.warnings
  | .error _ => []

section Linted

variable (set : Schema.FileSet) (path : String) (settings : Settings) (strict : Bool)

theorem diagnostics_perm : (diagnostics set path settings).Perm
    (ofRun path (Run.generate set [] settings) ++ (checkWarnings set settings).map ofWarning) := by
  rw [diagnostics, checkWarnings, Run.generate_eq]
  cases Index.build set [] settings with
  | error fault => exact .refl _
  | ok index =>
    cases clean : index.report.errors with
    | cons first rest => simp [clean, ofRun]
    | nil =>
      have asked : (settings.effectiveTargets.flatMap fun target =>
          Emit.unsupported index index.plans (Emit.emitterOf target)) =
            (settings.effectiveTargets.map Emit.emitterOf).flatMap (Emit.unsupported index index.plans) := by
        rw [List.flatMap_map]
      simp only [clean, asked, Emit.emitWith, List.isEmpty_nil, if_true, List.map_nil, List.nil_append]
      cases (settings.effectiveTargets.map Emit.emitterOf).flatMap (Emit.unsupported index index.plans) with
      | nil => simp [ofRun, Except.map, Except.mapError]
      | cons first rest => exact List.perm_append_comm

theorem lintSet_perm : ((lintSet set path settings strict).files.flatMap (·.diagnostics)).Perm
    (diagnostics set path settings) := by
  rw [lintSet, List.flatMap_append]
  refine ((assign_perm _ _ _).append (others_perm _ _)).trans ?_
  simpa using List.filter_append_perm (fun d => (set.files.map (·.name)).contains d.file) (diagnostics set path settings)

theorem errors_lintSet : (lintSet set path settings strict).errors = faults (Run.generate set [] settings) := by
  have ended (run : Except Run.Error Run.Output) : (ofRun path run).countP (·.severity == .error) = faults run := by
    rcases run with (fault | findings) | output
    · rfl
    · simp only [ofRun, faults, List.countP_map]
      exact List.countP_eq_length.mpr fun _ _ => rfl
    · rfl
  have warned : ((checkWarnings set settings).map ofWarning).countP (·.severity == .error) = 0 := by
    rw [List.countP_map]
    exact List.countP_eq_zero.mpr fun _ _ never => nomatch never
  rw [Result.errors]
  simp only [FileResult.errors]
  rw [foldl_countP, ((lintSet_perm set path settings strict).trans (diagnostics_perm set path settings)).countP_eq,
    List.countP_append, ended, warned, Nat.zero_add, Nat.add_zero]

theorem warnings_lintSet : (lintSet set path settings strict).warnings = (checkWarnings set settings).length := by
  have ended (run : Except Run.Error Run.Output) : (ofRun path run).countP (·.severity == .warning) = 0 := by
    rcases run with (fault | findings) | output
    · rfl
    · simp only [ofRun, List.countP_map]
      exact List.countP_eq_zero.mpr fun _ _ never => nomatch never
    · rfl
  have warned : ((checkWarnings set settings).map ofWarning).countP (·.severity == .warning) =
      (checkWarnings set settings).length := by
    rw [List.countP_map]
    exact List.countP_eq_length.mpr fun _ _ => rfl
  rw [Result.warnings]
  simp only [FileResult.warnings]
  rw [foldl_countP, ((lintSet_perm set path settings strict).trans (diagnostics_perm set path settings)).countP_eq,
    List.countP_append, ended, warned, Nat.zero_add, Nat.zero_add]

theorem faults_eq_zero : faults (Run.generate set [] settings) = 0 ↔
    ∃ output, Run.generate set [] settings = .ok output := by
  rw [Run.generate_eq]
  cases Index.build set [] settings with
  | error fault => simp [faults]
  | ok index =>
    cases clean : index.report.errors with
    | cons first rest => simp [clean, faults]
    | nil =>
      simp only [clean, Emit.emitWith]
      cases (settings.effectiveTargets.map Emit.emitterOf).flatMap (Emit.unsupported index index.plans) with
      | nil => simp [faults, Except.map, Except.mapError]
      | cons first rest => simp [faults, Except.map, Except.mapError]

/-- A lint finds as many errors as stop a run over all files, and none exactly if the run succeeds. Each finding and
each warning is in the results once, under the file that it names, and every file of the set is there. -/
theorem lint_agrees :
    ((lintSet set path settings strict).isOk = true ↔ ∃ output, Run.generate set [] settings = .ok output) ∧
    (lintSet set path settings strict).errors = faults (Run.generate set [] settings) ∧
    (lintSet set path settings strict).warnings = (checkWarnings set settings).length ∧
    ((lintSet set path settings strict).files.flatMap (·.diagnostics)).Perm
      (ofRun path (Run.generate set [] settings) ++ (checkWarnings set settings).map ofWarning) ∧
    (∀ r ∈ (lintSet set path settings strict).files, ∀ d ∈ r.diagnostics, d.file = r.file) ∧
    (∀ findings, Run.generate set [] settings = .error (.invalid findings) → ∀ f ∈ findings,
      ∃ r ∈ (lintSet set path settings strict).files, r.file = f.file ∧ ofFinding f ∈ r.diagnostics) ∧
    (∀ w ∈ checkWarnings set settings,
      ∃ r ∈ (lintSet set path settings strict).files, r.file = w.file ∧ ofWarning w ∈ r.diagnostics) ∧
    (∀ file ∈ set.files, ∃ r ∈ (lintSet set path settings strict).files, r.file = file.name) ∧
    (lintSet set path settings strict).files.length =
      (lintSet set path settings strict).passed + (lintSet set path settings strict).failed := by
  have errors := errors_lintSet set path settings strict
  have all := (lintSet_perm set path settings strict).trans (diagnostics_perm set path settings)
  have filed (r : FileResult) (inside : r ∈ (lintSet set path settings strict).files) :
      ∀ d ∈ r.diagnostics, d.file = r.file := by
    rcases List.mem_append.mp inside with assigned | other
    · exact file_of_assign _ assigned
    · exact file_of_others _ other
  have listed (d : Diagnostic)
      (reported : d ∈ ofRun path (Run.generate set [] settings) ++ (checkWarnings set settings).map ofWarning) :
      ∃ r ∈ (lintSet set path settings strict).files, r.file = d.file ∧ d ∈ r.diagnostics := by
    obtain ⟨r, inside, there⟩ := List.mem_flatMap.mp (all.mem_iff.mpr reported)
    exact ⟨r, inside, (filed r inside d there).symm, there⟩
  refine ⟨?_, errors, warnings_lintSet set path settings strict, all, filed, fun findings stopped f inside => ?_,
    fun w inside => ?_, fun file inside => ?_, ?_⟩
  · rw [Result.isOk, beq_iff_eq, errors]
    exact faults_eq_zero set settings
  · refine listed (ofFinding f) (List.mem_append_left _ ?_)
    rw [stopped]
    exact List.mem_map_of_mem inside
  · exact listed (ofWarning w) (List.mem_append_right _ (List.mem_map_of_mem inside))
  · have named : file.name ∈ (assign (diagnostics set path settings) [] (set.files.map (·.name))).map (·.file) := by
      rw [files_assign]
      exact List.mem_map_of_mem inside
    obtain ⟨r, there, same⟩ := List.mem_map.mp named
    exact ⟨r, List.mem_append_left _ there, same⟩
  · have most : (lintSet set path settings strict).failed ≤ (lintSet set path settings strict).files.length :=
      List.countP_le_length
    exact (Nat.sub_add_cancel most).symm

end Linted

def twins : Schema.FileSet :=
  let file : Schema.File :=
    ⟨"a.proto", "t", ["b.proto"], [.ofFields "M" [.ofKind "text" .string [("bytes_encoding", .str "HEX")],
      .ofKind "count" .int64 [("int64_encoding", .str "NUMBER")]] []], [], none, none⟩
  ⟨[file, file]⟩

-- The message is checked for each of the two files, and the first of them has it all.
example : ((lintSet twins "twins.json" .default true).files.map fun r => (r.file, r.errors, r.warnings)) =
    [("a.proto", 3, 2), ("a.proto", 0, 0)] := by decide +kernel

end Lint

end Wireform
