import Workbench.Command.Workflow
import Workbench.Proofs.Files
import Workbench.Proofs.Patch.Candidate
import Workbench.Proofs.Session.Merge
import Workbench.Proofs.Workflow.Format

/-!
# A merge from files to a file

A merge on the command line goes through four stages that can fail: the workflow
is loaded, the patch is loaded, the candidate is checked, and the output is
written. `Storage.run_cases` goes through them once. Either all of them succeed
(`Storage.Merges`) or the run fails, and what has failed has written nothing,
since the only write comes last. The waiting for the validator is no stage of
its own, because the structural one answers at once.

What the files lie in does not matter. All that is asked of them are the two
laws of `Storage.Lawful`, one for an output that is written and one for an
output that cannot be.

The output is a text that can be loaded again. Its brackets are the one thing
that could stand in the way, since a text may have no more than 127 of them open
at once. A node is as deep in a patch as in a workflow, so the candidate is no
deeper than the texts that it was made from (`nesting_candidate_le`), and those
were read. Merging nothing into the candidate then gives the candidate, and so
the same text.
-/

namespace Workbench

/-! ## How deep it is -/

theorem Json.nestingOfItems_le_iff {items : List Json} {n : Nat} :
    nestingOfItems items ≤ n ↔ ∀ item ∈ items, item.nesting ≤ n := by
  induction items with
  | nil => exact iff_of_true (Nat.zero_le n) nofun
  | cons item rest ih =>
      rw [nestingOfItems, Nat.max_le, ih, List.forall_mem_cons]

theorem Codec.nesting_list_le_iff {α : Type} {codec : Codec α} {as : List α}
    {n : Nat} :
    (codec.list.write as).nesting ≤ n + 1 ↔
      ∀ a ∈ as, (codec.write a).nesting ≤ n := by
  show Json.nestingOfItems (as.map codec.write) + 1 ≤ n + 1 ↔ _
  rw [Nat.add_le_add_iff_right, Json.nestingOfItems_le_iff, List.forall_mem_map]

namespace Workflow

variable {workflow : Workflow} {patch : Patch} {n : Nat}

theorem nesting_write_le_iff :
    (codec.write workflow).nesting ≤ n + 2 ↔
    (∀ node ∈ workflow.nodes, (Node.codec.write node).nesting ≤ n) ∧
      ∀ edge ∈ workflow.edges, (Edge.codec.write edge).nesting ≤ n := by
  show max 0 (max 0 (max (Node.codec.list.write workflow.nodes).nesting
    (max (Edge.codec.list.write workflow.edges).nesting 0))) + 1 ≤ n + 2 ↔ _
  rw [Nat.zero_max, Nat.zero_max, Nat.max_zero,
    Nat.add_le_add_iff_right (n := 1), Nat.max_le, Codec.nesting_list_le_iff,
    Codec.nesting_list_le_iff]

theorem nesting_candidate_le
    (hworkflow : (codec.write workflow).nesting ≤ n + 2)
    (hpatch : (Patch.codec.write patch).nesting ≤ n + 2) :
    (codec.write (workflow.candidate patch)).nesting ≤ n + 2 := by
  obtain ⟨hnodes, hedges⟩ := nesting_write_le_iff.1 hworkflow
  have hpatch :
      max (Node.codec.list.write patch.addedNodes).nesting
        (max (Uuid.codec.list.write patch.removedNodes).nesting
          (max (Node.codec.list.write patch.updatedNodes).nesting
            (max (Edge.codec.list.write patch.addedEdges).nesting
              (max (Edge.codec.list.write patch.removedEdges).nesting
                (max (Codec.string.list.write patch.warnings).nesting 0))))) +
        1 ≤ n + 2 := hpatch
  rw [Nat.add_le_add_iff_right (n := 1)] at hpatch
  simp only [Nat.max_le, Codec.nesting_list_le_iff] at hpatch
  obtain ⟨hadded, -, hupdated, haddedEdges, -⟩ := hpatch
  refine nesting_write_le_iff.2 ⟨fun node hnode => ?_, fun edge hedge => ?_⟩
  · rcases mem_nodes_candidate hnode with h | h | h
    · exact hnodes node h
    · exact hupdated node h
    · exact hadded node h
  · rcases mem_edges_candidate hedge with h | h
    · exact hedges edge h
    · exact haddedEdges edge h

end Workflow

/-! ## The run -/

namespace Storage

variable {σ : Type}

/-- Both files can be read and decoded, the candidate is valid, and an output
that is named can be written. -/
structure Merges (storage : Storage σ) (files : σ) (path patchPath : String)
    (output : Option String) (workflow : Workflow) (patch : Patch) : Prop where
  loaded : storage.load files Workflow.codec path = .ok workflow
  patched : storage.load files Patch.codec patchPath = .ok patch
  valid : (workflow.candidate patch).check = []
  writable : ∀ out, output = some out → ∃ written,
    storage.write files out (workflow.candidate patch).toText =
      (.ok (), written)

/-- A run has succeeded and left the text in the output or, if none is named,
has printed it. -/
def Delivers (storage : Storage σ) (output : Option String) (files : σ)
    (run : Report × σ) (text : String) : Prop :=
  run.1.exit = 0 ∧
    match output with
    | some out =>
        run.1.stdout = "" ∧ storage.write files out text = (.ok (), run.2) ∧
          storage.read run.2 out = .ok text
    | none => run.1.stdout = text ∧ run.2 = files

/-- A run has failed and left nothing behind but what it has said. -/
structure Fails (files : σ) (run : Report × σ) : Prop where
  exit : run.1.exit = 1
  silent : run.1.stdout = ""
  unchanged : run.2 = files

end Storage

/-- The text that a merge leaves: that of the workflow, with the end of a line
if it is printed. -/
def mergedText (output : Option String) (workflow : Workflow) : String :=
  match output with
  | some _ => workflow.toText
  | none => workflow.toText ++ "\n"

theorem mergedText_congr {output output' : Option String}
    (h : output'.isSome = output.isSome) (workflow : Workflow) :
    mergedText output' workflow = mergedText output workflow := by
  match output, output', h with
  | none, none, _ => rfl
  | some _, some _, _ => rfl

namespace Command

variable {workflow : Workflow} {patch : Patch} {output : Option String}
  {seconds : Nat}

theorem planMerge_of_valid (hvalid : (workflow.candidate patch).check = []) :
    planMerge workflow patch output seconds =
      match output with
      | some out => ⟨{ stderr := Report.lines (mergeLines patch.outcome) },
          some (out, (workflow.candidate patch).toText)⟩
      | none => ⟨{ stderr := Report.lines (mergeLines patch.outcome)
                   stdout := Report.lines [(workflow.candidate patch).toText] },
          none⟩ := by
  have hjudge :
      Validator.structural.judge (workflow.candidate patch) = .ok () :=
    Validator.judge_structural_eq_ok_iff.2 hvalid
  have hmerge :
      (Session.start workflow History.usualCapacity (limit seconds)).merge?
          patch .structural =
        some (.ok patch.outcome, Session.applied _ patch) :=
    Session.merge?_of_accepted (limit seconds).inTime_structural hjudge
  unfold planMerge
  dsimp only
  rw [hmerge]
  rfl

theorem planMerge_of_invalid
    (hinvalid : (workflow.candidate patch).check ≠ []) :
    planMerge workflow patch output seconds =
      ⟨refusal (.rejected (workflow.candidate patch).check), none⟩ := by
  have hjudge : Validator.structural.judge (workflow.candidate patch) =
      .error (workflow.candidate patch).check :=
    Validator.judge_structural_of_rejected hinvalid
  have hmerge :
      (Session.start workflow History.usualCapacity (limit seconds)).merge?
          patch .structural =
        some (.error (.rejected (workflow.candidate patch).check), _) :=
    Session.merge?_of_rejected (limit seconds).inTime_structural hjudge
  unfold planMerge
  dsimp only
  rw [hmerge]

end Command

namespace Storage

variable {σ : Type} {storage : Storage σ} {files : σ} {arguments : List String}
  {path patchPath : String} {output : Option String} {seconds : Nat}
  {workflow : Workflow} {patch : Patch}

section

variable
  (hparse : Command.parse? arguments =
    some (.merge path patchPath output seconds))

include hparse

theorem run_eq (storage : Storage σ) (files : σ) :
    storage.run files arguments = storage.carryOut files
      (match storage.load files Workflow.codec path with
        | .ok workflow =>
            match storage.load files Patch.codec patchPath with
            | .error error =>
                ⟨Command.loadFailure "patch" patchPath error, none⟩
            | .ok patch => Command.planMerge workflow patch output seconds
        | .error error =>
            ⟨Command.loadFailure "workflow" path error, none⟩) := by
  rw [run, hparse]
  rfl

theorem run_of_merges (hlawful : storage.Lawful)
    (h : storage.Merges files path patchPath output workflow patch) :
    storage.Delivers output files (storage.run files arguments)
      (mergedText output (workflow.candidate patch)) := by
  rw [run_eq hparse, h.loaded, h.patched]
  dsimp only
  rw [Command.planMerge_of_valid h.valid]
  cases output with
  | none =>
      refine ⟨rfl, ?_, rfl⟩
      show "" ++ ((workflow.candidate patch).toText ++ "\n") = _
      rw [String.empty_append]
      rfl
  | some out =>
      obtain ⟨written, hwritten⟩ := h.writable out rfl
      unfold carryOut
      dsimp only
      rw [hwritten]
      exact ⟨rfl, rfl, hwritten, hlawful.read_of_write hwritten⟩

/-- A run merges, or it stops at the first stage that fails. -/
theorem run_cases (hlawful : storage.Lawful) (files : σ) :
    (∃ workflow patch,
      storage.Merges files path patchPath output workflow patch) ∨
      Fails files (storage.run files arguments) := by
  rw [run_eq hparse]
  cases hload : storage.load files Workflow.codec path with
  | error error => exact .inr ⟨rfl, rfl, rfl⟩
  | ok workflow =>
      cases hpatch : storage.load files Patch.codec patchPath with
      | error error => exact .inr ⟨rfl, rfl, rfl⟩
      | ok patch =>
          dsimp only
          by_cases hvalid : (workflow.candidate patch).check = []
          · rw [Command.planMerge_of_valid hvalid]
            cases output with
            | none =>
                exact .inl ⟨workflow, patch, hload, hpatch, hvalid, nofun⟩
            | some out =>
                obtain ⟨result, written, hwrite⟩ : ∃ result written,
                    storage.write files out (workflow.candidate patch).toText =
                      (result, written) := ⟨_, _, rfl⟩
                cases result with
                | ok _ =>
                    refine .inl ⟨workflow, patch, hload, hpatch, hvalid, ?_⟩
                    intro other hother
                    obtain rfl := Option.some.inj hother
                    exact ⟨written, hwrite⟩
                | error error =>
                    unfold carryOut
                    dsimp only
                    rw [hwrite]
                    exact .inr ⟨rfl, rfl, hlawful.eq_of_failure hwrite⟩
          · rw [Command.planMerge_of_invalid hvalid]
            exact .inr ⟨rfl, rfl, rfl⟩

end

theorem load_eq_ok_iff {α : Type} {codec : Codec α} {a : α} :
    storage.load files codec path = .ok a ↔
      ∃ text,
        storage.read files path = .ok text ∧ codec.ofText text = .ok a := by
  unfold load decodeFile
  cases storage.read files path with
  | error error => exact iff_of_false nofun fun ⟨_, h, _⟩ => nomatch h
  | ok text =>
      simp only [Except.ok.injEq, exists_eq_left']
      cases codec.ofText text <;> simp

/-- What a merge leaves is decoded as the candidate. -/
theorem Merges.ofText_mergedText
    (h : storage.Merges files path patchPath output workflow patch)
    (hfloats :
      (Workflow.codec.write (workflow.candidate patch)).FloatsReadBack) :
    Workflow.ofText (mergedText output (workflow.candidate patch)) =
      .ok (workflow.candidate patch) := by
  have hregular : Workflow.codec.Regular 7 := Workflow.record_regular.codec
  have hpatchRegular : Patch.codec.Regular 7 := Patch.record_regular.codec
  obtain ⟨text, -, htext⟩ := load_eq_ok_iff.1 h.loaded
  obtain ⟨patchText, -, hpatchText⟩ := load_eq_ok_iff.1 h.patched
  have hworkflow := hregular.nesting_lt_of_ofText (by decide) htext
  have hpatch := hpatchRegular.nesting_lt_of_ofText (by decide) hpatchText
  have hnesting :
      (Workflow.codec.write (workflow.candidate patch)).nesting < 128 :=
    Nat.lt_succ_of_le (Workflow.nesting_candidate_le (n := 125)
      (Nat.le_of_lt_succ hworkflow) (Nat.le_of_lt_succ hpatch))
  cases output with
  | none =>
      have hblank : ∀ c ∈ ['\n'], Text.isBlank c = true := by
        intro c hc
        rw [List.mem_singleton.1 hc]
        rfl
      have hline : "\n".toList = ['\n'] := by decide
      have htext : ((workflow.candidate patch).toText ++ "\n").toList =
          (workflow.candidate patch).toText.toList ++ ['\n'] := by
        rw [String.toList_append, hline]
      exact hregular.ofText_append Layout.isBlank_pretty hblank htext
        hfloats hnesting
  | some out =>
      exact hregular.ofText_toText Layout.isBlank_pretty hfloats hnesting

/-- Merging nothing into a workflow that a merge has left merges the same
workflow. -/
theorem Merges.again
    (h : storage.Merges files path patchPath output workflow patch)
    (hfloats : (Workflow.codec.write (workflow.candidate patch)).FloatsReadBack)
    {later : σ} {path' patchPath' : String} {output' : Option String}
    {nothing : Patch}
    (hread : storage.read later path' =
      .ok (mergedText output (workflow.candidate patch)))
    (hpatched : storage.load later Patch.codec patchPath' = .ok nothing)
    (hnothing : nothing.isEmpty = true)
    (hwritable : ∀ out, output' = some out → ∃ written,
      storage.write later out (workflow.candidate patch).toText =
        (.ok (), written)) :
    storage.Merges later path' patchPath' output' (workflow.candidate patch)
      nothing := by
  have hsame := (workflow.candidate patch).candidate_of_isEmpty hnothing
  refine ⟨load_eq_ok_iff.2 ⟨_, hread, h.ofText_mergedText hfloats⟩,
    hpatched, ?_, ?_⟩
  · rw [hsame]
    exact h.valid
  · rw [hsame]
    exact hwritable

/-- A merge on the command line succeeds exactly if both files can be loaded,
the candidate is valid and the output can be written, and otherwise it fails
without a trace. What a merge leaves is decoded as the candidate, and merging
nothing into it leaves the same text again. -/
theorem run_merge {arguments : List String} {path patchPath : String}
    {output : Option String} {seconds : Nat}
    (hparse : Command.parse? arguments =
      some (.merge path patchPath output seconds))
    (hlawful : storage.Lawful) (files : σ) :
    ((storage.run files arguments).1.exit = 0 ↔ ∃ workflow patch,
      storage.Merges files path patchPath output workflow patch) ∧
    ((storage.run files arguments).1.exit ≠ 0 →
      Fails files (storage.run files arguments)) ∧
    ∀ workflow patch,
      storage.Merges files path patchPath output workflow patch →
      storage.Delivers output files (storage.run files arguments)
        (mergedText output (workflow.candidate patch)) ∧
      ((Workflow.codec.write (workflow.candidate patch)).FloatsReadBack →
        Workflow.ofText (mergedText output (workflow.candidate patch)) =
          .ok (workflow.candidate patch) ∧
        (∀ out, output = some out →
          storage.load (storage.run files arguments).2 Workflow.codec out =
            .ok (workflow.candidate patch)) ∧
        ∀ (later : σ) (arguments' : List String) (path' patchPath' : String)
          (output' : Option String) (seconds' : Nat) (nothing : Patch),
          Command.parse? arguments' =
            some (.merge path' patchPath' output' seconds') →
          output'.isSome = output.isSome →
          storage.read later path' =
            .ok (mergedText output (workflow.candidate patch)) →
          storage.load later Patch.codec patchPath' = .ok nothing →
          nothing.isEmpty = true →
          (∀ out, output' = some out → ∃ written,
            storage.write later out (workflow.candidate patch).toText =
              (.ok (), written)) →
          storage.Delivers output' later (storage.run later arguments')
            (mergedText output (workflow.candidate patch))) := by
  refine ⟨⟨fun hexit => ?_, fun h => ?_⟩, fun hexit => ?_,
    fun workflow patch h => ?_⟩
  · rcases run_cases hparse hlawful files with h | h
    · exact h
    · cases hexit.symm.trans h.exit
  · obtain ⟨workflow, patch, h⟩ := h
    exact (run_of_merges hparse hlawful h).1
  · rcases run_cases hparse hlawful files with h | h
    · obtain ⟨workflow, patch, h⟩ := h
      exact absurd (run_of_merges hparse hlawful h).1 hexit
    · exact h
  · have hdelivers := run_of_merges hparse hlawful h
    have hdecoded := h.ofText_mergedText
    refine ⟨hdelivers,
      fun hfloats => ⟨hdecoded hfloats, fun out hout => ?_, ?_⟩⟩
    · subst hout
      exact load_eq_ok_iff.2 ⟨_, hdelivers.2.2.2, hdecoded hfloats⟩
    · intro later arguments' path' patchPath' output' seconds' nothing
        hparse' hkind hread hpatched hnothing hwritable
      have hagain := run_of_merges hparse' hlawful
        (h.again hfloats hread hpatched hnothing hwritable)
      rw [Workflow.candidate_of_isEmpty _ hnothing,
        mergedText_congr hkind] at hagain
      exact hagain

end Storage

namespace Files

/-! ## A merge in place -/

/-- A directory with a workflow file and a patch file. -/
def desk (text patchText : String) : Files :=
  ⟨[(["w"], .file text.toUTF8), (["p"], .file patchText.toUTF8)]⟩

variable {text patchText : String}

theorem resolve_desk {name : String} (hname : name = "w" ∨ name = "p") :
    (desk text patchText).resolve name = .ok [name] := by
  have hsplit : name.splitOn "/" = [name] := by
    rcases hname with rfl | rfl
    all_goals
      rw [String.splitOn, if_neg (by decide), String.splitOnAux,
        String.splitOnAux]
      decide +kernel
  rcases hname with rfl | rfl
  all_goals
    rw [resolve, if_neg (by decide +kernel), names, hsplit]
    rfl

theorem read_desk_workflow : (desk text patchText).read "w" = .ok text :=
  read_of_find? (resolve_desk (.inl rfl)) rfl (by decide +kernel)

theorem read_desk_patch : (desk text patchText).read "p" = .ok patchText :=
  read_of_find? (resolve_desk (.inr rfl)) rfl (by decide +kernel)

theorem write_desk_workflow (written : String) :
    ∃ after,
      storage.write (desk text patchText) "w" written = (.ok (), after) := by
  have hplace : (desk text patchText).isDirectory ["w"] = false := rfl
  have hpath : "w".endsWith "/" = false := by decide +kernel
  have hwrite : (desk text patchText).write "w" written =
      .ok ((desk text patchText).put ["w"] written.toUTF8) := by
    refine write_eq_ok_iff.2 ⟨["w"], resolve_desk (.inl rfl), ?_, rfl⟩
    rw [hplace, hpath]
    decide
  exact ⟨_, storage_write_eq_iff.2 (.inl ⟨hwrite, rfl⟩)⟩

/-- A node on its own. -/
def draft : Workflow where
  id := .ofNat 0
  name := "draft"
  nodes := [{ id := .ofNat 1, name := "open", step := .typeText {} }]

/-- Another node behind it, at a pixel with a fraction. -/
def draftPatch : Patch where
  addedNodes :=
    [{ id := .ofNat 2, name := "press"
       step := .click { x := some ⟨false, 6755399441055744, -52, by decide⟩ } }]
  addedEdges := [⟨.ofNat 1, .ofNat 2, none⟩]

/-- The patch is merged into the workflow in place, and then nothing is. -/
theorem run_merge_draft :
    Command.parse? ["merge", "w", "p", "-o", "w"] =
      some (.merge "w" "p" (some "w") 30) ∧
    Command.parse? ["merge", "w", "p", "--timeout=0", "--output=w"] =
      some (.merge "w" "p" (some "w") 0) ∧
    storage.Lawful ∧
    storage.Merges
      (desk draft.toText (Patch.codec.toText .compact draftPatch)) "w" "p"
      (some "w") draft draftPatch ∧
    storage.Delivers (some "w")
      (desk draft.toText (Patch.codec.toText .compact draftPatch))
      ((desk draft.toText (Patch.codec.toText .compact draftPatch)).run
        ["merge", "w", "p", "-o", "w"])
      (draft.candidate draftPatch).toText ∧
    Workflow.ofText (draft.candidate draftPatch).toText =
      .ok (draft.candidate draftPatch) ∧
    storage.Delivers (some "w")
      (desk (draft.candidate draftPatch).toText
        (Patch.codec.toText .compact {}))
      ((desk (draft.candidate draftPatch).toText
        (Patch.codec.toText .compact {})).run
        ["merge", "w", "p", "--timeout=0", "--output=w"])
      (draft.candidate draftPatch).toText := by
  have hworkflow : Workflow.codec.Regular 7 := Workflow.record_regular.codec
  have hpatch : Patch.codec.Regular 7 := Patch.record_regular.codec
  have hparse : Command.parse? ["merge", "w", "p", "-o", "w"] =
      some (.merge "w" "p" (some "w") 30) := by decide +kernel
  have hparse' :
      Command.parse? ["merge", "w", "p", "--timeout=0", "--output=w"] =
        some (.merge "w" "p" (some "w") 0) := by decide +kernel
  have hfloats :
      (Workflow.codec.write (draft.candidate draftPatch)).FloatsReadBack := by
    decide +kernel
  have hmerges : storage.Merges
      (desk draft.toText (Patch.codec.toText .compact draftPatch)) "w" "p"
      (some "w") draft draftPatch := by
    refine ⟨Storage.load_eq_ok_iff.2 ⟨_, read_desk_workflow, ?_⟩,
      Storage.load_eq_ok_iff.2 ⟨_, read_desk_patch, ?_⟩, by decide +kernel, ?_⟩
    · exact hworkflow.ofText_toText Layout.isBlank_pretty (by decide +kernel)
        (by decide +kernel)
    · exact hpatch.ofText_toText Layout.isBlank_compact (by decide +kernel)
        (by decide +kernel)
    · intro out hout
      obtain rfl := Option.some.inj hout
      exact write_desk_workflow _
  obtain ⟨-, -, hrun⟩ := Storage.run_merge hparse storage_lawful
    (desk draft.toText (Patch.codec.toText .compact draftPatch))
  obtain ⟨hdelivers, hagain⟩ := hrun draft draftPatch hmerges
  obtain ⟨hdecoded, -, hagain⟩ := hagain hfloats
  refine ⟨hparse, hparse', storage_lawful, hmerges, hdelivers, hdecoded, ?_⟩
  refine hagain _ _ "w" "p" (some "w") 0 {} hparse' rfl read_desk_workflow
    (Storage.load_eq_ok_iff.2 ⟨_, read_desk_patch, ?_⟩) rfl ?_
  · exact hpatch.ofText_toText Layout.isBlank_compact (by decide +kernel)
      (by decide +kernel)
  · intro out hout
    obtain rfl := Option.some.inj hout
    exact write_desk_workflow _

end Files

end Workbench
