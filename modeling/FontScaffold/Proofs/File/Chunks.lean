import FontScaffold.Proofs.Chunk.Prune
import FontScaffold.Proofs.File.AllOrNothing

set_option autoImplicit false

namespace FontScaffold.File

open Edit

variable {settings : Settings} {before after : Workspace} {separator path text content probe : Text}

theorem tellReport_eq_ok {report : Report} {result : Unit} :
    tellReport report before = .ok result after ↔
      report.overflow = none ∧ after = { before with log := before.log ++ report.log } := by
  unfold tellReport
  rw [Edit.bind_eq_ok]
  constructor
  · rintro ⟨_, middle, told, done⟩
    have same := tell_eq_ok.mp told
    cases fine : report.overflow with
    | some overflow =>
        rw [fine] at done
        cases done
    | none =>
        rw [fine] at done
        obtain ⟨_, rfl⟩ := pure_eq_ok.mp done
        exact ⟨rfl, same⟩
  · rintro ⟨fine, same⟩
    refine ⟨(), after, tell_eq_ok.mpr same, ?_⟩
    rw [fine]
    rfl

theorem quiet_tellReport {report : Report} {result : Unit}
    (done : tellReport report before = .ok result after) : Quiet before after := by
  rw [(tellReport_eq_ok.mp done).2]
  exact ⟨rfl, rfl⟩

theorem quiet_of_tellReport_error {report : Report} {fault : Fault}
    (failed : tellReport report before = .error fault after) : Quiet before after := by
  unfold tellReport at failed
  rw [Edit.bind_eq_error] at failed
  rcases failed with told | ⟨_, middle, told, failed⟩
  · cases told
  have quiet := quiet_tell told
  cases ended : report.overflow with
  | none =>
      rw [ended] at failed
      cases failed
  | some overflow =>
      rw [ended] at failed
      cases failed
      exact quiet

/-- A file that is written if it changes, for a merge as well as for a pruning. -/
structure Rewritten (settings : Settings) (before after : Workspace) (path text final : Text) :
    Prop where
  first : Holds settings before.tree path text
  last : Holds settings after.tree path final
  only : OnlyAt settings path before.tree after.tree
  config : after.config = before.config

theorem Rewritten.quiet {middle : Workspace} {final : Text}
    (done : Rewritten settings before middle path text final) (silent : Quiet middle after) :
    Rewritten settings before after path text final := by
  obtain ⟨tree, config⟩ := silent
  exact ⟨done.first, tree ▸ done.last, tree ▸ done.only, config.trans done.config⟩

theorem Rewritten.of_quiet {middle : Workspace} {final : Text} (silent : Quiet before middle)
    (done : Rewritten settings middle after path text final) :
    Rewritten settings before after path text final := by
  obtain ⟨tree, config⟩ := silent
  exact ⟨tree ▸ done.first, done.last, tree ▸ done.only, done.config.trans config⟩

theorem Rewritten.trans {middle : Workspace} {final : Text}
    (done : Rewritten settings before middle path text content)
    (more : Rewritten settings middle after path content final) :
    Rewritten settings before after path text final :=
  ⟨done.first, more.last, done.only.trans more.only, more.config.trans done.config⟩

theorem rewritten_of_holds (holds : Holds settings before.tree path text) :
    Rewritten settings before before path text text :=
  ⟨holds, holds, Or.inl rfl, rfl⟩

theorem rewritten_of_installed (holds : Holds settings before.tree path text)
    (done : Tree.Installed before.tree after.tree settings.workingDirectory path content ∧
      after.config = before.config) :
    Rewritten settings before after path text content := by
  have last := holds_of_installed done.1
  obtain ⟨⟨bytes, _, replaced⟩, config⟩ := done
  exact ⟨holds, last, Or.inr ⟨bytes, replaced⟩, config⟩

theorem changed_merge {matcher : Matcher} :
    (merge matcher separator text content).changed = false ↔
      (merge matcher separator text content).content = text := by
  rw [Merge.changed, bne_eq_false_iff_eq]
  exact Iff.rfl

theorem changed_prune {matcher : Matcher} :
    (prune matcher separator text probe).changed = false ↔
      (prune matcher separator text probe).content = text := by
  rw [Pruning.changed, bne_eq_false_iff_eq]
  exact Iff.rfl

/-- The file is written only if its text has changed, so it ends up with the final text in any
case. -/
theorem rewritten_reported {report : Report} {changed result : Bool}
    {final operation message : Text}
    {others : Edit Bool} (holds : Holds settings before.tree path text)
    (same : changed = false → final = text)
    (silent : ∀ before, ∃ after, others before = .ok false after ∧ Quiet before after)
    (done : (do
      tellReport report
      if changed then
        File.write settings path final operation
        info message
        return true
      else others : Edit Bool) before = .ok result after) :
    Rewritten settings before after path text final := by
  rw [Edit.bind_eq_ok] at done
  obtain ⟨_, told, reported, done⟩ := done
  have quiet := quiet_tellReport reported
  rw [← quiet.tree] at holds
  refine Rewritten.of_quiet quiet ?_
  cases changed with
  | true => exact rewritten_of_installed holds (installed_of_write_info done)
  | false =>
      obtain ⟨_, left, unchanged⟩ := silent told
      rw [if_neg Bool.false_ne_true, left] at done
      cases done
      rw [same rfl]
      exact (rewritten_of_holds holds).quiet unchanged

theorem rewritten_mergeChunks {matcher : Matcher} {changed : Bool}
    (done : mergeChunks settings matcher separator path content before = .ok changed after) :
    ∃ text, Rewritten settings before after path text
      (merge matcher separator text content).content := by
  unfold mergeChunks at done
  rw [Edit.bind_eq_ok] at done
  obtain ⟨text, _, got, done⟩ := done
  obtain ⟨holds, rfl⟩ := read_eq_ok.mp got
  refine ⟨text, rewritten_reported holds changed_merge.mp ?_ done⟩
  exact fun _ => ⟨_, rfl, ⟨rfl, rfl⟩⟩

theorem rewritten_pruneChunks {matcher : Matcher} {changed : Bool}
    (done : pruneChunks settings matcher separator path probe before = .ok changed after) :
    ∃ text, Rewritten settings before after path text
      (prune matcher separator text probe).content := by
  unfold pruneChunks at done
  rw [Edit.bind_eq_ok] at done
  obtain ⟨text, _, got, done⟩ := done
  obtain ⟨holds, rfl⟩ := read_eq_ok.mp got
  refine ⟨text, rewritten_reported holds changed_prune.mp ?_ done⟩
  exact fun _ => ⟨_, rfl, ⟨rfl, rfl⟩⟩

/-- A text that is reported on, and written if it has changed. -/
theorem allOrNothing_reported {report : Report} {changed : Bool} {final operation message : Text}
    {others : Edit Bool}
    (silent : ∀ before, ∃ after, others before = .ok false after ∧ Quiet before after) :
    AllOrNothing settings path (fun written => written) (fun _ text => text = final) (do
      tellReport report
      if changed then
        File.write settings path final operation
        info message
        return true
      else others) := by
  have written : AllOrNothing settings path (fun written => written) (fun _ text => text = final)
      (do
        File.write settings path final operation
        info message
        return true) :=
    (allOrNothing_write final operation).followed fun _ _ => ⟨true, _, rfl, rfl, ⟨rfl, rfl⟩⟩
  have left : AllOrNothing settings path (fun written => written) (fun _ text => text = final)
      others := by
    refine .of_quiet fun before => ?_
    obtain ⟨after, done, quiet⟩ := silent before
    exact ⟨false, after, done, rfl, quiet⟩
  have whole : AllOrNothing settings path (fun written => written)
      (fun _ text => ∃ _ : Unit, True ∧ text = final)
      (tellReport report >>= fun _ => if changed then
        File.write settings path final operation >>= fun _ => info message >>= fun _ => pure true
      else others) := by
    refine .after_quiet (fun _ _ _ => quiet_of_tellReport_error)
      (fun _ _ _ done => ⟨quiet_tellReport done, trivial⟩) fun _ => ?_
    cases changed with
    | true => exact written
    | false => exact left
  exact whole.mono fun _ _ ⟨_, _, same⟩ => same

theorem allOrNothing_mergeChunks (matcher : Matcher) :
    AllOrNothing settings path (fun changed => changed)
      (fun tree final => ∃ text, Holds settings tree path text ∧
        final = (merge matcher separator text content).content)
      (mergeChunks settings matcher separator path content) :=
  .after_read fun _ => allOrNothing_reported fun _ => ⟨_, rfl, ⟨rfl, rfl⟩⟩

theorem allOrNothing_pruneChunks (matcher : Matcher) :
    AllOrNothing settings path (fun changed => changed)
      (fun tree final => ∃ text, Holds settings tree path text ∧
        final = (prune matcher separator text probe).content)
      (pruneChunks settings matcher separator path probe) :=
  .after_read fun _ => allOrNothing_reported fun _ => ⟨_, rfl, ⟨rfl, rfl⟩⟩

/-- Where a merge by similarity changes nothing, it ends well and the tree stays as it is. -/
theorem mergeChunks_of_content_eq (holds : Holds settings before.tree path text)
    (same : (merge Matcher.standard separator text content).content = text) :
    ∃ after, mergeChunks settings Matcher.standard separator path content before =
        .ok false after ∧ after.tree = before.tree ∧ after.config = before.config := by
  have told := (@tellReport_eq_ok before _ _ ()).mpr
    ⟨Merge.overflow_report separator text content, rfl⟩
  refine ⟨{ before with
    log := before.log ++ (merge Matcher.standard separator text content).report.log ++
      [⟨.debug, "[ChunkReconciler] ".text ++ path ++ " already up to date".text⟩] }, ?_, rfl, rfl⟩
  unfold mergeChunks
  rw [Edit.bind_eq_ok]
  refine ⟨text, before, read_eq_ok.mpr ⟨holds, rfl⟩, ?_⟩
  rw [Edit.bind_eq_ok]
  refine ⟨(), _, told, ?_⟩
  rw [changed_merge.mpr same]
  rfl

/-- A pruning reports a change exactly if the text that the file held is changed. -/
theorem changed_of_pruneChunks {matcher : Matcher} {changed : Bool}
    (holds : Holds settings before.tree path text)
    (done : pruneChunks settings matcher separator path probe before = .ok changed after) :
    changed = (prune matcher separator text probe).changed := by
  unfold pruneChunks at done
  rw [Edit.bind_eq_ok] at done
  obtain ⟨_, _, got, done⟩ := done
  obtain ⟨read, rfl⟩ := read_eq_ok.mp got
  obtain rfl := holds.unique read
  rw [Edit.bind_eq_ok] at done
  obtain ⟨_, told, _, done⟩ := done
  split at done
  · next some =>
    rw [Edit.bind_eq_ok] at done
    obtain ⟨_, _, _, done⟩ := done
    rw [Edit.bind_eq_ok] at done
    obtain ⟨_, _, _, done⟩ := done
    rw [some, (pure_eq_ok.mp done).1]
  · next none =>
    rw [Bool.eq_false_iff.mpr none, (pure_eq_ok.mp done).1]

theorem pruneChunks_of_refused {matcher : Matcher} (holds : Holds settings before.tree path text)
    (refused : ∀ chunk ∈ Chunk.split separator text, ¬matcher.accepts separator probe chunk) :
    pruneChunks settings matcher separator path probe before = .ok false before := by
  have none := removed_eq_nil_iff.mpr refused
  have told : tellReport (prune matcher separator text probe).report before = .ok () before := by
    rw [Pruning.report, none]
    exact tellReport_eq_ok.mpr ⟨rfl, by rw [Report.ofScores, List.append_nil]⟩
  unfold pruneChunks
  rw [Edit.bind_eq_ok]
  refine ⟨text, before, read_eq_ok.mpr ⟨holds, rfl⟩, ?_⟩
  rw [Edit.bind_eq_ok]
  refine ⟨(), before, told, ?_⟩
  rw [changed_prune.mpr (content_prune_of_refused refused)]
  rfl

end FontScaffold.File
