import FontScaffold.Proofs.Chunk.Prune
import FontScaffold.Proofs.Merge.Result

set_option autoImplicit false

namespace FontScaffold.Merge

variable {matcher : Matcher} {separator existing new : Text}

section Unmatched

theorem Paired.update_of_refused {olds : List Text} {free left : List NewChunk}
    {choices : List (Option NewChunk)} (paired : Paired matcher separator olds free choices left)
    (refused : ∀ old ∈ olds, ∀ new ∈ free, ¬matcher.accepts separator new.text old) :
    update olds choices = olds := by
  induction paired with
  | nil free => rfl
  | stay _ _ ih =>
      have rest := ih fun old member => refused old (List.mem_cons_of_mem _ member)
      exact congrArg (_ :: ·) rest
  | giveWay _ accepted _ _ =>
      exact (refused _ List.mem_cons_self _ (by simp) accepted).elim

theorem updated_of_refused
    (refused : ∀ old ∈ Chunk.split separator existing, ∀ chunk ∈ Chunk.split separator new,
      ¬matcher.accepts separator chunk old) :
    updated matcher separator existing new = Chunk.split separator existing :=
  (paired_pairing matcher separator existing new).update_of_refused fun old member chunk fresh =>
    refused old member chunk.text (text_mem_split fresh)

end Unmatched

section Single

variable (nonempty : separator ≠ []) (isOpen : Chunk.Open separator new)

include isOpen

theorem length_additions_le_one : (additions matcher separator existing new).length ≤ 1 := by
  have few := (@additions_sublist matcher separator existing new).length_le
  rwa [newChunks, List.length_mapIdx, Chunk.split_of_open isOpen] at few

theorem key_of_mem_additions {chunk : NewChunk}
    (added : chunk ∈ additions matcher separator existing new) :
    key separator chunk = Chunk.complete separator new := by
  have member := text_mem_split (additions_sublist.subset added)
  rw [Chunk.split_of_open isOpen, List.mem_singleton] at member
  rw [key, member]

include nonempty

/-- Cut again, the merged text gives the old chunks, with the new one among them if it was added. -/
theorem split_content_merge_of_refused
    (refused : ∀ old ∈ Chunk.split separator existing, ¬matcher.accepts separator new old) :
    ∃ position, Chunk.split separator (merge matcher separator existing new).content =
      ((Chunk.split separator existing).take position ++
        (additions matcher separator existing new).map (key separator) ++
        (Chunk.split separator existing).drop position).eraseDups := by
  have stays : updated matcher separator existing new = Chunk.split separator existing := by
    apply updated_of_refused
    intro old member chunk fresh
    rw [Chunk.split_of_open isOpen, List.mem_singleton] at fresh
    rw [fresh]
    exact refused old member
  obtain ⟨last, ending, atEnd, isEnding, cut⟩ :=
    @split_close_spliced matcher separator existing new nonempty
  rw [← (content_merge_iff nonempty).mpr
    (closesEach_of_length_le_one (length_additions_le_one isOpen))] at cut
  have none : ending = [] := by
    obtain ⟨inner, final, shape, _, finalOpen⟩ := (Chunk.cut_split nonempty existing).eq_append
    rw [stays, shape, List.getLast?_concat, Option.some.injEq] at atEnd
    cases isEnding with
    | isOpen _ => rfl
    | isClosed closed => exact (closed.not_open (atEnd ▸ finalOpen)).elim
  rw [none, List.append_nil, Chunk.close, completeInner_spliced _ updated_ne_nil, stays,
    Chunk.completeInner_split] at cut
  exact ⟨_, cut⟩

end Single

/-- The completed chunk has the tokens of the chunk itself. -/
theorem accepts_complete_of_fresh (absent : ¬separator <:+: new)
    (fresh : ∀ size < separator.length, 0 < size → ¬separator.take size <:+ new)
    (own : Matcher.standard.accepts separator new new) :
    Matcher.standard.accepts separator new (Chunk.complete separator new) := by
  have isOpen : Chunk.Open separator new := Text.breakOn_eq_none_iff.mpr absent
  have lacks : Chunk.complete separator new = new ++ separator := by
    apply Chunk.complete_of_fresh
    intro size within some ends
    rcases Nat.lt_or_eq_of_le within with part | rfl
    · exact fresh size part some ends
    · rw [List.take_length] at ends
      exact absent ends.isInfix
  have same : Chunk.tokens separator (Chunk.complete separator new) =
      Chunk.tokens separator new := by
    apply Chunk.tokens_congr
    rw [lacks, Chunk.dropSeparator_append, Chunk.dropSeparator_of_open isOpen]
  rwa [Matcher.accepts_congr rfl same]

/-- Pruning by a text without separators that was merged before gives the old text back, as far as
it has no repeated chunks. -/
theorem prune_merged {separator new : Text} (existing : Text) (nonempty : separator ≠ [])
    (absent : ¬separator <:+: new)
    (fresh : ∀ size < separator.length, 0 < size → ¬separator.take size <:+ new)
    (own : Matcher.standard.accepts separator new new)
    (others : ∀ chunk ∈ Chunk.split separator existing,
      ¬Matcher.standard.accepts separator new chunk) :
    let merged := (merge Matcher.standard separator existing new).content
    let pruned := (prune Matcher.standard separator merged new).content
    pruned = (Chunk.split separator existing).eraseDups.flatten ∧
      ((Chunk.split separator existing).Nodup → pruned = existing) := by
  intro merged pruned
  have isOpen : Chunk.Open separator new := Text.breakOn_eq_none_iff.mpr absent
  obtain ⟨position, cut⟩ := split_content_merge_of_refused nonempty isOpen others
  have left : spared Matcher.standard separator merged new =
      (Chunk.split separator existing).eraseDups := by
    have gone : ((additions Matcher.standard separator existing new).map (key separator)).filter
        (fun chunk => !Matcher.standard.accepts separator new chunk) = [] := by
      rw [List.filter_eq_nil_iff]
      intro chunk member
      obtain ⟨added, there, rfl⟩ := List.mem_map.mp member
      rw [key_of_mem_additions isOpen there, accepts_complete_of_fresh absent fresh own]
      exact Bool.false_ne_true
    have stay : (Chunk.split separator existing).filter
        (fun chunk => !Matcher.standard.accepts separator new chunk) =
          Chunk.split separator existing := spared_of_refused others
    rw [spared, show Chunk.split separator merged = _ from cut, FirstOccurrences.filter_eraseDups,
      List.filter_append, List.filter_append, gone, List.append_nil, ← List.filter_append,
      List.take_append_drop, stay]
  have restored : pruned = (Chunk.split separator existing).eraseDups.flatten := by
    rw [← left]
    apply content_prune_of_nodup
    rw [left]
    exact FirstOccurrences.nodup_eraseDups _
  exact ⟨restored, fun distinct => by
    rw [restored, FirstOccurrences.eraseDups_of_nodup distinct, Chunk.flatten_split]⟩

/-- A declaration goes in before the last visible chunk, a blank end behind it, and out again. -/
theorem declaration_unmerged :
    let existing := "// fonts\n\nexport default \x7b\n\x7d\n\n\n".text
    let new := "export const A = localfont(1)".text
    let merged := (merge Matcher.standard "\n\n".text existing new).content
    "\n\n".text ≠ [] ∧ ¬"\n\n".text <:+: new ∧
      (∀ size < "\n\n".text.length, 0 < size → ¬"\n\n".text.take size <:+ new) ∧
      Matcher.standard.accepts "\n\n".text new new ∧
      (∀ chunk ∈ Chunk.split "\n\n".text existing,
        ¬Matcher.standard.accepts "\n\n".text new chunk) ∧
      merged ≠ existing ∧ (prune Matcher.standard "\n\n".text merged new).content = existing := by
  intro existing new merged
  have nonempty : "\n\n".text ≠ [] := by decide
  have absent : ¬"\n\n".text <:+: new := by decide +kernel
  have fresh : ∀ size < "\n\n".text.length, 0 < size → ¬"\n\n".text.take size <:+ new := by
    decide +kernel
  have own : Matcher.standard.accepts "\n\n".text new new := by decide +kernel
  have others : ∀ chunk ∈ Chunk.split "\n\n".text existing,
      ¬Matcher.standard.accepts "\n\n".text new chunk := by decide +kernel
  refine ⟨nonempty, absent, fresh, own, others, by decide +kernel, ?_⟩
  exact (prune_merged existing nonempty absent fresh own others).2 (by decide +kernel)

end FontScaffold.Merge
