import FontScaffold.Proofs.Chunk.Closing
import FontScaffold.Proofs.Chunk.Match

set_option autoImplicit false

namespace FontScaffold

/-- The chunks that a probe does not match. -/
def spared (matcher : Matcher) (separator existing probe : Text) : List Text :=
  (Chunk.split separator existing).filter fun old => !matcher.accepts separator probe old

/-- What a pruning takes out and what it leaves. -/
structure Sifted (matcher : Matcher) (separator existing probe : Text) : Prop where
  increasing :
    ((prune matcher separator existing probe).removed.map Prod.fst).Pairwise (· < ·)
  removed : ∀ index, index ∈ (prune matcher separator existing probe).removed.map Prod.fst ↔
    ∃ chunk, (Chunk.split separator existing)[index]? = some chunk ∧
      matcher.threshold < (matcher.score separator probe chunk).value
  whole : (prune matcher separator existing probe).removed = [] →
    (prune matcher separator existing probe).content = existing
  rest : (prune matcher separator existing probe).removed ≠ [] →
    (prune matcher separator existing probe).content =
      (spared matcher separator existing probe).eraseDups.flatten
  again : (prune matcher separator (prune matcher separator existing probe).content probe).content =
    (prune matcher separator existing probe).content

variable {matcher : Matcher} {separator existing probe : Text}

section Removed

theorem mem_removed_iff {index : Nat} {score : Score} :
    (index, score) ∈ (prune matcher separator existing probe).removed ↔
      ∃ chunk, (Chunk.split separator existing)[index]? = some chunk ∧
        matcher.accepts separator probe chunk ∧ matcher.score separator probe chunk = score := by
  simp only [prune, List.mem_filterMap]
  constructor
  · rintro ⟨⟨chunk, position⟩, member, found⟩
    by_cases accepted : matcher.accepts separator probe chunk
    · simp only [accepted, ↓reduceIte, Option.some.injEq, Prod.mk.injEq] at found
      obtain ⟨rfl, rfl⟩ := found
      exact ⟨chunk, List.mk_mem_zipIdx_iff_getElem?.mp member, accepted, rfl⟩
    · simp [accepted] at found
  · rintro ⟨chunk, there, accepted, rfl⟩
    refine ⟨(chunk, index), List.mk_mem_zipIdx_iff_getElem?.mpr there, ?_⟩
    simp [accepted]

theorem mem_positions_iff {index : Nat} :
    index ∈ (prune matcher separator existing probe).removed.map Prod.fst ↔
      ∃ chunk, (Chunk.split separator existing)[index]? = some chunk ∧
        matcher.accepts separator probe chunk := by
  rw [List.mem_map]
  constructor
  · rintro ⟨⟨position, score⟩, member, rfl⟩
    obtain ⟨chunk, there, accepted, _⟩ := mem_removed_iff.mp member
    exact ⟨chunk, there, accepted⟩
  · rintro ⟨chunk, there, accepted⟩
    exact ⟨(index, matcher.score separator probe chunk),
      mem_removed_iff.mpr ⟨chunk, there, accepted, rfl⟩, rfl⟩

theorem pairwise_positions :
    ((prune matcher separator existing probe).removed.map Prod.fst).Pairwise (· < ·) := by
  have ordered : (Chunk.split separator existing).zipIdx.Pairwise fun first second =>
      first.2 < second.2 := by
    rw [List.pairwise_iff_getElem]
    intro first second _ _ before
    simpa using before
  rw [List.pairwise_map]
  refine ordered.filterMap _ fun first second before found fromFirst later fromSecond => ?_
  split at fromFirst
  · split at fromSecond
    · cases fromFirst
      cases fromSecond
      exact before
    · cases fromSecond
  · cases fromFirst

theorem removed_eq_nil_iff :
    (prune matcher separator existing probe).removed = [] ↔
      ∀ chunk ∈ Chunk.split separator existing, ¬matcher.accepts separator probe chunk := by
  constructor
  · intro none chunk member accepted
    obtain ⟨index, there⟩ := List.mem_iff_getElem?.mp member
    have recorded := mem_removed_iff.mpr ⟨chunk, there, accepted, rfl⟩
    rw [none] at recorded
    cases recorded
  · intro refused
    rw [List.eq_nil_iff_forall_not_mem]
    rintro ⟨index, score⟩ recorded
    obtain ⟨chunk, there, accepted, _⟩ := mem_removed_iff.mp recorded
    exact refused chunk (List.mem_of_getElem? there) accepted

end Removed

section Content

theorem chunks_prune :
    (prune matcher separator existing probe).chunks =
      if (prune matcher separator existing probe).removed.isEmpty then
        spared matcher separator existing probe
      else Chunk.close separator (spared matcher separator existing probe) := rfl

theorem mem_spared_iff {chunk : Text} :
    chunk ∈ spared matcher separator existing probe ↔
      chunk ∈ Chunk.split separator existing ∧ ¬matcher.accepts separator probe chunk := by
  rw [spared, List.mem_filter, Bool.not_eq_true', Bool.not_eq_true]

theorem spared_sublist :
    (spared matcher separator existing probe).Sublist (Chunk.split separator existing) :=
  List.filter_sublist

theorem spared_of_refused
    (refused : ∀ chunk ∈ Chunk.split separator existing, ¬matcher.accepts separator probe chunk) :
    spared matcher separator existing probe = Chunk.split separator existing := by
  rw [spared, List.filter_eq_self]
  intro chunk member
  simpa using refused chunk member

theorem content_prune_of_refused
    (refused : ∀ chunk ∈ Chunk.split separator existing, ¬matcher.accepts separator probe chunk) :
    (prune matcher separator existing probe).content = existing := by
  have none := List.isEmpty_iff.mpr (removed_eq_nil_iff.mpr refused)
  rw [Pruning.content, chunks_prune, if_pos none, spared_of_refused refused, Chunk.flatten_split]

theorem content_prune_of_removed (some : (prune matcher separator existing probe).removed ≠ []) :
    (prune matcher separator existing probe).content =
      (spared matcher separator existing probe).eraseDups.flatten := by
  rw [Pruning.content, chunks_prune, if_neg (mt List.isEmpty_iff.mp some),
    Chunk.close_of_sublist spared_sublist]

theorem content_prune_of_nodup (distinct : (spared matcher separator existing probe).Nodup) :
    (prune matcher separator existing probe).content =
      (spared matcher separator existing probe).flatten := by
  by_cases none : (prune matcher separator existing probe).removed = []
  · have refused := removed_eq_nil_iff.mp none
    rw [content_prune_of_refused refused, spared_of_refused refused, Chunk.flatten_split]
  · rw [content_prune_of_removed none, FirstOccurrences.eraseDups_of_nodup distinct]

end Content

section Again

theorem flatten_filter_of_empty {chunks : List Text} {keeps : Text → Bool}
    (empty : ∀ chunk ∈ chunks, ¬keeps chunk → chunk = []) :
    (chunks.filter keeps).flatten = chunks.flatten := by
  induction chunks with
  | nil => rfl
  | cons chunk chunks ih =>
      have rest := ih fun other member => empty other (List.mem_cons_of_mem chunk member)
      by_cases kept : keeps chunk
      · rw [List.filter_cons_of_pos kept, List.flatten_cons, List.flatten_cons, rest]
      · rw [List.filter_cons_of_neg kept, rest, empty chunk List.mem_cons_self kept]
        rfl

/-- Cut again, a pruned text gives chunks that were spared, each once, and perhaps an empty one. -/
theorem split_content_prune (some : (prune matcher separator existing probe).removed ≠ []) :
    (Chunk.split separator (prune matcher separator existing probe).content).Nodup ∧
      ∀ chunk ∈ Chunk.split separator (prune matcher separator existing probe).content,
        chunk = [] ∨ chunk ∈ spared matcher separator existing probe := by
  have distinct := FirstOccurrences.nodup_eraseDups (spared matcher separator existing probe)
  have picked := (FirstOccurrences.eraseDups_sublist
    (spared matcher separator existing probe)).trans
    spared_sublist
  rw [content_prune_of_removed some]
  rcases Chunk.split_flatten_of_sublist picked with cut | ⟨visible, cut⟩
  · rw [cut]
    exact ⟨distinct, fun chunk member => Or.inr (List.mem_eraseDups.mp member)⟩
  · rw [cut]
    constructor
    · simpa using distinct.concat visible
    · intro chunk member
      rcases List.mem_append.mp member with kept | atEnd
      · exact Or.inr (List.mem_eraseDups.mp kept)
      · exact Or.inl (List.mem_singleton.mp atEnd)

theorem content_prune_again (matcher : Matcher) (separator existing probe : Text) :
    (prune matcher separator (prune matcher separator existing probe).content probe).content =
      (prune matcher separator existing probe).content := by
  by_cases none : (prune matcher separator existing probe).removed = []
  · have same := content_prune_of_refused (removed_eq_nil_iff.mp none)
    rw [same, same]
  · obtain ⟨distinct, source⟩ := split_content_prune none
    rw [content_prune_of_nodup (distinct.sublist spared_sublist), spared, flatten_filter_of_empty,
      Chunk.flatten_split]
    intro chunk member taken
    rcases source chunk member with empty | kept
    · exact empty
    · exact (taken (by simpa using (mem_spared_iff.mp kept).2)).elim

theorem refused_by_content_prune (separator existing probe : Text) :
    ∀ chunk ∈ Chunk.split separator (prune Matcher.standard separator existing probe).content,
      ¬Matcher.standard.accepts separator probe chunk := by
  by_cases none : (prune Matcher.standard separator existing probe).removed = []
  · have refused := removed_eq_nil_iff.mp none
    rw [content_prune_of_refused refused]
    exact refused
  · intro chunk member
    rcases (split_content_prune none).2 chunk member with rfl | kept
    · exact Matcher.not_accepts_nil separator probe
    · exact (mem_spared_iff.mp kept).2

theorem changed_prune_iff (separator existing probe : Text) :
    (prune Matcher.standard separator existing probe).changed ↔
      (prune Matcher.standard separator existing probe).removed ≠ [] := by
  rw [Pruning.changed, bne_iff_ne, not_iff_not]
  constructor
  · intro same
    have refused := refused_by_content_prune separator existing probe
    rw [show (prune Matcher.standard separator existing probe).content = existing from same]
      at refused
    exact removed_eq_nil_iff.mpr refused
  · exact fun none => content_prune_of_refused (removed_eq_nil_iff.mp none)

end Again

/-- What a pruning takes out and what it leaves, for any way to compare chunks; by similarity it
leaves nothing that the probe matches, and the text changes whenever something is taken out. -/
theorem prune_sifts (matcher : Matcher) (separator existing probe : Text) :
    Sifted matcher separator existing probe ∧
      (∀ chunk ∈ Chunk.split separator (prune Matcher.standard separator existing probe).content,
        ¬Matcher.standard.accepts separator probe chunk) ∧
      ((prune Matcher.standard separator existing probe).changed ↔
        (prune Matcher.standard separator existing probe).removed ≠ []) := by
  refine ⟨⟨pairwise_positions, ?_, ?_, content_prune_of_removed, ?_⟩, ?_, ?_⟩
  · intro index
    simp only [mem_positions_iff, Matcher.accepts, decide_eq_true_eq]
  · exact fun none => content_prune_of_refused (removed_eq_nil_iff.mp none)
  · exact content_prune_again matcher separator existing probe
  · exact refused_by_content_prune separator existing probe
  · exact changed_prune_iff separator existing probe

end FontScaffold
