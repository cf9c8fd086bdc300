import FontScaffold.Proofs.Chunk.Prune
import FontScaffold.Proofs.Merge.Result

set_option autoImplicit false

namespace FontScaffold

/-- A step of a run over a text: merging a new text into it, or pruning it by a probe. -/
inductive Revision where
  | merge (new : Text)
  | prune (probe : Text)
  deriving Repr, DecidableEq

namespace Revision

def apply (separator body : Text) : Revision → Text
  | .merge new => (FontScaffold.merge Matcher.standard separator body new).content
  | .prune probe => (FontScaffold.prune Matcher.standard separator body probe).content

def run (separator body : Text) (revisions : List Revision) : Text :=
  revisions.foldl (apply separator) body

def touches (separator chunk : Text) : Revision → Bool
  | .merge new =>
      (Chunk.split separator new).any fun other =>
        Matcher.standard.accepts separator other chunk
  | .prune probe => Matcher.standard.accepts separator probe chunk

end Revision

/-- The chunks of a text without their separators. -/
def bareChunks (separator body : Text) : List Text :=
  (Chunk.split separator body).map (Chunk.dropSeparator separator)

section Survival

variable {mark : CodePoint} {keeps : Text → Bool}

theorem accepts_bare {chunk : Text} (whole : Chunk.Whole [mark] chunk) (other : Text) :
    Matcher.standard.accepts [mark] other (Chunk.dropSeparator [mark] chunk) =
      Matcher.standard.accepts [mark] other chunk :=
  Matcher.accepts_congr rfl (Chunk.tokens_congr (Chunk.dropSeparator_bare whole))

theorem touches_bare {chunk : Text} (whole : Chunk.Whole [mark] chunk) (revision : Revision) :
    revision.touches [mark] (Chunk.dropSeparator [mark] chunk) =
      revision.touches [mark] chunk := by
  cases revision with
  | merge new => simp only [Revision.touches, accepts_bare whole]
  | prune probe => exact accepts_bare whole probe

theorem not_keeps_of_accepts {chunk other : Text} (whole : Chunk.Whole [mark] chunk)
    (refuses : ∀ text, keeps text → ¬Matcher.standard.accepts [mark] chunk text)
    (accepted : Matcher.standard.accepts [mark] chunk other) :
    ¬keeps (Chunk.dropSeparator [mark] chunk) := by
  intro kept
  have refused := refuses _ kept
  rw [accepts_bare whole] at refused
  exact refused (Matcher.accepts_self_of_accepts accepted)

theorem Merge.Paired.filter_update {olds : List Text} {free left : List NewChunk}
    {choices : List (Option NewChunk)}
    (paired : Paired Matcher.standard [mark] olds free choices left)
    (wholeOlds : ∀ chunk ∈ olds, Chunk.Whole [mark] chunk)
    (wholeFree : ∀ chunk ∈ free, Chunk.Whole [mark] chunk.text)
    (refuses : ∀ chunk ∈ free, ∀ text, keeps text →
      ¬Matcher.standard.accepts [mark] chunk.text text) :
    ((update olds choices).map (Chunk.dropSeparator [mark])).filter keeps =
      (olds.map (Chunk.dropSeparator [mark])).filter keeps := by
  induction paired with
  | nil free => rfl
  | @stay old olds free left choices _ _ ih =>
      have tail := ih (fun chunk member => wholeOlds chunk (List.mem_cons_of_mem old member))
        wholeFree refuses
      have head : update (old :: olds) (none :: choices) = old :: update olds choices := rfl
      simp only [head, List.map_cons, List.filter_cons, tail]
  | @giveWay old olds before after left new choices _ accepted _ ih =>
      have others : ∀ chunk ∈ before ++ after, chunk ∈ before ++ new :: after := by
        intro chunk member
        simp only [List.mem_append, List.mem_cons] at member ⊢
        exact member.imp_right Or.inr
      have tail := ih (fun chunk member => wholeOlds chunk (List.mem_cons_of_mem old member))
        (fun chunk member => wholeFree chunk (others chunk member))
        (fun chunk member => refuses chunk (others chunk member))
      have member : new ∈ before ++ new :: after := by simp
      have oldGone : ¬keeps (Chunk.dropSeparator [mark] old) := by
        intro kept
        have refused := refuses new member _ kept
        rw [accepts_bare (wholeOlds old List.mem_cons_self)] at refused
        exact refused accepted
      have newOther := not_keeps_of_accepts (wholeFree new member) (refuses new member) accepted
      have head : update (old :: olds) (some new :: choices) = new.text :: update olds choices :=
        rfl
      rw [head, List.map_cons, List.filter_cons_of_neg newOther, List.map_cons,
        List.filter_cons_of_neg oldGone, tail]

/-- Closing drops copies and completes chunks, so it keeps bare texts and their first
occurrences. -/
theorem eraseDups_filter_close {chunks : List Text}
    (whole : ∀ chunk ∈ chunks, Chunk.Whole [mark] chunk) :
    (((Chunk.close [mark] chunks).map (Chunk.dropSeparator [mark])).filter keeps).eraseDups =
      ((chunks.map (Chunk.dropSeparator [mark])).filter keeps).eraseDups := by
  have bare : (Chunk.completeInner [mark] chunks).map (Chunk.dropSeparator [mark]) =
      chunks.map (Chunk.dropSeparator [mark]) := by
    rcases List.eq_nil_or_concat' chunks with rfl | ⟨inner, last, rfl⟩
    · rfl
    · rw [Chunk.completeInner_append_singleton, List.map_append, List.map_append, List.map_map]
      congr 1
      apply List.map_congr_left
      intro chunk member
      exact Chunk.dropSeparator_complete (whole chunk (List.mem_append_left _ member))
  unfold Chunk.close
  rw [← FirstOccurrences.filter_eraseDups, ← FirstOccurrences.filter_eraseDups,
    FirstOccurrences.eraseDups_map_eraseDups, bare]

theorem filter_ending {last : Text} {ending : List Text} (visible : ∀ text, keeps text → text ≠ [])
    (atEnd : Chunk.Ending [mark] last ending) :
    (ending.map (Chunk.dropSeparator [mark])).filter keeps = [] := by
  cases atEnd with
  | isOpen _ => rfl
  | isClosed _ =>
      have empty : Chunk.dropSeparator [mark] [] = [] :=
        Chunk.dropSeparator_of_open (Chunk.open_nil (List.cons_ne_nil mark []))
      have other : ¬keeps [] := fun kept => visible [] kept rfl
      simp [empty, other]

/-- What a merge adds is none of the kept texts, as long as these are there. -/
theorem not_keeps_of_mem_additions {existing new : Text} {chunk : NewChunk}
    (visible : ∀ text, keeps text → text ≠ [])
    (present : ∀ text, keeps text → text ∈
      (Merge.updated Matcher.standard [mark] existing new).map (Chunk.dropSeparator [mark]))
    (member : chunk ∈ Merge.additions Matcher.standard [mark] existing new) :
    ¬keeps (Chunk.dropSeparator [mark] chunk.text) := by
  intro kept
  have nonempty : [mark] ≠ [] := List.cons_ne_nil mark []
  have fresh := (Merge.settle_added_spec member).2.1
  have wholeChunk := Merge.whole_of_mem_newChunks nonempty (Merge.additions_sublist.subset member)
  obtain ⟨old, there, same⟩ := List.mem_map.mp (present _ kept)
  have wholeOld : Chunk.Whole [mark] old := Merge.whole_of_mem_updated nonempty there
  have keys : Merge.key [mark] chunk = Chunk.complete [mark] old := by
    rw [Merge.key, Chunk.complete_mark wholeChunk, Chunk.complete_mark wholeOld, same]
  rcases List.eq_nil_or_concat' (Merge.updated Matcher.standard [mark] existing new) with
    empty | ⟨front, last, shape⟩
  · exact (Merge.updated_ne_nil empty).elim
  · rw [shape] at fresh there
    apply fresh
    apply Merge.mem_present
    rcases List.mem_append.mp there with inner | atEnd
    · exact Or.inl (keys ▸ List.mem_map_of_mem inner)
    · rw [List.mem_singleton] at atEnd
      subst atEnd
      refine Or.inr (Or.inr ⟨?_, keys⟩)
      intro same
      subst same
      apply visible _ kept
      rw [← same]
      exact Chunk.dropSeparator_of_open (Chunk.open_nil nonempty)

theorem filter_spliced {added : List NewChunk} {chunks : List Text}
    (others : ∀ chunk ∈ added, ¬keeps (Chunk.dropSeparator [mark] chunk.text)) :
    ((Merge.spliced added chunks).map (Chunk.dropSeparator [mark])).filter keeps =
      (chunks.map (Chunk.dropSeparator [mark])).filter keeps := by
  have none : ((added.map NewChunk.text).map (Chunk.dropSeparator [mark])).filter keeps = [] := by
    rw [List.filter_eq_nil_iff]
    intro text member
    rw [List.map_map] at member
    obtain ⟨chunk, inside, rfl⟩ := List.mem_map.mp member
    exact others chunk inside
  have cut := congrArg (fun parts => (parts.map (Chunk.dropSeparator [mark])).filter keeps)
    (List.take_append_drop (Chunk.lastVisible chunks) chunks)
  simp only [List.map_append, List.filter_append] at cut
  rw [Merge.spliced, List.map_append, List.map_append, List.filter_append, List.filter_append,
    none, List.append_nil, cut]

/-- Closed to a text and cut again, chunks keep their bare texts and first occurrences. -/
theorem filter_bareChunks_close {chunks : List Text} (visible : ∀ text, keeps text → text ≠ [])
    (whole : ∀ chunk ∈ chunks, Chunk.Whole [mark] chunk) :
    ((bareChunks [mark] (Chunk.close [mark] chunks).flatten).filter keeps).eraseDups =
      ((chunks.map (Chunk.dropSeparator [mark])).filter keeps).eraseDups := by
  have nonempty : [mark] ≠ [] := List.cons_ne_nil mark []
  rcases List.eq_nil_or_concat' chunks with rfl | ⟨inner, last, rfl⟩
  · have isOpen : Chunk.Open [mark] [] := Chunk.open_nil nonempty
    have other : ¬keeps [] := fun kept => visible [] kept rfl
    have closed : (Chunk.close [mark] []).flatten = [] := rfl
    rw [closed, bareChunks, Chunk.split_of_open isOpen]
    simp [Chunk.dropSeparator_of_open isOpen, other]
  · obtain ⟨ending, atEnd, cut⟩ := Chunk.split_close nonempty
      (fun chunk inside => whole chunk (List.mem_append_left _ inside))
      (whole last (List.mem_append_right _ List.mem_cons_self))
    rw [bareChunks, cut, List.map_append, List.filter_append, filter_ending visible atEnd,
      List.append_nil, eraseDups_filter_close whole]

theorem filter_bareChunks_merge {existing new : Text}
    (visible : ∀ text, keeps text → text ≠ [])
    (known : ∀ text, keeps text → text ∈ bareChunks [mark] existing)
    (untouched : ∀ text, keeps text → (Revision.merge new).touches [mark] text = false) :
    ((bareChunks [mark] ((Revision.merge new).apply [mark] existing)).filter keeps).eraseDups =
      ((bareChunks [mark] existing).filter keeps).eraseDups := by
  have nonempty : [mark] ≠ [] := List.cons_ne_nil mark []
  have refuses : ∀ chunk ∈ Merge.newChunks [mark] new, ∀ text, keeps text →
      ¬Matcher.standard.accepts [mark] chunk.text text := by
    intro chunk member text kept
    have none := untouched text kept
    rw [Revision.touches, List.any_eq_false] at none
    exact none chunk.text (Merge.text_mem_split member)
  have updatedSame : ((Merge.updated Matcher.standard [mark] existing new).map
      (Chunk.dropSeparator [mark])).filter keeps = (bareChunks [mark] existing).filter keeps :=
    (Merge.paired_pairing Matcher.standard [mark] existing new).filter_update
      (fun _ => (Chunk.cut_split nonempty existing).whole)
      (fun _ => Merge.whole_of_mem_newChunks nonempty) refuses
  have present : ∀ text, keeps text → text ∈
      (Merge.updated Matcher.standard [mark] existing new).map (Chunk.dropSeparator [mark]) := by
    intro text kept
    have member := List.mem_filter.mpr ⟨known text kept, kept⟩
    rw [← updatedSame] at member
    exact (List.mem_filter.mp member).1
  rw [Revision.apply, Merge.content_merge nonempty fun _ => Merge.apart_of_mem_additions,
    filter_bareChunks_close visible fun _ => Merge.whole_of_mem_spliced nonempty,
    filter_spliced fun _ => not_keeps_of_mem_additions visible present, updatedSame]

theorem filter_bareChunks_prune {existing probe : Text}
    (visible : ∀ text, keeps text → text ≠ [])
    (untouched : ∀ text, keeps text → (Revision.prune probe).touches [mark] text = false) :
    ((bareChunks [mark] ((Revision.prune probe).apply [mark] existing)).filter keeps).eraseDups =
      ((bareChunks [mark] existing).filter keeps).eraseDups := by
  have nonempty : [mark] ≠ [] := List.cons_ne_nil mark []
  have keptSame : (((Chunk.split [mark] existing).filter fun old =>
      !Matcher.standard.accepts [mark] probe old).map (Chunk.dropSeparator [mark])).filter keeps =
      (bareChunks [mark] existing).filter keeps := by
    rw [bareChunks, List.filter_map, List.filter_map, List.filter_filter]
    congr 1
    apply List.filter_congr
    intro old member
    by_cases kept : keeps (Chunk.dropSeparator [mark] old)
    · have refused := untouched _ kept
      rw [Revision.touches, accepts_bare ((Chunk.cut_split nonempty existing).whole member)]
        at refused
      simp [refused]
    · simp [kept]
  by_cases none : (FontScaffold.prune Matcher.standard [mark] existing probe).removed = []
  · rw [Revision.apply, content_prune_of_refused (removed_eq_nil_iff.mp none)]
  · rw [Revision.apply, content_prune_of_removed none, ← Chunk.close_of_sublist spared_sublist,
      filter_bareChunks_close visible, spared, keptSame]
    intro chunk member
    exact (Chunk.cut_split nonempty existing).whole (List.mem_of_mem_filter member)

/-- Along a run the kept texts have the same first occurrences. -/
theorem filter_bareChunks_run {body : Text} {revisions : List Revision}
    (visible : ∀ text, keeps text → text ≠ [])
    (known : ∀ text, keeps text → text ∈ bareChunks [mark] body)
    (untouched : ∀ text, keeps text → ∀ revision ∈ revisions,
      revision.touches [mark] text = false) :
    ((bareChunks [mark] (Revision.run [mark] body revisions)).filter keeps).eraseDups =
      ((bareChunks [mark] body).filter keeps).eraseDups := by
  induction revisions generalizing body with
  | nil => rfl
  | cons revision revisions ih =>
      have spared : ∀ text, keeps text → revision.touches [mark] text = false :=
        fun text kept => untouched text kept revision List.mem_cons_self
      have step : ((bareChunks [mark] (revision.apply [mark] body)).filter keeps).eraseDups =
          ((bareChunks [mark] body).filter keeps).eraseDups := by
        cases revision with
        | merge new => exact filter_bareChunks_merge visible known spared
        | prune probe => exact filter_bareChunks_prune visible spared
      have stillKnown : ∀ text, keeps text →
        text ∈ bareChunks [mark] (revision.apply [mark] body) := by
        intro text kept
        have member := List.mem_filter.mpr ⟨known text kept, kept⟩
        rw [← List.mem_eraseDups, ← step, List.mem_eraseDups] at member
        exact (List.mem_filter.mp member).1
      rw [Revision.run, List.foldl_cons, ← step]
      exact ih stillKnown fun text kept later member =>
        untouched text kept later (List.mem_cons_of_mem revision member)

/-- A chunk with a text of its own that no step of a run matches is there after the run, and two of
them with different texts first occur in the order in which they did before. -/
theorem untouched_chunks_survive (mark : CodePoint) (body : Text) (revisions : List Revision)
    {chunk : Text} (member : chunk ∈ Chunk.split [mark] body)
    (visible : Chunk.dropSeparator [mark] chunk ≠ [])
    (untouched : ∀ revision ∈ revisions, revision.touches [mark] chunk = false) :
    Chunk.dropSeparator [mark] chunk ∈ bareChunks [mark] (Revision.run [mark] body revisions) ∧
      ∀ other ∈ Chunk.split [mark] body, Chunk.dropSeparator [mark] other ≠ [] →
        (∀ revision ∈ revisions, revision.touches [mark] other = false) →
        ((bareChunks [mark] (Revision.run [mark] body revisions)).idxOf
              (Chunk.dropSeparator [mark] chunk) <
            (bareChunks [mark] (Revision.run [mark] body revisions)).idxOf
              (Chunk.dropSeparator [mark] other) ↔
          (bareChunks [mark] body).idxOf (Chunk.dropSeparator [mark] chunk) <
            (bareChunks [mark] body).idxOf (Chunk.dropSeparator [mark] other)) := by
  let keeps : Text → Bool := fun text =>
    text != [] && (bareChunks [mark] body).contains text &&
      revisions.all fun revision => !revision.touches [mark] text
  have holds : ∀ other ∈ Chunk.split [mark] body, Chunk.dropSeparator [mark] other ≠ [] →
      (∀ revision ∈ revisions, revision.touches [mark] other = false) →
      keeps (Chunk.dropSeparator [mark] other) := by
    intro other there some spared
    have whole := (Chunk.cut_split (List.cons_ne_nil mark []) body).whole there
    have known : Chunk.dropSeparator [mark] other ∈ bareChunks [mark] body :=
      List.mem_map_of_mem there
    simp only [keeps, Bool.and_eq_true, bne_iff_ne, List.contains_iff_mem, List.all_eq_true,
      Bool.not_eq_true']
    refine ⟨⟨some, known⟩, fun revision inside => ?_⟩
    rw [touches_bare whole]
    exact spared revision inside
  have same := @filter_bareChunks_run mark keeps body revisions
    (fun text kept => by simp only [keeps, Bool.and_eq_true, bne_iff_ne] at kept; exact kept.1.1)
    (fun text kept => by
      simp only [keeps, Bool.and_eq_true, List.contains_iff_mem] at kept
      exact kept.1.2)
    (fun text kept revision inside => by
      simp only [keeps, Bool.and_eq_true, List.all_eq_true, Bool.not_eq_true'] at kept
      exact kept.2 revision inside)
  have kept := holds chunk member visible untouched
  constructor
  · have there : Chunk.dropSeparator [mark] chunk ∈ (bareChunks [mark] body).filter keeps :=
      List.mem_filter.mpr ⟨List.mem_map_of_mem member, kept⟩
    rw [← List.mem_eraseDups, ← same, List.mem_eraseDups] at there
    exact (List.mem_filter.mp there).1
  · intro other there some spared
    have otherKept := holds other there some spared
    rw [← FirstOccurrences.idxOf_filter_lt_iff kept otherKept,
      ← FirstOccurrences.idxOf_eraseDups_lt_iff, same, FirstOccurrences.idxOf_eraseDups_lt_iff,
      FirstOccurrences.idxOf_filter_lt_iff kept otherKept]

/-- Two comments around a declaration that is replaced, joined by another one and pruned. -/
theorem comments_survive :
    (∀ revision ∈ [Revision.merge "export const A = 2\nexport const B = 3\n".text,
        .prune "export const A = 4".text],
      revision.touches [.char '\n'] "// first\n".text = false ∧
        revision.touches [.char '\n'] "// last".text = false) ∧
      Chunk.dropSeparator [.char '\n'] "// first\n".text ∈
        bareChunks [.char '\n'] (Revision.run [.char '\n']
        "// first\nexport const A = 1\n// last".text
          [.merge "export const A = 2\nexport const B = 3\n".text,
            .prune "export const A = 4".text]) ∧
      (bareChunks [.char '\n'] (Revision.run [.char '\n']
      "// first\nexport const A = 1\n// last".text
          [.merge "export const A = 2\nexport const B = 3\n".text,
            .prune "export const A = 4".text])).idxOf
            (Chunk.dropSeparator [.char '\n'] "// first\n".text) <
        (bareChunks [.char '\n'] (Revision.run [.char '\n']
        "// first\nexport const A = 1\n// last".text
          [.merge "export const A = 2\nexport const B = 3\n".text,
            .prune "export const A = 4".text])).idxOf
            (Chunk.dropSeparator [.char '\n'] "// last".text) := by
  have untouched : ∀ revision ∈ [Revision.merge "export const A = 2\nexport const B = 3\n".text,
        .prune "export const A = 4".text],
      revision.touches [.char '\n'] "// first\n".text = false ∧
        revision.touches [.char '\n'] "// last".text = false := by decide +kernel
  have survives := untouched_chunks_survive (.char '\n')
    "// first\nexport const A = 1\n// last".text _
    (show "// first\n".text ∈ _ by decide +kernel) (by decide +kernel)
    fun revision member => (untouched revision member).1
  refine ⟨untouched, survives.1, ?_⟩
  apply (survives.2 "// last".text (by decide +kernel) (by decide +kernel)
    fun revision member => (untouched revision member).2).mpr
  decide +kernel

end Survival

end FontScaffold
