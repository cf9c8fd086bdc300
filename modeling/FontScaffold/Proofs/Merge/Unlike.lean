import FontScaffold.Proofs.Merge.Settled
import Mathlib.Data.List.Nodup

set_option autoImplicit false

namespace FontScaffold.Merge

variable {matcher : Matcher} {separator : Text}

/-- `new` matches all that completes to what it completes to itself. -/
def MatchesCopies (matcher : Matcher) (separator new : Text) : Prop :=
  ∀ copy, Chunk.complete separator copy = Chunk.complete separator new →
    matcher.accepts separator new copy

/-- `new` matches nothing that completes to what `other` completes to. -/
def IgnoresCopies (matcher : Matcher) (separator new other : Text) : Prop :=
  ∀ copy, Chunk.complete separator copy = Chunk.complete separator other →
    ¬matcher.accepts separator new copy

/-- Visible chunks, each of which matches its own copies and those of no other. -/
structure Unlike (matcher : Matcher) (separator : Text) (news : List NewChunk) : Prop where
  visible : ∀ new ∈ news, new.text ≠ []
  own : ∀ new ∈ news, MatchesCopies matcher separator new.text
  others : ∀ new ∈ news, ∀ other ∈ news, new ≠ other →
    IgnoresCopies matcher separator new.text other.text

theorem Unlike.eq_of_key_eq {news : List NewChunk} (unlike : Unlike matcher separator news)
    {new other : NewChunk} (member : new ∈ news) (another : other ∈ news)
    (same : key separator other = key separator new) : new = other := by
  by_contra different
  exact unlike.others new member other another different _ rfl
    (unlike.own new member _ same)

theorem Unlike.nodup_map_key {news : List NewChunk} (unlike : Unlike matcher separator news)
    (distinct : news.Nodup) : (news.map (key separator)).Nodup := by
  apply List.Nodup.map_on _ distinct
  intro new member other another same
  exact unlike.eq_of_key_eq member another same.symm

/-- What may stand in front of a new chunk: an old chunk that it does not match, complete already,
or another of the new ones. -/
def Harmless (matcher : Matcher) (separator : Text) (news : List NewChunk) (new : NewChunk)
    (chunk : Text) : Prop :=
  Chunk.complete separator chunk = chunk ∧ ¬matcher.accepts separator new.text chunk ∨
    ∃ other ∈ news, other ≠ new ∧ chunk = other.text

section Pairing

variable {olds : List Text} {free left : List NewChunk} {choices : List (Option NewChunk)}

/-- Only harmless chunks stand in front of a new chunk that was taken. -/
theorem Paired.before_taken (paired : Paired matcher separator olds free choices left)
    (inner : Chunk.completeInner separator olds = olds) (distinct : free.Nodup)
    {new : NewChunk} (taken : some new ∈ choices) :
    ∃ before after, update olds choices = before ++ new.text :: after ∧
      ∀ chunk ∈ before, Harmless matcher separator free new chunk := by
  induction paired with
  | nil free => cases taken
  | @stay old olds free left choices refused later ih =>
      have rest : some new ∈ choices := by simpa using taken
      have some : olds ≠ [] := by
        intro same
        subst same
        have length := later.length_eq
        rw [List.eq_nil_of_length_eq_zero length] at rest
        cases rest
      obtain ⟨before, after, shape, harmless⟩ := ih (Chunk.completeInner_tail inner) distinct rest
      refine ⟨old :: before, after, congrArg (old :: ·) shape, ?_⟩
      intro chunk member
      rcases List.mem_cons.mp member with rfl | member
      · exact Or.inl ⟨Chunk.complete_head inner some, refused new (later.mem_free rest)⟩
      · exact harmless chunk member
  | @giveWay old olds before after left first choices refused accepted later ih =>
      by_cases same : new = first
      · subst same
        exact ⟨[], update olds choices, rfl, by simp⟩
      · have rest : some new ∈ choices := by
          rcases List.mem_cons.mp taken with again | rest
          · exact (same (Option.some.inj again)).elim
          · exact rest
        have fewer : (before ++ after).Sublist (before ++ first :: after) :=
          List.Sublist.append_left (List.sublist_cons_self first after) before
        obtain ⟨front, back, shape, harmless⟩ :=
          ih (Chunk.completeInner_tail inner) (distinct.sublist fewer) rest
        refine ⟨first.text :: front, back, congrArg (first.text :: ·) shape, ?_⟩
        intro chunk member
        rcases List.mem_cons.mp member with rfl | member
        · exact Or.inr ⟨first, by simp, fun again => same again.symm, rfl⟩
        · rcases harmless chunk member with old | ⟨other, inside, apart, rfl⟩
          · exact Or.inl old
          · exact Or.inr ⟨other, fewer.subset inside, apart, rfl⟩

/-- A new chunk that is left matches no chunk that stayed. -/
theorem Paired.refused_of_left (paired : Paired matcher separator olds free choices left)
    {new : NewChunk} (unused : new ∈ left) {chunk : Text} (member : chunk ∈ update olds choices) :
    (chunk ∈ olds ∧ ¬matcher.accepts separator new.text chunk) ∨
      ∃ other, some other ∈ choices ∧ chunk = other.text := by
  induction paired with
  | nil free => cases member
  | stay refused later ih =>
      rcases List.mem_cons.mp member with rfl | member
      · exact Or.inl ⟨List.mem_cons_self, refused new (later.left_sublist.subset unused)⟩
      · rcases ih unused member with ⟨old, apart⟩ | ⟨other, taken, same⟩
        · exact Or.inl ⟨List.mem_cons_of_mem _ old, apart⟩
        · exact Or.inr ⟨other, List.mem_cons_of_mem _ taken, same⟩
  | @giveWay _ _ _ _ _ first _ _ _ _ ih =>
      rcases List.mem_cons.mp member with rfl | member
      · exact Or.inr ⟨first, List.mem_cons_self, rfl⟩
      · rcases ih unused member with ⟨old, apart⟩ | ⟨other, taken, same⟩
        · exact Or.inl ⟨List.mem_cons_of_mem _ old, apart⟩
        · exact Or.inr ⟨other, List.mem_cons_of_mem _ taken, same⟩

/-- Only harmless chunks stand in the update, its last apart, for a new chunk that is left. -/
theorem Paired.harmless_of_left (paired : Paired matcher separator olds free choices left)
    (inner : Chunk.completeInner separator olds = olds) {new : NewChunk} (unused : new ∈ left)
    (apart : some new ∉ choices) :
    ∀ chunk ∈ (update olds choices).dropLast, Harmless matcher separator free new chunk := by
  induction paired with
  | nil free =>
      intro chunk member
      cases member
  | @stay old olds free left choices refused later ih =>
      intro chunk member
      have head : update (old :: olds) (none :: choices) = old :: update olds choices := rfl
      have shape := later.length_update
      rw [head] at member
      cases rest : update olds choices with
      | nil => simp [rest] at member
      | cons next more =>
          have some : olds ≠ [] := by
            intro same
            subst same
            simp [rest] at shape
          rw [rest, List.dropLast_cons_cons, List.mem_cons] at member
          rcases member with rfl | member
          · exact Or.inl ⟨Chunk.complete_head inner some,
              refused new (later.left_sublist.subset unused)⟩
          · rw [← rest] at member
            exact ih (Chunk.completeInner_tail inner) unused (by simpa using apart) chunk member
  | @giveWay old olds before after left first choices refused accepted later ih =>
      intro chunk member
      rw [List.mem_cons, not_or] at apart
      have head : update (old :: olds) (some first :: choices) =
          first.text :: update olds choices := rfl
      rw [head] at member
      cases rest : update olds choices with
      | nil => simp [rest] at member
      | cons next more =>
          rw [rest, List.dropLast_cons_cons, List.mem_cons] at member
          rcases member with rfl | member
          · refine Or.inr ⟨first, by simp, ?_, rfl⟩
            intro same
            subst same
            exact apart.1 rfl
          · rw [← rest] at member
            rcases ih (Chunk.completeInner_tail inner) unused apart.2 chunk member with
              old | ⟨other, inside, different, rfl⟩
            · exact Or.inl old
            · refine Or.inr ⟨other, ?_, different, rfl⟩
              simp only [List.mem_append, List.mem_cons] at inside ⊢
              exact inside.imp_right Or.inr

/-- An old chunk that no new one matches stays where it is. -/
theorem Paired.update_append (paired : Paired matcher separator olds free choices left)
    {before after : List Text} {chunk : Text} (shape : olds = before ++ chunk :: after)
    (refused : ∀ new ∈ free, ¬matcher.accepts separator new.text chunk) :
    ∃ front back, update olds choices = front ++ chunk :: back ∧
      back.length = after.length ∧
      ∀ other ∈ front, other ∈ before ∨ ∃ new ∈ free, other = new.text := by
  induction paired generalizing before with
  | nil free => cases before <;> cases shape
  | @stay old olds free left choices _ later ih =>
      cases before with
      | nil =>
          simp only [List.nil_append, List.cons.injEq] at shape
          obtain ⟨rfl, rfl⟩ := shape
          exact ⟨[], update olds choices, rfl, later.length_update, by simp⟩
      | cons head before =>
          simp only [List.cons_append, List.cons.injEq] at shape
          obtain ⟨rfl, rfl⟩ := shape
          obtain ⟨front, back, same, length, inside⟩ := ih rfl refused
          refine ⟨old :: front, back, congrArg (old :: ·) same, length, ?_⟩
          intro other member
          rcases List.mem_cons.mp member with rfl | member
          · exact Or.inl List.mem_cons_self
          · exact (inside other member).imp_left (List.mem_cons_of_mem old)
  | @giveWay old olds front back left first choices _ accepted later ih =>
      cases before with
      | nil =>
          simp only [List.nil_append, List.cons.injEq] at shape
          obtain ⟨rfl, rfl⟩ := shape
          exact (refused first (by simp) accepted).elim
      | cons head before =>
          simp only [List.cons_append, List.cons.injEq] at shape
          obtain ⟨rfl, rfl⟩ := shape
          have fewer : ∀ new ∈ front ++ back, new ∈ front ++ first :: back := by
            intro new member
            simp only [List.mem_append, List.mem_cons] at member ⊢
            exact member.imp_right Or.inr
          obtain ⟨start, rest, same, length, inside⟩ :=
            ih rfl fun new member => refused new (fewer new member)
          refine ⟨first.text :: start, rest, congrArg (first.text :: ·) same, length, ?_⟩
          intro other member
          rcases List.mem_cons.mp member with rfl | member
          · exact Or.inr ⟨first, by simp, rfl⟩
          · rcases inside other member with old | ⟨new, there, rfl⟩
            · exact Or.inl (List.mem_cons_of_mem _ old)
            · exact Or.inr ⟨new, fewer new there, rfl⟩

end Pairing

section Spliced

/-- The additions come behind a chunk or go in front of it; behind the last chunk nothing comes. -/
theorem spliced_append (added : List NewChunk) (before after : List Text) (chunk : Text) :
    ∃ front back, spliced added (before ++ chunk :: after) = front ++ chunk :: back ∧
      (back = [] → after = []) ∧
      ∀ other ∈ front, other ∈ before ∨ ∃ new ∈ added, other = new.text := by
  have inside := lastVisible_lt (List.append_ne_nil_of_right_ne_nil before
    (List.cons_ne_nil chunk after))
  generalize position : Chunk.lastVisible (before ++ chunk :: after) = place at inside
  by_cases first : place ≤ before.length
  · refine ⟨before.take place ++ added.map NewChunk.text ++ before.drop place, after, ?_, id, ?_⟩
    · unfold spliced
      rw [position, List.take_append_of_le_length first,
        List.drop_append_of_le_length first, List.append_assoc, List.append_assoc,
        List.append_assoc]
    · intro other member
      simp only [List.mem_append, List.mem_map] at member
      rcases member with (old | ⟨new, there, rfl⟩) | old
      · exact Or.inl (List.mem_of_mem_take old)
      · exact Or.inr ⟨new, there, rfl⟩
      · exact Or.inl (List.mem_of_mem_drop old)
  · obtain ⟨more, rfl⟩ : ∃ more, place = before.length + (more + 1) :=
      ⟨place - before.length - 1, by omega⟩
    refine ⟨before, after.take more ++ (added.map NewChunk.text ++ after.drop more), ?_, ?_, ?_⟩
    · unfold spliced
      rw [position, List.take_length_add_append, List.drop_length_add_append,
        List.take_succ_cons, List.drop_succ_cons]
      simp
    · intro none
      simp only [List.append_eq_nil_iff, List.drop_eq_nil_iff] at none
      simp only [List.length_append, List.length_cons] at inside
      omega
    · exact fun other member => Or.inl member

/-- In front of an addition come other additions, and never the last of the updated chunks. -/
theorem spliced_added {added : List NewChunk} (distinct : added.Nodup) {new : NewChunk}
    (member : new ∈ added) {updated : List Text} (some : updated ≠ []) :
    ∃ front back, spliced added updated = front ++ new.text :: back ∧ back ≠ [] ∧
      ∀ other ∈ front, other ∈ updated.dropLast ∨
        ∃ another ∈ added, another ≠ new ∧ other = another.text := by
  have inside := lastVisible_lt some
  obtain ⟨before, after, rfl⟩ := List.append_of_mem member
  refine ⟨updated.take (Chunk.lastVisible updated) ++ before.map NewChunk.text,
    after.map NewChunk.text ++ updated.drop (Chunk.lastVisible updated), ?_, ?_, ?_⟩
  · simp [spliced]
  · intro none
    simp only [List.append_eq_nil_iff, List.drop_eq_nil_iff] at none
    omega
  · intro other there
    rcases List.mem_append.mp there with old | added
    · left
      have short : updated.take (Chunk.lastVisible updated) =
          updated.dropLast.take (Chunk.lastVisible updated) := by
        rw [List.dropLast_eq_take, List.take_take, Nat.min_eq_left (by omega)]
      rw [short] at old
      exact List.mem_of_mem_take old
    · right
      obtain ⟨another, between, rfl⟩ := List.mem_map.mp added
      refine ⟨another, List.mem_append_left _ between, ?_, rfl⟩
      intro same
      subst same
      exact (List.nodup_append.mp distinct).2.2 another between another List.mem_cons_self rfl

variable {existing new : Text}

/-- A chunk of the spliced sequence that `fresh` is a copy of comes first in the merged text if
`fresh` matches no chunk in front of it. -/
theorem comesFirst_of_spliced (nonempty : separator ≠ [])
    (apart : ∀ chunk ∈ additions matcher separator existing new,
      Chunk.Apart separator chunk.text)
    {fresh : NewChunk} {front back : List Text} {chunk : Text}
    (shape : spliced (additions matcher separator existing new)
      (updated matcher separator existing new) = front ++ chunk :: back)
    (copy : key separator fresh = Chunk.complete separator chunk)
    (own : MatchesCopies matcher separator fresh.text)
    (atEnd : back = [] → fresh.text = chunk)
    (refused : ∀ other ∈ front,
      ¬matcher.accepts separator fresh.text (Chunk.complete separator other)) :
    ComesFirst matcher separator fresh
      (Chunk.split separator (merge matcher separator existing new).content) := by
  obtain ⟨placed, rest, completed, same, last⟩ : ∃ placed rest,
      Chunk.completeInner separator (chunk :: back) = placed :: rest ∧
        key separator fresh = Chunk.complete separator placed ∧
        (back = [] ∧ placed = chunk ∨ placed = Chunk.complete separator chunk) := by
    cases back with
    | nil => exact ⟨chunk, [], rfl, copy, Or.inl ⟨rfl, rfl⟩⟩
    | cons next back =>
        exact ⟨Chunk.complete separator chunk, Chunk.completeInner separator (next :: back), rfl,
          by rw [Chunk.complete_complete, copy], Or.inr rfl⟩
  have accepted := own placed same.symm
  have others : ∀ other ∈ front.map (Chunk.complete separator),
      ¬matcher.accepts separator fresh.text other := by
    intro other member
    obtain ⟨old, there, rfl⟩ := List.mem_map.mp member
    exact refused old there
  have absent : placed ∉ front.map (Chunk.complete separator) :=
    fun member => others placed member accepted
  obtain ⟨_, ending, _, _, cutEq⟩ := @split_content_merge matcher separator existing new
    nonempty apart
  have cut := Chunk.cut_split nonempty (merge matcher separator existing new).content
  unfold Chunk.close at cutEq
  rw [shape, Chunk.completeInner_append_cons, completed, List.eraseDups_append,
    List.removeAll, List.filter_cons_of_pos (by simpa using absent), List.eraseDups_cons,
    List.append_assoc, List.cons_append] at cutEq
  rw [cutEq] at cut ⊢
  refine ⟨_, placed, _, rfl, same, ?_, accepted,
    fun other member => others other (List.mem_eraseDups.mp member)⟩
  intro none
  rcases last with ⟨none, rfl⟩ | closed
  · exact atEnd none
  · -- A closed chunk does not end a cut.
    have whole := @whole_of_mem_spliced matcher separator existing new nonempty chunk
      (by simp [shape])
    rw [none] at cut
    obtain ⟨inner, final, ends, _, isOpen⟩ := cut.eq_append
    have final : placed = final := List.singleton_inj.mp (List.append_inj' ends rfl).2
    rw [← final, closed] at isOpen
    exact (whole.closed_complete.not_open isOpen).elim

end Spliced

section Merged

variable {existing new : Text}

theorem not_accepts_complete_of_harmless {news : List NewChunk} {fresh : NewChunk} {chunk : Text}
    (unlike : Unlike matcher separator news) (member : fresh ∈ news)
    (harmless : Harmless matcher separator news fresh chunk) :
    ¬matcher.accepts separator fresh.text (Chunk.complete separator chunk) := by
  rcases harmless with ⟨complete, refused⟩ | ⟨other, inside, different, rfl⟩
  · rwa [complete]
  · exact unlike.others fresh member other inside (fun same => different same.symm) _
      (Chunk.complete_complete separator other.text)

theorem not_taken_of_left {fresh : NewChunk}
    (unused : fresh ∈ (pairing matcher separator existing new).2) :
    some fresh ∉ (pairing matcher separator existing new).1 := by
  intro taken
  have paired := paired_pairing matcher separator existing new
  have distinct := paired.perm.nodup_iff.mpr (nodup_newChunks separator new)
  exact (List.nodup_append.mp distinct).2.2 fresh
    (List.mem_filterMap.mpr ⟨some fresh, taken, rfl⟩) fresh unused rfl

/-- Of new chunks unlike each other, each that is left is added. -/
theorem mem_additions_of_left (unlike : Unlike matcher separator (newChunks separator new))
    {fresh : NewChunk} (unused : fresh ∈ (pairing matcher separator existing new).2) :
    fresh ∈ additions matcher separator existing new := by
  have paired := paired_pairing matcher separator existing new
  have member := paired.left_sublist.subset unused
  have apart := not_taken_of_left unused
  -- No copy is there: an old one would have been taken, another new one does not look like it.
  have absent : ∀ chunk ∈ updated matcher separator existing new,
      Chunk.complete separator chunk ≠ key separator fresh := by
    intro chunk inside copy
    rcases paired.refused_of_left unused inside with ⟨_, refused⟩ | ⟨other, taken, rfl⟩
    · exact refused (unlike.own fresh member chunk copy)
    · have same := unlike.eq_of_key_eq member (paired.mem_free taken) copy
      exact apart (same ▸ taken)
  have unknown : key separator fresh ∉
      present separator (updated matcher separator existing new) := by
    intro known
    obtain ⟨chunk, inside, copy⟩ := exists_of_mem_present known
    exact absent chunk inside copy
  rcases @settle_complete matcher separator (takenChunks matcher separator existing new)
      (present separator (updated matcher separator existing new)) _ _ unused with
    empty | known | ⟨other, added, same⟩ | ⟨twin, used, accepted⟩
  · exact (unlike.visible fresh member empty).elim
  · exact (unknown known).elim
  · rw [unlike.eq_of_key_eq member (additions_sublist.subset added) same]
    exact added
  · have taken := mem_takenChunks_iff.mp used
    have different : fresh ≠ twin := by
      intro same
      subst same
      exact apart taken
    exact (unlike.others fresh member twin (paired.mem_free taken) different _ rfl accepted).elim

/-- New chunks unlike each other come first in the text into which they were merged. -/
theorem comesFirst_of_unlike (nonempty : separator ≠ [])
    (unlike : Unlike matcher separator (newChunks separator new))
    (apart : ∀ chunk ∈ newChunks separator new, Chunk.Apart separator chunk.text)
    {fresh : NewChunk} (member : fresh ∈ newChunks separator new) :
    ComesFirst matcher separator fresh
      (Chunk.split separator (merge matcher separator existing new).content) := by
  have paired := paired_pairing matcher separator existing new
  have inner := Chunk.completeInner_split separator existing
  have addedApart : ∀ chunk ∈ additions matcher separator existing new,
      Chunk.Apart separator chunk.text :=
        fun chunk added => apart chunk (additions_sublist.subset added)
  have place := paired.perm.mem_iff.mpr member
  rcases List.mem_append.mp place with taken | unused
  · have taken : some fresh ∈ (pairing matcher separator existing new).1 := by
      simpa using taken
    obtain ⟨before, after, shape, harmless⟩ :=
      paired.before_taken inner (nodup_newChunks separator new) taken
    obtain ⟨front, back, laid, _, inside⟩ := spliced_append
      (additions matcher separator existing new) before after fresh.text
    rw [← show updated matcher separator existing new = _ from shape] at laid
    apply comesFirst_of_spliced nonempty addedApart laid rfl (unlike.own fresh member) fun _ => rfl
    intro other there
    apply not_accepts_complete_of_harmless unlike member
    rcases inside other there with old | ⟨another, added, rfl⟩
    · exact harmless other old
    · refine Or.inr ⟨another, additions_sublist.subset added, ?_, rfl⟩
      intro same
      subst same
      exact not_taken_of_left ((settle_added_sublist _ _).subset added) taken
  · have added := mem_additions_of_left unlike unused
    obtain ⟨front, back, laid, some, inside⟩ := spliced_added
      ((nodup_newChunks separator new).sublist additions_sublist) added
      (@updated_ne_nil matcher separator existing new)
    apply comesFirst_of_spliced nonempty addedApart laid rfl (unlike.own fresh member)
      fun none => (some none).elim
    intro other there
    apply not_accepts_complete_of_harmless unlike member
    rcases inside other there with old | ⟨another, another_added, different, rfl⟩
    · exact paired.harmless_of_left inner unused (not_taken_of_left unused) other old
    · exact Or.inr ⟨another, additions_sublist.subset another_added, different, rfl⟩

/-- A chunk that comes first still does after a merge of chunks unlike it. -/
theorem comesFirst_of_ignored (nonempty : separator ≠ [])
    (apart : ∀ chunk ∈ newChunks separator new, Chunk.Apart separator chunk.text)
    {settled : NewChunk}
    (first : ComesFirst matcher separator settled (Chunk.split separator existing))
    (own : MatchesCopies matcher separator settled.text)
    (ignored : ∀ fresh ∈ newChunks separator new,
      IgnoresCopies matcher separator fresh.text settled.text)
    (ignores : ∀ fresh ∈ newChunks separator new,
      IgnoresCopies matcher separator settled.text fresh.text) :
    ComesFirst matcher separator settled
      (Chunk.split separator (merge matcher separator existing new).content) := by
  have paired := paired_pairing matcher separator existing new
  obtain ⟨before, chunk, after, shape, copy, atEnd, _, others⟩ := first
  obtain ⟨front, back, same, length, inside⟩ := paired.update_append shape
    fun fresh member => ignored fresh member chunk copy.symm
  obtain ⟨start, rest, laid, last, there⟩ := spliced_append
    (additions matcher separator existing new) front back chunk
  rw [← show updated matcher separator existing new = _ from same] at laid
  apply comesFirst_of_spliced nonempty
    (fun chunk added => apart chunk (additions_sublist.subset added)) laid copy own
  · intro none
    rw [last none, List.length_nil] at length
    exact atEnd (List.eq_nil_of_length_eq_zero length.symm)
  · have fromNew : ∀ fresh ∈ newChunks separator new,
        ¬matcher.accepts separator settled.text (Chunk.complete separator fresh.text) :=
      fun fresh member => ignores fresh member _ (Chunk.complete_complete separator fresh.text)
    intro other member
    rcases there other member with old | ⟨fresh, added, rfl⟩
    · rcases inside other old with old | ⟨fresh, taken, rfl⟩
      · have inner := Chunk.completeInner_split separator existing
        rw [shape] at inner
        rw [Chunk.complete_of_mem_front inner old]
        exact others other old
      · exact fromNew fresh taken
    · exact fromNew fresh (additions_sublist.subset added)

/-- A merged text has no chunk twice. -/
theorem nodup_split_content_merge (nonempty : separator ≠ [])
    (apart : ∀ chunk ∈ additions matcher separator existing new,
      Chunk.Apart separator chunk.text) :
    (Chunk.split separator (merge matcher separator existing new).content).Nodup := by
  obtain ⟨_, ending, _, isEnding, cutEq⟩ :=
    @split_content_merge matcher separator existing new nonempty apart
  have cut := Chunk.cut_split nonempty (merge matcher separator existing new).content
  rw [cutEq] at cut ⊢
  have distinct : (Chunk.close separator (spliced (additions matcher separator existing new)
      (updated matcher separator existing new))).Nodup := FirstOccurrences.nodup_eraseDups _
  cases isEnding with
  | isOpen _ => simpa using distinct
  | isClosed _ =>
      obtain ⟨inner, last, shape, closed, _⟩ := cut.eq_append
      obtain ⟨rfl, _⟩ := List.append_inj' shape rfl
      have visible : [] ∉ _ := fun member => (closed [] member).ne_nil nonempty rfl
      simpa using distinct.concat visible

theorem content_merge_again (nonempty : separator ≠ [])
    (unlike : Unlike matcher separator (newChunks separator new))
    (apart : ∀ chunk ∈ newChunks separator new, Chunk.Apart separator chunk.text) :
    (merge matcher separator (merge matcher separator existing new).content new).content =
      (merge matcher separator existing new).content := by
  apply content_merge_of_comesFirst
  · exact nodup_split_content_merge nonempty
      fun chunk added => apart chunk (additions_sublist.subset added)
  · exact fun chunk member => comesFirst_of_unlike nonempty unlike apart member
  · exact unlike.nodup_map_key (nodup_newChunks _ _)

/-- Chunks of a new text are unlike each other if those at different places are. -/
theorem unlike_newChunks (visible : ∀ chunk ∈ Chunk.split separator new, chunk ≠ [])
    (own : ∀ chunk ∈ Chunk.split separator new, MatchesCopies matcher separator chunk)
    (others : (Chunk.split separator new).Pairwise fun first second =>
      IgnoresCopies matcher separator first second ∧
        IgnoresCopies matcher separator second first) :
    Unlike matcher separator (newChunks separator new) where
  visible chunk member := visible chunk.text (text_mem_split member)
  own chunk member := own chunk.text (text_mem_split member)
  others first member second another different := by
    obtain ⟨i, inside, rfl⟩ := List.getElem_of_mem member
    obtain ⟨j, within, rfl⟩ := List.getElem_of_mem another
    simp only [newChunks, List.length_mapIdx] at inside within
    simp only [newChunks, List.getElem_mapIdx] at different ⊢
    rw [List.pairwise_iff_getElem] at others
    rcases Nat.lt_trichotomy i j with before | rfl | after
    · exact (others i j inside within before).1
    · exact (different rfl).elim
    · exact (others j i within inside after).2

end Merged

end FontScaffold.Merge
