import FontScaffold.Merge
import FontScaffold.Proofs.FirstOccurrences

set_option autoImplicit false

namespace FontScaffold.Merge

/-- Each old chunk stays if no free new chunk matches it, or gives way to the first that does. -/
inductive Paired (matcher : Matcher) (separator : Text) :
    List Text → List NewChunk → List (Option NewChunk) → List NewChunk → Prop where
  | nil (free : List NewChunk) : Paired matcher separator [] free [] free
  | stay {old : Text} {olds : List Text} {free left : List NewChunk}
      {choices : List (Option NewChunk)}
      (refused : ∀ new ∈ free, ¬matcher.accepts separator new.text old)
      (later : Paired matcher separator olds free choices left) :
      Paired matcher separator (old :: olds) free (none :: choices) left
  | giveWay {old : Text} {olds : List Text} {before after left : List NewChunk} {new : NewChunk}
      {choices : List (Option NewChunk)}
      (refused : ∀ other ∈ before, ¬matcher.accepts separator other.text old)
      (accepted : matcher.accepts separator new.text old)
      (later : Paired matcher separator olds (before ++ after) choices left) :
      Paired matcher separator (old :: olds) (before ++ new :: after) (some new :: choices) left

theorem paired_pair (matcher : Matcher) (separator : Text) (olds : List Text)
    (free : List NewChunk) :
    Paired matcher separator olds free (pair matcher separator olds free).1
      (pair matcher separator olds free).2 := by
  induction olds generalizing free with
  | nil => exact .nil free
  | cons old olds ih =>
      simp only [pair]
      cases choice : free.find? fun new => matcher.accepts separator new.text old with
      | none =>
          have refused : ∀ new ∈ free, ¬matcher.accepts separator new.text old :=
            List.find?_eq_none.mp choice
          rw [List.eraseP_of_forall_not refused]
          exact .stay refused (ih free)
      | some new =>
          obtain ⟨accepted, before, after, rfl, refused⟩ := List.find?_eq_some_iff_append.mp choice
          have others : ∀ other ∈ before, ¬matcher.accepts separator other.text old := by
            intro other member
            simpa using refused other member
          have erased : (before ++ new :: after).eraseP
              (fun other => matcher.accepts separator other.text old) = before ++ after := by
            rw [List.eraseP_append_right _ others]
            simp [accepted]
          rw [erased]
          exact .giveWay others accepted (ih (before ++ after))

namespace Paired

variable {matcher : Matcher} {separator : Text} {olds : List Text} {free left : List NewChunk}
  {choices : List (Option NewChunk)}

theorem length_eq (paired : Paired matcher separator olds free choices left) :
    choices.length = olds.length := by
  induction paired with
  | nil free => rfl
  | stay _ _ ih => simp only [List.length_cons, ih]
  | giveWay _ _ _ ih => simp only [List.length_cons, ih]

theorem left_sublist (paired : Paired matcher separator olds free choices left) :
    left.Sublist free := by
  induction paired with
  | nil free => exact List.Sublist.refl free
  | stay _ _ ih => exact ih
  | @giveWay _ _ before after _ new _ _ _ _ ih =>
      exact ih.trans (List.Sublist.append_left (List.sublist_cons_self new after) before)

theorem perm (paired : Paired matcher separator olds free choices left) :
    (choices.filterMap id ++ left).Perm free := by
  induction paired with
  | nil free => exact List.Perm.refl free
  | stay _ _ ih => simpa using ih
  | @giveWay _ _ before after _ new _ _ _ _ ih =>
      have moved : (new :: (before ++ after)).Perm (before ++ new :: after) :=
        List.perm_middle.symm
      simpa using (ih.cons new).trans moved

theorem mem_free (paired : Paired matcher separator olds free choices left) {new : NewChunk}
    (taken : some new ∈ choices) : new ∈ free := by
  rw [← paired.perm.mem_iff, List.mem_append, List.mem_filterMap]
  exact Or.inl ⟨some new, taken, rfl⟩

theorem accepts (paired : Paired matcher separator olds free choices left) {new : NewChunk}
    (taken : some new ∈ choices) : ∃ old ∈ olds, matcher.accepts separator new.text old := by
  induction paired with
  | nil free => cases taken
  | stay _ _ ih =>
      obtain ⟨old, member, accepted⟩ := ih (by simpa using taken)
      exact ⟨old, List.mem_cons_of_mem _ member, accepted⟩
  | giveWay _ accepted _ ih =>
      rcases List.mem_cons.mp taken with same | taken
      · cases same
        exact ⟨_, List.mem_cons_self, accepted⟩
      · obtain ⟨old, member, accepted⟩ := ih taken
        exact ⟨old, List.mem_cons_of_mem _ member, accepted⟩

theorem length_update (paired : Paired matcher separator olds free choices left) :
    (update olds choices).length = olds.length := by
  simp [update, paired.length_eq]

/-- After the update a chunk is an old one or one that was taken. -/
theorem mem_update (paired : Paired matcher separator olds free choices left) {chunk : Text}
    (member : chunk ∈ update olds choices) :
    chunk ∈ olds ∨ ∃ new, some new ∈ choices ∧ new.text = chunk := by
  induction paired with
  | nil free => cases member
  | stay _ _ ih =>
      rcases List.mem_cons.mp member with rfl | member
      · exact Or.inl List.mem_cons_self
      · rcases ih member with old | ⟨new, taken, same⟩
        · exact Or.inl (List.mem_cons_of_mem _ old)
        · exact Or.inr ⟨new, List.mem_cons_of_mem _ taken, same⟩
  | @giveWay _ _ _ _ _ new _ _ _ _ ih =>
      rcases List.mem_cons.mp member with rfl | member
      · exact Or.inr ⟨new, List.mem_cons_self, rfl⟩
      · rcases ih member with old | ⟨other, taken, same⟩
        · exact Or.inl (List.mem_cons_of_mem _ old)
        · exact Or.inr ⟨other, List.mem_cons_of_mem _ taken, same⟩

end Paired

section Settle

variable {matcher : Matcher} {separator : Text} {used : List NewChunk}

/-- The text by which a new chunk counts as present. -/
def key (separator : Text) (new : NewChunk) : Text :=
  Chunk.complete separator new.text

theorem settle_added_sublist (known : List Text) (free : List NewChunk) :
    (settle matcher separator used known free).added.Sublist free := by
  fun_induction settle matcher separator used known free with
  | case1 known => exact List.Sublist.refl []
  | case2 known new rest key _ ih => exact ih.cons new
  | case3 known new rest key _ twin _ later ih => exact ih.cons new
  | case4 known new rest key _ _ later ih => exact ih.cons_cons new

theorem settle_added_spec {known : List Text} {free : List NewChunk} {new : NewChunk}
    (member : new ∈ (settle matcher separator used known free).added) :
    new.text ≠ [] ∧ key separator new ∉ known ∧
      ∀ other ∈ used, ¬matcher.accepts separator new.text other.text := by
  fun_induction settle matcher separator used known free with
  | case1 known => cases member
  | case2 known new rest key _ ih => exact ih member
  | case3 known new rest key _ twin _ later ih => exact ih member
  | case4 known first rest firstKey fresh alone later ih =>
      rcases List.mem_cons.mp member with rfl | member
      · rw [not_or] at fresh
        exact ⟨fresh.1, fresh.2, List.find?_eq_none.mp alone⟩
      · obtain ⟨visible, unknown, apart⟩ := ih member
        exact ⟨visible, fun known => unknown (List.mem_cons_of_mem _ known), apart⟩

theorem nodup_map_key_settle_added (known : List Text) (free : List NewChunk) :
    ((settle matcher separator used known free).added.map (key separator)).Nodup := by
  fun_induction settle matcher separator used known free with
  | case1 known => exact List.nodup_nil
  | case2 known new rest key _ ih => exact ih
  | case3 known new rest key _ twin _ later ih => exact ih
  | case4 known first rest firstKey fresh alone later ih =>
      rw [List.map_cons, List.nodup_cons]
      refine ⟨?_, ih⟩
      intro again
      obtain ⟨other, member, same⟩ := List.mem_map.mp again
      have unknown := (settle_added_spec member).2.1
      rw [same] at unknown
      exact unknown List.mem_cons_self

/-- Why a free chunk is not added: it is empty, it was present before or by an earlier addition, or
it matches one that was used. -/
theorem settle_refused {earlier : NewChunk → NewChunk → Prop} {known : List Text}
    {free : List NewChunk} {new : NewChunk} (ordered : free.Pairwise earlier) (member : new ∈ free)
    (refused : new ∉ (settle matcher separator used known free).added) :
    new.text = [] ∨ key separator new ∈ known ∨
      (∃ other ∈ (settle matcher separator used known free).added,
        earlier other new ∧ key separator other = key separator new) ∨
      ∃ other ∈ used, matcher.accepts separator new.text other.text := by
  fun_induction settle matcher separator used known free with
  | case1 known => cases member
  | case2 known first rest firstKey present ih =>
      rcases List.mem_cons.mp member with rfl | member
      · exact present.imp_right Or.inl
      · exact ih ordered.of_cons member refused
  | case3 known first rest firstKey _ twin found later ih =>
      rcases List.mem_cons.mp member with rfl | member
      · obtain ⟨accepted, _⟩ := List.find?_eq_some_iff_append.mp found
        exact Or.inr (Or.inr (Or.inr ⟨twin, List.mem_of_find?_eq_some found, accepted⟩))
      · exact ih ordered.of_cons member refused
  | case4 known first rest firstKey _ alone later ih =>
      rcases List.mem_cons.mp member with rfl | member
      · exact (refused List.mem_cons_self).elim
      · have before := List.rel_of_pairwise_cons ordered member
        rcases ih ordered.of_cons member fun added => refused (List.mem_cons_of_mem _ added) with
          empty | known | ⟨other, added, first, same⟩ | twin
        · exact Or.inl empty
        · rcases List.mem_cons.mp known with same | known
          · exact Or.inr (Or.inr (Or.inl ⟨first, List.mem_cons_self, before, same.symm⟩))
          · exact Or.inr (Or.inl known)
        · exact Or.inr (Or.inr (Or.inl ⟨other, List.mem_cons_of_mem _ added, first, same⟩))
        · exact Or.inr (Or.inr (Or.inr twin))

theorem settle_complete {known : List Text} {free : List NewChunk} {new : NewChunk}
    (member : new ∈ free) :
    new.text = [] ∨ key separator new ∈ known ∨
      (∃ other ∈ (settle matcher separator used known free).added,
        key separator other = key separator new) ∨
      ∃ other ∈ used, matcher.accepts separator new.text other.text := by
  by_cases added : new ∈ (settle matcher separator used known free).added
  · exact Or.inr (Or.inr (Or.inl ⟨new, added, rfl⟩))
  · have anyOrder : free.Pairwise fun _ _ => True := List.pairwise_of_forall fun _ _ => trivial
    rcases settle_refused anyOrder member added with empty | known | ⟨other, there, _, same⟩ | twin
    · exact Or.inl empty
    · exact Or.inr (Or.inl known)
    · exact Or.inr (Or.inr (Or.inl ⟨other, there, same⟩))
    · exact Or.inr (Or.inr (Or.inr twin))

end Settle

end FontScaffold.Merge
