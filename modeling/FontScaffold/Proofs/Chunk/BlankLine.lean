import FontScaffold.Proofs.Chunk.Closing

set_option autoImplicit false

namespace FontScaffold.Chunk

def blankLine : Text := [.char '\n', .char '\n']

theorem blankLine_ne_nil : blankLine ≠ [] := List.cons_ne_nil _ _

theorem open_blankLine_cons {c : CodePoint} {rest : Text} :
    Open blankLine (c :: rest) ↔ ¬(c = .char '\n' ∧ rest.head? = some (.char '\n')) ∧
    Open blankLine rest := by
  have starts : blankLine.isPrefixOf (c :: rest) ↔
      c = .char '\n' ∧ rest.head? = some (.char '\n') := by
    cases rest with
    | nil => simp [blankLine]
    | cons d rest =>
        simp only [blankLine, List.isPrefixOf, Bool.and_true, Bool.and_eq_true, beq_iff_eq,
          List.head?_cons, Option.some.injEq]
        constructor
        · exact fun same => ⟨same.1.symm, same.2.symm⟩
        · exact fun same => ⟨same.1.symm, same.2.symm⟩
  by_cases here : c = .char '\n' ∧ rest.head? = some (.char '\n')
  · unfold Open
    rw [Text.breakOn, if_pos (starts.mpr here)]
    simp [here]
  · have absent : blankLine.isPrefixOf (c :: rest) = false := by
      rw [Bool.eq_false_iff]
      exact fun found => here (starts.mp found)
    simp [Open, Text.breakOn, absent, here]

theorem open_blankLine_of_not_mem {text : Text} (absent : .char '\n' ∉ text) :
    Open blankLine text := by
  rw [open_iff]
  intro occurs
  exact absent (occurs.subset List.mem_cons_self)

theorem open_blankLine_append {line rest : Text} {c : CodePoint} (plain : .char '\n' ∉ line)
    (starts : rest.head? = some c) (other : c ≠ .char '\n') (isOpen : Open blankLine rest) :
    Open blankLine (line ++ .char '\n' :: rest) := by
  induction line with
  | nil =>
      refine open_blankLine_cons.mpr ⟨fun blank => other ?_, isOpen⟩
      rw [starts] at blank
      exact Option.some.inj blank.2
  | cons c line ih =>
      rw [List.mem_cons, not_or] at plain
      exact open_blankLine_cons.mpr ⟨fun blank => plain.1 blank.1.symm, ih plain.2⟩

theorem eq_of_complete_eq {body chunk : Text}
    (copy : complete blankLine chunk = body ++ blankLine) :
    chunk = body ∨ chunk = body ++ [.char '\n'] ∨ chunk = body ++ blankLine := by
  obtain ⟨before, shape, whole⟩ := complete_eq_append blankLine chunk
  rw [copy] at whole
  have same : body = before := List.append_cancel_right whole
  subst same
  have limit : overlap blankLine chunk blankLine.length ≤ 2 := overlap_le _ _ _
  generalize overlap blankLine chunk blankLine.length = size at shape limit
  match size, limit with
  | 0, _ => exact Or.inl (by simpa using shape)
  | 1, _ => exact Or.inr (Or.inl shape)
  | 2, _ => exact Or.inr (Or.inr shape)

/-- Lines without a blank one between them, and no line end behind the last. -/
structure Block (body : Text) : Prop where
  isOpen : Open blankLine body
  ends : ∃ front last, body = front ++ [last] ∧ last ≠ .char '\n'
  noReturn : .char '\r' ∉ body

namespace Block

variable {body : Text}

theorem not_suffix (block : Block body) : ¬[.char '\n'] <:+ body := by
  obtain ⟨front, last, rfl, proper⟩ := block.ends
  rintro ⟨other, same⟩
  exact proper (List.singleton_inj.mp (List.append_inj' same rfl).2).symm

theorem overlap_eq_zero (block : Block body) : overlap blankLine body 2 = 0 := by
  have first : ¬blankLine.isSuffixOf body := by
    rw [List.isSuffixOf_iff_suffix]
    intro ends
    exact block.not_suffix (List.IsSuffix.trans ⟨[.char '\n'], rfl⟩ ends)
  have second : ¬[.char '\n'].isSuffixOf body := by
    rw [List.isSuffixOf_iff_suffix]
    exact block.not_suffix
  simp only [overlap]
  rw [show blankLine.take (1 + 1) = blankLine from rfl,
    show blankLine.take (0 + 1) = [.char '\n'] from rfl,
    if_neg first, if_neg second]

theorem complete_eq (block : Block body) : complete blankLine body = body ++ blankLine := by
  unfold complete
  rw [show blankLine.length = 2 from rfl, block.overlap_eq_zero]
  rfl

theorem closed (block : Block body) : Closed blankLine (body ++ blankLine) := by
  rw [← block.complete_eq]
  exact closed_complete block.isOpen

theorem complete_append_blankLine (block : Block body) :
    complete blankLine (body ++ blankLine) = body ++ blankLine :=
  block.closed.complete_eq

theorem open_line (block : Block body) : Open blankLine (body ++ [.char '\n']) := by
  rw [open_iff]
  rintro ⟨before, after, occurs⟩
  rcases List.eq_nil_or_concat' after with rfl | ⟨front, last, rfl⟩
  · apply block.not_suffix
    rw [List.append_nil, show blankLine = [.char '\n'] ++ [.char '\n'] from rfl,
      ← List.append_assoc] at occurs
    rw [← (List.append_inj' occurs rfl).1]
    exact List.suffix_append before [.char '\n']
  · apply open_iff.mp block.isOpen
    rw [← List.append_assoc] at occurs
    rw [← (List.append_inj' occurs rfl).1]
    exact ⟨before, front, rfl⟩

theorem complete_line (block : Block body) :
    complete blankLine (body ++ [.char '\n']) = body ++ blankLine := by
  have second : blankLine.isSuffixOf (body ++ [.char '\n']) = false := by
    rw [Bool.eq_false_iff]
    intro ends
    exact open_iff.mp block.open_line (List.isSuffixOf_iff_suffix.mp ends).isInfix
  have first : [.char '\n'].isSuffixOf (body ++ [.char '\n']) :=
    List.isSuffixOf_iff_suffix.mpr (List.suffix_append body [.char '\n'])
  have one : overlap blankLine (body ++ [.char '\n']) 2 = 1 := by
    simp only [overlap]
    rw [show blankLine.take (1 + 1) = blankLine from rfl, second,
      show blankLine.take (0 + 1) = [.char '\n'] from rfl, first]
    rfl
  unfold complete
  rw [show blankLine.length = 2 from rfl, one, List.append_assoc]
  rfl

theorem dropSeparator_copy (block : Block body) {chunk : Text}
    (copy : complete blankLine chunk = body ++ blankLine) :
    ∃ tail, (tail = [] ∨ tail = [.char '\n']) ∧ dropSeparator blankLine chunk = body ++ tail := by
  rcases eq_of_complete_eq copy with rfl | rfl | rfl
  · exact ⟨[], Or.inl rfl, by rw [dropSeparator_of_open block.isOpen, List.append_nil]⟩
  · exact ⟨[.char '\n'], Or.inr rfl, dropSeparator_of_open block.open_line⟩
  · exact ⟨[], Or.inl rfl, by rw [dropSeparator_append, List.append_nil]⟩

theorem apart_of_complete (block : Block body) {chunk : Text}
    (copy : complete blankLine chunk = body ++ blankLine) : Apart blankLine chunk := by
  obtain ⟨front, last, rfl, proper⟩ := block.ends
  apply apart_of_foreign (c := last) _ (by simpa [blankLine] using proper)
  rcases eq_of_complete_eq copy with rfl | rfl | rfl <;> simp

end Block

def toCrLf : Text → Text :=
  Text.replaceChar (.char '\n') [.char '\r', .char '\n']

theorem joinCrLf_of_not_mem {text : Text} (plain : .char '\r' ∉ text) : joinCrLf text = text := by
  fun_induction joinCrLf text with
  | case1 => rfl
  | case2 rest _ => simp at plain
  | case3 c rest _ ih =>
      rw [ih fun member => plain (List.mem_cons_of_mem c member)]

section Copy

variable {text : Text}

theorem toCrLf_append (first second : Text) :
    toCrLf (first ++ second) = toCrLf first ++ toCrLf second :=
  Text.replaceChar_append ..

theorem toCrLf_cons_of_ne {c : CodePoint} (other : c ≠ .char '\n') (rest : Text) :
    toCrLf (c :: rest) = c :: toCrLf rest :=
  Text.replaceChar_cons_of_ne other _ rest

theorem toCrLf_of_not_mem (plain : .char '\n' ∉ text) : toCrLf text = text :=
  Text.replaceChar_of_not_mem plain _

theorem flatten_map_toCrLf (chunks : List Text) :
    (chunks.map toCrLf).flatten = toCrLf chunks.flatten := by
  induction chunks with
  | nil => rfl
  | cons chunk chunks ih =>
      rw [List.map_cons, List.flatten_cons, List.flatten_cons, toCrLf_append, ih]

theorem joinCrLf_toCrLf (plain : .char '\r' ∉ text) : joinCrLf (toCrLf text) = text := by
  induction text with
  | nil => rfl
  | cons c text ih =>
      rw [List.mem_cons, not_or] at plain
      have rest := ih plain.2
      by_cases feed : c = .char '\n'
      · subst feed
        change joinCrLf (.char '\r' :: .char '\n' :: toCrLf text) = .char '\n' :: text
        rw [joinCrLf, rest]
      · rw [toCrLf_cons_of_ne feed, joinCrLf, rest]
        exact fun _ same => absurd same.symm plain.1

theorem trimEnd_toCrLf (plain : .char '\r' ∉ text) :
    Text.trimEnd (· == .char '\r') (toCrLf text) = toCrLf text := by
  rcases List.eq_nil_or_concat' text with rfl | ⟨front, last, rfl⟩
  · rfl
  rw [toCrLf_append]
  by_cases feed : last = .char '\n'
  · subst feed
    change Text.trimEnd _ (toCrLf front ++ ([.char '\r'] ++ [.char '\n'])) =
      toCrLf front ++ ([.char '\r'] ++ [.char '\n'])
    rw [← List.append_assoc]
    exact Text.trimEnd_concat _ rfl
  · have other : last ≠ .char '\r' := by
      rintro rfl
      exact plain (List.mem_append_right front List.mem_cons_self)
    rw [toCrLf_cons_of_ne feed]
    exact Text.trimEnd_concat _ (beq_eq_false_iff_ne.mpr other)

/-- No line of the copy is empty: a CR stands before every LF. -/
theorem open_blankLine_toCrLf (text : Text) : Open blankLine (toCrLf text) := by
  have noFeedFirst : ∀ text : Text, (toCrLf text).head? ≠ some (.char '\n') := by
    intro text
    cases text with
    | nil => exact Option.some_ne_none _ ∘ Eq.symm
    | cons c text =>
        by_cases feed : c = .char '\n'
        · subst feed
          exact fun same => absurd (Option.some.inj same) (by decide)
        · rw [toCrLf_cons_of_ne feed]
          exact fun same => feed (Option.some.inj same)
  induction text with
  | nil => exact open_nil blankLine_ne_nil
  | cons c text ih =>
      by_cases feed : c = .char '\n'
      · subst feed
        change Open blankLine (.char '\r' :: .char '\n' :: toCrLf text)
        rw [open_blankLine_cons, open_blankLine_cons]
        exact ⟨fun blank => absurd blank.1 (by decide), fun blank => noFeedFirst text blank.2, ih⟩
      · rw [toCrLf_cons_of_ne feed, open_blankLine_cons]
        exact ⟨fun blank => feed blank.1, ih⟩

end Copy

section Cut

variable {separator body : Text}

theorem split_toCrLf_of_feeds (feeds : ∀ c ∈ separator, c = .char '\n')
    (many : 2 ≤ separator.length)
    (body : Text) : split separator (toCrLf body) = [toCrLf body] := by
  apply split_of_open
  rw [open_iff]
  intro occurs
  apply open_iff.mp (open_blankLine_toCrLf body)
  refine List.IsInfix.trans ?_ occurs
  match separator, many with
  | first :: second :: rest, _ =>
      obtain rfl := feeds first List.mem_cons_self
      obtain rfl := feeds second (List.mem_cons_of_mem _ List.mem_cons_self)
      exact ⟨[], rest, rfl⟩

theorem closed_feed {line : Text} (plain : .char '\n' ∉ line) :
    Closed [.char '\n'] (line ++ [.char '\n']) := by
  have isOpen : Open [.char '\n'] line := open_mark_iff.mpr plain
  have closed := closed_complete isOpen
  rwa [complete_mark (Or.inr isOpen), dropSeparator_of_open isOpen] at closed

theorem toCrLf_of_closed {chunk : Text} (closed : Closed [.char '\n'] chunk) :
    ∃ line, .char '\n' ∉ line ∧ chunk = line ++ [.char '\n'] ∧
    toCrLf chunk = line ++ [.char '\r'] ++ [.char '\n'] := by
  obtain ⟨whole, plain⟩ := closed.eq_bare
  refine ⟨dropSeparator [.char '\n'] chunk, plain, whole, ?_⟩
  conv_lhs => rw [whole]
  rw [toCrLf_append, toCrLf_of_not_mem plain, List.append_assoc]
  rfl

theorem Cut.map_toCrLf {chunks : List Text} (cut : Cut [.char '\n'] chunks) :
    Cut [.char '\n'] (chunks.map toCrLf) := by
  induction cut with
  | last isOpen =>
      rw [List.map_singleton, toCrLf_of_not_mem (open_mark_iff.mp isOpen)]
      exact .last isOpen
  | cons closed _ ih =>
      obtain ⟨line, plain, _, copy⟩ := toCrLf_of_closed closed
      rw [List.map_cons, copy]
      exact .cons (closed_feed (by simp [plain])) ih

theorem split_toCrLf_feed (body : Text) :
    split [.char '\n'] (toCrLf body) = (split [.char '\n'] body).map toCrLf := by
  have nonempty : [CodePoint.char '\n'] ≠ [] := List.cons_ne_nil _ _
  have cut := split_flatten nonempty (cut_split nonempty body).map_toCrLf
  rwa [flatten_map_toCrLf, flatten_split] at cut

theorem dropSeparator_nil (chunk : Text) : dropSeparator [] chunk = chunk := by
  simp [dropSeparator]

theorem tokens_congr_of_join {chunk other : Text}
    (same : joinCrLf (Text.trimEnd (· == .char '\r') (dropSeparator separator chunk)) =
      joinCrLf (Text.trimEnd (· == .char '\r') (dropSeparator separator other))) :
    tokens separator chunk = tokens separator other := by
  simp only [tokens, tokensUpTo, words, same]

theorem tokens_nil_toCrLf (plain : .char '\r' ∉ body) :
    tokens [] (toCrLf body) = tokens [] body := by
  apply tokens_congr_of_join
  rw [dropSeparator_nil, dropSeparator_nil, trimEnd_toCrLf plain, Text.trimEnd_of_not_mem plain,
    joinCrLf_toCrLf plain, joinCrLf_of_not_mem plain]

theorem tokens_feed_toCrLf {chunk : Text} (whole : Whole [.char '\n'] chunk) :
    tokens [.char '\n'] (toCrLf chunk) = tokens [.char '\n'] chunk := by
  rcases whole with closed | isOpen
  · obtain ⟨line, _, shape, copy⟩ := toCrLf_of_closed closed
    apply tokens_congr_of_join
    rw [copy, shape, dropSeparator_append, dropSeparator_append, Text.trimEnd_concat_self]
  · rw [toCrLf_of_not_mem (open_mark_iff.mp isOpen)]

end Cut

end FontScaffold.Chunk
