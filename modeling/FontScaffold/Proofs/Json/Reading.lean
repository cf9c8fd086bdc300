import FontScaffold.Proofs.Json.Escape

set_option autoImplicit false

namespace FontScaffold.Json

section Space

variable {c : CodePoint} {text gap : Text}

theorem skipSpace_cons (shown : isSpace c = false) : skipSpace (c :: text) = c :: text := by
  rw [skipSpace, List.dropWhile_cons_of_neg (by simp [shown])]

theorem skipSpace_append (blank : ∀ c ∈ gap, isSpace c) :
    skipSpace (gap ++ text) = skipSpace text :=
  List.dropWhile_append_of_pos blank

end Space

/-- A value stands at the start of the text, and `rest` follows it. -/
def Reads (room : Nat) (text : Text) (read : Value) (rest : Text) : Prop :=
  ∃ shorter, value room text = .ok ⟨read, rest, shorter⟩

/-- The items of an array up to its closing bracket, and `rest` follows them. -/
def ReadsItems (room : Nat) (text : Text) (read : List Value) (rest : Text) : Prop :=
  ∃ shorter, items room text = .ok ⟨read, rest, shorter⟩

/-- The members of an object up to its closing brace, and `rest` follows them. -/
def ReadsMembers (room : Nat) (text : Text) (read : List (Text × Value)) (rest : Text) : Prop :=
  ∃ shorter, members room text = .ok ⟨read, rest, shorter⟩

section Reading

variable {room : Nat} {text after rest : Text}

theorem string_append (text rest : Text) :
    string text ++ rest = .char '"' :: (text.flatMap escapedChar ++ .char '"' :: rest) := by
  simp [string]

theorem reads_string (room : Nat) {text : Text} (unpaired : Unpaired text) (rest : Text) :
    Reads room (string text ++ rest) (.string text) rest := by
  obtain ⟨shorter, done⟩ := ReadsString.of_flatMap
    (.char '"' :: (text.flatMap escapedChar ++ .char '"' :: rest)) unpaired rest
  rw [string_append]
  refine ⟨by simp only [List.length_cons] at shorter ⊢; omega, ?_⟩
  rw [value.eq_1, done]

theorem reads_word {c : CodePoint} {word : Value} {shorter : rest.length < text.length}
    (starts : text.head? = some c) (isWord : c ≠ .char '"' ∧ c ≠ .char '[' ∧ c ≠ .char '\x7b')
    (known : word? text = some ⟨word, rest, shorter⟩) : Reads room text word rest := by
  refine ⟨shorter, ?_⟩
  rw [value.eq_4]
  · rw [atom, known]
  · rintro _ rfl
    exact isWord.1 (Option.some.inj starts).symm
  · rintro _ rfl
    exact isWord.2.1 (Option.some.inj starts).symm
  · rintro _ rfl
    exact isWord.2.2 (Option.some.inj starts).symm

theorem reads_array_nil (empty : skipSpace text = .char ']' :: rest) :
    Reads (room + 1) (.char '[' :: text) (.array []) rest := by
  have short := length_skipSpace_le text
  rw [empty, List.length_cons] at short
  refine ⟨by simp only [List.length_cons]; omega, ?_⟩
  rw [value.eq_2, if_neg (Nat.succ_ne_zero room)]
  split
  · next after same =>
      rw [empty] at same
      cases same
      rfl
  · next other =>
      exact (other rest empty).elim

theorem reads_array {read : List Value} (some : (skipSpace text).head? ≠ some (.char ']'))
    (inner : ReadsItems room (skipSpace text) read rest) :
    Reads (room + 1) (.char '[' :: text) (.array read) rest := by
  obtain ⟨shorter, done⟩ := inner
  have short := length_skipSpace_le text
  refine ⟨by simp only [List.length_cons]; omega, ?_⟩
  rw [value.eq_2, if_neg (Nat.succ_ne_zero room)]
  split
  · next after same =>
      rw [same] at some
      exact (some rfl).elim
  · rw [Nat.add_sub_cancel, done]

theorem reads_object_nil (empty : skipSpace text = .char '\x7d' :: rest) :
    Reads (room + 1) (.char '\x7b' :: text) (.object []) rest := by
  have short := length_skipSpace_le text
  rw [empty, List.length_cons] at short
  refine ⟨by simp only [List.length_cons]; omega, ?_⟩
  rw [value.eq_3, if_neg (Nat.succ_ne_zero room)]
  split
  · next after same =>
      rw [empty] at same
      cases same
      rfl
  · next other =>
      exact (other rest empty).elim

theorem reads_object {read : List (Text × Value)}
    (some : (skipSpace text).head? ≠ some (.char '\x7d'))
    (inner : ReadsMembers room (skipSpace text) read rest) :
    Reads (room + 1) (.char '\x7b' :: text) (.object read) rest := by
  obtain ⟨shorter, done⟩ := inner
  have short := length_skipSpace_le text
  refine ⟨by simp only [List.length_cons]; omega, ?_⟩
  rw [value.eq_3, if_neg (Nat.succ_ne_zero room)]
  split
  · next after same =>
      rw [same] at some
      exact (some rfl).elim
  · rw [Nat.add_sub_cancel, done]

theorem length_lt_of_goesOn {closing : CodePoint}
    (goesOn : skipSpace after = closing :: rest ∨
      ∃ more, skipSpace after = .char ',' :: more ∧ rest.length < (skipSpace more).length) :
    rest.length < after.length := by
  have short := length_skipSpace_le after
  rcases goesOn with closes | ⟨more, comma, shorter⟩
  · rw [closes, List.length_cons] at short
    omega
  · have shortMore := length_skipSpace_le more
    rw [comma, List.length_cons] at short
    omega

/-- An item, and what comes of the text after it: the end of the array, or a comma and more
items. -/
theorem readsItems_cons {next : Value} {others : List Value} (first : Reads room text next after)
    (goesOn : skipSpace after = .char ']' :: rest ∧ others = [] ∨
      ∃ more, skipSpace after = .char ',' :: more ∧ ReadsItems room (skipSpace more) others rest) :
    ReadsItems room text (next :: others) rest := by
  obtain ⟨shorter, done⟩ := first
  have shorterRest := length_lt_of_goesOn
    (goesOn.imp And.left fun ⟨more, comma, shorterLater, _⟩ => ⟨more, comma, shorterLater⟩)
  refine ⟨Nat.lt_trans shorterRest shorter, ?_⟩
  rw [items.eq_1, done]
  simp only
  split
  · next ends =>
      rcases goesOn with ⟨closes, rfl⟩ | ⟨more, comma, _⟩
      · rw [closes] at ends
        cases ends
        rfl
      · rw [comma] at ends
        cases ends
  · next further =>
      rcases goesOn with ⟨closes, rfl⟩ | ⟨more, comma, _, doneLater⟩
      · rw [closes] at further
        cases further
      · rw [comma] at further
        cases further
        rw [doneLater]
  · next noEnd noComma =>
      rcases goesOn with ⟨closes, _⟩ | ⟨more, comma, _⟩
      · exact (noEnd rest closes).elim
      · exact (noComma more comma).elim

/-- A member with its name, and what comes of the text after it. -/
theorem readsMembers_cons {head : Value} {next : Text} {others : List (Text × Value)}
    {name : Text} (unpaired : Unpaired name)
    (first : Reads room (skipSpace next) head after)
    (goesOn : skipSpace after = .char '\x7d' :: rest ∧ others = [] ∨
      ∃ more, skipSpace after = .char ',' :: more ∧
      ReadsMembers room (skipSpace more) others rest) :
    ReadsMembers room (string name ++ .char ':' :: next) ((name, head) :: others) rest := by
  rw [string_append]
  obtain ⟨shorterName, doneName⟩ := ReadsString.of_flatMap
    (.char '"' :: (name.flatMap escapedChar ++ .char '"' :: .char ':' :: next)) unpaired
    (.char ':' :: next)
  obtain ⟨shorter, done⟩ := first
  have colon : skipSpace (.char ':' :: next) = .char ':' :: next := skipSpace_cons rfl
  have shorterRest := length_lt_of_goesOn
    (goesOn.imp And.left fun ⟨more, comma, shorterLater, _⟩ => ⟨more, comma, shorterLater⟩)
  have shortNext := length_skipSpace_le next
  have shortName := shorterName
  rw [List.length_cons] at shortName
  refine ⟨by rw [List.length_cons]; omega, ?_⟩
  rw [members.eq_1, doneName]
  simp only
  split
  · next same =>
      rw [colon] at same
      cases same
      rw [done]
      simp only
      split
      · next ends =>
          rcases goesOn with ⟨closes, rfl⟩ | ⟨more, comma, _⟩
          · rw [closes] at ends
            cases ends
            rfl
          · rw [comma] at ends
            cases ends
      · next further =>
          rcases goesOn with ⟨closes, rfl⟩ | ⟨more, comma, _, doneLater⟩
          · rw [closes] at further
            cases further
          · rw [comma] at further
            cases further
            rw [doneLater]
      · next noEnd noComma =>
          rcases goesOn with ⟨closes, _⟩ | ⟨more, comma, _⟩
          · exact (noEnd rest closes).elim
          · exact (noComma more comma).elim
  · next other => exact (other next colon).elim

end Reading

end FontScaffold.Json
