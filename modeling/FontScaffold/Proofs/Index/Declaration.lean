import FontScaffold.Index
import FontScaffold.Proofs.Chunk.Alike
import FontScaffold.Proofs.Chunk.BlankLine

set_option autoImplicit false

namespace FontScaffold.Chunk

/-- A piece between spaces that counts as a token just as it is. -/
structure Word (text : Text) : Prop where
  visible : text ≠ []
  noSpace : .char ' ' ∉ text
  bare : text.any isPunctuation = false

theorem Word.not_punctuation {text : Text} (word : Word text) {c : CodePoint} (member : c ∈ text) :
    isPunctuation c ≠ true :=
  List.any_eq_false.mp word.bare c member

theorem Word.trim_eq {text : Text} (word : Word text) : Text.trim isPunctuation text = text := by
  have front : text.dropWhile isPunctuation = text := by
    rw [List.dropWhile_eq_self_iff]
    intro some
    exact word.not_punctuation (List.getElem_mem _)
  have back : text.reverse.dropWhile isPunctuation = text.reverse := by
    rw [List.dropWhile_eq_self_iff]
    intro some
    exact word.not_punctuation (List.mem_reverse.mp (List.getElem_mem _))
  rw [Text.trim, front, Text.trimEnd, back, List.reverse_reverse]

theorem trimmed_words {leading : List Text} (proper : ∀ word ∈ leading, Word word) :
    (leading.map (Text.trim isPunctuation)).filter (· ≠ []) = leading := by
  rw [List.map_congr_left fun word member => (proper word member).trim_eq, List.map_id',
    List.filter_eq_self]
  intro word member
  simpa using (proper word member).visible

/-- The text with its line ends as words of their own. -/
def marked (text : Text) : Text :=
  Text.replaceChar (.char '\n') (.char ' ' :: lineBreak ++ [.char ' ']) text

theorem marked_append (first second : Text) :
    marked (first ++ second) = marked first ++ marked second :=
  Text.replaceChar_append ..

theorem marked_of_not_mem {text : Text} (plain : .char '\n' ∉ text) : marked text = text :=
  Text.replaceChar_of_not_mem plain _

/-- Words with a space behind each come first in the text. -/
def LedBy (leading : List Text) (body : Text) : Prop :=
  ∃ rest, marked body = leading.flatMap (· ++ [.char ' ']) ++ rest

theorem splitOn_leading {leading : List Text} (proper : ∀ word ∈ leading, Word word)
    (rest : Text) :
    (leading.flatMap (· ++ [CodePoint.char ' ']) ++ rest).splitOn (.char ' ') =
    leading ++ rest.splitOn (.char ' ') := by
  induction leading with
  | nil => rfl
  | cons word leading ih =>
      rw [List.flatMap_cons, List.append_assoc, List.append_assoc, List.singleton_append,
        List.splitOn_append_cons_self_of_not_mem (proper word List.mem_cons_self).noSpace,
        ih fun other member => proper other (List.mem_cons_of_mem word member)]
      rfl

/-- The chunk is a copy of a block that the words lead. -/
def Declares (leading : List Text) (chunk : Text) : Prop :=
  ∃ body, Block body ∧ LedBy leading body ∧ complete blankLine chunk = body ++ blankLine

theorem Declares.copy {leading : List Text} {chunk other : Text}
    (declares : Declares leading chunk)
    (same : complete blankLine other = complete blankLine chunk) : Declares leading other := by
  obtain ⟨body, block, led, shape⟩ := declares
  exact ⟨body, block, led, same.trans shape⟩

theorem Declares.apart {leading : List Text} {chunk : Text}
    (declares : Declares leading chunk) : Apart blankLine chunk := by
  obtain ⟨body, block, _, copy⟩ := declares
  exact block.apart_of_complete copy

theorem Declares.ne_nil {leading : List Text} {chunk : Text}
    (declares : Declares leading chunk) : chunk ≠ [] := by
  obtain ⟨body, block, _, copy⟩ := declares
  obtain ⟨front, last, rfl, _⟩ := block.ends
  rcases eq_of_complete_eq copy with rfl | rfl | rfl <;> simp

/-- A declaration's tokens are the words that lead it, as many as are looked at. -/
theorem Declares.tokens_eq {leading : List Text} {chunk : Text}
    (declares : Declares leading chunk) (four : leading.length = 4)
    (proper : ∀ word ∈ leading, Word word) : tokens blankLine chunk = leading := by
  obtain ⟨body, block, ⟨rest, led⟩, copy⟩ := declares
  obtain ⟨tail, small, bare⟩ := block.dropSeparator_copy copy
  have noReturn : .char '\r' ∉ body ++ tail := by
    rw [List.mem_append, not_or]
    refine ⟨block.noReturn, ?_⟩
    rcases small with rfl | rfl <;> decide
  have cut : words blankLine chunk = leading ++ (rest ++ marked tail).splitOn (.char ' ') := by
    rw [words, bare, Text.trimEnd_of_not_mem noReturn, joinCrLf_of_not_mem noReturn]
    change (marked (body ++ tail)).splitOn (.char ' ') = _
    rw [marked_append, led, List.append_assoc, splitOn_leading proper]
  have first : takeInt wordLimit (words blankLine chunk) = leading := by
    rw [cut]
    change (leading ++ _).take 4 = leading
    rw [← four, List.take_left]
  rw [tokens, tokensUpTo, first, trimmed_words proper]

end FontScaffold.Chunk

namespace FontScaffold.Index

open Chunk

def isIdentifierStart : CodePoint → Bool
  | .char c => c.isAlpha || c == '_' || c == '$'
  | .lone _ => false

/-- An ASCII letter, an underscore or a dollar sign, and then digits as well. -/
def isIdentifier : Text → Bool
  | [] => false
  | first :: rest => isIdentifierStart first && rest.all fun c => isIdentifierStart c || c.isDigit

/-- An identifier that is none of the two words in front of it. -/
structure IsName (name : Text) : Prop where
  identifier : isIdentifier name
  notExport : name ≠ "export".text
  notConst : name ≠ "const".text

theorem char_of_identifier {name : Text} (identifier : isIdentifier name) {c : CodePoint}
    (member : c ∈ name) : isIdentifierStart c || c.isDigit := by
  cases name with
  | nil => cases member
  | cons first rest =>
      simp only [isIdentifier, Bool.and_eq_true, List.all_eq_true] at identifier
      rcases List.mem_cons.mp member with rfl | member
      · rw [identifier.1]
        rfl
      · exact identifier.2 c member

theorem not_mem_identifier {name : Text} (identifier : isIdentifier name) {c : CodePoint}
    (foreign : (isIdentifierStart c || c.isDigit) = false) : c ∉ name := by
  intro member
  have proper := char_of_identifier identifier member
  rw [foreign] at proper
  cases proper

theorem word_of_identifier {name : Text} (identifier : isIdentifier name) : Word name where
  visible := by
    intro same
    subst same
    cases identifier
  noSpace := not_mem_identifier identifier (by decide)
  bare := by
    rw [List.any_eq_false]
    intro c member
    rw [isPunctuation, Bool.or_eq_true, beq_iff_eq, beq_iff_eq, not_or]
    constructor
    · intro same
      subst same
      exact not_mem_identifier identifier (by decide) member
    · intro same
      subst same
      exact not_mem_identifier identifier (by decide) member

def exportWords (name : Text) : List Text :=
  ["export".text, "const".text, name, "=".text]

def listWords : List Text :=
  ["export".text, "default".text, "\x7b".text, lineBreak]

theorem word_of_mem_exportWords {name : Text} (identifier : isIdentifier name) :
    ∀ word ∈ exportWords name, Word word := by
  intro word member
  simp only [exportWords, List.mem_cons, List.not_mem_nil, or_false] at member
  rcases member with rfl | rfl | rfl | rfl
  · exact ⟨by decide, by decide, by decide⟩
  · exact ⟨by decide, by decide, by decide⟩
  · exact word_of_identifier identifier
  · exact ⟨by decide, by decide, by decide⟩

theorem word_of_mem_listWords : ∀ word ∈ listWords, Word word := by
  intro word member
  simp only [listWords, List.mem_cons, List.not_mem_nil, or_false] at member
  rcases member with rfl | rfl | rfl | rfl <;> exact ⟨by decide, by decide, by decide⟩

def Exports (name chunk : Text) : Prop :=
  Declares (exportWords name) chunk

def Lists (chunk : Text) : Prop :=
  Declares listWords chunk

section Matching

variable {name other first second : Text}

theorem tokenSet_of_exports (isName : IsName name) (exports : Exports name first) :
    tokenSet blankLine first = (exportWords name).toFinset := by
  rw [tokenSet, Declares.tokens_eq exports rfl (word_of_mem_exportWords isName.identifier)]

theorem tokenSet_of_lists (lists : Lists first) :
    tokenSet blankLine first = listWords.toFinset := by
  rw [tokenSet, Declares.tokens_eq lists rfl word_of_mem_listWords]

theorem IsName.ne_equals (isName : IsName name) : name ≠ "=".text := by
  intro same
  subst same
  exact absurd isName.identifier (by decide)

theorem IsName.ne_lineBreak (isName : IsName name) : name ≠ lineBreak := by
  intro same
  subst same
  exact absurd isName.identifier (by decide)

theorem nodup_exportWords (isName : IsName name) : (exportWords name).Nodup := by
  rw [exportWords, List.nodup_cons, List.nodup_cons, List.nodup_cons]
  simp only [List.mem_cons, List.not_mem_nil, or_false, not_or]
  exact ⟨⟨by decide, isName.notExport.symm, by decide⟩, ⟨isName.notConst.symm, by decide⟩,
    isName.ne_equals, List.nodup_singleton _⟩

theorem card_exportWords (isName : IsName name) : (exportWords name).toFinset.card = 4 :=
  List.toFinset_card_of_nodup (nodup_exportWords isName)

theorem card_of_exports (isName : IsName name) (exports : Exports name first) :
    (tokenSet blankLine first).card = 4 := by
  rw [tokenSet_of_exports isName exports]
  exact card_exportWords isName

theorem card_of_lists (lists : Lists first) : (tokenSet blankLine first).card = 4 := by
  rw [tokenSet_of_lists lists]
  decide

theorem mem_exportWords_iff (isName : IsName name) : name ∈ exportWords other ↔ name = other := by
  simp only [exportWords, List.mem_cons, List.not_mem_nil, or_false, isName.notExport,
    isName.notConst, isName.ne_equals, false_or]

theorem accepts_exports_iff (isName : IsName name) (another : IsName other)
    (left : Exports name first) (right : Exports other second) :
    Matcher.standard.accepts blankLine first second ↔ name = other := by
  rw [Matcher.accepts_iff_eq_of_four (card_of_exports isName left) (card_of_exports another right),
    tokenSet_of_exports isName left, tokenSet_of_exports another right]
  constructor
  · intro same
    have own : name ∈ (exportWords name).toFinset := by simp [exportWords]
    rwa [same, List.mem_toFinset, mem_exportWords_iff isName] at own
  · rintro rfl
    rfl

theorem accepts_lists (left : Lists first) (right : Lists second) :
    Matcher.standard.accepts blankLine first second := by
  rw [Matcher.accepts_iff_eq_of_four (card_of_lists left) (card_of_lists right),
    tokenSet_of_lists left, tokenSet_of_lists right]

theorem not_accepts_exports_lists (isName : IsName name) (left : Exports name first)
    (right : Lists second) : ¬Matcher.standard.accepts blankLine first second := by
  rw [Matcher.accepts_iff_eq_of_four (card_of_exports isName left) (card_of_lists right),
    tokenSet_of_exports isName left, tokenSet_of_lists right]
  intro same
  have const : "const".text ∈ (exportWords name).toFinset := by simp [exportWords]
  rw [same] at const
  exact absurd const (by decide)

theorem not_accepts_lists_exports (isName : IsName name) (left : Lists first)
    (right : Exports name second) : ¬Matcher.standard.accepts blankLine first second := by
  rw [Matcher.accepts_comm]
  exact not_accepts_exports_lists isName right left

end Matching

end FontScaffold.Index
