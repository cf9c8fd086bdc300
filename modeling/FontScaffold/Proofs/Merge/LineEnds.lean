import FontScaffold.Proofs.Chunk.BlankLine
import FontScaffold.Proofs.Chunk.Match
import FontScaffold.Proofs.Merge.Record

set_option autoImplicit false

namespace FontScaffold.Merge

open Chunk

/-- The old and the new positions that a merge pairs. -/
def pairs (outcome : Merge) : List (Nat × Nat) :=
  outcome.replaced.map fun pair => (pair.old, pair.new)

def pairsFrom (start : Nat) : List (Option NewChunk) → List (Nat × Nat)
  | [] => []
  | choice :: rest =>
      (choice.map fun fresh => (start, fresh.index)).toList ++ pairsFrom (start + 1) rest

/-- The first new chunk that matches the old one. -/
def firstFit (matcher : Matcher) (separator new old : Text) : Option NewChunk :=
  (newChunks separator new).find? fun fresh => matcher.accepts separator fresh.text old

variable {matcher : Matcher} {separator existing new : Text}

section Pairs

theorem le_of_mem_pairsFrom {choices : List (Option NewChunk)} {start : Nat} {pair : Nat × Nat}
    (member : pair ∈ pairsFrom start choices) : start ≤ pair.1 := by
  induction choices generalizing start with
  | nil => cases member
  | cons choice choices ih =>
      rcases List.mem_append.mp member with here | later
      · rw [Option.mem_toList, Option.map_eq_some_iff] at here
        obtain ⟨fresh, _, rfl⟩ := here
        exact Nat.le_refl start
      · have bound := ih later
        omega

theorem filterMap_zip {olds : List Text} {choices : List (Option NewChunk)}
    (length : choices.length = olds.length) (start : Nat) :
    (((List.zip olds choices).zipIdx start).filterMap fun slot =>
      slot.1.2.map fun fresh => (slot.2, fresh.index)) = pairsFrom start choices := by
  induction olds generalizing choices start with
  | nil =>
      rw [List.eq_nil_of_length_eq_zero length]
      rfl
  | cons old olds ih =>
      cases choices with
      | nil => cases length
      | cons choice choices =>
          have rest := ih (Nat.succ.inj length) (start + 1)
          rw [List.zip_cons_cons, List.zipIdx_cons, List.filterMap_cons, pairsFrom, ← rest]
          cases choice <;> rfl

theorem pairs_merge :
    (merge matcher separator existing new).pairs =
      pairsFrom 0 (pairing matcher separator existing new).1 := by
  have length := (paired_pairing matcher separator existing new).length_eq
  rw [← filterMap_zip length, pairs, replaced_merge, replacements, List.map_filterMap]
  congr 1
  funext slot
  rw [Option.map_map]
  rfl

theorem pair_congr {olds others : List Text}
    (alike : List.Forall₂ (fun old other => ∀ fresh,
      matcher.accepts separator fresh old = matcher.accepts separator fresh other) olds others)
    (free : List NewChunk) :
    pair matcher separator olds free = pair matcher separator others free := by
  induction alike generalizing free with
  | nil => rfl
  | cons same _ ih => simp only [pair, same, ih]

theorem firstFit_eq_of_index_eq {old other : Text}
    (same : (firstFit matcher separator new old).map NewChunk.index =
      (firstFit matcher separator new other).map NewChunk.index) :
    firstFit matcher separator new old = firstFit matcher separator new other := by
  cases left : firstFit matcher separator new old with
  | none =>
      rw [left, Option.map_none, eq_comm, Option.map_eq_none_iff] at same
      exact same.symm
  | some fresh =>
      rw [left, Option.map_some, eq_comm, Option.map_eq_some_iff] at same
      obtain ⟨another, right, index⟩ := same
      rw [right, eq_of_index_eq (List.mem_of_find?_eq_some right) (List.mem_of_find?_eq_some left)
        index]

def firstPair (choice : Option NewChunk) : List (Nat × Nat) :=
  (choice.map fun fresh => (0, fresh.index)).toList

theorem index_eq_of_firstPair_eq {choice other : Option NewChunk}
    (same : firstPair choice = firstPair other) :
    choice.map NewChunk.index = other.map NewChunk.index := by
  cases choice <;> cases other <;> simp_all [firstPair]

theorem pairs_of_split {first : Text} {rest : List Text}
    (cut : Chunk.split separator existing = first :: rest) :
    ∃ later, (merge matcher separator existing new).pairs =
        firstPair (firstFit matcher separator new first) ++ later ∧
      (rest = [] → later = []) ∧ ∀ pair ∈ later, 1 ≤ pair.1 := by
  rw [pairs_merge, pairing, cut]
  refine ⟨_, rfl, ?_, fun pair member => le_of_mem_pairsFrom member⟩
  rintro rfl
  rfl

/-- A text that is one chunk has the pairs of another exactly if only the first chunk of this other
has a part in any, and gives way to the same new chunk. -/
theorem pairs_eq_iff_of_single {single : Text}
    (whole : Chunk.split separator single = [single]) :
    (merge matcher separator single new).pairs = (merge matcher separator existing new).pairs ↔
      (∀ pair ∈ (merge matcher separator existing new).pairs, pair.1 = 0) ∧
        firstFit matcher separator new ((Chunk.split separator existing).headD []) =
          firstFit matcher separator new single := by
  obtain ⟨first, rest, cut⟩ := List.exists_cons_of_ne_nil (Chunk.split_ne_nil separator existing)
  obtain ⟨none, alone, empty, _⟩ := @pairs_of_split matcher _ _ new _ _ whole
  obtain ⟨later, shape, _, behind⟩ := @pairs_of_split matcher _ _ new _ _ cut
  rw [empty rfl, List.append_nil] at alone
  rw [alone, shape, cut, List.headD_cons]
  have noneBehind : (∀ pair ∈ firstPair (firstFit matcher separator new first) ++ later,
      pair.1 = 0) → later = [] := by
    intro atFirst
    rw [List.eq_nil_iff_forall_not_mem]
    intro pair member
    have zero := atFirst pair (List.mem_append_right _ member)
    have one := behind pair member
    omega
  constructor
  · intro same
    have atFirst : ∀ pair ∈ firstPair (firstFit matcher separator new first) ++ later,
        pair.1 = 0 := by
      rw [← same]
      intro pair member
      rw [firstPair, Option.mem_toList, Option.map_eq_some_iff] at member
      obtain ⟨fresh, _, rfl⟩ := member
      rfl
    rw [noneBehind atFirst, List.append_nil] at same
    exact ⟨atFirst, firstFit_eq_of_index_eq (index_eq_of_firstPair_eq same.symm)⟩
  · rintro ⟨atFirst, same⟩
    rw [noneBehind atFirst, List.append_nil, same]

end Pairs

section LineEnds

/-- Under at most one LF a chunk and its copy match the same new chunks. -/
theorem forall₂_accepts_toCrLf {body : Text} (feeds : ∀ c ∈ separator, c = .char '\n')
    (few : separator.length ≤ 1) (plain : .char '\r' ∉ body) :
    List.Forall₂ (fun old other => ∀ fresh, Matcher.standard.accepts separator fresh old =
        Matcher.standard.accepts separator fresh other)
      (Chunk.split separator (toCrLf body)) (Chunk.split separator body) := by
  match separator, few with
  | [], _ =>
      rw [Chunk.split_whole, Chunk.split_whole]
      exact .cons (fun fresh => Matcher.accepts_congr rfl (tokens_nil_toCrLf plain)) .nil
  | [mark], _ =>
      obtain rfl := feeds mark List.mem_cons_self
      rw [split_toCrLf_feed, List.forall₂_map_left_iff, List.forall₂_same]
      intro chunk member fresh
      have nonempty : [CodePoint.char '\n'] ≠ [] := List.cons_ne_nil _ _
      exact Matcher.accepts_congr rfl (tokens_feed_toCrLf ((cut_split nonempty body).whole member))

/-- CR LF for LF in the existing text leaves the pairs of a merge as they are exactly if the
separator is one LF at most, or if of the chunks of the text only the first has a part in any, and
gives way to the new chunk that the whole text gives way to. -/
theorem pairs_toCrLf_iff {body : Text} (feeds : ∀ c ∈ separator, c = .char '\n')
    (plain : .char '\r' ∉ body)
    (new : Text) :
    (merge Matcher.standard separator (toCrLf body) new).pairs =
        (merge Matcher.standard separator body new).pairs ↔
      separator.length ≤ 1 ∨
        (∀ pair ∈ (merge Matcher.standard separator body new).pairs, pair.1 = 0) ∧
          firstFit Matcher.standard separator new ((Chunk.split separator body).headD []) =
            firstFit Matcher.standard separator new (toCrLf body) := by
  by_cases few : separator.length ≤ 1
  · refine iff_of_true ?_ (Or.inl few)
    rw [pairs_merge, pairs_merge, pairing, pairing,
      pair_congr (forall₂_accepts_toCrLf feeds few plain)]
  · rw [pairs_eq_iff_of_single (split_toCrLf_of_feeds feeds (by omega) body), or_iff_right few]

def threeLines : Text := "import a\nexport const A = 1\nexport const B = 1".text

theorem pairs_of_lines_stay :
    (merge Matcher.standard [.char '\n'] threeLines
    "export const B = 2\nexport const A = 2".text).pairs =
        [(1, 1), (2, 0)] ∧
      (merge Matcher.standard [.char '\n'] (toCrLf threeLines)
        "export const B = 2\nexport const A = 2".text).pairs = [(1, 1), (2, 0)] := by
  have lines : (merge Matcher.standard [.char '\n'] threeLines
      "export const B = 2\nexport const A = 2".text).pairs = [(1, 1), (2, 0)] := by
    decide +kernel
  refine ⟨lines, ?_⟩
  rw [← lines]
  exact (pairs_toCrLf_iff (by simp) (by decide) _).mpr (Or.inl (by decide))

/-- With CR LF the blank line before a declaration separates nothing, and the declaration is not
found. -/
theorem pair_lost_with_crLf :
    .char '\r' ∉ "import a\n\nexport const A = 1\n".text ∧
      (merge Matcher.standard blankLine "import a\n\nexport const A = 1\n".text
        "export const A = 2\n".text).pairs = [(1, 0)] ∧
      (merge Matcher.standard blankLine (toCrLf "import a\n\nexport const A = 1\n".text)
        "export const A = 2\n".text).pairs = [] := by
  decide +kernel

end LineEnds

end FontScaffold.Merge
