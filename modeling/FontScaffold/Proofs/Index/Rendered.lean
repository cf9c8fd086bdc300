import FontScaffold.Proofs.Index.Declaration
import FontScaffold.Proofs.Merge.Unlike
import FontScaffold.Proofs.Outcome

set_option autoImplicit false

namespace FontScaffold

/-- The text has no line end of any kind. -/
def OneLine (text : Text) : Prop :=
  .char '\n' ∉ text ∧ .char '\r' ∉ text

theorem oneLine_append {first second : Text} (left : OneLine first) (right : OneLine second) :
    OneLine (first ++ second) :=
  ⟨by simp [left.1, right.1], by simp [left.2, right.2]⟩

theorem oneLine_flatten {lines : List Text} (each : ∀ line ∈ lines, OneLine line) :
    OneLine lines.flatten := by
  constructor
  · intro member
    obtain ⟨line, inside, here⟩ := List.mem_flatten.mp member
    exact (each line inside).1 here
  · intro member
    obtain ⟨line, inside, here⟩ := List.mem_flatten.mp member
    exact (each line inside).2 here

theorem oneLine_of_identifier {name : Text} (identifier : Index.isIdentifier name) :
    OneLine name :=
  ⟨Index.not_mem_identifier identifier (by decide), Index.not_mem_identifier identifier (by decide)⟩

namespace Json

theorem digitChar_of_mem_toDigits {c : Char} (n : Nat) (member : c ∈ Nat.toDigits 16 n) :
    ∃ d < 16, c = Nat.digitChar d := by
  induction n using Nat.strongRecOn with
  | ind n ih =>
      rw [Nat.toDigits_eq_if (by decide)] at member
      split at member
      · next small => exact ⟨n, small, List.mem_singleton.mp member⟩
      · rcases List.mem_append.mp member with member | member
        · exact ih (n / 16) (by omega) member
        · exact ⟨n % 16, Nat.mod_lt n (by decide), List.mem_singleton.mp member⟩

theorem digitChar_shows : ∀ d < 16, 0x20 ≤ (CodePoint.char (Nat.digitChar d)).toNat := by
  decide

theorem oneLine_hex (width n : Nat) : OneLine (Text.hex width n) := by
  have absent : ∀ c : CodePoint, c.toNat < 0x20 → c ∉ Text.hex width n := by
    intro c control member
    rw [Text.hex, List.mem_append, List.mem_replicate] at member
    rcases member with ⟨_, rfl⟩ | member
    · exact absurd control (by decide)
    · obtain ⟨digit, inside, rfl⟩ := List.mem_map.mp member
      obtain ⟨d, small, rfl⟩ := digitChar_of_mem_toDigits n inside
      exact absurd (digitChar_shows d small) (by omega)
  exact ⟨absent (.char '\n') (by decide), absent (.char '\r') (by decide)⟩

theorem oneLine_unitEscape (unit : Nat) : OneLine (unitEscape unit) :=
  @oneLine_append [.char '\\', .char 'u'] _ ⟨by decide, by decide⟩ (oneLine_hex 4 unit)

theorem oneLine_escapedChar (c : CodePoint) : OneLine (escapedChar c) := by
  have fixed : ∀ d : CodePoint, 0x20 ≤ d.toNat → OneLine [.char '\\', d] := by
    intro d shows
    constructor
    · simp only [List.mem_cons, List.not_mem_nil, or_false, not_or]
      exact ⟨by decide, by rintro rfl; exact absurd shows (by decide)⟩
    · simp only [List.mem_cons, List.not_mem_nil, or_false, not_or]
      exact ⟨by decide, by rintro rfl; exact absurd shows (by decide)⟩
  simp only [escapedChar]
  split
  · exact fixed (.char '"') (by decide)
  split
  · exact fixed (.char '\\') (by decide)
  split
  · exact fixed (.char 'n') (by decide)
  split
  · exact fixed (.char 'r') (by decide)
  split
  · exact fixed (.char 't') (by decide)
  split
  · exact fixed (.char 'f') (by decide)
  split
  · exact fixed (.char 'b') (by decide)
  split
  · next newline return_ _ _ _ _ =>
      exact ⟨by simpa [eq_comm] using newline, by simpa [eq_comm] using return_⟩
  split
  · exact oneLine_unitEscape _
  · exact oneLine_append (oneLine_unitEscape _) (oneLine_unitEscape _)

theorem oneLine_string (text : Text) : OneLine (string text) := by
  have inside : OneLine (text.flatMap escapedChar) := by
    rw [List.flatMap_def]
    apply oneLine_flatten
    intro line member
    obtain ⟨c, _, rfl⟩ := List.mem_map.mp member
    exact oneLine_escapedChar c
  exact @oneLine_append [.char '"'] _ ⟨by decide, by decide⟩
    (oneLine_append inside ⟨by decide, by decide⟩)

theorem oneLine_enclose {opening closing : CodePoint} (left : OneLine [opening])
    (right : OneLine [closing]) {items : List Text} (each : ∀ item ∈ items, OneLine item) :
    OneLine (Style.inline.enclose opening closing items) := by
  have joined : OneLine ([.char ',', .char ' '].intercalate items) := by
    induction items with
    | nil => exact ⟨by decide, by decide⟩
    | cons item items ih =>
        have rest := ih fun other member => each other (List.mem_cons_of_mem item member)
        by_cases last : items = []
        · subst last
          simpa using each item List.mem_cons_self
        · rw [List.intercalate_cons_of_ne_nil last]
          exact oneLine_append (oneLine_append (each item List.mem_cons_self)
            ⟨by decide, by decide⟩) rest
  unfold Style.enclose
  split
  · exact oneLine_append left right
  · exact oneLine_append (oneLine_append (oneLine_append left joined) ⟨by decide, by decide⟩) right

end Json

namespace Font

variable {cwd directory : Text}

theorem oneLine_entry {font : Font} {value : Json.Value}
    (done : entry cwd directory font = .ok value) : OneLine (Json.print .inline value) := by
  unfold entry at done
  rw [bind_eq_ok] at done
  obtain ⟨path, _, same⟩ := done
  cases same
  unfold Json.print
  apply Json.oneLine_enclose ⟨by decide, by decide⟩ ⟨by decide, by decide⟩
  have member : ∀ name text : Text,
      OneLine (Json.string name ++ [.char ':', .char ' '] ++ Json.string text) := fun name text =>
    oneLine_append (oneLine_append (Json.oneLine_string name) ⟨by decide, by decide⟩)
      (Json.oneLine_string text)
  intro item inside
  simp only [Json.printMembers, Json.print, List.mem_cons, List.not_mem_nil, or_false] at inside
  rcases inside with rfl | rfl | rfl <;> exact member _ _

theorem oneLine_printItems {values : List Json.Value}
    (each : ∀ value ∈ values, OneLine (Json.print .inline value)) :
    ∀ item ∈ Json.printItems .inline values, OneLine item := by
  induction values with
  | nil =>
      unfold Json.printItems
      intro item member
      cases member
  | cons value values ih =>
      unfold Json.printItems
      intro item member
      rcases List.mem_cons.mp member with rfl | member
      · exact each value List.mem_cons_self
      · exact ih (fun other inside => each other (List.mem_cons_of_mem value inside)) item member

theorem oneLine_sourceText {fonts : List Font} {text : Text}
    (done : sourceText cwd directory fonts = .ok text) : OneLine text := by
  unfold sourceText at done
  rw [bind_eq_ok] at done
  obtain ⟨value, found, same⟩ := done
  cases same
  unfold source at found
  split at found
  · cases found
  · rw [bind_eq_ok] at found
    obtain ⟨path, _, same⟩ := found
    cases same
    unfold Json.print
    exact Json.oneLine_string path
  · rw [bind_eq_ok] at found
    obtain ⟨values, each, same⟩ := found
    cases same
    unfold Json.print
    apply Json.oneLine_enclose ⟨by decide, by decide⟩ ⟨by decide, by decide⟩
    apply oneLine_printItems
    intro value member
    obtain ⟨font, _, done⟩ := exists_of_mem_forall₂ (forall₂_of_mapM each) member
    exact oneLine_entry done

end Font

namespace Index

open Chunk

def exportStart : Text := "export const ".text

def callStart : Text := " = localfont(\x7b".text

def sourceStart : Text := "  src: ".text

def displayLine : Text := "  display: \"swap\",".text

def listStart : Text := "export default \x7b".text

def exportLine (name : Text) : Text :=
  exportStart ++ name ++ callStart

def sourceLine (source : Text) : Text :=
  sourceStart ++ source ++ [.char ',']

def exportBody (name source : Text) : Text :=
  exportLine name ++ .char '\n' :: (sourceLine source ++
    .char '\n' :: (displayLine ++ .char '\n' :: [.char '\x7d', .char ')']))

theorem namedExport_eq {cwd directory : Text} {family : Family} {text : Text}
    (done : namedExport cwd directory family = .ok text) :
    ∃ source, OneLine source ∧ text = exportBody family.name source ++ [.char '\n'] := by
  unfold namedExport at done
  rw [bind_eq_ok] at done
  obtain ⟨source, found, same⟩ := done
  have head : " = localfont(\x7b\n  src: ".text =
    callStart ++ .char '\n' :: sourceStart := by decide
  have tail : ",\n  display: \"swap\",\n\x7d)\n".text =
      [.char ','] ++ .char '\n' :: (displayLine ++ .char '\n' :: [.char '\x7d', .char ')'] ++
        [.char '\n']) := by decide
  have assembled : ∀ middle ending : Text, middle = callStart ++ .char '\n' :: sourceStart →
      ending = [.char ','] ++ .char '\n' ::
        (displayLine ++ .char '\n' :: [.char '\x7d', .char ')'] ++ [.char '\n']) →
      exportStart ++ family.name ++ middle ++ source ++ ending =
        exportBody family.name source ++ [.char '\n'] := by
    rintro _ _ rfl rfl
    simp only [exportBody, exportLine, sourceLine, List.append_assoc, List.cons_append]
  exact ⟨source, Font.oneLine_sourceText found, (Except.ok.inj same).symm.trans
    (assembled _ _ head tail)⟩

theorem oneLine_exportLine {name : Text} (identifier : isIdentifier name) :
    OneLine (exportLine name) :=
  oneLine_append (oneLine_append ⟨by decide, by decide⟩ (oneLine_of_identifier identifier))
    ⟨by decide, by decide⟩

theorem oneLine_sourceLine {source : Text} (oneLine : OneLine source) :
    OneLine (sourceLine source) :=
  oneLine_append (oneLine_append ⟨by decide, by decide⟩ oneLine) ⟨by decide, by decide⟩

theorem oneLine_displayLine : OneLine displayLine :=
  ⟨by decide, by decide⟩

theorem block_exportBody {name source : Text} (identifier : isIdentifier name)
    (oneLine : OneLine source) : Block (exportBody name source) where
  isOpen := by
    have closing : Open blankLine [.char '\x7d', .char ')'] := open_blankLine_of_not_mem (by decide)
    have display := open_blankLine_append oneLine_displayLine.1 rfl (by decide) closing
    have source := open_blankLine_append (c := .char ' ') (oneLine_sourceLine oneLine).1
      rfl (by decide)
      display
    exact open_blankLine_append (c := .char ' ') (oneLine_exportLine identifier).1 rfl
      (by decide) source
  ends := by
    refine ⟨exportLine name ++ .char '\n' :: (sourceLine source ++ .char '\n' ::
      (displayLine ++ .char '\n' :: [.char '\x7d'])), .char ')', ?_, by decide⟩
    simp only [exportBody, List.append_assoc, List.cons_append, List.nil_append]
  noReturn := by
    simp only [exportBody, List.mem_append, List.mem_cons, List.not_mem_nil, or_false, not_or]
    exact ⟨(oneLine_exportLine identifier).2, by decide, (oneLine_sourceLine oneLine).2, by decide,
      oneLine_displayLine.2, by decide⟩

theorem exportLine_eq (name : Text) :
    exportLine name = (exportWords name).flatMap (· ++ [.char ' ']) ++ "localfont(\x7b".text := by
  have assembled : ∀ first second third fourth : Text,
      exportStart = first ++ [.char ' '] ++ (second ++ [.char ' ']) →
      callStart = [.char ' '] ++ (third ++ [.char ' ']) ++ fourth →
      exportLine name = [first, second, name, third].flatMap (· ++ [.char ' ']) ++ fourth := by
    intro first second third fourth head tail
    rw [exportLine, head, tail]
    simp only [List.flatMap_cons, List.flatMap_nil, List.append_assoc, List.nil_append]
  exact assembled "export".text "const".text "=".text "localfont(\x7b".text (by decide)
    (by decide)

theorem ledBy_exportBody {name : Text} (identifier : isIdentifier name) (source : Text) :
    LedBy (exportWords name) (exportBody name source) := by
  rw [exportBody, LedBy, marked_append, marked_of_not_mem (oneLine_exportLine identifier).1,
    exportLine_eq, List.append_assoc]
  exact ⟨_, rfl⟩

theorem exports_of_namedExport {cwd directory : Text} {family : Family} {text : Text}
    (identifier : isIdentifier family.name) (done : namedExport cwd directory family = .ok text) :
    ∃ body, Block body ∧ LedBy (exportWords family.name) body ∧ text = body ++ [.char '\n'] := by
  obtain ⟨source, oneLine, shape⟩ := namedExport_eq done
  exact ⟨exportBody family.name source, block_exportBody identifier oneLine,
    ledBy_exportBody identifier source, shape⟩

def listLine (name : Text) : Text :=
  .char ' ' :: .char ' ' :: name ++ [.char ',', .char '\n']

def listBody (names : List Text) : Text :=
  listStart ++ .char '\n' :: (names.eraseDups.flatMap listLine ++ [.char '\x7d'])

theorem defaultExport_eq (names : List Text) :
    defaultExport names = listBody names ++ [.char '\n'] := by
  have assembled : ∀ first ending : Text, first = listStart ++ [.char '\n'] →
      ending = [.char '\x7d'] ++ [.char '\n'] →
      first ++ names.eraseDups.flatMap listLine ++ ending = listBody names ++ [.char '\n'] := by
    rintro _ _ rfl rfl
    simp only [listBody, List.append_assoc, List.cons_append, List.nil_append]
  exact assembled _ _ (by decide) (by decide)

theorem open_listLines {names : List Text} (identifiers : ∀ name ∈ names, isIdentifier name) :
    Open blankLine (names.flatMap listLine ++ [.char '\x7d']) ∧
      ∃ c, (names.flatMap listLine ++ [CodePoint.char '\x7d']).head? = some c ∧ c ≠ .char '\n' := by
  induction names with
  | nil => exact ⟨open_blankLine_of_not_mem (by decide), .char '\x7d', rfl, by decide⟩
  | cons name names ih =>
      obtain ⟨isOpen, c, starts, other⟩ :=
        ih fun another member => identifiers another (List.mem_cons_of_mem name member)
      have shape : (name :: names).flatMap listLine ++ [.char '\x7d'] =
          (.char ' ' :: .char ' ' :: name ++ [.char ',']) ++
            .char '\n' :: (names.flatMap listLine ++ [.char '\x7d']) := by
        simp [listLine]
      have plain : .char '\n' ∉ .char ' ' :: .char ' ' :: name ++ [.char ','] := by
        simp [(oneLine_of_identifier (identifiers name List.mem_cons_self)).1]
      rw [shape]
      exact ⟨open_blankLine_append plain starts other isOpen, .char ' ', rfl, by decide⟩

theorem noReturn_listLines {names : List Text} (identifiers : ∀ name ∈ names, isIdentifier name) :
    .char '\r' ∉ names.flatMap listLine := by
  intro member
  obtain ⟨name, inside, here⟩ := List.mem_flatMap.mp member
  have plain := (oneLine_of_identifier (identifiers name inside)).2
  simp [listLine, plain] at here

theorem block_listBody {names : List Text} (identifiers : ∀ name ∈ names, isIdentifier name) :
    Block (listBody names) := by
  have distinct : ∀ name ∈ names.eraseDups, isIdentifier name :=
    fun name member => identifiers name (List.mem_eraseDups.mp member)
  obtain ⟨isOpen, c, starts, other⟩ := open_listLines distinct
  refine ⟨open_blankLine_append (by decide) starts other isOpen,
    ⟨listStart ++ .char '\n' :: names.eraseDups.flatMap listLine, .char '\x7d', ?_, by decide⟩, ?_⟩
  · simp only [listBody, List.append_assoc, List.cons_append]
  · simp only [listBody, List.mem_append, List.mem_cons, List.not_mem_nil, or_false, not_or]
    exact ⟨by decide, by decide, noReturn_listLines distinct, by decide⟩

theorem ledBy_listBody (names : List Text) : LedBy listWords (listBody names) := by
  have plain : .char '\n' ∉ listStart := by decide
  have words : listStart ++ marked [.char '\n'] = listWords.flatMap (· ++ [.char ' ']) := by decide
  have first : ∀ rest : Text, .char '\n' :: rest = [.char '\n'] ++ rest := fun _ => rfl
  rw [listBody, LedBy, first, marked_append, marked_append, marked_of_not_mem plain,
    ← List.append_assoc, words]
  exact ⟨_, rfl⟩

theorem lists_defaultExport {names : List Text} (identifiers : ∀ name ∈ names, isIdentifier name) :
    Lists (defaultExport names) := by
  have block := block_listBody identifiers
  refine ⟨listBody names, block, ledBy_listBody names, ?_⟩
  rw [defaultExport_eq, block.complete_line]

end Index

end FontScaffold
