import FontScaffold.Proofs.Layout.Update
import FontScaffold.Proofs.Tree.Replaceable

set_option autoImplicit false

namespace FontScaffold

namespace Insertion

theorem windowMisuse_of_fits {size : Int} (natural : 0 ≤ size) (fits : size < windowLimit) :
    windowMisuse? size = none := by
  have limit : (0 : Int) < windowLimit := by decide
  rw [windowMisuse?, if_neg (by omega), if_neg (by omega)]

theorem windowMisuse_of_tooLarge {size : Int} (large : windowLimit ≤ size) :
    windowMisuse? size = some .windowTooLarge := by
  rw [windowMisuse?, if_pos (Or.inr large)]

variable {accepts : LinePredicate} {cwd path text : Text} {bytes : Bytes} {temporary : Location}
  {tree opened : Tree} {size : Int} {left : accepts.Memory × Tree}

theorem encodes_spliced {block : Text} {written : Bytes}
    (encoded : Utf8.encode block = .ok written) (decoded : Utf8.decode bytes = .ok text)
    {before behind : List Text} {line : Text} (cut : Text.lines text = before ++ line :: behind) :
    ∃ whole, Utf8.encode (before.flatten ++ block ++ (line :: behind).flatten) = .ok whole := by
  have parts := Utf8.decode_eq_ok.mp decoded
  rw [← Text.flatten_lines text, cut, List.flatten_append] at parts
  obtain ⟨first, last, front, back, _⟩ := Utf8.encode_append_eq_ok.mp parts
  have above := Utf8.encode_append_eq_ok.mpr ⟨first, written, front, encoded, rfl⟩
  exact ⟨_, Utf8.encode_append_eq_ok.mpr ⟨_, last, above, back, rfl⟩⟩

/-- A line is accepted: the block stands in front of the first such line, and no line behind it has
been judged. -/
theorem run_of_chooses {block : Text} {written : Bytes}
    (encoded : Utf8.encode block = .ok written) (found : tree.read cwd path = .ok bytes)
    (decoded : Utf8.decode bytes = .ok text)
    (created : tree.createTemporary cwd path = .ok (temporary, opened))
    (fits : windowMisuse? size = none) {before behind : List Text} {line : Text}
    (cut : Text.lines text = before ++ line :: behind)
    (chooses : accepts.Chooses (accepts.start, opened) (sightingsAfter size.toNat [] before)
      (.after size.toNat before line) left)
    (undisturbed : left.2.Undisturbed cwd path bytes temporary) :
    ∃ replaced, run cwd path block accepts size tree =
        (⟨sightingsAfter size.toNat [] (before ++ [line]), .ok true⟩, replaced) ∧
      Tree.Installed (left.2.erase temporary) replaced cwd path
        (before.flatten ++ block ++ (line :: behind).flatten) := by
  have passed := pass_of_chooses encoded behind chooses
  rw [window_nil] at passed
  obtain ⟨proper, _, _⟩ := Tree.createTemporary_eq_ok created
  obtain ⟨whole, copied⟩ := encodes_spliced encoded decoded cut
  have ready := undisturbed.ready_write proper whole
  obtain ⟨replaced, committed⟩ := ready.exists_commit undisturbed.grounded undisturbed.reads
  refine ⟨replaced, ?_, whole, copied, ready.commit committed⟩
  have installed : left.2.install cwd temporary path
      (before.flatten ++ block ++ (line :: behind).flatten) = .ok replaced := by
    rw [Tree.install, copied]
    exact committed
  have lines : incoming bytes = (before ++ line :: behind, none) :=
    incoming_eq_iff.mpr ⟨text, decoded, cut.symm⟩
  unfold run
  simp only [found, created, fits, lines]
  rw [show 1 = ([] : List Text).length + 1 from rfl, passed]
  simp only [installed]

/-- A block that cannot be written is met where it should go in, and the copy goes. -/
theorem run_of_chooses_unencodable {block : Text} {fault : Utf8.EncodeFault}
    (failed : Utf8.encode block = .error fault) (found : tree.read cwd path = .ok bytes)
    (decoded : Utf8.decode bytes = .ok text)
    (created : tree.createTemporary cwd path = .ok (temporary, opened))
    (fits : windowMisuse? size = none) {before behind : List Text} {line : Text}
    (cut : Text.lines text = before ++ line :: behind)
    (chooses : accepts.Chooses (accepts.start, opened) (sightingsAfter size.toNat [] before)
      (.after size.toNat before line) left) :
    run cwd path block accepts size tree =
      (⟨sightingsAfter size.toNat [] (before ++ [line]), .error (.misuse (.unencodable fault))⟩,
        left.2.erase temporary) := by
  have passed := pass_of_chooses_unencodable failed behind chooses
  rw [window_nil] at passed
  have lines : incoming bytes = (before ++ line :: behind, none) :=
    incoming_eq_iff.mpr ⟨text, decoded, cut.symm⟩
  unfold run
  simp only [found, created, fits, lines]
  rw [show 1 = ([] : List Text).length + 1 from rfl, passed]
  rfl

theorem run_of_refuses (block : Text) (found : tree.read cwd path = .ok bytes)
    (decoded : Utf8.decode bytes = .ok text)
    (created : tree.createTemporary cwd path = .ok (temporary, opened))
    (fits : windowMisuse? size = none)
    (refuses : accepts.Refuses (accepts.start, opened) (sightings size.toNat text) left) :
    run cwd path block accepts size tree =
      (⟨sightings size.toNat text, .ok false⟩, left.2.erase temporary) := by
  have passed := pass_of_refuses block refuses
  rw [window_nil] at passed
  unfold run
  simp only [found, created, fits, incoming_eq_iff.mpr ⟨text, decoded, rfl⟩]
  rw [show 1 = ([] : List Text).length + 1 from rfl, passed]
  rfl

theorem run_of_tooLarge (accepts : LinePredicate) (block : Text)
    (found : tree.read cwd path = .ok bytes)
    (created : tree.createTemporary cwd path = .ok (temporary, opened))
    (large : windowLimit ≤ size) :
    run cwd path block accepts size tree =
      (⟨[], .error (.misuse .windowTooLarge)⟩, tree) := by
  unfold run
  simp only [found, created, windowMisuse_of_tooLarge large, Tree.erase_opened created]

end Insertion

namespace File

variable {settings : Settings} {before : Workspace} {path text : Text} {bytes : Bytes}
  {temporary : Location} {opened : Tree}

/-- What an insertion below the imports comes to in a file that holds `text`. Where there is a
boundary the block goes in before the first one, unless it cannot be written; else it stays out. -/
structure GoesBelowImports (settings : Settings) (path block text : Text) (before : Workspace) :
    Prop where
  out : (∀ above line below, Text.lines text = above ++ line :: below →
      ¬Layout.IsBoundary above line) →
    ∃ after, insertBelowImports settings path block before = .ok false after ∧
      after.tree = before.tree
  goesIn : ∀ above line below, Text.lines text = above ++ line :: below →
    Layout.IsBoundary above line → ∀ written, Utf8.encode block = .ok written →
    ∃ after final, insertBelowImports settings path block before = .ok true after ∧
      Layout.InsertedBelowImports block text final ∧
      Tree.Installed before.tree after.tree settings.workingDirectory path final
  fails : ∀ above line below, Text.lines text = above ++ line :: below →
    Layout.IsBoundary above line → ∀ fault, Utf8.encode block = .error fault →
    ∃ after, insertBelowImports settings path block before =
      .error (.misuse (.unencodable fault)) after ∧ after.tree = before.tree

theorem goesBelowImports (grounded : before.tree.Grounded)
    (found : before.tree.read settings.workingDirectory path = .ok bytes)
    (decoded : Utf8.decode bytes = .ok text)
    (created : before.tree.createTemporary settings.workingDirectory path = .ok (temporary, opened))
    (block : Text) : GoesBelowImports settings path block text before := by
  have undisturbed := Tree.undisturbed_opened grounded found created
  have noMisuse : Insertion.windowMisuse? 1 = none := rfl
  rcases (LinePredicate.ofBool Sighting.endsImports).refuses_or (1 : Int).toNat [] (Text.lines text)
      ((), opened) with
    ⟨left, refuses⟩ | ⟨above, line, below, next, cut, refuses,
      ⟨left, accepted⟩ | ⟨cause, _, failed⟩⟩
  · have none : ∀ above line below, Text.lines text = above ++ line :: below →
        ¬Layout.IsBoundary above line := by
      intro above line below cut isBoundary
      have refused := (LinePredicate.refuses_ofBool_iff.mp refuses).1 _
        (cut ▸ after_mem_sightingsAfter 1 above line below)
      rw [Layout.endsImports_after_iff.mpr isBoundary] at refused
      cases refused
    refine ⟨fun _ => ?_, ?_, ?_⟩
    · obtain ⟨after, done⟩ := insertBelowImports_of_run
        (Insertion.run_of_refuses block found decoded created noMisuse refuses)
      exact ⟨after, done, (allOrNothing_insertBelowImports.declined _ _ _ done rfl).tree⟩
    · exact fun above line below cut isBoundary => (none above line below cut isBoundary).elim
    · exact fun above line below cut isBoundary => (none above line below cut isBoundary).elim
  · obtain ⟨_, rfl⟩ := LinePredicate.refuses_ofBool_iff.mp refuses
    obtain ⟨ends, rfl⟩ := LinePredicate.judge_ofBool_eq_ok.mp accepted
    refine ⟨fun none => ?_, ?_, ?_⟩
    · exact (none above line below cut (Layout.endsImports_after_iff.mp ends)).elim
    · intro _ _ _ _ _ written encoded
      obtain ⟨_, ran, _⟩ := Insertion.run_of_chooses encoded found decoded created noMisuse cut
        ⟨_, refuses, accepted⟩ undisturbed
      obtain ⟨after, done⟩ := insertBelowImports_of_run ran
      obtain ⟨_, final, ⟨original, holds, spliced⟩, installed⟩ :=
        allOrNothing_insertBelowImports.wrote _ _ _ done rfl
      obtain rfl := holds.unique ⟨bytes, found, decoded⟩
      exact ⟨after, final, done, Layout.insertedBelowImports_of_spliced spliced, installed⟩
    · intro _ _ _ _ _ fault failed
      have ran := Insertion.run_of_chooses_unencodable failed found decoded created noMisuse cut
        ⟨_, refuses, accepted⟩
      have done : insertBelowImports settings path block before = .error _ _ :=
        Edit.bind_eq_error.mpr (Or.inl (insertBlock_of_run_error ran))
      exact ⟨_, done, (allOrNothing_insertBelowImports.failed _ _ _ done).tree⟩
  · cases failed

/-- In a file that is text, and beside which a file can be made, an insertion whose window fits into
64 bits with a sign tells its predicate of one line after another, up to the first that it accepts,
or of all. It replaces the file by its text with the block in front of that line, as long as the
predicate has left the file, the copy and the way to them alone, or lets it be; a block with a lone
surrogate cannot be written, and the copy goes. A predicate that answers every time does come to
accept a line or refuse all, whatever it remembers. A larger window is refused before any line is
judged. With the rule for imports the block goes in before the first blank line that follows an
import. -/
theorem insertion_splices (settings : Settings) (path : Text) (before : Workspace)
    (grounded : before.tree.Grounded)
    (found : before.tree.read settings.workingDirectory path = .ok bytes)
    (decoded : Utf8.decode bytes = .ok text)
    (created :
      before.tree.createTemporary settings.workingDirectory path = .ok (temporary, opened)) :
    (∀ block (accepts : LinePredicate) (size : Int), 0 ≤ size →
      let told := sightings size.toNat text
      let ended := Insertion.run settings.workingDirectory path block accepts size before.tree
      (size < Insertion.windowLimit →
        (∀ above line below left, Text.lines text = above ++ line :: below →
          accepts.Chooses (accepts.start, opened) (sightingsAfter size.toNat [] above)
            (.after size.toNat above line) left →
          let asked := sightingsAfter size.toNat [] (above ++ [line])
          (∀ written, Utf8.encode block = .ok written →
            left.2.Undisturbed settings.workingDirectory path bytes temporary →
            ∃ replaced, ended = (⟨asked, .ok true⟩, replaced) ∧
              Tree.Installed (left.2.erase temporary) replaced settings.workingDirectory path
                (above.flatten ++ block ++ (line :: below).flatten)) ∧
          ∀ fault, Utf8.encode block = .error fault →
            ended = (⟨asked, .error (.misuse (.unencodable fault))⟩, left.2.erase temporary)) ∧
        (∀ left, accepts.Refuses (accepts.start, opened) told left →
          left.2.Undisturbed settings.workingDirectory path bytes temporary →
          ended = (⟨told, .ok false⟩, left.2.erase temporary) ∧
            ended.2.read settings.workingDirectory path = .ok bytes) ∧
        (accepts.Answers →
          (∃ left, accepts.Refuses (accepts.start, opened) told left) ∨
            ∃ above line below left, Text.lines text = above ++ line :: below ∧
              accepts.Chooses (accepts.start, opened) (sightingsAfter size.toNat [] above)
                (.after size.toNat above line) left)) ∧
      (Insertion.windowLimit ≤ size →
        ended = (⟨[], .error (.misuse .windowTooLarge)⟩, before.tree))) ∧
    ∀ block, GoesBelowImports settings path block text before := by
  refine ⟨?_, goesBelowImports grounded found decoded created⟩
  intro block accepts size natural told ended
  refine ⟨fun fits => ?_, Insertion.run_of_tooLarge accepts block found created⟩
  have noMisuse := Insertion.windowMisuse_of_fits natural fits
  refine ⟨?_, ?_, ?_⟩
  · intro above line below left cut chooses asked
    constructor
    · intro written encoded undisturbed
      exact Insertion.run_of_chooses encoded found decoded created noMisuse cut chooses undisturbed
    · intro fault failed
      exact Insertion.run_of_chooses_unencodable failed found decoded created noMisuse cut chooses
  · intro left refuses undisturbed
    have ran := Insertion.run_of_refuses block found decoded created noMisuse refuses
    exact ⟨ran, (congrArg (·.2.read settings.workingDirectory path) ran).trans undisturbed.reads⟩
  · intro answers
    rcases accepts.refuses_or size.toNat [] (Text.lines text) (accepts.start, opened) with
      all | ⟨above, line, below, next, cut, refuses, ⟨left, accepted⟩ | ⟨cause, left, failed⟩⟩
    · exact Or.inl all
    · exact Or.inr ⟨above, line, below, left, cut, next, refuses, accepted⟩
    · obtain ⟨_, _, answered⟩ := answers (.after size.toNat above line) next
      rw [List.nil_append, answered] at failed
      cases failed

def pageText : String :=
  "import a\r\n\rb\nc"

def page : Workspace where
  tree := ⟨[
    (["project".utf8, "page.tsx".utf8], .file pageText.utf8 0o644),
    (["project".utf8], .directory)]⟩
  config := { path := "c.json".text }
  log := []

/-- Accepts the third line that it is asked about, which it finds by counting. -/
def countsToThree : LinePredicate where
  Memory := Nat
  start := 0
  judge _ seen := .ok (seen.1 == 2) (seen.1 + 1, seen.2)

theorem chooses_third (size : Nat) (tree : Tree) :
    countsToThree.Chooses (countsToThree.start, tree)
      (sightingsAfter size [] ["import a\r\n".text, "\r".text])
      (.after size ["import a\r\n".text, "\r".text] "b\n".text)
      ((3 : Nat), tree) :=
  ⟨((2 : Nat), tree), .cons rfl (.cons rfl (.nil _)), rfl⟩

/-- Without lines to look back at, the block goes in before the third line of the page. With the
rule for imports it goes in before the first boundary. -/
theorem page_spliced :
    let settings := Settings.ofEnvironment "/project".text []
    let ended := Insertion.run "/project".text "page.tsx".text "B\n".text countsToThree 0
      page.tree
    ended.1 =
        ⟨[⟨[], 1, "import a\r\n".text⟩, ⟨[], 2, "\r".text⟩, ⟨[], 3, "b\n".text⟩], .ok true⟩ ∧
      ended.2.read "/project".text "page.tsx".text =
        .ok "import a\r\n\rB\nb\nc".utf8 ∧
      ∃ after final, insertBelowImports settings "page.tsx".text "B\n".text page = .ok true after ∧
        Layout.InsertedBelowImports "B\n".text pageText.text final ∧
        Holds settings after.tree "page.tsx".text final := by
  intro settings ended
  have grounded : page.tree.Grounded := Tree.grounded_of_entries (by decide +kernel)
  have found : page.tree.read "/project".text "page.tsx".text = .ok pageText.utf8 := by
    decide +kernel
  have decoded := Utf8.decode_of_encode (Utf8.encode_text pageText)
  have created : page.tree.createTemporary "/project".text "page.tsx".text =
      .ok (["project".utf8, ".page.tsx.00000000.tmp".utf8],
        page.tree.put ["project".utf8, ".page.tsx.00000000.tmp".utf8] (.file [] 0o600)) := by
    decide +kernel
  have cut : Text.lines pageText.text =
      ["import a\r\n".text, "\r".text] ++ "b\n".text :: ["c".text] := by
    decide +kernel
  obtain ⟨spliced, below⟩ :=
    insertion_splices settings "page.tsx".text page grounded found decoded created
  have undisturbed := Tree.undisturbed_opened grounded found created
  obtain ⟨replaced, ran, installed⟩ := (((spliced "B\n".text countsToThree 0 (Int.le_refl 0)).1
    (by decide)).1 _ _ _ _ cut (chooses_third 0 _)).1 _ (Utf8.encode_text _) undisturbed
  have told : sightingsAfter 0 [] (["import a\r\n".text, "\r".text] ++ ["b\n".text]) =
      [⟨[], 1, "import a\r\n".text⟩, ⟨[], 2, "\r".text⟩, ⟨[], 3, "b\n".text⟩] := by
    decide +kernel
  have joined : ["import a\r\n".text, "\r".text].flatten ++ "B\n".text ++
      ("b\n".text :: ["c".text]).flatten = "import a\r\n\rB\nb\nc".text := by
    decide +kernel
  refine ⟨?_, ?_, ?_⟩
  · rw [← told]
    exact congrArg Prod.fst ran
  · obtain ⟨written, encoded, done⟩ := installed
    rw [joined, Utf8.encode_text] at encoded
    cases encoded
    rw [show ended.2 = replaced from congrArg Prod.snd ran]
    exact done.reads
  · have boundary : Layout.IsBoundary ["import a\r\n".text] "\r".text :=
      ⟨by decide, _, rfl, by decide⟩
    obtain ⟨after, final, ran, between, installed⟩ :=
      (below "B\n".text).goesIn _ _ ["b\n".text, "c".text] cut boundary _ (Utf8.encode_text _)
    exact ⟨after, final, ran, between, holds_of_installed installed⟩

/-- Accepts the third line, and puts a directory in the place of the page when it sees the
second. -/
def clearsPage : LinePredicate where
  Memory := Unit
  start := ()
  judge sighting seen :=
    .ok (sighting.number == 3) ((), if sighting.number = 2 then
      seen.2.put ["project".utf8, "page.tsx".utf8] .directory else seen.2)

/-- Two predicates answer every time, and the third line of the page is the first that they accept.
Yet the block does not go in, with a window that is too large, with a lone surrogate for a block,
and where the page gives way to a directory. -/
theorem page_not_spliced :
    (countsToThree.Answers ∧ clearsPage.Answers) ∧
      Text.lines pageText.text =
        ["import a\r\n".text, "\r".text] ++ "b\n".text :: ["c".text] ∧
      (∀ size tree, ∃ left, countsToThree.Chooses (countsToThree.start, tree)
        (sightingsAfter size [] ["import a\r\n".text, "\r".text])
        (.after size ["import a\r\n".text, "\r".text] "b\n".text) left) ∧
      (∀ size tree, ∃ left, clearsPage.Chooses (clearsPage.start, tree)
        (sightingsAfter size [] ["import a\r\n".text, "\r".text])
        (.after size ["import a\r\n".text, "\r".text] "b\n".text) left) ∧
      (Insertion.run "/project".text "page.tsx".text "B\n".text countsToThree
        Insertion.windowLimit page.tree).1.result = .error (.misuse .windowTooLarge) ∧
      (Insertion.run "/project".text "page.tsx".text [.lone 0] countsToThree 1
        page.tree).1.result = .error (.misuse (.unencodable ⟨0, [.lone 0]⟩)) ∧
      (Insertion.run "/project".text "page.tsx".text "B\n".text clearsPage 1
        page.tree).1.result =
        .error (.access "page.tsx".text "replace".text (some (.os .isDirectory))) := by
  refine ⟨⟨fun _ _ => ⟨_, _, rfl⟩, fun _ _ => ⟨_, _, rfl⟩⟩, by decide +kernel, ?_, ?_,
    by decide +kernel, by decide +kernel, by decide +kernel⟩
  · exact fun size tree => ⟨_, chooses_third size tree⟩
  · exact fun size tree => ⟨_, _, .cons rfl (.cons rfl (.nil _)), rfl⟩

end File

end FontScaffold
