import FontScaffold.File
import FontScaffold.Proofs.Text.Decode
import FontScaffold.Proofs.Text.Line

set_option autoImplicit false

namespace FontScaffold.Insertion

theorem flatten_pieces (bytes : Bytes) : (pieces bytes).flatten = bytes := by
  have first (count : Nat) : ((List.range count).map fun index =>
      (bytes.drop (index * pieceSize)).take pieceSize).flatten =
        bytes.take (count * pieceSize) := by
    induction count with
    | zero => simp
    | succ count ih =>
        rw [List.range_succ, List.map_append, List.flatten_append, ih, List.map_singleton,
          List.flatten_singleton, Nat.succ_mul, List.take_add]
  rw [pieces, first, List.take_of_length_le]
  simp only [pieceSize]
  omega

variable {carried : Bytes} {pieces : List Bytes}

/-- By pieces: what a piece settles is cut off, what it breaks off stands before the next one. -/
theorem readLines_of_encode {text : Text} (begun : Text)
    (whole : Utf8.encode text = .ok (carried ++ pieces.flatten)) :
    readLines carried begun pieces = (Text.lines (begun ++ text), none) := by
  induction pieces generalizing carried begun text with
  | nil =>
      rw [List.flatten_nil, List.append_nil] at whole
      rw [readLines, Utf8.decode_eq_ok.mpr whole]
  | cons piece rest ih =>
      rw [List.flatten_cons, ← List.append_assoc] at whole
      unfold readLines
      cases part : Utf8.decodePart (carried ++ piece) with
      | error fault => exact (Utf8.ne_encode_of_decodePart part _ text whole).elim
      | ok decoded =>
          obtain ⟨settled, waiting⟩ := decoded
          obtain ⟨front, encoded, parts⟩ := Utf8.exists_of_decodePart part
          rw [parts, List.append_assoc] at whole
          obtain ⟨after, rfl, later⟩ := Utf8.exists_of_encode_append encoded whole
          simp only [ih _ later]
          rw [← List.append_assoc begun, Text.lines_append (begun ++ settled)]

theorem encode_of_readLines {begun : Text} (complete : (readLines carried begun pieces).2 = none) :
    ∃ text, Utf8.encode text = .ok (carried ++ pieces.flatten) := by
  induction pieces generalizing carried begun with
  | nil =>
      unfold readLines at complete
      cases decoded : Utf8.decode carried with
      | error fault =>
          rw [decoded] at complete
          cases complete
      | ok text =>
          rw [List.flatten_nil, List.append_nil]
          exact ⟨text, Utf8.decode_eq_ok.mp decoded⟩
  | cons piece rest ih =>
      unfold readLines at complete
      cases part : Utf8.decodePart (carried ++ piece) with
      | error fault =>
          rw [part] at complete
          cases complete
      | ok decoded =>
          obtain ⟨settled, waiting⟩ := decoded
          simp only [part] at complete
          obtain ⟨front, encoded, parts⟩ := Utf8.exists_of_decodePart part
          obtain ⟨after, later⟩ := ih complete
          refine ⟨settled ++ after, Utf8.encode_append_eq_ok.mpr ⟨front, _, encoded, later, ?_⟩⟩
          rw [List.flatten_cons, ← List.append_assoc, parts, List.append_assoc]

theorem incoming_eq_iff {bytes : Bytes} {lines : List Text} :
    incoming bytes = (lines, none) ↔
      ∃ text, Utf8.decode bytes = .ok text ∧ lines = Text.lines text := by
  have joined : [] ++ (Insertion.pieces bytes).flatten = bytes := flatten_pieces bytes
  constructor
  · intro whole
    obtain ⟨text, encoded⟩ := encode_of_readLines (congrArg Prod.snd whole)
    rw [incoming, readLines_of_encode [] encoded] at whole
    rw [joined] at encoded
    exact ⟨text, Utf8.decode_eq_ok.mpr encoded, (congrArg Prod.fst whole).symm⟩
  · rintro ⟨text, decoded, rfl⟩
    refine readLines_of_encode [] ?_
    rw [joined]
    exact Utf8.decode_eq_ok.mp decoded

end FontScaffold.Insertion

namespace FontScaffold

theorem window_nil (size : Nat) : window size [] = [] := by
  simp [window]

theorem window_window_append (size : Nat) (done : List Text) (line : Text) :
    window size (window size done ++ [line]) = window size (done ++ [line]) := by
  simp only [window, List.length_append, List.length_drop, List.length_singleton]
  by_cases short : done.length ≤ size
  · rw [Nat.sub_eq_zero_of_le short, List.drop_zero, Nat.sub_zero]
  · cases size with
    | zero => simp
    | succ size =>
        have one : done.length - (done.length - (size + 1)) + 1 - (size + 1) = 1 := by omega
        have next : done.length + 1 - (size + 1) = done.length - (size + 1) + 1 := by omega
        rw [one, next, List.drop_append_of_le_length (by rw [List.length_drop]; omega),
          List.drop_append_of_le_length (by omega), List.drop_drop]

section Sightings

/-- What is known of a line that follows the lines `before`. -/
def Sighting.after (size : Nat) (before : List Text) (line : Text) : Sighting where
  previous := window size before
  number := before.length + 1
  line := line

/-- What there is to tell of each of the lines that follow the lines `done`. -/
def sightingsAfter (size : Nat) (done lines : List Text) : List Sighting :=
  lines.mapIdx fun index line => .after size (done ++ lines.take index) line

def sightings (size : Nat) (text : Text) : List Sighting :=
  sightingsAfter size [] (Text.lines text)

variable {size : Nat} {done before rest : List Text} {line : Text}

theorem sightingsAfter_cons (size : Nat) (done : List Text) (line : Text) (rest : List Text) :
    sightingsAfter size done (line :: rest) =
      .after size done line :: sightingsAfter size (done ++ [line]) rest := by
  simp only [sightingsAfter, List.mapIdx_cons, List.take_zero, List.append_nil,
    List.take_succ_cons, List.append_assoc, List.singleton_append]

theorem sightingsAfter_append (size : Nat) (done before rest : List Text) :
    sightingsAfter size done (before ++ rest) =
      sightingsAfter size done before ++ sightingsAfter size (done ++ before) rest := by
  induction before generalizing done with
  | nil => simp [sightingsAfter]
  | cons line before ih =>
      rw [List.cons_append, sightingsAfter_cons, sightingsAfter_cons, ih, List.append_assoc]
      rfl

theorem after_mem_sightingsAfter (size : Nat) (before : List Text) (line : Text)
    (rest : List Text) :
    Sighting.after size before line ∈ sightingsAfter size [] (before ++ line :: rest) := by
  rw [sightingsAfter_append, sightingsAfter_cons, List.nil_append]
  exact List.mem_append_cons_self

theorem map_line_sightingsAfter (size : Nat) (done lines : List Text) :
    (sightingsAfter size done lines).map Sighting.line = lines := by
  induction lines generalizing done with
  | nil => rfl
  | cons line rest ih => rw [sightingsAfter_cons, List.map_cons, ih, Sighting.after]

end Sightings

namespace LinePredicate

/-- The predicate never changes the tree. It may fail, and it may remember what it likes. -/
structure Steady (accepts : LinePredicate) : Prop where
  answered : ∀ sighting seen answer left, accepts.judge sighting seen = .ok answer left →
    left.2 = seen.2
  failed : ∀ sighting seen cause left, accepts.judge sighting seen = .error cause left →
    left.2 = seen.2

/-- The predicate judges every line, whatever it does to the tree. -/
def Answers (accepts : LinePredicate) : Prop :=
  ∀ sighting seen, ∃ answer left, accepts.judge sighting seen = .ok answer left

/-- Asked about some sightings in turn, the predicate refuses each. What it remembers and the tree
are `seen` before and `left` after. -/
inductive Refuses (accepts : LinePredicate) :
    accepts.Memory × Tree → List Sighting → accepts.Memory × Tree → Prop where
  | nil (seen : accepts.Memory × Tree) : Refuses accepts seen [] seen
  | cons {seen next left : accepts.Memory × Tree} {sighting : Sighting} {later : List Sighting}
      (refused : accepts.judge sighting seen = .ok false next)
      (rest : Refuses accepts next later left) : Refuses accepts seen (sighting :: later) left

/-- Asked about the sightings `asked` in turn the predicate refuses each, and then accepts
another. -/
def Chooses (accepts : LinePredicate) (seen : accepts.Memory × Tree) (asked : List Sighting)
    (sighting : Sighting) (left : accepts.Memory × Tree) : Prop :=
  ∃ next, accepts.Refuses seen asked next ∧ accepts.judge sighting next = .ok true left

theorem steady_ofBool (holds : Sighting → Bool) : (ofBool holds).Steady where
  answered := by
    rintro sighting seen answer left ⟨⟩
    rfl
  failed := by
    rintro sighting seen cause left ⟨⟩

theorem Refuses.tree_eq {accepts : LinePredicate} {seen left : accepts.Memory × Tree}
    {asked : List Sighting} (refuses : accepts.Refuses seen asked left) (steady : accepts.Steady) :
    left.2 = seen.2 := by
  induction refuses with
  | nil => rfl
  | cons refused _ ih => exact ih.trans (steady.answered _ _ _ _ refused)

theorem judge_ofBool_eq_ok {holds : Sighting → Bool} {sighting : Sighting}
    {seen left : (ofBool holds).Memory × Tree} {answer : Bool} :
    (ofBool holds).judge sighting seen = .ok answer left ↔ holds sighting = answer ∧
    seen = left := by
  change EStateM.Result.ok (holds sighting) seen = .ok answer left ↔ _
  rw [EStateM.Result.ok.injEq]

theorem refuses_ofBool_iff {holds : Sighting → Bool} {asked : List Sighting}
    {seen left : (ofBool holds).Memory × Tree} :
    (ofBool holds).Refuses seen asked left ↔
      (∀ sighting ∈ asked, holds sighting = false) ∧ left = seen := by
  constructor
  · intro refuses
    induction refuses with
    | nil => exact ⟨nofun, rfl⟩
    | @cons seen next left sighting later refused _ ih =>
        obtain ⟨judged, same⟩ := judge_ofBool_eq_ok.mp refused
        exact ⟨List.forall_mem_cons.mpr ⟨judged, ih.1⟩, ih.2.trans same.symm⟩
  · rintro ⟨each, rfl⟩
    induction asked with
    | nil => exact .nil left
    | cons sighting later ih =>
        obtain ⟨here, there⟩ := List.forall_mem_cons.mp each
        exact .cons (judge_ofBool_eq_ok.mpr ⟨here, rfl⟩) (ih there)

/-- Asked about some sightings in turn, the predicate refuses all, or it accepts one or fails
there. -/
theorem refuses_or (accepts : LinePredicate) (size : Nat) (done lines : List Text)
    (seen : accepts.Memory × Tree) :
    (∃ left, accepts.Refuses seen (sightingsAfter size done lines) left) ∨
      ∃ before line behind next, lines = before ++ line :: behind ∧
        accepts.Refuses seen (sightingsAfter size done before) next ∧
        ((∃ left, accepts.judge (.after size (done ++ before) line) next = .ok true left) ∨
          ∃ cause left, accepts.judge (.after size (done ++ before) line) next =
            .error cause left) := by
  induction lines generalizing done seen with
  | nil => exact Or.inl ⟨seen, .nil seen⟩
  | cons line rest ih =>
      cases judged : accepts.judge (.after size done line) seen with
      | error cause left =>
          refine Or.inr ⟨[], line, rest, seen, rfl, .nil seen, Or.inr ⟨cause, left, ?_⟩⟩
          rwa [List.append_nil]
      | ok answer next =>
          cases answer with
          | true =>
              refine Or.inr ⟨[], line, rest, seen, rfl, .nil seen, Or.inl ⟨next, ?_⟩⟩
              rwa [List.append_nil]
          | false =>
              rcases ih (done ++ [line]) next with
                ⟨left, all⟩ | ⟨before, found, behind, last, rfl, refuses, ends⟩
              · refine Or.inl ⟨left, ?_⟩
                rw [sightingsAfter_cons]
                exact .cons judged all
              · refine Or.inr ⟨line :: before, found, behind, last, rfl, ?_, ?_⟩
                · rw [sightingsAfter_cons]
                  exact .cons judged refuses
                · rwa [List.append_assoc] at ends

end LinePredicate

namespace Insertion

variable {accepts : LinePredicate} {block : Text}

section Step

variable {size number : Nat} {previous rest : List Text} {line : Text}
  {seen left : accepts.Memory × Tree}

theorem pass_of_accepted {bytes : Bytes} (encoded : Utf8.encode block = .ok bytes)
    (accepted : accepts.judge ⟨previous, number, line⟩ seen = .ok true left) :
    pass accepts block size previous number (line :: rest) seen =
      ⟨[⟨previous, number, line⟩], block ++ line ++ rest.flatten, .ok true, left.2⟩ := by
  rw [pass, accepted]
  simp only [encoded]

theorem pass_of_unencodable {fault : Utf8.EncodeFault} (failed : Utf8.encode block = .error fault)
    (accepted : accepts.judge ⟨previous, number, line⟩ seen = .ok true left) :
    pass accepts block size previous number (line :: rest) seen =
      ⟨[⟨previous, number, line⟩], [], .error (.misuse (.unencodable fault)), left.2⟩ := by
  rw [pass, accepted]
  simp only [failed]

theorem pass_of_refused (refused : accepts.judge ⟨previous, number, line⟩ seen = .ok false left) :
    pass accepts block size previous number (line :: rest) seen =
      let done := pass accepts block size (window size (previous ++ [line])) (number + 1) rest left
      { done with asked := ⟨previous, number, line⟩ :: done.asked, copy := line ++ done.copy } := by
  rw [pass, refused]

theorem pass_of_failed {cause : Cause}
    (failed : accepts.judge ⟨previous, number, line⟩ seen = .error cause left) :
    pass accepts block size previous number (line :: rest) seen =
      ⟨[⟨previous, number, line⟩], [], .error cause, left.2⟩ := by
  rw [pass, failed]

end Step

variable {size : Nat} {done before : List Text} {line : Text}
  {seen next left : accepts.Memory × Tree}

/-- Lines that are refused are copied one after another; the window that the pass carries along is
that of the lines before. -/
theorem pass_append (block : Text)
    (refuses : accepts.Refuses seen (sightingsAfter size done before) next)
    (rest : List Text) :
    pass accepts block size (window size done) (done.length + 1) (before ++ rest) seen =
      let later := pass accepts block size (window size (done ++ before))
        ((done ++ before).length + 1) rest next
      { later with asked := sightingsAfter size done before ++ later.asked
                   copy := before.flatten ++ later.copy } := by
  induction before generalizing done seen with
  | nil =>
      cases refuses
      rw [List.append_nil]
      rfl
  | cons line before ih =>
      rw [sightingsAfter_cons] at refuses ⊢
      cases refuses with
      | cons refused refuses =>
          have moved := window_window_append size done line
          have counted : done.length + 1 + 1 = (done ++ [line]).length + 1 := by simp
          rw [List.cons_append, pass_of_refused refused, moved, counted, ih refuses,
            List.append_assoc, List.singleton_append]
          simp only [List.flatten_cons, List.append_assoc, List.cons_append]
          rfl

theorem pass_of_refuses (block : Text)
    (refuses : accepts.Refuses seen (sightingsAfter size done before) left) :
    pass accepts block size (window size done) (done.length + 1) before seen =
      ⟨sightingsAfter size done before, before.flatten, .ok false, left.2⟩ := by
  have passed := pass_append block refuses []
  simpa [pass] using passed

theorem pass_of_chooses {bytes : Bytes} (encoded : Utf8.encode block = .ok bytes)
    (behind : List Text)
    (chooses : accepts.Chooses seen (sightingsAfter size done before)
      (.after size (done ++ before) line) left) :
    pass accepts block size (window size done) (done.length + 1) (before ++ line :: behind) seen =
      ⟨sightingsAfter size done (before ++ [line]),
        before.flatten ++ block ++ (line :: behind).flatten, .ok true, left.2⟩ := by
  obtain ⟨next, refuses, accepted⟩ := chooses
  rw [pass_append block refuses, pass_of_accepted encoded accepted, sightingsAfter_append]
  simp [sightingsAfter, Sighting.after]

theorem pass_of_chooses_unencodable {fault : Utf8.EncodeFault}
    (failed : Utf8.encode block = .error fault) (behind : List Text)
    (chooses : accepts.Chooses seen (sightingsAfter size done before)
      (.after size (done ++ before) line) left) :
    pass accepts block size (window size done) (done.length + 1) (before ++ line :: behind) seen =
      ⟨sightingsAfter size done (before ++ [line]), before.flatten,
        .error (.misuse (.unencodable fault)), left.2⟩ := by
  obtain ⟨next, refuses, accepted⟩ := chooses
  rw [pass_append block refuses, pass_of_unencodable failed accepted, sightingsAfter_append]
  simp [sightingsAfter, Sighting.after]

theorem pass_of_fails (block : Text) (behind : List Text) {cause : Cause}
    (refuses : accepts.Refuses seen (sightingsAfter size done before) next)
    (failed : accepts.judge (.after size (done ++ before) line) next = .error cause left) :
    pass accepts block size (window size done) (done.length + 1) (before ++ line :: behind) seen =
      ⟨sightingsAfter size done (before ++ [line]), before.flatten, .error cause, left.2⟩ := by
  rw [pass_append block refuses, pass_of_failed failed, sightingsAfter_append]
  simp [sightingsAfter, Sighting.after]

/-- The block has gone in directly before the first line that the predicate accepts. -/
def Spliced (accepts : LinePredicate) (size : Nat) (block text final : Text) : Prop :=
  ∃ tree left before line behind, Text.lines text = before ++ line :: behind ∧
    accepts.Chooses (accepts.start, tree) (sightingsAfter size [] before) (.after size before line)
      left ∧
    final = before.flatten ++ block ++ (line :: behind).flatten

/-- How a pass over all lines ends, and that it leaves the tree alone if the predicate does. -/
structure Passed (accepts : LinePredicate) (block : Text) (size : Nat) (lines : List Text)
    (tree : Tree) (done : Pass) : Prop where
  asked : done.asked.map Sighting.line <+: lines
  declined : done.inserted = .ok false → done.asked.map Sighting.line = lines
  inserted : done.inserted = .ok true → ∃ left before line behind,
    lines = before ++ line :: behind ∧
    accepts.Chooses (accepts.start, tree) (sightingsAfter size [] before) (.after size before line)
      left ∧
    done.asked.getLast? = some (.after size before line) ∧
    done.copy = before.flatten ++ block ++ (line :: behind).flatten
  answered : accepts.Answers → (∃ answer, done.inserted = .ok answer) ∨
    ∃ fault, Utf8.encode block = .error fault ∧
      done.inserted = .error (.misuse (.unencodable fault))
  steady : accepts.Steady → done.tree = tree

theorem passed_pass (accepts : LinePredicate) (block : Text) (size : Nat) (lines : List Text)
    (tree : Tree) :
    Passed accepts block size lines tree
      (pass accepts block size [] 1 lines (accepts.start, tree)) := by
  rw [← window_nil size, show 1 = ([] : List Text).length + 1 from rfl]
  have begins (before : List Text) (line : Text) (behind : List Text) :
      (sightingsAfter size [] (before ++ [line])).map Sighting.line <+:
        before ++ line :: behind := by
    rw [map_line_sightingsAfter]
    exact ⟨behind, by simp⟩
  rcases accepts.refuses_or size [] lines (accepts.start, tree) with
    ⟨left, refuses⟩ | ⟨before, line, behind, next, rfl, refuses,
      ⟨left, accepted⟩ | ⟨cause, left, failed⟩⟩
  · rw [pass_of_refuses block refuses]
    have whole := map_line_sightingsAfter size [] lines
    exact ⟨⟨[], by rw [whole, List.append_nil]⟩, fun _ => whole, nofun,
      fun _ => Or.inl ⟨false, rfl⟩,
      fun steady => refuses.tree_eq steady⟩
  · have begins := begins before line behind
    have still (steady : accepts.Steady) : left.2 = tree :=
      (steady.answered _ _ _ _ accepted).trans (refuses.tree_eq steady)
    cases encoded : Utf8.encode block with
    | ok bytes =>
        rw [pass_of_chooses encoded behind ⟨next, refuses, accepted⟩]
        refine ⟨begins, nofun, fun _ => ?_, fun _ => Or.inl ⟨true, rfl⟩, still⟩
        refine ⟨left, before, line, behind, rfl, ⟨next, refuses, accepted⟩, ?_, rfl⟩
        simp [sightingsAfter]
    | error fault =>
        rw [pass_of_chooses_unencodable encoded behind ⟨next, refuses, accepted⟩]
        exact ⟨begins, nofun, nofun, fun _ => Or.inr ⟨fault, encoded, rfl⟩, still⟩
  · rw [pass_of_fails block behind refuses failed]
    refine ⟨begins before line behind, nofun, nofun, fun answers => ?_, fun steady => ?_⟩
    · obtain ⟨_, _, answered⟩ := answers (.after size before line) next
      rw [List.nil_append, answered] at failed
      cases failed
    · exact (steady.failed _ _ _ _ failed).trans (refuses.tree_eq steady)

end Insertion

end FontScaffold
