import FontScaffold.Text.Basic

set_option autoImplicit false

namespace FontScaffold.Text

/-- Nothing, or a text that ends where a reader sees a break. -/
def Closed (text : Text) : Prop :=
  ∀ c ∈ text.getLast?, isBreak c

theorem Closed.tail {c : CodePoint} {rest : Text} (closed : Closed (c :: rest)) : Closed rest := by
  intro last member
  refine closed last ?_
  cases rest with
  | nil => cases member
  | cons next rest => exact member

theorem Closed.append {before after : Text} (first : Closed before) (second : Closed after) :
    Closed (before ++ after) := by
  intro c last
  rw [List.getLast?_append] at last
  cases found : after.getLast? with
  | none =>
      rw [found] at last
      exact first c last
  | some d =>
      rw [found] at last
      cases last
      exact second c found

theorem eq_nil_of_visibleLines {text : Text} (none : visibleLines text = []) : text = [] := by
  revert none
  fun_cases visibleLines text <;> simp

/-- A break between two texts separates their lines, unless it is the middle of CR LF. -/
theorem visibleLines_append {before after : Text} (closed : Closed before)
    (apart : after.head? ≠ some (.char '\n')) :
    visibleLines (before ++ after) = visibleLines before ++ visibleLines after := by
  -- A CR that begins no CR LF does not begin one with `after` behind it either.
  have still : ∀ c rest, (∀ tail, c = CodePoint.char '\r' → rest = .char '\n' :: tail → False) →
      ∀ tail, c = CodePoint.char '\r' → rest ++ after = .char '\n' :: tail → False := by
    intro c rest noPair tail carriage feed
    cases rest with
    | nil => exact apart (congrArg List.head? feed)
    | cons next rest =>
        cases feed
        exact noPair rest carriage rfl
  fun_induction visibleLines before with
  | case1 => rfl
  | case2 rest ih =>
      rw [List.cons_append, List.cons_append, visibleLines, ih closed.tail.tail, List.cons_append]
  | case3 c rest noPair isBreak ih =>
      rw [List.cons_append, visibleLines.eq_3 _ _ (still c rest noPair), if_pos isBreak,
        ih closed.tail, List.cons_append]
  | case4 c rest noPair noBreak none ih =>
      -- No line is left behind a character that ends no line, so it is the last.
      have last : rest = [] := eq_nil_of_visibleLines none
      subst last
      exact (noBreak (closed c rfl)).elim
  | case5 c rest noPair noBreak line more found ih =>
      rw [List.cons_append, visibleLines.eq_3 _ _ (still c rest noPair), if_neg noBreak,
        ih closed.tail, found, List.cons_append]
      rfl

theorem visibleLines_line {line rest : Text} (plain : ∀ c ∈ line, isBreak c = false) :
    visibleLines (line ++ .char '\n' :: rest) = line :: visibleLines rest := by
  induction line with
  | nil => rfl
  | cons c line ih =>
      have noBreak : isBreak c = false := plain c List.mem_cons_self
      have noPair : ∀ tail, c = .char '\r' →
        line ++ .char '\n' :: rest = .char '\n' :: tail → False := by
        rintro _ rfl
        cases noBreak
      rw [List.cons_append, visibleLines.eq_3 _ _ noPair, if_neg (by simp [noBreak]),
        ih fun other member => plain other (List.mem_cons_of_mem c member)]

theorem lines_cons {c : CodePoint} {rest : Text} (noEnd : ¬(c = .char '\n' ∨ c = .char '\r')) :
    lines (c :: rest) =
      match lines rest with
      | [] => [[c]]
      | line :: more => (c :: line) :: more := by
  have noPair : ∀ tail, c = .char '\r' → rest = .char '\n' :: tail → False :=
    fun _ carriage _ => noEnd (Or.inr carriage)
  have cut := lines.eq_3 _ _ noPair
  rw [if_neg noEnd] at cut
  cases found : lines rest <;> simp only [cut, found]

/-- The lines come out the same if those at the beginning of a text are cut off first. -/
theorem lines_append (text behind : Text) :
    lines (text ++ behind) = (endedLines text).1 ++ lines ((endedLines text).2 ++ behind) := by
  fun_induction endedLines text with
  | case1 => rfl
  | case2 => rfl
  | case3 rest ended begun found ih =>
      rw [found] at ih
      rw [List.cons_append, List.cons_append, lines, ih]
      rfl
  | case4 c rest noLast noPair ended begun found ends ih =>
      -- What follows the text begins no CR LF with a CR that has its line behind it.
      have still : ∀ tail, c = .char '\r' → rest ++ behind = .char '\n' :: tail → False := by
        intro tail carriage feed
        cases rest with
        | nil => exact noLast carriage rfl
        | cons next rest =>
            cases feed
            exact noPair rest carriage rfl
      rw [found] at ih
      rw [List.cons_append, lines.eq_3 _ _ still, if_pos ends, ih]
      rfl
  | case5 c rest noLast noPair begun noEnd found ih =>
      rw [found, List.nil_append] at ih
      rw [List.cons_append, lines_cons noEnd, ih]
      exact (lines_cons noEnd).symm
  | case6 c rest noLast noPair begun noEnd line ended found ih =>
      rw [found, List.cons_append] at ih
      rw [List.cons_append, lines_cons noEnd, ih]
      rfl

/-- A line of a file that another one follows ends where a reader sees a break. -/
theorem ended_of_lines {text line passed : Text} {before behind : List Text}
    (split : lines text = before ++ line :: behind) (member : passed ∈ before) :
    ∃ c, passed.getLast? = some c ∧ isBreak c := by
  fun_induction lines text generalizing before passed with
  | case1 => cases before <;> cases split
  | case2 rest ih =>
      cases before with
      | nil => cases member
      | cons first before =>
          obtain ⟨rfl, later⟩ := List.cons.inj split
          rcases List.mem_cons.mp member with rfl | member
          · exact ⟨.char '\n', rfl, rfl⟩
          · exact ih later member
  | case3 c rest noPair ends ih =>
      cases before with
      | nil => cases member
      | cons first before =>
          obtain ⟨rfl, later⟩ := List.cons.inj split
          rcases List.mem_cons.mp member with rfl | member
          · rcases ends with rfl | rfl <;> exact ⟨_, rfl, rfl⟩
          · exact ih later member
  | case4 c rest noPair noEnd none ih =>
      cases before with
      | nil => cases member
      | cons first before =>
          obtain ⟨_, later⟩ := List.cons.inj split
          cases before <;> cases later
  | case5 c rest noPair noEnd next more found ih =>
      cases before with
      | nil => cases member
      | cons first before =>
          obtain ⟨rfl, later⟩ := List.cons.inj split
          have shorter : lines rest = (next :: before) ++ line :: behind := by
            rw [found, later]
            rfl
          rcases List.mem_cons.mp member with rfl | member
          · obtain ⟨d, last, isBreak⟩ := ih shorter List.mem_cons_self
            exact ⟨d, by rw [List.getLast?_cons, last]; rfl, isBreak⟩
          · exact ih shorter (List.mem_cons_of_mem next member)

theorem closed_of_lines {text line : Text} {before behind : List Text}
    (split : lines text = before ++ line :: behind) : Closed before.flatten := by
  have each : ∀ passed ∈ before, Closed passed := by
    intro passed member c last
    obtain ⟨d, found, isBreak⟩ := ended_of_lines split member
    rw [found] at last
    cases last
    exact isBreak
  clear split
  induction before with
  | nil => exact fun _ none => nomatch none
  | cons passed before ih =>
      rw [List.flatten_cons]
      exact (each passed List.mem_cons_self).append
        (ih fun other member => each other (List.mem_cons_of_mem passed member))

theorem strip_eq_self {first last : CodePoint} {inner : Text} (starts : isBlank first = false)
    (ends : isBlank last = false) :
    strip (first :: inner ++ [last]) = first :: inner ++ [last] := by
  have front : (first :: inner ++ [last]).dropWhile isBlank = first :: inner ++ [last] := by
    rw [List.cons_append, List.dropWhile_cons_of_neg (by simp [starts])]
  have back : (first :: inner ++ [last]).reverse.dropWhile isBlank =
      (first :: inner ++ [last]).reverse := by
    rw [List.reverse_append, List.reverse_singleton, List.singleton_append,
      List.dropWhile_cons_of_neg (by simp [ends])]
  rw [strip, trim, front, trimEnd, back, List.reverse_reverse]

theorem hasLine_append {line before rest : Text} (closed : Closed before) (some : line ≠ [])
    (plain : ∀ c ∈ line, isBreak c = false) (bare : strip line = line) :
    hasLine line (before ++ (line ++ .char '\n' :: rest)) := by
  have apart : (line ++ .char '\n' :: rest).head? ≠ Option.some (.char '\n') := by
    cases line with
    | nil => exact (some rfl).elim
    | cons c line =>
        intro same
        have noBreak := plain c List.mem_cons_self
        rw [Option.some.inj same] at noBreak
        cases noBreak
  rw [hasLine, visibleLines_append closed apart, visibleLines_line plain, List.any_append,
    List.any_cons, bare, beq_self_eq_true, Bool.true_or, Bool.or_true]

end FontScaffold.Text
