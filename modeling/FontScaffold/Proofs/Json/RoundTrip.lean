import FontScaffold.Proofs.Json.Reading

set_option autoImplicit false

namespace FontScaffold.Json

/-- A value without numbers, and without code points that would be read as one, whose arrays and
objects lie at most `room` deep in each other. -/
inductive Fits : Nat → Value → Prop where
  | null {room : Nat} : Fits room .null
  | bool {room : Nat} (value : Bool) : Fits room (.bool value)
  | string {room : Nat} {text : Text} (unpaired : Unpaired text) : Fits room (.string text)
  | array {room : Nat} {items : List Value} (each : ∀ item ∈ items, Fits room item) :
      Fits (room + 1) (.array items)
  | object {room : Nat} {members : List (Text × Value)}
      (names : ∀ member ∈ members, Unpaired member.1)
      (each : ∀ member ∈ members, Fits room member.2) : Fits (room + 1) (.object members)

section Space

variable {c : CodePoint}

theorem isSpace_of_mem_lineBreak {style : Style} (member : c ∈ style.lineBreak) : isSpace c := by
  cases style with
  | inline => cases member
  | indented depth =>
      rcases List.mem_cons.mp member with rfl | member
      · rfl
      · rw [List.eq_of_mem_replicate member]
        rfl

theorem separator_eq (style : Style) :
    ∃ gap, style.separator = .char ',' :: gap ∧ ∀ c ∈ gap, isSpace c := by
  cases style with
  | inline =>
      refine ⟨[.char ' '], rfl, fun c member => ?_⟩
      rw [List.mem_singleton.mp member]
      rfl
  | indented depth => exact ⟨_, rfl, fun c member => isSpace_of_mem_lineBreak member⟩

end Space

section Printing

variable {room : Nat} {style : Style}

theorem printItems_eq_map (style : Style) (items : List Value) :
    printItems style items = items.map (print style) := by
  induction items with
  | nil => rfl
  | cons item items ih => rw [printItems, ih, List.map_cons]

def printMember (style : Style) (member : Text × Value) : Text :=
  string member.1 ++ .char ':' :: .char ' ' :: print style member.2

theorem printMembers_eq_map (style : Style) (members : List (Text × Value)) :
    printMembers style members = members.map (printMember style) := by
  induction members with
  | nil => rfl
  | cons member members ih =>
      rw [printMembers, ih, List.map_cons, printMember, List.append_assoc]
      rfl

/-- What no value begins with: the end of an array or object, and a byte order mark. -/
def noOpening : List CodePoint :=
  [.char ']', .char '\x7d', .char '\ufeff']

/-- A text that begins like a value. -/
def Opens (text : Text) : Prop :=
  ∃ c rest, text = c :: rest ∧ isSpace c = false ∧ c ∉ noOpening

namespace Opens

variable {text : Text}

theorem append (opens : Opens text) (more : Text) : Opens (text ++ more) := by
  obtain ⟨c, rest, rfl, starts⟩ := opens
  exact ⟨c, rest ++ more, rfl, starts⟩

theorem intercalate {texts : List Text} (separator : Text) (some : texts ≠ [])
    (each : ∀ text ∈ texts, Opens text) : Opens (separator.intercalate texts) := by
  cases texts with
  | nil => exact (some rfl).elim
  | cons first others =>
      have opens := each first List.mem_cons_self
      cases others with
      | nil =>
          rw [List.intercalate_singleton]
          exact opens
      | cons second others =>
          rw [List.intercalate_cons_cons, List.append_assoc]
          exact opens.append _

theorem skipSpace_eq (opens : Opens text) : skipSpace text = text := by
  obtain ⟨c, rest, rfl, shown, _⟩ := opens
  exact skipSpace_cons shown

theorem head_ne (opens : Opens text) {c : CodePoint} (excluded : c ∈ noOpening) :
    text.head? ≠ some c := by
  obtain ⟨first, rest, rfl, _, starts⟩ := opens
  intro same
  exact starts (Option.some.inj same ▸ excluded)

end Opens

theorem opens_print {value : Value} (fits : Fits room value) (style : Style) :
    Opens (print style value) := by
  cases fits with
  | null => exact ⟨_, _, rfl, rfl, by decide⟩
  | bool value => cases value <;> exact ⟨_, _, rfl, rfl, by decide⟩
  | string unpaired => exact ⟨_, _, rfl, rfl, by decide⟩
  | @array room items each => cases items <;> exact ⟨_, _, rfl, rfl, by decide⟩
  | @object room members names each => cases members <;> exact ⟨_, _, rfl, rfl, by decide⟩

/-- Items that are read one by one are read between their separators. -/
theorem readsItems_print {items : List Value} (some : items ≠ []) {tail rest : Text}
    (closes : skipSpace tail = .char ']' :: rest)
    (opens : ∀ text ∈ items.map (print style), Opens text)
    (each : ∀ item ∈ items, ∀ rest, Reads room (print style item ++ rest) item rest) :
    ReadsItems room (style.separator.intercalate (items.map (print style)) ++ tail) items rest := by
  induction items with
  | nil => exact (some rfl).elim
  | cons item others ih =>
      cases others with
      | nil =>
          rw [List.map_singleton, List.intercalate_singleton]
          exact readsItems_cons (each item List.mem_cons_self tail) (Or.inl ⟨closes, rfl⟩)
      | cons second others =>
          obtain ⟨gap, separated, blank⟩ := separator_eq style
          rw [List.map_cons] at opens
          have opensLater : ∀ text ∈ (second :: others).map (print style), Opens text :=
            fun text member => opens text (.tail _ member)
          have starts : Opens (style.separator.intercalate ((second :: others).map (print style)) ++
              tail) :=
            (Opens.intercalate style.separator (List.cons_ne_nil _ _) opensLater).append tail
          have later := ih (List.cons_ne_nil _ _) opensLater
            (fun item member => each item (.tail _ member))
          rw [← starts.skipSpace_eq, ← skipSpace_append blank] at later
          rw [List.map_cons, List.map_cons, List.intercalate_cons_cons, ← List.map_cons,
            List.append_assoc, List.append_assoc]
          refine readsItems_cons (each item List.mem_cons_self _) (Or.inr ⟨_, ?_, later⟩)
          rw [separated, List.cons_append]
          exact skipSpace_cons rfl

theorem opens_printMember (style : Style) (member : Text × Value) :
    Opens (printMember style member) :=
  ⟨_, _, rfl, rfl, by decide⟩

theorem readsMembers_print {members : List (Text × Value)} (some : members ≠ []) {tail rest : Text}
    (closes : skipSpace tail = .char '\x7d' :: rest)
    (names : ∀ member ∈ members, Unpaired member.1)
    (opens : ∀ member ∈ members, Opens (print style member.2))
    (each : ∀ member ∈ members, ∀ rest,
      Reads room (print style member.2 ++ rest) member.2 rest) :
    ReadsMembers room (style.separator.intercalate (members.map (printMember style)) ++ tail)
      members rest := by
  induction members with
  | nil => exact (some rfl).elim
  | cons member others ih =>
      have value : ∀ rest, Reads room (skipSpace (.char ' ' :: (print style member.2 ++ rest)))
        member.2
          rest := by
        intro rest
        have space : skipSpace (.char ' ' :: (print style member.2 ++ rest)) =
            skipSpace (print style member.2 ++ rest) := rfl
        rw [space, ((opens member List.mem_cons_self).append rest).skipSpace_eq]
        exact each member List.mem_cons_self rest
      cases others with
      | nil =>
          rw [List.map_singleton, List.intercalate_singleton, printMember, List.append_assoc]
          exact readsMembers_cons (names member List.mem_cons_self) (value tail)
            (Or.inl ⟨closes, rfl⟩)
      | cons second others =>
          obtain ⟨gap, separated, blank⟩ := separator_eq style
          have opensLater : ∀ text ∈ (second :: others).map (printMember style), Opens text :=
            List.forall_mem_map.mpr fun member _ => opens_printMember style member
          have starts : Opens (style.separator.intercalate
              ((second :: others).map (printMember style)) ++ tail) :=
            (Opens.intercalate style.separator (List.cons_ne_nil _ _) opensLater).append tail
          have later := ih (List.cons_ne_nil _ _)
            (fun member inside => names member (.tail _ inside))
            (fun member inside => opens member (.tail _ inside))
            (fun member inside => each member (.tail _ inside))
          rw [← starts.skipSpace_eq, ← skipSpace_append blank] at later
          rw [List.map_cons, List.map_cons, List.intercalate_cons_cons, ← List.map_cons,
            List.append_assoc, List.append_assoc, printMember, List.append_assoc]
          refine readsMembers_cons (names member List.mem_cons_self) (value _)
            (Or.inr ⟨_, ?_, later⟩)
          rw [separated, List.cons_append]
          exact skipSpace_cons rfl

theorem enclose_append {texts : List Text} (some : texts ≠ []) (style : Style)
    (opening closing : CodePoint) (rest : Text) :
    style.enclose opening closing texts ++ rest =
      opening :: (style.deeper.lineBreak ++ (style.deeper.separator.intercalate texts ++
        (style.lineBreak ++ closing :: rest))) := by
  rw [Style.enclose, List.isEmpty_eq_false_iff.mpr some]
  simp

/-- A printed value is read whatever follows it. -/
theorem reads_print {value : Value} (fits : Fits room value) (style : Style) (rest : Text) :
    Reads room (print style value ++ rest) value rest := by
  induction fits generalizing style rest with
  | null => exact reads_word rfl (by decide) rfl
  | bool value => cases value <;> exact reads_word rfl (by decide) rfl
  | string unpaired => exact reads_string _ unpaired rest
  | @array room items each ih =>
      rw [print, printItems_eq_map]
      by_cases none : items = []
      · subst none
        exact reads_array_nil (skipSpace_cons rfl)
      have some : items.map (print style.deeper) ≠ [] := by rwa [ne_eq, List.map_eq_nil_iff]
      have opens : ∀ text ∈ items.map (print style.deeper), Opens text :=
        List.forall_mem_map.mpr fun item member => opens_print (each item member) style.deeper
      have starts := (Opens.intercalate style.deeper.separator some opens).append
        (style.lineBreak ++ .char ']' :: rest)
      have closes : skipSpace (style.lineBreak ++ .char ']' :: rest) = .char ']' :: rest := by
        rw [skipSpace_append fun _ member => isSpace_of_mem_lineBreak member, skipSpace_cons rfl]
      have inner := readsItems_print none closes opens fun item member =>
        ih item member style.deeper
      rw [enclose_append some]
      apply reads_array <;>
        rw [skipSpace_append fun _ member => isSpace_of_mem_lineBreak member, starts.skipSpace_eq]
      · exact starts.head_ne (by decide)
      · exact inner
  | @object room members names each ih =>
      rw [print, printMembers_eq_map]
      by_cases none : members = []
      · subst none
        exact reads_object_nil (skipSpace_cons rfl)
      have some : members.map (printMember style.deeper) ≠ [] := by rwa [ne_eq, List.map_eq_nil_iff]
      have opens : ∀ text ∈ members.map (printMember style.deeper), Opens text :=
        List.forall_mem_map.mpr fun member _ => opens_printMember style.deeper member
      have starts := (Opens.intercalate style.deeper.separator some opens).append
        (style.lineBreak ++ .char '\x7d' :: rest)
      have closes : skipSpace (style.lineBreak ++ .char '\x7d' :: rest) = .char '\x7d' :: rest := by
        rw [skipSpace_append fun _ member => isSpace_of_mem_lineBreak member, skipSpace_cons rfl]
      have inner := readsMembers_print none closes names
        (fun member inside => opens_print (each member inside) style.deeper)
        fun member inside => ih member inside style.deeper
      rw [enclose_append some]
      apply reads_object <;>
        rw [skipSpace_append fun _ member => isSpace_of_mem_lineBreak member, starts.skipSpace_eq]
      · exact starts.head_ne (by decide)
      · exact inner

theorem parse_print {value : Value} (fits : Fits nestingLimit value) (style : Style) {space : Text}
    (blank : skipSpace space = []) : parse (print style value ++ space) = .ok value := by
  have opens := (opens_print fits style).append space
  have reads : Reads nestingLimit (skipSpace (print style value ++ space)) value space := by
    rw [opens.skipSpace_eq]
    exact reads_print fits style space
  obtain ⟨shorter, done⟩ := reads
  rw [parse, if_neg (opens.head_ne (by decide)), done]
  simp only [blank]

end Printing

end FontScaffold.Json
