import FontScaffold.Index
import FontScaffold.Proofs.Json.RoundTrip
import FontScaffold.Proofs.Outcome
import FontScaffold.Proofs.Path.Relative

set_option autoImplicit false

namespace FontScaffold.Font

/-- The specifier names the way from the fonts directory to the file of the font. -/
def Locates (cwd directory : Text) (font : Font) (specifier : Text) : Prop :=
  ∃ way, Path.relative? cwd font.path directory = some way ∧
    Path.Specifies way (Path.absolute cwd directory) (Path.absolute cwd font.path) specifier

/-- The object tells where the font lies, and its own weight and style. -/
def Describes (cwd directory : Text) (font : Font) (item : Json.Value) : Prop :=
  ∃ specifier, item = .object
      [("path".text, .string specifier), ("weight".text, .string font.weight),
        ("style".text, .string font.style)] ∧
    Locates cwd directory font specifier

/-- A value that stands for fonts: a path for one, else a list that describes each in its turn. -/
inductive Sources (cwd directory : Text) : List Font → Json.Value → Prop where
  | one {font : Font} {specifier : Text} (locates : Locates cwd directory font specifier) :
      Sources cwd directory [font] (.string specifier)
  | several {fonts : List Font} {items : List Json.Value} (many : 2 ≤ fonts.length)
      (each : List.Forall₂ (Describes cwd directory) fonts items) :
      Sources cwd directory fonts (.array items)

/-- A font with a path, which has no root of two slashes, and all that is said of it is
characters. -/
structure IsNameable (font : Font) : Prop where
  nonempty : font.path ≠ []
  oneRoot : Path.root font.path ≠ [.char '/', .char '/']
  path : Text.WellFormed font.path
  weight : Text.WellFormed font.weight
  style : Text.WellFormed font.style

variable {cwd directory : Text} {font : Font} {fonts : List Font}

theorem exists_locates (cwdRoot : Path.root cwd = [.char '/'])
    (oneRoot : Path.root directory ≠ [.char '/', .char '/']) (nameable : IsNameable font) :
    ∃ specifier, font.specifier cwd directory = .ok specifier ∧
      Locates cwd directory font specifier := by
  obtain ⟨origin, fromNames⟩ := Path.absolute_eq_rooted cwdRoot oneRoot
  obtain ⟨target, toNames⟩ := Path.absolute_eq_rooted cwdRoot nameable.oneRoot
  obtain ⟨way, found, specifies⟩ :=
    Path.exists_specifies nameable.nonempty origin target fromNames toNames
  refine ⟨Path.specifier way, ?_, way, found, ?_⟩
  · rw [specifier, found]
  · rwa [origin, target]

/-- All that the way to a font has besides slashes and dots comes from the font's path, or from the
working directory. -/
theorem not_mem_way {c : CodePoint} (noSlash : c ≠ .char '/') (noDot : c ≠ .char '.')
    (cwdRoot : Path.root cwd = [.char '/'])
    (oneRoot : Path.root directory ≠ [.char '/', .char '/']) (nameable : IsNameable font)
    (plain : c ∉ font.path) (outside : c ∉ cwd ∨ Path.isAbsolute font.path) {way : Text}
    (found : Path.relative? cwd font.path directory = some way) : c ∉ way := by
  obtain ⟨origin, fromNames⟩ := Path.absolute_eq_rooted cwdRoot oneRoot
  obtain ⟨target, toNames⟩ := Path.absolute_eq_rooted cwdRoot nameable.oneRoot
  have joined := Path.isAbsolute_of_root (Path.root_join_of_root cwdRoot nameable.oneRoot)
  exact Path.not_mem_relative noSlash noDot origin target fromNames toNames
    (Path.not_mem_normalSteps noSlash plain outside joined) found

section Fits

variable {cwdBytes : Bytes} (cwdRoot : Path.root cwd = [.char '/'])
  (cwdName : Utf8.encodeName cwd = .ok cwdBytes)
  (oneRoot : Path.root directory ≠ [.char '/', .char '/'])

include cwdRoot cwdName oneRoot

/-- A specifier has no first half of a pair, as neither the font's path nor the working directory
has one. -/
theorem unpaired_specifier (nameable : IsNameable font) {specifier : Text}
    (done : font.specifier cwd directory = .ok specifier) : Json.Unpaired specifier := by
  rw [Font.specifier] at done
  split at done
  · cases done
  next way found =>
    cases done
    refine Json.unpaired_of_noHigh fun c member => Bool.eq_false_iff.mpr fun high => ?_
    have char : ∀ char : Char, c ≠ .char char := by
      rintro char rfl
      rw [Json.isHighUnit_char] at high
      cases high
    have absent : c ∉ way := by
      refine not_mem_way (char '/') (char '.') cwdRoot oneRoot nameable ?_ (Or.inl ?_) found
      · intro inside
        rw [Json.noHigh_of_wellFormed nameable.path c inside] at high
        cases high
      · intro inside
        rw [Json.noHigh_of_encodeName cwdName c inside] at high
        cases high
    exact absent (Path.mem_of_mem_specifier (char '/') (char '.') member)

theorem fits_entry (nameable : IsNameable font) {item : Json.Value}
    (done : entry cwd directory font = .ok item) (room : Nat) : Json.Fits (room + 1) item := by
  obtain ⟨specifier, found, made⟩ := bind_eq_ok.mp done
  cases made
  have unpaired : ∀ text ∈ [specifier, font.weight, font.style], Json.Unpaired text := by
    simp only [List.forall_mem_cons, List.not_mem_nil, false_implies, implies_true, and_true]
    exact ⟨unpaired_specifier cwdRoot cwdName oneRoot nameable found,
      Json.unpaired_of_wellFormed nameable.weight, Json.unpaired_of_wellFormed nameable.style⟩
  refine Json.Fits.object ?_ ?_
  · simp only [List.forall_mem_cons, List.not_mem_nil, false_implies, implies_true, and_true]
    decide
  · simp only [List.forall_mem_cons, List.not_mem_nil, false_implies, implies_true, and_true]
      at unpaired ⊢
    exact ⟨.string unpaired.1, .string unpaired.2.1, .string unpaired.2.2⟩

theorem fits_source (nameable : ∀ font ∈ fonts, IsNameable font) {value : Json.Value}
    (done : source cwd directory fonts = .ok value) : Json.Fits Json.nestingLimit value := by
  match fonts with
  | [] => cases done
  | [font] =>
      obtain ⟨specifier, found, made⟩ := bind_eq_ok.mp done
      cases made
      exact .string (unpaired_specifier cwdRoot cwdName oneRoot (nameable font (.head _)) found)
  | first :: second :: others =>
      obtain ⟨items, mapped, made⟩ := bind_eq_ok.mp done
      cases made
      refine Json.Fits.array fun item member => ?_
      obtain ⟨font, inside, written⟩ := exists_of_mem_forall₂ (forall₂_of_mapM mapped) member
      exact fits_entry cwdRoot cwdName oneRoot (nameable font inside) written _

end Fits

theorem exists_describes (cwdRoot : Path.root cwd = [.char '/'])
    (oneRoot : Path.root directory ≠ [.char '/', .char '/']) (nameable : IsNameable font) :
    ∃ item, entry cwd directory font = .ok item ∧ Describes cwd directory font item := by
  obtain ⟨specifier, found, locates⟩ := exists_locates cwdRoot oneRoot nameable
  refine ⟨_, ?_, specifier, rfl, locates⟩
  rw [entry, found]
  rfl

/-- There is a source for any fonts with nameable paths. -/
theorem exists_sources (cwdRoot : Path.root cwd = [.char '/'])
    (oneRoot : Path.root directory ≠ [.char '/', .char '/']) (some : fonts ≠ [])
    (nameable : ∀ font ∈ fonts, IsNameable font) :
    ∃ value, source cwd directory fonts = .ok value ∧ Sources cwd directory fonts value := by
  match fonts with
  | [] => exact (some rfl).elim
  | [font] =>
      obtain ⟨specifier, found, locates⟩ :=
        exists_locates cwdRoot oneRoot (nameable font List.mem_cons_self)
      refine ⟨.string specifier, ?_, .one locates⟩
      rw [source, found]
      rfl
  | first :: second :: others =>
      have describes : ∀ font ∈ first :: second :: others, ∃ item,
          entry cwd directory font = .ok item ∧ Describes cwd directory font item :=
        fun font member => exists_describes cwdRoot oneRoot (nameable font member)
      obtain ⟨items, done⟩ := exists_mapM fun font member =>
        (describes font member).imp fun _ both => both.1
      have each : List.Forall₂ (Describes cwd directory) (first :: second :: others) items := by
        refine ((List.forall₂_and_left _ _).mpr ⟨describes, forall₂_of_mapM done⟩).imp ?_
        rintro font item ⟨⟨_, same, described⟩, written⟩
        rw [written] at same
        cases same
        exact described
      have list : source cwd directory (first :: second :: others) =
          (first :: second :: others).mapM (entry cwd directory) >>= fun items =>
            return .array items := rfl
      refine ⟨.array items, ?_, .several (by simp) each⟩
      rw [list, done]
      rfl

/-- The source of nameable fonts is written, and read as JSON it gives one path, or a list of the
fonts in their order with their own weights and styles. Each path begins with a dot and leads from
the fonts directory to its font, unless there is a backslash on the way; only the font's own path or
the working directory can bring one in. The working directory has one root and, as the name of a
directory, stands for bytes. -/
theorem source_reads_back {cwdBytes : Bytes} (cwdRoot : Path.root cwd = [.char '/'])
    (cwdName : Utf8.encodeName cwd = .ok cwdBytes)
    (oneRoot : Path.root directory ≠ [.char '/', .char '/']) (some : fonts ≠ [])
    (nameable : ∀ font ∈ fonts, IsNameable font) :
    (∃ text value, sourceText cwd directory fonts = .ok text ∧ Json.parse text = .ok value ∧
      Sources cwd directory fonts value) ∧
    ∀ font ∈ fonts, .char '\\' ∉ font.path → .char '\\' ∉ cwd ∨ Path.isAbsolute font.path →
      ∀ way, Path.relative? cwd font.path directory = Option.some way → .char '\\' ∉ way := by
  refine ⟨?_, fun font member plain outside way =>
    not_mem_way (by decide) (by decide) cwdRoot oneRoot (nameable font member) plain outside⟩
  obtain ⟨value, found, sources⟩ := exists_sources cwdRoot oneRoot some nameable
  refine ⟨Json.print .inline value, value, ?_, ?_, sources⟩
  · rw [sourceText, found]
    rfl
  · have fits := fits_source cwdRoot cwdName oneRoot nameable found
    have parsed : Json.parse (Json.print .inline value ++ []) = .ok value :=
      Json.parse_print fits .inline rfl
    rwa [List.append_nil] at parsed

def scattered : List Font :=
  [⟨"fonts/.hidden/\"a\".ttf".text, "400".text, "normal".text⟩,
    ⟨"../../shared//é😀.otf".text, "\\\n".text, "\x7f".text⟩,
    ⟨"///app/./fonts/x/..".text, [], "italic\x00".text⟩]

/-- The working directory has a byte in its name that is no text. -/
theorem scattered_source_reads_back :
    let cwd := "/app/".text ++ [.lone 0x4ff]
    (∀ font ∈ scattered, IsNameable font) ∧
      (∃ text value, sourceText cwd "./fonts/".text scattered = .ok text ∧
        Json.parse text = .ok value ∧ Sources cwd "./fonts/".text scattered value) ∧
      ∀ font ∈ scattered, ∀ way,
        Path.relative? cwd font.path "./fonts/".text = some way → .char '\\' ∉ way := by
  intro cwd
  have nameable : ∀ font ∈ scattered, IsNameable font := by
    intro font member
    simp only [scattered, List.mem_cons, List.not_mem_nil, or_false] at member
    rcases member with rfl | rfl | rfl <;>
      exact ⟨by decide, by decide, by decide, by decide, by decide⟩
  have plain : ∀ font ∈ scattered, .char '\\' ∉ font.path := by decide
  have named : Utf8.encodeName cwd = .ok ("/app/".utf8 ++ [0xff]) := by decide +kernel
  obtain ⟨readBack, ways⟩ := @source_reads_back cwd "./fonts/".text scattered _
    (by decide) named (by decide) (List.cons_ne_nil _ _) nameable
  exact ⟨nameable, readBack, fun font member =>
    ways font member (plain font member) (Or.inl (by decide))⟩

/-- A working directory may have a backslash in its name. Seen from elsewhere, a font in it is named
without it, and that leads to another place. -/
theorem backslash_misleads :
    let cwd := "/project/a\\b".text
    let directory := "/project/x".text
    let font : Font := ⟨"f.ttf".text, Font.defaultWeight, Font.defaultStyle⟩
    sourceText cwd directory [font] = .ok "\"../a/b/f.ttf\"".text ∧
      Json.parse "\"../a/b/f.ttf\"".text = .ok (.string "../a/b/f.ttf".text) ∧
      Path.normalize (Path.join (Path.absolute cwd directory) "../a/b/f.ttf".text) ≠
        Path.absolute cwd font.path ∧
      IsNameable font ∧ .char '\\' ∉ font.path ∧ .char '\\' ∉ directory := by
  intro cwd directory font
  refine ⟨by decide +kernel, ?_, by decide +kernel,
    ⟨by decide, by decide, by decide, by decide, by decide⟩, by decide, by decide⟩
  have unpaired : Json.Unpaired "../a/b/f.ttf".text := by decide
  exact @Json.parse_print _ (.string unpaired) .inline [] rfl

end FontScaffold.Font
