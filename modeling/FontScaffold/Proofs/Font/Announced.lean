import FontScaffold.Index
import FontScaffold.Proofs.Text.Basic

set_option autoImplicit false

namespace FontScaffold.Path

theorem fileName_append (front : Text) {back : Text} (noSlash : .char '/' ∉ back) :
    fileName (front ++ back) = fileName front ++ back := by
  have all : ∀ c ∈ back.reverse, (c != .char '/') = true := by
    intro c member
    rw [bne_iff_ne]
    rintro rfl
    exact noSlash (List.mem_reverse.mp member)
  rw [fileName, List.reverse_append, List.takeWhile_append_of_pos all, List.reverse_append,
    List.reverse_reverse, fileName]

theorem fileName_of_slash (directory : Text) {name : Text} (noSlash : .char '/' ∉ name) :
    fileName (directory ++ .char '/' :: name) = name := by
  have ended : fileName (directory ++ [.char '/']) = [] := by simp [fileName]
  rw [← List.singleton_append, ← List.append_assoc, fileName_append _ noSlash, ended,
    List.nil_append]

theorem fileName_of_not_mem {name : Text} (noSlash : .char '/' ∉ name) : fileName name = name := by
  simpa [fileName] using fileName_append [] noSlash

theorem fileName_isSuffix {path whole : Text} (within : path <:+ whole) :
    fileName path <:+ fileName whole := by
  obtain ⟨before, turned⟩ := List.reverse_prefix.mpr within
  rw [fileName, fileName, List.reverse_suffix, ← turned, List.takeWhile_append]
  split
  · next all =>
      rw [(List.takeWhile_prefix _).eq_of_length all]
      exact List.prefix_append _ _
  · exact List.prefix_refl _

/-- The last dot of a name ends its stem if some other character stands before it. -/
theorem stem_append {front extension : Text} {c : CodePoint} (member : c ∈ front)
    (other : c ≠ .char '.')
    (noDot : .char '.' ∉ extension) : stem (front ++ .char '.' :: extension) = front := by
  have some : front.dropWhile (· == .char '.') ≠ [] := by
    intro all
    exact other (by simpa using List.dropWhile_eq_nil_iff.mp all c member)
  have cut : (front ++ .char '.' :: extension).dropWhile (· == .char '.') =
      front.dropWhile (· == .char '.') ++ .char '.' :: extension := by
    rw [List.dropWhile_append, if_neg (by simpa using some)]
  have dots : (front ++ .char '.' :: extension).takeWhile (· == .char '.') =
    front.takeWhile (· == .char '.') := by
    apply (List.append_left_inj (front.dropWhile (· == .char '.') ++ .char '.' :: extension)).mp
    rw [← cut, List.takeWhile_append_dropWhile, cut, ← List.append_assoc,
      List.takeWhile_append_dropWhile]
  have behind : (front.dropWhile (· == .char '.') ++ .char '.' :: extension).reverse.dropWhile
    (· != .char '.') =
      .char '.' :: (front.dropWhile (· == .char '.')).reverse :=
    Text.dropWhile_reverse_append_cons noDot _
  have dotted : (front.dropWhile (· == .char '.') ++ .char '.' :: extension).elem
    (.char '.') := by simp
  simp only [stem, cut, dots, behind]
  rw [if_pos dotted, List.drop_one, List.tail_cons, List.reverse_reverse,
    List.takeWhile_append_dropWhile]

end FontScaffold.Path

namespace FontScaffold.Font

section Address

/-- The path of a font's file told by its parts. The label is the annotation between the family and
the extension; a path may do without a directory. -/
structure Address where
  directory : Option Text
  family : Text
  label : Text
  extension : Text
  family_noHyphen : .char '-' ∉ family
  family_noSlash : .char '/' ∉ family
  label_noSlash : .char '/' ∉ label
  extension_noDot : .char '.' ∉ extension
  extension_noSlash : .char '/' ∉ extension

namespace Address

/-- The path up to the hyphen. -/
def front (address : Address) : Text :=
  match address.directory with
  | none => address.family
  | some directory => directory ++ .char '/' :: address.family

def path (address : Address) : Text :=
  address.front ++ .char '-' :: (address.label ++ .char '.' :: address.extension)

variable (address : Address)

theorem fileName_front : Path.fileName address.front = address.family := by
  unfold front
  split
  · exact Path.fileName_of_not_mem address.family_noSlash
  · exact Path.fileName_of_slash _ address.family_noSlash

theorem strip_path :
    Text.strip address.path = address.front.dropWhile Text.isBlank ++
      .char '-' :: (address.label ++ .char '.' :: Text.trimEnd Text.isBlank address.extension) :=
  Text.trim_append_cons (by decide) (by decide) _ _ _

/-- However the ends are blank, the file name has the whole label behind its first hyphen. -/
theorem exists_fileName :
    ∃ family extension, .char '-' ∉ family ∧ .char '.' ∉ extension ∧
      Path.fileName (Text.strip address.path) =
        (family ++ .char '-' :: address.label) ++ .char '.' :: extension := by
  have within : Path.fileName (address.front.dropWhile Text.isBlank) <:+ address.family := by
    rw [← address.fileName_front]
    exact Path.fileName_isSuffix (List.dropWhile_suffix _)
  have shorter : Text.trimEnd Text.isBlank address.extension <+: address.extension := by
    rw [← List.reverse_suffix, Text.trimEnd, List.reverse_reverse]
    exact List.dropWhile_suffix _
  refine ⟨_, _, fun member => address.family_noHyphen (within.subset member),
    fun member => address.extension_noDot (shorter.subset member), ?_⟩
  rw [address.strip_path, Path.fileName_append, List.append_assoc, List.cons_append]
  intro member
  simp only [List.mem_cons, List.mem_append, CodePoint.char.injEq, Char.reduceEq,
    false_or] at member
  rcases member with inLabel | inExtension
  · exact address.label_noSlash inLabel
  · exact address.extension_noSlash (shorter.subset inExtension)

end Address

theorem afterHyphen_append {family : Text} (noHyphen : .char '-' ∉ family) (label : Text) :
    afterHyphen (family ++ .char '-' :: label) = label := by
  have others : ∀ c ∈ family, (c != .char '-') = true := by
    intro c member
    rw [bne_iff_ne]
    rintro rfl
    exact noHyphen member
  rw [afterHyphen, List.dropWhile_append_of_pos others, List.dropWhile_cons_of_neg (by simp)]

theorem descriptor_path (address : Address) :
    descriptor address.path = Text.lowerCase address.label := by
  obtain ⟨family, extension, noHyphen, noDot, named⟩ := address.exists_fileName
  have hyphen : .char '-' ∈ family ++ .char '-' :: address.label :=
    List.mem_append_right _ List.mem_cons_self
  rw [descriptor, named, Path.stem_append hyphen (by decide) noDot, afterHyphen_append noHyphen]

end Address

section Keywords

/-- The weight that a text announces: that of a longest keyword in it, or the default if it has
none. -/
inductive AnnouncesWeight (text : Text) : Text → Prop where
  | keyword {keyword weight : Text} (listed : (keyword, weight) ∈ weights)
      (occurs : keyword <:+: text)
      (longest : ∀ other ∈ weights, other.1 <:+: text → other.1.length ≤ keyword.length) :
      AnnouncesWeight text weight
  | default (absent : ∀ other ∈ weights, ¬other.1 <:+: text) : AnnouncesWeight text "400".text

/-- The style that a text announces. -/
inductive AnnouncesStyle (text : Text) : Text → Prop where
  | italic (occurs : "italic".text <:+: text) : AnnouncesStyle text "italic".text
  | oblique (notItalic : ¬"italic".text <:+: text) (occurs : "oblique".text <:+: text) :
      AnnouncesStyle text "oblique".text
  | normal (notItalic : ¬"italic".text <:+: text) (notOblique : ¬"oblique".text <:+: text) :
      AnnouncesStyle text "normal".text

theorem pairwise_weights :
    weights.Pairwise fun first second => second.1.length ≤ first.1.length := by
  decide

/-- A keyword found first is a longest one, since the others are listed behind it. -/
theorem announcesWeight_weightOf (text : Text) : AnnouncesWeight text (weightOf text) := by
  rw [weightOf]
  split
  · next found =>
      obtain ⟨occurs, before, after, listed, earlier⟩ := List.find?_eq_some_iff_append.mp found
      refine .keyword (List.mem_of_find?_eq_some found) (Text.occursIn_iff.mp occurs) ?_
      intro other member inside
      have ordered := pairwise_weights
      rw [listed] at member ordered
      rcases List.mem_append.mp member with before | here
      · have absent := earlier other before
        rw [Text.occursIn_iff.mpr inside] at absent
        cases absent
      · rcases List.mem_cons.mp here with rfl | after
        · exact Nat.le_refl _
        · exact List.rel_of_pairwise_cons (List.pairwise_append.mp ordered).2.1 after
  · next absent =>
      refine .default fun other member inside => ?_
      exact List.find?_eq_none.mp absent other member (Text.occursIn_iff.mpr inside)

theorem announcesStyle_styleOf (text : Text) : AnnouncesStyle text (styleOf text) := by
  simp only [styleOf, styles, List.find?_cons]
  cases italic : Text.occursIn "italic".text text with
  | true => exact .italic (Text.occursIn_iff.mp italic)
  | false =>
      have notItalic := mt Text.occursIn_iff.mpr (Bool.eq_false_iff.mp italic)
      cases oblique : Text.occursIn "oblique".text text with
      | true => exact .oblique notItalic (Text.occursIn_iff.mp oblique)
      | false => exact .normal notItalic (mt Text.occursIn_iff.mpr (Bool.eq_false_iff.mp oblique))

end Keywords

/-- Weight and style of a font are announced by the label in its file's name, in lower case, and by
nothing else of the path: files whose labels differ in case only are read alike. -/
theorem label_decides (address : Address) :
    AnnouncesWeight (Text.lowerCase address.label) (ofPath address.path).weight ∧
      AnnouncesStyle (Text.lowerCase address.label) (ofPath address.path).style ∧
      ∀ other : Address,
        Text.lowerCase other.label = Text.lowerCase address.label →
        (ofPath other.path).weight = (ofPath address.path).weight ∧
          (ofPath other.path).style = (ofPath address.path).style := by
  have weight : ∀ address : Address,
      (ofPath address.path).weight = weightOf (Text.lowerCase address.label) := by
    intro address
    simp only [ofPath, descriptor_path]
  have style : ∀ address : Address,
      (ofPath address.path).style = styleOf (Text.lowerCase address.label) := by
    intro address
    simp only [ofPath, descriptor_path]
  refine ⟨?_, ?_, fun other same => ⟨?_, ?_⟩⟩
  · rw [weight]
    exact announcesWeight_weightOf _
  · rw [style]
    exact announcesStyle_styleOf _
  · rw [weight, weight, same]
  · rw [style, style, same]

/-- A family and a directory with keywords of their own, and a label with dots, blanks and further
hyphens. -/
def mixedCase : Address where
  directory := some " /srv/Bold-Italic.d".text
  family := "..Black Ops".text
  label := "-SemiBold.Oblique ΟΣ".text
  extension := "ttf \n".text
  family_noHyphen := by decide
  family_noSlash := by decide
  label_noSlash := by decide
  extension_noDot := by decide
  extension_noSlash := by decide

def lowerCased : Address where
  directory := none
  family := []
  label := "-semibold.oblique ος".text
  extension := []
  family_noHyphen := by decide
  family_noSlash := by decide
  label_noSlash := by decide
  extension_noDot := by decide
  extension_noSlash := by decide

theorem mixedCase_read_alike :
    Text.lowerCase lowerCased.label = Text.lowerCase mixedCase.label ∧
      (ofPath lowerCased.path).weight = (ofPath mixedCase.path).weight ∧
      (ofPath lowerCased.path).style = (ofPath mixedCase.path).style ∧
      AnnouncesWeight (Text.lowerCase mixedCase.label) "600".text ∧
      AnnouncesStyle (Text.lowerCase mixedCase.label) "oblique".text := by
  have same : Text.lowerCase lowerCased.label = Text.lowerCase mixedCase.label := by
    decide +kernel
  have weight : (ofPath mixedCase.path).weight = "600".text := by decide +kernel
  have style : (ofPath mixedCase.path).style = "oblique".text := by decide +kernel
  obtain ⟨announcedWeight, announcedStyle, others⟩ := label_decides mixedCase
  rw [weight] at announcedWeight
  rw [style] at announcedStyle
  exact ⟨same, (others lowerCased same).1, (others lowerCased same).2, announcedWeight,
    announcedStyle⟩

end FontScaffold.Font
