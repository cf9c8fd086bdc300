import FontScaffold.Proofs.Index.Canonical
import FontScaffold.Proofs.Index.Update
import FontScaffold.Proofs.Merge.Exclusive

set_option autoImplicit false

namespace FontScaffold.Index

open Chunk Merge

variable {cwd directory heading : Text} {written : Text → List Font} {fonts listed : List Text}
  {middle : List Text} {families : List Family}

theorem isVisible_defaultExport (names : List Text) : Text.isVisible (defaultExport names) := by
  have shown : Text.isVisible listStart := by decide
  rw [Text.isVisible] at shown ⊢
  rw [defaultExport_eq, listBody, List.any_append, List.any_append, shown]
  rfl

section Default

variable {names : List Text}

theorem refused_by_defaultExport (laid : Laid cwd directory heading written fonts listed middle)
    (identifiers : ∀ name ∈ names, isIdentifier name) :
    ∀ chunk ∈ heading :: middle,
      Matcher.standard.accepts blankLine (defaultExport names) chunk = false := by
  have lists := lists_defaultExport identifiers
  intro chunk member
  rcases List.mem_cons.mp member with rfl | member
  · exact laid.foreign.lists _ lists
  · obtain ⟨name, _, isName, exports⟩ := laid.exports_of_mem member
    exact Bool.eq_false_iff.mpr (not_accepts_lists_exports isName lists exports)

theorem accepted_by_defaultExport (laid : Laid cwd directory heading written fonts listed middle)
    (identifiers : ∀ name ∈ names, isIdentifier name) :
    Matcher.standard.accepts blankLine (defaultExport names) (defaultExport listed) :=
  accepts_lists (lists_defaultExport identifiers) (lists_defaultExport laid.identifiers)

theorem exclusive_defaultExport (laid : Laid cwd directory heading written fonts listed middle)
    (identifiers : ∀ name ∈ names, isIdentifier name) :
    Exclusive Matcher.standard blankLine (heading :: middle ++ [defaultExport listed])
      (newChunks blankLine (defaultExport names)) := by
  have refused := refused_by_defaultExport laid identifiers
  rw [newChunks_defaultExport identifiers]
  refine ⟨?_, List.pairwise_singleton _ _⟩
  have inner : ∀ chunk ∈ heading :: middle, ∀ new ∈ [NewChunk.mk (defaultExport names) 0],
      Matcher.standard.accepts blankLine new.text chunk = false := by
    intro chunk member new only
    rw [List.mem_singleton.mp only]
    exact refused chunk member
  rw [List.pairwise_append]
  refine ⟨?_, List.pairwise_singleton _ _, ?_⟩
  · rw [List.pairwise_iff_getElem]
    intro i j within _ _ new only accepted
    rw [inner _ (List.getElem_mem within) new only] at accepted
    cases accepted
  · intro chunk member _ _ new only accepted
    rw [inner chunk member new only] at accepted
    cases accepted

/-- Merging a default export puts it in the place of the old one. -/
theorem content_merge_listed (laid : Laid cwd directory heading written fonts listed middle)
    (identifiers : ∀ name ∈ names, isIdentifier name) :
    (FontScaffold.merge Matcher.standard blankLine (laidText heading middle listed)
      (defaultExport names)).content = laidText heading middle names := by
  have refused := refused_by_defaultExport laid identifiers
  have accepted := accepted_by_defaultExport laid identifiers
  have relaid : Laid cwd directory heading written fonts names middle :=
    { laid with identifiers }
  have last : successor Matcher.standard blankLine (defaultExport names) (defaultExport listed) =
      defaultExport names := by
    rw [successor, split_defaultExport identifiers, List.find?_cons, accepted]
    rfl
  have inner : (heading :: middle).map
      (complete blankLine ∘ successor Matcher.standard blankLine (defaultExport names)) =
        heading :: middle := by
    have same : ∀ chunk ∈ heading :: middle, (complete blankLine ∘
        successor Matcher.standard blankLine (defaultExport names)) chunk = id chunk := by
      intro chunk member
      have stays : successor Matcher.standard blankLine (defaultExport names) chunk = chunk := by
        apply successor_of_refused
        rw [split_defaultExport identifiers]
        intro new only
        rw [List.mem_singleton.mp only]
        exact refused chunk member
      rw [Function.comp_apply, stays, (laid.closed chunk member).complete_eq]
      rfl
    rw [List.map_congr_left same, List.map_id]
  have none : ((split blankLine (defaultExport names)).filter fun chunk =>
      (heading :: middle ++ [defaultExport listed]).all fun old =>
        !Matcher.standard.accepts blankLine chunk old) = [] := by
    rw [split_defaultExport identifiers, List.filter_eq_nil_iff]
    intro chunk member
    rw [List.mem_singleton.mp member, List.all_append]
    simp [accepted]
  rw [content_merge_of_exclusive blankLine_ne_nil (unlike_defaultExport identifiers)
    (apart_defaultExport identifiers) laid.split_eq (exclusive_defaultExport laid identifiers)
    (by rw [last]; exact isVisible_defaultExport names),
    last, inner, none, List.map_nil, List.append_nil, relaid.eraseDups_eq]
  rfl

end Default

section Named

variable {chunks : List Text}

theorem record_of_mem (distinct : (families.map Family.name).Nodup) {family : Family}
    (member : family ∈ families) : record families written family.name = family.fonts := by
  induction families with
  | nil => cases member
  | cons first families ih =>
      obtain ⟨alone, distinct⟩ := List.nodup_cons.mp distinct
      rcases List.mem_cons.mp member with rfl | member
      · rw [record, List.find?_cons_of_pos (by simp)]
      · have other : first.name ≠ family.name :=
          fun same => alone (same ▸ List.mem_map_of_mem member)
        have rest := ih distinct member
        rw [record] at rest ⊢
        rw [List.find?_cons_of_neg (by simp [other])]
        exact rest

theorem Stands.of_shows {family : Family} {chunk : Text}
    (shows_ : Shows cwd directory family chunk) (same : written family.name = family.fonts) :
    Stands cwd directory written family.name (complete blankLine chunk) := by
  obtain ⟨exports, text, rendered, copy⟩ := shows_
  have whole := complete_complete blankLine chunk
  obtain ⟨body, block, led, shape⟩ := exports
  refine ⟨⟨⟨body, block, led, whole.trans shape⟩, text, ?_, whole.trans copy⟩, ?_⟩
  · rw [same]
    exact rendered
  · rw [shape]
    exact block.closed

/-- An export is succeeded by the one of its name, if there is one. -/
theorem stands_successor (shows_ : List.Forall₂ (Shows cwd directory) families chunks)
    (names : ∀ family ∈ families, IsName family.name) {name old : Text} (isName : IsName name)
    (stands : Stands cwd directory written name old) :
    Stands cwd directory (record families written) name (complete blankLine
      ((chunks.find? fun chunk => Matcher.standard.accepts blankLine chunk old).getD old)) := by
  induction shows_ with
  | nil =>
      rw [List.find?_nil, Option.getD_none, stands.2.complete_eq]
      exact stands
  | @cons family chunk families chunks here rest ih =>
      have tail := ih fun other member => names other (List.mem_cons_of_mem family member)
      have decides := accepts_exports_eq (names family List.mem_cons_self) isName here.1 stands.1.1
      by_cases same : family.name = name
      · rw [List.find?_cons_of_pos (by simp [decides, same]), Option.getD_some]
        subst same
        apply Stands.of_shows here
        rw [record, List.find?_cons_of_pos (by simp)]
      · have later : record (family :: families) written name = record families written name := by
          rw [record, record, List.find?_cons_of_neg (by simp [same])]
        rw [List.find?_cons_of_neg (by simp [decides, same])]
        rw [Stands, later]
        exact tail

theorem stands_successors {new : Text}
    (laid : Laid cwd directory heading written fonts listed middle)
    (shows_ : List.Forall₂ (Shows cwd directory) families (split blankLine new))
    (names : ∀ family ∈ families, IsName family.name) :
    List.Forall₂ (Stands cwd directory (record families written)) fonts
      (middle.map (complete blankLine ∘ successor Matcher.standard blankLine new)) := by
  have known := laid.names
  have there := laid.exports
  clear laid
  induction there with
  | nil => exact .nil
  | @cons name old fonts middle here rest ih =>
      exact .cons (stands_successor shows_ names (known name List.mem_cons_self) here)
        (ih fun other member => known other (List.mem_cons_of_mem name member))

theorem refused_heading (laid : Laid cwd directory heading written fonts listed middle)
    (shows_ : List.Forall₂ (Shows cwd directory) families chunks)
    (names : ∀ family ∈ families, IsName family.name) :
    ∀ chunk ∈ chunks, Matcher.standard.accepts blankLine chunk heading = false := by
  intro chunk member
  obtain ⟨family, inside, exports, _⟩ := exists_of_mem_forall₂ shows_ member
  exact laid.foreign.exports family.name chunk (names family inside) exports

theorem refused_defaultExport (laid : Laid cwd directory heading written fonts listed middle)
    (shows_ : List.Forall₂ (Shows cwd directory) families chunks)
    (names : ∀ family ∈ families, IsName family.name) :
    ∀ chunk ∈ chunks,
      Matcher.standard.accepts blankLine chunk (defaultExport listed) = false := by
  intro chunk member
  obtain ⟨family, inside, exports, _⟩ := exists_of_mem_forall₂ shows_ member
  exact Bool.eq_false_iff.mpr (not_accepts_exports_lists (names family inside) exports
    (lists_defaultExport laid.identifiers))

/-- An export is refused by the whole index just if its name is not among the fonts. -/
theorem all_refuse_iff (laid : Laid cwd directory heading written fonts listed middle)
    (shows_ : List.Forall₂ (Shows cwd directory) families chunks)
    (names : ∀ family ∈ families, IsName family.name) {name chunk : Text} (member : chunk ∈ chunks)
    (isName : IsName name) (exports : Exports name chunk) :
    ((heading :: middle ++ [defaultExport listed]).all fun old =>
      !Matcher.standard.accepts blankLine chunk old) = decide (name ∉ fonts) := by
  have inner : (middle.all fun old => !Matcher.standard.accepts blankLine chunk old) =
      decide (name ∉ fonts) := by
    have known := laid.names
    have there := laid.exports
    clear laid
    induction there with
    | nil => rfl
    | @cons other old fonts middle here rest ih =>
        have tail := ih fun another inside => known another (List.mem_cons_of_mem other inside)
        have decides := accepts_exports_eq isName (known other List.mem_cons_self) exports here.1.1
        rw [List.all_cons, tail, decides]
        by_cases same : name = other <;> simp [same]
  rw [List.all_append, List.all_cons, inner, refused_heading laid shows_ names chunk member,
    List.all_cons, refused_defaultExport laid shows_ names chunk member]
  simp

/-- What is added stands for the names that are new. -/
theorem stands_additions (laid : Laid cwd directory heading written fonts listed middle)
    (shows_ : List.Forall₂ (Shows cwd directory) families chunks)
    (names : ∀ family ∈ families, IsName family.name)
    (distinct : (families.map Family.name).Nodup) :
    List.Forall₂ (Stands cwd directory (record families written))
      ((families.map Family.name).filter (· ∉ fonts))
      ((chunks.filter fun chunk => (heading :: middle ++ [defaultExport listed]).all fun old =>
        !Matcher.standard.accepts blankLine chunk old).map (complete blankLine)) := by
  have recorded : ∀ family ∈ families, record families written family.name = family.fonts :=
    fun family member => record_of_mem distinct member
  have refuse : ∀ family chunk, family ∈ families → chunk ∈ chunks →
      Shows cwd directory family chunk →
      ((heading :: middle ++ [defaultExport listed]).all fun old =>
        !Matcher.standard.accepts blankLine chunk old) = decide (family.name ∉ fonts) :=
    fun family chunk inside member here =>
      all_refuse_iff laid shows_ names member (names family inside) here.1
  generalize record families written = latest at recorded ⊢
  clear names distinct
  induction shows_ with
  | nil => exact .nil
  | @cons family chunk families chunks here rest ih =>
      have tail := ih
        (fun other second inside member => refuse other second (List.mem_cons_of_mem family inside)
          (List.mem_cons_of_mem chunk member))
        fun other member => recorded other (List.mem_cons_of_mem family member)
      have same := refuse family chunk List.mem_cons_self List.mem_cons_self here
      rw [List.map_cons, List.filter_cons, List.filter_cons, same]
      by_cases fresh : family.name ∉ fonts
      · rw [if_pos (by simpa using fresh), if_pos (by simpa using fresh), List.map_cons]
        exact .cons (Stands.of_shows here (recorded family List.mem_cons_self)) tail
      · rw [if_neg (by simpa using fresh), if_neg (by simpa using fresh)]
        exact tail

theorem exclusive_of_shows {new : Text}
    (laid : Laid cwd directory heading written fonts listed middle)
    (shows_ : List.Forall₂ (Shows cwd directory) families (split blankLine new))
    (names : ∀ family ∈ families, IsName family.name)
    (distinct : (families.map Family.name).Nodup) :
    Exclusive Matcher.standard blankLine (heading :: middle ++ [defaultExport listed])
      (newChunks blankLine new) := by
  have atHeading := refused_heading laid shows_ names
  have atList := refused_defaultExport laid shows_ names
  constructor
  · rw [List.cons_append, List.pairwise_cons, List.pairwise_append]
    refine ⟨?_, laid.pairwise.imp ?_, List.pairwise_singleton _ _, ?_⟩
    · intro _ _ chunk member accepted
      rw [atHeading chunk.text (text_mem_split member)] at accepted
      cases accepted
    · rintro first second ⟨name, other, isName, another, different, left, right⟩
        chunk member accepted
      obtain ⟨family, inside, exports, _⟩ := exists_of_mem_forall₂ shows_ (text_mem_split member)
      have known := names family inside
      rw [accepts_exports_eq known isName exports left, decide_eq_true_eq] at accepted
      rw [accepts_exports_eq known another exports right, decide_eq_false_iff_not, accepted]
      exact different
    · intro _ _ last only chunk member _
      rw [List.mem_singleton.mp only]
      exact atList chunk.text (text_mem_split member)
  · have apart := pairwise_shows shows_ names distinct
    rw [← map_text_newChunks blankLine new, List.pairwise_map] at apart
    apply apart.imp_of_mem
    rintro first second _ alsoInside ⟨name, other, isName, another, different, left, right⟩
      old member
      accepted
    rcases List.mem_append.mp member with early | last
    · rcases List.mem_cons.mp early with rfl | early
      · exact atHeading second.text (text_mem_split alsoInside)
      · obtain ⟨known, _, isKnown, there⟩ := laid.exports_of_mem early
        rw [accepts_exports_eq isName isKnown left there, decide_eq_true_eq] at accepted
        rw [accepts_exports_eq another isKnown right there, decide_eq_false_iff_not, ← accepted]
        exact different.symm
    · rw [List.mem_singleton.mp last]
      exact atList second.text (text_mem_split alsoInside)

/-- Merging named exports renews those of their names and adds the others at the end. -/
theorem content_merge_named {new : Text}
    (laid : Laid cwd directory heading written fonts listed middle)
    (shows_ : List.Forall₂ (Shows cwd directory) families (split blankLine new))
    (names : ∀ family ∈ families, IsName family.name)
    (distinct : (families.map Family.name).Nodup) :
    ∃ more, Laid cwd directory heading (record families written)
        (fonts ++ (families.map Family.name).filter (· ∉ fonts)) listed more ∧
      (FontScaffold.merge Matcher.standard blankLine (laidText heading middle listed) new).content =
        laidText heading more listed := by
  have first := successor_of_refused (refused_heading laid shows_ names)
  have last := successor_of_refused (refused_defaultExport laid shows_ names)
  have renewed := stands_successors laid shows_ names
  have added := stands_additions laid shows_ names distinct
  have isName : ∀ name ∈ fonts ++ (families.map Family.name).filter (· ∉ fonts), IsName name := by
    intro name member
    rcases List.mem_append.mp member with old | fresh
    · exact laid.names name old
    · obtain ⟨family, inside, rfl⟩ := List.mem_map.mp (List.mem_of_mem_filter fresh)
      exact names family inside
  have alone : (fonts ++ (families.map Family.name).filter (· ∉ fonts)).Nodup := by
    rw [List.nodup_append]
    refine ⟨laid.distinct, distinct.filter _, ?_⟩
    intro name old other fresh same
    have new := (List.mem_filter.mp fresh).2
    simp [← same, old] at new
  have relaid := Laid.mk laid.foreign isName alone (List.rel_append renewed added) laid.identifiers
  refine ⟨_, relaid, ?_⟩
  rw [content_merge_of_exclusive blankLine_ne_nil (unlike_of_shows shows_ names distinct)
    (apart_of_shows shows_) laid.split_eq (exclusive_of_shows laid shows_ names distinct)
    (by rw [last]; exact isVisible_defaultExport listed), last, List.map_cons, Function.comp_apply,
    first, laid.foreign.closed.complete_eq, List.cons_append, relaid.eraseDups_eq]
  rfl

end Named

section Pruned

def loader : Text := "localfont".text

theorem exports_exportProbe {name : Text} (isName : IsName name) :
    Exports name (exportProbe name) := by
  have assembled : ∀ first second third start ending : Text,
      start = first ++ [.char ' '] ++ (second ++ [.char ' ']) →
        ending = [.char ' '] ++ (third ++ [.char ' ']) ++ loader →
      start ++ name ++ ending =
        [first, second, name, third].flatMap (· ++ [.char ' ']) ++ loader := by
    intro first second third start ending head tail
    rw [head, tail]
    simp only [List.flatMap_cons, List.flatMap_nil, List.append_assoc, List.nil_append]
  have shape : exportProbe name = (exportWords name).flatMap (· ++ [.char ' ']) ++ loader :=
    assembled "export".text "const".text "=".text "export const ".text
      " = localfont".text (by decide) (by decide)
  have oneLine : OneLine (exportProbe name) :=
    oneLine_append (oneLine_append ⟨by decide, by decide⟩ (oneLine_of_identifier isName.identifier))
      ⟨by decide, by decide⟩
  have block : Block (exportProbe name) := by
    refine ⟨open_blankLine_of_not_mem oneLine.1, ?_, oneLine.2⟩
    refine ⟨(exportWords name).flatMap (· ++ [.char ' ']) ++ loader.dropLast, .char 't',
      ?_, by decide⟩
    rw [shape, List.append_assoc]
    rfl
  refine ⟨exportProbe name, block, ⟨loader, ?_⟩, block.complete_eq⟩
  rw [marked_of_not_mem oneLine.1, shape]

/-- Pruning by a name takes its export out, if there is one. -/
theorem content_prune_laid (laid : Laid cwd directory heading written fonts listed middle)
    {name : Text} (isName : IsName name) :
    ∃ rest, Laid cwd directory heading written (fonts.filter (· ≠ name)) listed rest ∧
      (prune Matcher.standard blankLine (laidText heading middle listed)
        (exportProbe name)).content = laidText heading rest listed := by
  have probe := exports_exportProbe isName
  have others : ∀ other chunk, IsName other → Exports other chunk →
      (!Matcher.standard.accepts blankLine (exportProbe name) chunk) = decide (other ≠ name) := by
    intro other chunk another exports
    rw [accepts_exports_eq isName another probe exports, ← decide_not]
    exact decide_eq_decide.mpr (not_congr eq_comm)
  have kept : List.Forall₂ (Stands cwd directory written) (fonts.filter (· ≠ name))
      (middle.filter fun chunk =>
          !Matcher.standard.accepts blankLine (exportProbe name) chunk) := by
    have names := laid.names
    have exports := laid.exports
    clear laid
    induction exports with
    | nil => exact .nil
    | @cons other chunk fonts middle here rest ih =>
        have tail := ih fun another member => names another (List.mem_cons_of_mem other member)
        have same := others other chunk (names other List.mem_cons_self) here.1.1
        by_cases equal : other = name
        · rw [List.filter_cons_of_neg (by simp [equal]),
            List.filter_cons_of_neg (by rw [same]; simp [equal])]
          exact tail
        · rw [List.filter_cons_of_pos (by simp [equal]),
            List.filter_cons_of_pos (by rw [same]; simp [equal])]
          exact .cons here tail
  have relaid : Laid cwd directory heading written (fonts.filter (· ≠ name)) listed
      (middle.filter fun chunk =>
        !Matcher.standard.accepts blankLine (exportProbe name) chunk) :=
    ⟨laid.foreign, fun other member => laid.names other (List.mem_of_mem_filter member),
      laid.distinct.filter _, kept, laid.identifiers⟩
  have left : spared Matcher.standard blankLine (laidText heading middle listed)
      (exportProbe name) = heading :: (middle.filter fun chunk =>
        !Matcher.standard.accepts blankLine (exportProbe name) chunk) ++
          [defaultExport listed] := by
    have first := laid.foreign.exports name _ isName probe
    have last := Bool.eq_false_iff.mpr
      (not_accepts_exports_lists isName probe (lists_defaultExport laid.identifiers))
    rw [spared, laid.split_eq, List.filter_append, List.filter_cons_of_pos (by simp [first]),
      List.filter_cons_of_pos (by simp [last])]
    rfl
  refine ⟨_, relaid, ?_⟩
  rw [content_prune_of_nodup (by rw [left]; exact relaid.nodup), left]
  rfl

end Pruned

section Updated

theorem families_eq_nil {named : List Text}
    (each : List.Forall₂ (fun family text => namedExport cwd directory family = .ok text)
      families named)
    (names : ∀ family ∈ families, IsName family.name)
    (empty : [.char '\n'].intercalate named = []) :
    families = [] := by
  by_contra some
  have cut := split_namedExports each (fun family member => (names family member).identifier) some
  rw [empty, split_of_open (open_nil blankLine_ne_nil)] at cut
  obtain ⟨family, _, exports, _⟩ := exists_of_mem_forall₂ cut (List.mem_singleton_self [])
  exact exports.ne_nil rfl

theorem laidText_eraseDups (heading : Text) (middle listed : List Text) :
    laidText heading middle listed.eraseDups = laidText heading middle listed := by
  have once : listed.eraseDups.eraseDups = listed.eraseDups :=
    FirstOccurrences.eraseDups_of_nodup (FirstOccurrences.nodup_eraseDups listed)
  rw [laidText, laidText, defaultExport_eq, defaultExport_eq, listBody, listBody, once]

/-- Brought up to date, an index in canonical form is one with the new names behind the old. -/
theorem updatedText_laid {settings : Settings} {parts : Parts} {named : List Text}
    (separated : settings.declarationSeparator = blankLine)
    (laid : Laid settings.workingDirectory directory heading written fonts fonts middle)
    (each : List.Forall₂
      (fun family text => namedExport settings.workingDirectory directory family = .ok text)
      families named)
    (namedEq : parts.namedExports = [.char '\n'].intercalate named)
    (listedEq : parts.defaultExport = defaultExport (fonts ++ families.map Family.name))
    (names : ∀ family ∈ families, IsName family.name)
    (distinct : (families.map Family.name).Nodup) :
    ∃ more, Laid settings.workingDirectory directory heading (record families written)
        (fonts ++ families.map Family.name).eraseDups (fonts ++ families.map Family.name).eraseDups
        more ∧
      updatedText settings parts (laidText heading middle fonts) =
        laidText heading more (fonts ++ families.map Family.name).eraseDups := by
  have all : (fonts ++ families.map Family.name).eraseDups =
      fonts ++ (families.map Family.name).filter (· ∉ fonts) := by
    rw [FirstOccurrences.eraseDups_append_of_nodup laid.distinct distinct]
    congr 1
    apply List.filter_congr
    simp
  have merged : ∃ more, Laid settings.workingDirectory directory heading (record families written)
      (fonts ++ (families.map Family.name).filter (· ∉ fonts)) fonts more ∧
        withNamed settings parts (laidText heading middle fonts) = laidText heading more fonts := by
    by_cases none : parts.namedExports = []
    · rw [namedEq] at none
      obtain rfl := families_eq_nil each names none
      rw [List.map_nil, List.filter_nil, List.append_nil, withNamed, namedEq, if_pos none]
      exact ⟨middle, laid, rfl⟩
    · unfold withNamed
      rw [if_neg none, separated, namedEq]
      rw [namedEq] at none
      exact content_merge_named laid
        (split_namedExports each (fun family member => (names family member).identifier)
          (namedExports_ne_nil each none)) names distinct
  obtain ⟨more, relaid, named⟩ := merged
  have identifiers : ∀ name ∈ fonts ++ families.map Family.name, isIdentifier name := by
    intro name member
    apply (relaid.names name _).identifier
    rwa [← all, List.mem_eraseDups]
  refine ⟨more, ⟨relaid.foreign, ?_, ?_, ?_, ?_⟩, ?_⟩
  · rw [all]
    exact relaid.names
  · rw [all]
    exact relaid.distinct
  · rw [all]
    exact relaid.exports
  · exact fun name member => identifiers name (List.mem_eraseDups.mp member)
  · unfold updatedText
    rw [named, separated, listedEq, content_merge_listed relaid identifiers,
      laidText_eraseDups]

theorem laidText_nil (settings : Settings) :
    laidText (settings.loaderImport ++ blankLine) [] [] = skeleton settings := by
  unfold laidText
  rw [List.singleton_append, List.flatten_cons, List.flatten_singleton, List.append_assoc]
  rfl

theorem laid_nil (foreign : Foreign heading) (written : Text → List Font) :
    Laid cwd directory heading written [] [] [] :=
  ⟨foreign, by simp, List.nodup_nil, .nil, by simp⟩

theorem laid_of_ensure_missing {settings : Settings} {path : Text} {before after : Workspace}
    {created : Bool} (foreign : Foreign (settings.loaderImport ++ blankLine))
    (missing : before.tree.pathExists settings.workingDirectory path = false)
    (done : ensure settings path none before = .ok created after) :
    Laid cwd directory (settings.loaderImport ++ blankLine) written [] [] [] ∧
      File.Holds settings after.tree path
        (laidText (settings.loaderImport ++ blankLine) [] []) := by
  refine ⟨laid_nil foreign written, ?_⟩
  obtain ⟨_, ⟨there, _⟩ | ⟨_, holds⟩⟩ := ensure_eq_ok done
  · rw [missing] at there
    cases there
  · rwa [laidText_nil]

/-- If an index is in canonical form once it is there, bringing it up to date adds the new names
behind the old. -/
theorem laid_of_update {settings : Settings} {path : Text} {before after : Workspace}
    {changed : Bool} (separated : settings.declarationSeparator = blankLine)
    (start : ∀ created ensured, ensure settings path none before = .ok created ensured →
      ∃ middle, Laid settings.workingDirectory directory heading written before.config.fonts
          before.config.fonts middle ∧
        File.Holds settings ensured.tree path (laidText heading middle before.config.fonts))
    (names : ∀ family ∈ families, IsName family.name)
    (distinct : (families.map Family.name).Nodup)
    (done : update settings path families directory before = .ok changed after) :
    (∃ more, Laid settings.workingDirectory directory heading (record families written)
        (before.config.fonts ++ families.map Family.name).eraseDups
        (before.config.fonts ++ families.map Family.name).eraseDups more ∧
      File.Holds settings after.tree path
        (laidText heading more (before.config.fonts ++ families.map Family.name).eraseDups)) ∧
      after.config = before.config := by
  obtain ⟨parts, ensured, created, text, rendered, ensuredEq, rewritten⟩ := update_eq_ok done
  obtain ⟨named, each, namedEq, listedEq⟩ := render_eq_ok rendered
  obtain ⟨middle, laid, holds⟩ := start created ensured ensuredEq
  obtain ⟨more, relaid, updated⟩ :=
    updatedText_laid separated laid each namedEq listedEq names distinct
  have same := rewritten.first.unique holds
  subst same
  refine ⟨⟨more, relaid, ?_⟩, rewritten.config.trans (ensure_eq_ok ensuredEq).1⟩
  rw [← updated]
  exact rewritten.last

end Updated

end FontScaffold.Index
