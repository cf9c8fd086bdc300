import FontScaffold.Proofs.Index.Rendered

set_option autoImplicit false

namespace FontScaffold.Index

open Chunk Merge

/-- The chunk is the export of a family, completed or not. -/
def Shows (cwd directory : Text) (family : Family) (chunk : Text) : Prop :=
  Exports family.name chunk ∧ ∃ text, namedExport cwd directory family = .ok text ∧
    complete blankLine chunk = text ++ [.char '\n']

section Named

variable {cwd directory : Text} {families : List Family} {named : List Text}

theorem shows_of_block {family : Family} {body text chunk : Text} (block : Block body)
    (led : LedBy (exportWords family.name) body) (shape : text = body ++ [.char '\n'])
    (done : namedExport cwd directory family = .ok text)
    (copy : complete blankLine chunk = body ++ blankLine) : Shows cwd directory family chunk := by
  refine ⟨⟨body, block, led, copy⟩, text, done, ?_⟩
  rw [copy, shape, List.append_assoc]
  rfl

/-- Joined by line ends, the named exports are cut into one chunk each. -/
theorem split_namedExports
    (each : List.Forall₂ (fun family text => namedExport cwd directory family = .ok text)
      families named)
    (identifiers : ∀ family ∈ families, isIdentifier family.name) (some : families ≠ []) :
    List.Forall₂ (Shows cwd directory) families
    (split blankLine ([.char '\n'].intercalate named)) := by
  induction each with
  | nil => exact (some rfl).elim
  | @cons family text families named done rest ih =>
      obtain ⟨body, block, led, shape⟩ :=
        exports_of_namedExport (identifiers family List.mem_cons_self) done
      cases rest with
      | nil =>
          rw [List.intercalate_singleton, shape, split_of_open block.open_line]
          exact .cons (shows_of_block block led shape done block.complete_line) .nil
      | cons _ _ =>
          have tail := ih (fun other member =>
            identifiers other (List.mem_cons_of_mem family member))
            (List.cons_ne_nil _ _)
          have closed : text ++ [.char '\n'] = body ++ blankLine := by
            rw [shape, List.append_assoc]
            rfl
          rw [List.intercalate_cons_of_ne_nil (List.cons_ne_nil _ _), closed,
            split_append_of_closed blankLine_ne_nil block.closed]
          exact .cons (shows_of_block block led shape done block.complete_append_blankLine) tail

theorem matchesCopies_of_exports {name chunk : Text} (isName : IsName name)
    (exports : Exports name chunk) : MatchesCopies Matcher.standard blankLine chunk :=
  fun _ same => (accepts_exports_iff isName isName exports (exports.copy same)).mpr rfl

theorem ignoresCopies_of_exports {name other first second : Text} (isName : IsName name)
    (another : IsName other) (different : name ≠ other) (left : Exports name first)
    (right : Exports other second) : IgnoresCopies Matcher.standard blankLine first second :=
  fun _ same => mt (accepts_exports_iff isName another left (right.copy same)).mp different

/-- Two exports, of different names. -/
def ExportsApart (first second : Text) : Prop :=
  ∃ name other, IsName name ∧ IsName other ∧ name ≠ other ∧ Exports name first ∧
    Exports other second

theorem pairwise_exports {names chunks : List Text} (exports : List.Forall₂ Exports names chunks)
    (isName : ∀ name ∈ names, IsName name) (distinct : names.Nodup) :
    chunks.Pairwise ExportsApart := by
  induction exports with
  | nil => exact .nil
  | @cons name chunk names chunks here rest ih =>
      obtain ⟨alone, distinct⟩ := List.nodup_cons.mp distinct
      refine .cons ?_ (ih (fun other member => isName other (List.mem_cons_of_mem name member))
        distinct)
      intro second member
      obtain ⟨other, inside, there⟩ := exists_of_mem_forall₂ rest member
      refine ⟨name, other, isName name List.mem_cons_self,
        isName other (List.mem_cons_of_mem name inside), ?_, here, there⟩
      intro same
      subst same
      exact alone inside

theorem pairwise_shows {chunks : List Text}
    (shows_ : List.Forall₂ (Shows cwd directory) families chunks)
    (names : ∀ family ∈ families, IsName family.name)
    (distinct : (families.map Family.name).Nodup) :
    chunks.Pairwise ExportsApart := by
  apply @pairwise_exports (families.map Family.name)
  · exact List.forall₂_map_left_iff.mpr (shows_.imp fun _ _ here => here.1)
  · intro name member
    obtain ⟨family, inside, rfl⟩ := List.mem_map.mp member
    exact names family inside
  · exact distinct

/-- The exports of families with different names are unlike each other. -/
theorem unlike_of_shows {new : Text}
    (shows_ : List.Forall₂ (Shows cwd directory) families (split blankLine new))
    (names : ∀ family ∈ families, IsName family.name)
    (distinct : (families.map Family.name).Nodup) :
    Unlike Matcher.standard blankLine (newChunks blankLine new) := by
  apply unlike_newChunks
  · intro chunk member
    obtain ⟨family, _, exports, _⟩ := exists_of_mem_forall₂ shows_ member
    exact exports.ne_nil
  · intro chunk member
    obtain ⟨family, inside, exports, _⟩ := exists_of_mem_forall₂ shows_ member
    exact matchesCopies_of_exports (names family inside) exports
  · refine (pairwise_shows shows_ names distinct).imp ?_
    rintro first second ⟨name, other, isName, another, different, left, right⟩
    exact ⟨ignoresCopies_of_exports isName another different left right,
      ignoresCopies_of_exports another isName different.symm right left⟩

theorem apart_of_shows {new : Text}
    (shows_ : List.Forall₂ (Shows cwd directory) families (split blankLine new)) :
    ∀ chunk ∈ newChunks blankLine new, Apart blankLine chunk.text := by
  intro chunk member
  obtain ⟨family, _, exports, _⟩ := exists_of_mem_forall₂ shows_ (text_mem_split member)
  exact exports.apart

end Named

section Default

variable {names : List Text}

theorem split_defaultExport (identifiers : ∀ name ∈ names, isIdentifier name) :
    split blankLine (defaultExport names) = [defaultExport names] := by
  apply split_of_open
  rw [defaultExport_eq]
  exact (block_listBody identifiers).open_line

theorem newChunks_defaultExport (identifiers : ∀ name ∈ names, isIdentifier name) :
    newChunks blankLine (defaultExport names) = [⟨defaultExport names, 0⟩] := by
  rw [newChunks, split_defaultExport identifiers]
  rfl

theorem unlike_defaultExport (identifiers : ∀ name ∈ names, isIdentifier name) :
    Unlike Matcher.standard blankLine (newChunks blankLine (defaultExport names)) := by
  have lists := lists_defaultExport identifiers
  apply unlike_newChunks <;> rw [split_defaultExport identifiers]
  · intro chunk member
    rw [List.mem_singleton.mp member]
    exact lists.ne_nil
  · intro chunk member copy same
    rw [List.mem_singleton] at member
    subst member
    exact accepts_lists lists (lists.copy same)
  · exact List.pairwise_singleton _ _

theorem apart_defaultExport (identifiers : ∀ name ∈ names, isIdentifier name) :
    ∀ chunk ∈ newChunks blankLine (defaultExport names), Apart blankLine chunk.text := by
  rw [newChunks_defaultExport identifiers]
  intro chunk member
  rw [List.mem_singleton.mp member]
  exact (lists_defaultExport identifiers).apart

end Default

/-- Merging the named exports again changes nothing, even after the default export was merged. -/
theorem content_merge_namedExports {cwd directory : Text} {families : List Family}
    {names : List Text} {new : Text}
    (shows_ : List.Forall₂ (Shows cwd directory) families (split blankLine new))
    (familyNames : ∀ family ∈ families, IsName family.name)
    (distinct : (families.map Family.name).Nodup)
    (identifiers : ∀ name ∈ names, isIdentifier name) (existing : Text) :
    let named := (FontScaffold.merge Matcher.standard blankLine existing new).content
    let written := (FontScaffold.merge Matcher.standard blankLine named
      (defaultExport names)).content
    (FontScaffold.merge Matcher.standard blankLine written new).content = written := by
  have unlike := unlike_of_shows shows_ familyNames distinct
  have lists := lists_defaultExport identifiers
  have apart := apart_defaultExport identifiers
  apply content_merge_of_comesFirst
  · exact nodup_split_content_merge blankLine_ne_nil
      fun chunk added => apart chunk (additions_sublist.subset added)
  · intro chunk member
    have first := @comesFirst_of_unlike _ _ existing new blankLine_ne_nil unlike
      (apart_of_shows shows_) chunk member
    obtain ⟨family, inside, exports, _⟩ := exists_of_mem_forall₂ shows_ (text_mem_split member)
    have isName := familyNames family inside
    apply comesFirst_of_ignored blankLine_ne_nil apart first (unlike.own chunk member)
    · rw [newChunks_defaultExport identifiers]
      intro fresh only copy same
      rw [List.mem_singleton.mp only]
      exact not_accepts_lists_exports isName lists (exports.copy same)
    · rw [newChunks_defaultExport identifiers]
      intro fresh only copy same
      rw [List.mem_singleton.mp only] at same
      exact not_accepts_exports_lists isName exports (lists.copy same)
  · exact unlike.nodup_map_key (nodup_newChunks _ _)

end FontScaffold.Index
