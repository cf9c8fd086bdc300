import FontScaffold.Workspace
import Mathlib.Data.List.Forall2

set_option autoImplicit false

namespace FontScaffold

variable {α β ε : Type}

theorem bind_eq_ok {first : Except ε α} {next : α → Except ε β} {result : β} :
    (first >>= next) = .ok result ↔ ∃ value, first = .ok value ∧ next value = .ok result := by
  cases first with
  | error fault =>
      constructor
      · intro done
        cases done
      · rintro ⟨_, done, _⟩
        cases done
  | ok value =>
      constructor
      · exact fun done => ⟨value, rfl, done⟩
      · rintro ⟨_, same, done⟩
        cases same
        exact done

theorem forall₂_of_mapM {f : α → Except ε β} {items : List α} {results : List β}
    (done : items.mapM f = .ok results) :
    List.Forall₂ (fun item result => f item = .ok result) items results := by
  induction items generalizing results with
  | nil =>
      cases done
      exact .nil
  | cons item items ih =>
      rw [List.mapM_cons, bind_eq_ok] at done
      obtain ⟨result, first, done⟩ := done
      rw [bind_eq_ok] at done
      obtain ⟨others, rest, done⟩ := done
      cases done
      exact .cons first (ih rest)

theorem exists_mapM {f : α → Except ε β} {items : List α}
    (each : ∀ item ∈ items, ∃ result, f item = .ok result) :
    ∃ results, items.mapM f = .ok results := by
  induction items with
  | nil => exact ⟨[], rfl⟩
  | cons item items ih =>
      obtain ⟨result, first⟩ := each item List.mem_cons_self
      obtain ⟨results, rest⟩ := ih fun other member => each other (List.mem_cons_of_mem item member)
      refine ⟨result :: results, ?_⟩
      rw [List.mapM_cons, bind_eq_ok]
      refine ⟨result, first, ?_⟩
      rw [bind_eq_ok]
      exact ⟨results, rest, rfl⟩

theorem exists_of_mem_forall₂ {related : α → β → Prop} {items : List α} {results : List β}
    (each : List.Forall₂ related items results) {result : β} (member : result ∈ results) :
    ∃ item ∈ items, related item result := by
  induction each with
  | nil => cases member
  | @cons item first items results here _ ih =>
      rcases List.mem_cons.mp member with rfl | member
      · exact ⟨item, List.mem_cons_self, here⟩
      · obtain ⟨other, inside, there⟩ := ih member
        exact ⟨other, List.mem_cons_of_mem item inside, there⟩

namespace Edit

variable {before after : Workspace}

theorem bind_eq_ok {first : Edit α} {next : α → Edit β} {result : β} :
    (first >>= next) before = .ok result after ↔
      ∃ value middle, first before = .ok value middle ∧ next value middle = .ok result after := by
  change EStateM.bind first next before = .ok result after ↔ _
  rw [EStateM.bind]
  cases first before with
  | error fault middle =>
      constructor
      · intro done
        cases done
      · rintro ⟨_, _, done, _⟩
        cases done
  | ok value middle =>
      constructor
      · exact fun done => ⟨value, middle, rfl, done⟩
      · rintro ⟨_, _, same, done⟩
        cases same
        exact done

theorem bind_of_ok {first : Edit α} {next : α → Edit β} {value : α} {middle : Workspace}
    (done : first before = .ok value middle) : (first >>= next) before = next value middle := by
  change EStateM.bind first next before = _
  rw [EStateM.bind, done]

theorem bind_eq_error {first : Edit α} {next : α → Edit β} {fault : Fault} :
    (first >>= next) before = .error fault after ↔
      first before = .error fault after ∨
        ∃ value middle, first before = .ok value middle ∧
        next value middle = .error fault after := by
  change EStateM.bind first next before = .error fault after ↔ _
  rw [EStateM.bind]
  cases here : first before with
  | error other middle =>
      constructor
      · intro done
        cases done
        exact Or.inl rfl
      · rintro (done | ⟨_, _, done, _⟩)
        · cases done
          rfl
        · cases done
  | ok value middle =>
      constructor
      · exact fun done => Or.inr ⟨value, middle, rfl, done⟩
      · rintro (done | ⟨_, _, same, done⟩)
        · cases done
        · cases same
          exact done

/-- The workspace that an edit leaves, however it ends. -/
def leaves (edit : Edit α) (before : Workspace) : Workspace :=
  match edit before with
  | .ok _ after => after
  | .error _ after => after

theorem leaves_of_ok {edit : Edit α} {result : α} (done : edit before = .ok result after) :
    leaves edit before = after := by
  rw [leaves, done]

theorem leaves_of_error {edit : Edit α} {fault : Fault} (done : edit before = .error fault after) :
    leaves edit before = after := by
  rw [leaves, done]

/-- What holds after the first step, and after the second wherever it is reached, holds at the
end. -/
theorem leaves_bind {kept : Workspace → Prop} {first : Edit α} {next : α → Edit β}
    (here : kept (leaves first before))
    (there : ∀ value middle, first before = .ok value middle → kept (leaves (next value) middle)) :
    kept (leaves (first >>= next) before) := by
  cases done : first before with
  | ok value middle =>
      have same : leaves (first >>= next) before = leaves (next value) middle := by
        rw [leaves, bind_of_ok done]
        rfl
      rw [same]
      exact there value middle done
  | error fault middle =>
      have same : leaves (first >>= next) before = leaves first before := by
        change leaves (EStateM.bind first next) before = _
        rw [leaves, EStateM.bind, done, leaves_of_error done]
      rw [same]
      exact here

theorem ite_bind {condition : Prop} [Decidable condition] {first second : Edit α}
    {next : α → Edit β} :
    (if condition then first >>= next else second >>= next) =
      (if condition then first else second) >>= next := by
  split <;> rfl

theorem exists_of_ite {condition : Prop} [Decidable condition] {first : Edit Unit}
    {next : Unit → Edit β} {result : β}
    (done : (if condition then first >>= next else next ()) before = .ok result after) :
    ∃ middle, (condition ∧ first before = .ok () middle ∨ ¬condition ∧ middle = before) ∧
      next () middle = .ok result after := by
  by_cases taken : condition
  · rw [if_pos taken, bind_eq_ok] at done
    obtain ⟨_, middle, here, done⟩ := done
    exact ⟨middle, Or.inl ⟨taken, here⟩, done⟩
  · rw [if_neg taken] at done
    exact ⟨before, Or.inr ⟨taken, rfl⟩, done⟩

theorem pure_eq_ok {value result : α} :
    (pure value : Edit α) before = .ok result after ↔ value = result ∧ before = after := by
  change EStateM.Result.ok value before = .ok result after ↔ _
  constructor
  · intro done
    cases done
    exact ⟨rfl, rfl⟩
  · rintro ⟨rfl, rfl⟩
    rfl

theorem get_eq_ok {workspace : Workspace} :
    (get : Edit Workspace) before = .ok workspace after ↔
      before = workspace ∧ before = after := by
  change EStateM.Result.ok before before = .ok workspace after ↔ _
  constructor
  · intro done
    cases done
    exact ⟨rfl, rfl⟩
  · rintro ⟨rfl, rfl⟩
    rfl

theorem tell_eq_ok {entries : Log} {result : Unit} :
    tell entries before = .ok result after ↔
      after = { before with log := before.log ++ entries } := by
  change EStateM.Result.ok () { before with log := before.log ++ entries } = .ok result after ↔ _
  constructor
  · intro done
    cases done
    rfl
  · intro same
    subst same
    rfl

def succeeds (edit : Edit α) (before : Workspace) : Bool :=
  match edit before with
  | .ok _ _ => true
  | .error _ _ => false

theorem exists_of_succeeds {edit : Edit α} (success : succeeds edit before) :
    ∃ result after, edit before = .ok result after := by
  unfold succeeds at success
  cases done : edit before with
  | ok result after => exact ⟨result, after, rfl⟩
  | error fault after =>
      rw [done] at success
      cases success

def outcome (edit : Edit α) (before : Workspace) : Except Fault α :=
  match edit before with
  | .ok result _ => .ok result
  | .error fault _ => .error fault

theorem outcome_eq_ok {edit : Edit α} {result : α} :
    outcome edit before = .ok result ↔ ∃ after, edit before = .ok result after := by
  unfold outcome
  cases done : edit before <;> simp

theorem outcome_eq_error {edit : Edit α} {fault : Fault} :
    outcome edit before = .error fault ↔ ∃ after, edit before = .error fault after := by
  unfold outcome
  cases done : edit before <;> simp

/-- Nothing but the log has changed. -/
structure Quiet (before after : Workspace) : Prop where
  tree : after.tree = before.tree
  config : after.config = before.config

theorem Quiet.refl (workspace : Workspace) : Quiet workspace workspace :=
  ⟨rfl, rfl⟩

theorem Quiet.trans {middle : Workspace} (first : Quiet before middle)
    (second : Quiet middle after) :
    Quiet before after :=
  ⟨second.tree.trans first.tree, second.config.trans first.config⟩

theorem quiet_tell {entries : Log} {result : Unit}
    (done : tell entries before = .ok result after) : Quiet before after := by
  rw [tell_eq_ok.mp done]
  exact ⟨rfl, rfl⟩

theorem quiet_debug {message : Text} {result : Unit}
    (done : debug message before = .ok result after) : Quiet before after :=
  quiet_tell done

theorem quiet_info {message : Text} {result : Unit}
    (done : info message before = .ok result after) : Quiet before after :=
  quiet_tell done

theorem exists_told {condition : Prop} [Decidable condition] {entries : Log} {next : Unit → Edit β}
    {result : EStateM.Result Fault Workspace β}
    (done : (if condition then tell entries >>= next else next ()) before = result) :
    ∃ told, Quiet before told ∧ next () told = result := by
  split at done
  · have told : tell entries before = .ok () { before with log := before.log ++ entries } := rfl
    rw [bind_of_ok told] at done
    exact ⟨{ before with log := before.log ++ entries }, ⟨rfl, rfl⟩, done⟩
  · exact ⟨before, Quiet.refl before, done⟩

theorem ofExcept_eq_ok {outcome : Except Misuse α} {result : α} :
    ofExcept outcome before = .ok result after ↔ outcome = .ok result ∧ before = after := by
  cases outcome with
  | error misuse =>
      constructor
      · intro done
        cases done
      · rintro ⟨done, _⟩
        cases done
  | ok value =>
      rw [ofExcept, pure_eq_ok]
      constructor
      · rintro ⟨rfl, same⟩
        exact ⟨rfl, same⟩
      · rintro ⟨done, same⟩
        cases done
        exact ⟨rfl, same⟩

end Edit

end FontScaffold
