import Mathlib.Data.Option.Basic
import Mathlib.Data.List.Infix

-- Runs of a machine that is given by a partial step function: `step s a` is the state after the
-- action `a`, or `none` when `a` is not possible in `s`.
namespace Machine

variable {σ α : Type*} (step : σ → α → Option σ)

def run (s : σ) : List α → Option σ
  | []      => some s
  | a :: as => (step s a).bind (run · as)

-- `Along P s as` holds if every step that the run of `as` from `s` takes satisfies `P`, where `P`
-- sees the action of the step and the state in which it is taken.
def Along (P : σ → α → Prop) (s : σ) : List α → Prop
  | []      => True
  | a :: as => P s a ∧ ∀ s', step s a = some s' → Along P s' as

instance Along.decidable {P : σ → α → Prop} [∀ s a, Decidable (P s a)] :
    (s : σ) → (as : List α) → Decidable (Along step P s as)
  | _, []      => .isTrue trivial
  | s, a :: as =>
    match h : step s a with
    | none    => decidable_of_iff (P s a) (by simp [Along, h])
    | some s' =>
      have := Along.decidable (P := P) s' as
      decidable_of_iff (P s a ∧ Along step P s' as) (by simp [Along, h])

variable {step} {s s' s₁ s₂ : σ} {a : α} {as as' : List α} {P Q : σ → α → Prop} {I : σ → Prop}

@[simp]
theorem run_nil : run step s [] = some s :=
  rfl

theorem run_cons_iff :
    run step s (a :: as) = some s₂ ↔ ∃ s₁, step s a = some s₁ ∧ run step s₁ as = some s₂ := by
  simp [run, Option.bind_eq_some_iff]

theorem run_append_iff :
    run step s (as ++ as') = some s₂ ↔ ∃ s₁, run step s as = some s₁ ∧ run step s₁ as' = some s₂ := by
  induction as generalizing s
  case nil => simp
  case cons hi =>
    simp only [List.cons_append, run_cons_iff, hi]
    exact ⟨fun ⟨s₁, h, s₂, h', t⟩ => ⟨s₂, ⟨s₁, h, h'⟩, t⟩, fun ⟨s₂, ⟨s₁, h, h'⟩, t⟩ => ⟨s₁, h, s₂, h', t⟩⟩

theorem Along.head (h : Along step P s (a :: as)) : P s a :=
  h.left

theorem Along.tail (h : Along step P s (a :: as)) (hs : step s a = some s') : Along step P s' as :=
  h.right _ hs

theorem Along.trivial : Along step (fun _ _ => True) s as := by
  induction as generalizing s
  case nil => exact True.intro
  case cons hi => exact ⟨True.intro, fun _ _ => hi⟩

theorem Along.append_right (h : Along step P s (as ++ as')) (hr : run step s as = some s₁) :
    Along step P s₁ as' := by
  induction as generalizing s
  case nil => simp at hr; exact hr ▸ h
  case cons hi =>
    obtain ⟨_, hs, hr⟩ := run_cons_iff.mp hr
    exact hi (h.tail hs) hr

-- An invariant that every step satisfying `P` preserves holds after every run along `P`.
theorem run_invariant
    (hstep : ∀ s a s', I s → P s a → step s a = some s' → I s')
    (h : Along step P s as) (hr : run step s as = some s') (hi : I s) : I s' := by
  induction as generalizing s
  case nil => simp at hr; exact hr ▸ hi
  case cons ih =>
    obtain ⟨_, hs, hr⟩ := run_cons_iff.mp hr
    exact ih (h.tail hs) hr (hstep _ _ _ hi h.head hs)

-- What an invariant says about the state before a step carries over to all steps of a run.
theorem along_of_invariant
    (hstep : ∀ s a s', I s → P s a → step s a = some s' → I s')
    (hq : ∀ s a, I s → P s a → Q s a) (h : Along step P s as) (hi : I s) : Along step Q s as := by
  induction as generalizing s
  case nil => exact True.intro
  case cons ih => exact ⟨hq _ _ hi h.head, fun _ hs => ih (h.tail hs) (hstep _ _ _ hi h.head hs)⟩

-- If a property `Q` of steps decides whether a step keeps the states good, then it decides whether
-- all states of a run are good.
theorem along_iff_of_invariant {J : σ → Prop}
    (hstep : ∀ s a s', I s → P s a → step s a = some s' → I s')
    (hq : ∀ s a, I s → J s → P s a → (Q s a ↔ ∀ s', step s a = some s' → J s'))
    (h : Along step P s as) (hi : I s) (hj : J s) :
    Along step Q s as ↔ Along step (fun s a => ∀ s', step s a = some s' → J s') s as := by
  induction as generalizing s
  case nil => rfl
  case cons ih =>
    have hq' := hq _ _ hi hj h.head
    constructor
    case mp =>
      intro ha
      exact ⟨hq'.mp ha.head, fun s' hs =>
        (ih (h.tail hs) (hstep _ _ _ hi h.head hs) (hq'.mp ha.head s' hs)).mp (ha.tail hs)⟩
    case mpr =>
      intro ha
      exact ⟨hq'.mpr ha.head, fun s' hs =>
        (ih (h.tail hs) (hstep _ _ _ hi h.head hs) (ha.head s' hs)).mpr (ha.tail hs)⟩

end Machine
