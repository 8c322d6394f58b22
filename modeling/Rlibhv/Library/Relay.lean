import Mathlib.Data.List.Induction
import Mathlib.Data.List.Infix

-- A relay takes elements in and passes them on. Its history is a list of events, of which each
-- takes in the elements `i e` and passes on the elements `o e`.
namespace Relay

variable {ε β : Type*} {i o : ε → List β} {t t' : List ε} {e : ε}

def flow (f : ε → List β) (t : List ε) : List β :=
  t.flatMap f

@[simp]
theorem flow_nil {f : ε → List β} : flow f [] = [] :=
  rfl

@[simp]
theorem flow_append {f : ε → List β} : flow f (t ++ t') = flow f t ++ flow f t' := by
  simp [flow]

@[simp]
theorem flow_singleton {f : ε → List β} : flow f [e] = f e := by
  simp [flow]

theorem flow_eq_nil {f : ε → List β} (h : ∀ e ∈ t, f e = []) : flow f t = [] := by
  simpa [flow] using h

-- At every point of the history, what has been passed on is an initial part of what had been taken
-- in: there is no gap, no repetition, no reordering, and nothing of another origin.
def Faithful (i o : ε → List β) (t : List ε) : Prop :=
  ∀ p, p <+: t → flow o p <+: flow i p

theorem Faithful.nil : Faithful i o [] := by
  intro p hp
  simp [List.prefix_nil.mp hp]

theorem Faithful.now (h : Faithful i o t) : flow o t <+: flow i t :=
  h t <| List.prefix_refl _

theorem Faithful.concat (h : Faithful i o t) (hp : flow o (t ++ [e]) <+: flow i (t ++ [e])) :
    Faithful i o (t ++ [e]) := by
  intro p h'
  cases List.prefix_concat_iff.mp h'
  case inl h' => exact h' ▸ hp
  case inr h' => exact h p h'

-- An event that passes nothing on cannot do harm.
theorem Faithful.concat_in (h : Faithful i o t) (ho : o e = []) : Faithful i o (t ++ [e]) := by
  refine h.concat ?_
  simpa [ho] using h.now.trans <| List.prefix_append _ _

-- An event may pass on what comes next in the backlog of taken in elements.
theorem Faithful.concat_out {bs : List β} (h : Faithful i o t)
    (hb : flow i t = flow o t ++ o e ++ bs) : Faithful i o (t ++ [e]) := by
  refine h.concat ?_
  simp [hb]

-- The same for several events.
theorem Faithful.append_in (h : Faithful i o t) (ho : ∀ e ∈ t', o e = []) : Faithful i o (t ++ t') := by
  induction t' using List.reverseRecOn
  case nil => simpa using h
  case append_singleton t' e hi =>
    rw [←List.append_assoc]
    exact (hi fun e he => ho e <| List.mem_append_left _ he).concat_in <| ho e (by simp)

theorem Faithful.append_out {bs : List β} (h : Faithful i o t) (hi : ∀ e ∈ t', i e = [])
    (hb : flow i t = flow o t ++ flow o t' ++ bs) : Faithful i o (t ++ t') := by
  induction t' using List.reverseRecOn generalizing bs
  case nil => simpa using h
  case append_singleton t' e ih =>
    have hi' : ∀ e ∈ t', i e = [] := fun e he => hi e <| List.mem_append_left _ he
    have hb : flow i t = flow o t ++ flow o t' ++ (o e ++ bs) := by simpa using hb
    rw [←List.append_assoc]
    have hbs : flow i (t ++ t') = flow o (t ++ t') ++ o e ++ bs := by simpa [flow_eq_nil hi'] using hb
    exact (ih hi' hb).concat_out hbs

end Relay
