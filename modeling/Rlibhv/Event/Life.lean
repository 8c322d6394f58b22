import Rlibhv.Event.State

-- The life of a descriptor as it shows in a trace, independently of how the loop brings it about.
namespace Rlibhv

namespace Event

def subject : Event → Option Serial
  | opened d _ | closed d | recv d _ | send d _ | onAccept d | onRecv d _ | onClose d _ _ => some d
  | closeFailed _ | closeEvent _ _ => none

-- The events that occur on a connection between its `on_accept` and its `on_close`.
def Data (c : Serial) : Event → Prop
  | recv c' _ | send c' _ | onRecv c' _ => c' = c
  | _                                   => False

def isCloseFailed : Event → Bool
  | closeFailed _ => true
  | _             => false

theorem Data.subject_eq {c : Serial} {e : Event} (h : e.Data c) : e.subject = some c := by
  cases e
  case recv | send | onRecv => exact congrArg some h
  all_goals cases h

theorem Data.not_closeFailed {c : Serial} {e : Event} (h : e.Data c) : e.isCloseFailed = false := by
  cases e
  case closeFailed => cases h
  all_goals rfl

end Event

inductive Life
  | unborn
  | opened (k : Kind)
  | accepted
  | hungUp
  | gone
  deriving DecidableEq

namespace Life

-- What may happen to a descriptor next: only a connection has callbacks, and it is not closed without
-- `on_close`.
def next : Life → Event → Option Life
  | unborn,           .opened _ k    => some (opened k)
  | opened .conn,     .onAccept _    => some accepted
  | accepted,         .recv _ _      => some accepted
  | accepted,         .send _ _      => some accepted
  | accepted,         .onRecv _ _    => some accepted
  | accepted,         .onClose _ _ _ => some hungUp
  | hungUp,           .closed _      => some gone
  | opened .listen,   .closed _      => some gone
  | opened .epoll,    .closed _      => some gone
  | opened .eventfd,  .closed _      => some gone
  | _, _                             => none

def step (d : Serial) (l : Life) (e : Event) : Option Life :=
  if e.isCloseFailed then none
  else if e.subject = some d then l.next e
  else some l

-- The events of a descriptor `d` at each stage of its life.
def History (d : Serial) : Life → List Event → Prop
  | unborn,   t => t = []
  | opened k, t => t = [.opened d k]
  | accepted, t => ∃ ds, t = [.opened d .conn, .onAccept d] ++ ds ∧ ∀ e ∈ ds, e.Data d
  | hungUp,   t => ∃ ds err b, t = [.opened d .conn, .onAccept d] ++ ds ++ [.onClose d err b] ∧
    ∀ e ∈ ds, e.Data d
  | gone,     t => (∃ ds err b, t =
    [.opened d .conn, .onAccept d] ++ ds ++ [.onClose d err b, .closed d] ∧ ∀ e ∈ ds, e.Data d) ∨
    ∃ k ≠ .conn, t = [.opened d k, .closed d]

end Life

def life (d : Serial) (t : List Event) : Option Life :=
  t.foldlM (Life.step d) .unborn

def own (d : Serial) (t : List Event) : List Event :=
  t.filter (·.subject = some d)

section

variable {d : Serial} {t t' : List Event} {e : Event} {l l' : Life}

theorem life_append : life d (t ++ t') = (life d t).bind fun l => t'.foldlM (Life.step d) l := by
  simp [life, List.foldlM_append]

theorem life_concat : life d (t ++ [e]) = (life d t).bind fun l => l.step d e := by
  rw [life_append]
  congr 1
  funext l
  simp

-- Events of other descriptors do not matter.
theorem life_append_of_ne (h : ∀ e ∈ t', e.subject ≠ some d ∧ e.isCloseFailed = false) :
    life d (t ++ t') = life d t := by
  induction t' using List.reverseRecOn
  case nil => simp
  case append_singleton t' e hi =>
    have he := h e (by simp)
    rw [←List.append_assoc, life_concat, hi fun e hm => h e (by simp [hm])]
    simp [Life.step, he]

theorem life_append_data (hl : life d t = some .accepted) (h : ∀ e ∈ t', e.Data d) :
    life d (t ++ t') = some .accepted := by
  induction t' using List.reverseRecOn
  case nil => simpa using hl
  case append_singleton t' e hi =>
    have he := h e (by simp)
    rw [←List.append_assoc, life_concat, hi fun e hm => h e (by simp [hm])]
    simp only [Life.step, he.not_closeFailed, he.subject_eq, Option.bind_some]
    cases e
    case recv | send | onRecv => rfl
    all_goals cases he

-- No descriptor is closed that is not open.
theorem closeFailed_not_mem (h : life d t = some l) {f : Fd} : .closeFailed f ∉ t := by
  induction t using List.reverseRecOn generalizing l
  case nil => simp
  case append_singleton t e hi =>
    rw [life_concat] at h
    obtain ⟨l₁, h₁, h⟩ := Option.bind_eq_some_iff.mp h
    intro hm
    cases List.mem_append.mp hm
    case inl hm => exact hi h₁ hm
    case inr hm =>
      cases List.mem_singleton.mp hm
      simp [Life.step, Event.isCloseFailed] at h

theorem Life.next_history (hs : e.subject = some d) (h : l.next e = some l') (hh : l.History d t) :
    l'.History d (t ++ [e]) := by
  cases l
  case unborn =>
    cases e <;> cases h
    case opened =>
      cases hs
      cases hh
      rfl
  case opened k =>
    cases hh
    cases k
    case conn =>
      cases e <;> cases h
      case onAccept =>
        cases hs
        exact ⟨[], rfl, by simp⟩
    all_goals
      cases e <;> cases h
      cases hs
      exact .inr ⟨_, by simp, rfl⟩
  case accepted =>
    obtain ⟨ds, ht, hd⟩ := hh
    have hd' (e : Event) (he : e.Data d) : ∀ e' ∈ ds ++ [e], e'.Data d := by
      simpa [or_imp, forall_and] using ⟨hd, he⟩
    cases e <;> cases h <;> cases hs
    case onClose err b => exact ⟨ds, err, b, by simp [ht], hd⟩
    case recv bs       => exact ⟨ds ++ [.recv d bs], by simp [ht], hd' (.recv d bs) rfl⟩
    case send bs       => exact ⟨ds ++ [.send d bs], by simp [ht], hd' (.send d bs) rfl⟩
    case onRecv bs     => exact ⟨ds ++ [.onRecv d bs], by simp [ht], hd' (.onRecv d bs) rfl⟩
  case hungUp =>
    obtain ⟨ds, err, b, ht, hd⟩ := hh
    cases e <;> cases h
    case closed =>
      cases hs
      exact .inl ⟨ds, err, b, by simp [ht], hd⟩
  case gone => cases e <;> cases h

theorem life_history (h : life d t = some l) : l.History d (own d t) := by
  induction t using List.reverseRecOn generalizing l
  case nil =>
    cases h
    rfl
  case append_singleton t e hi =>
    rw [life_concat] at h
    obtain ⟨l₁, h₁, h⟩ := Option.bind_eq_some_iff.mp h
    have hi := hi h₁
    simp only [Life.step] at h
    split at h
    case isTrue  => cases h
    case isFalse =>
      split at h
      case isTrue hs =>
        simpa [own, hs] using Life.next_history hs h hi
      case isFalse hs =>
        cases h
        simpa [own, hs] using hi

end
end Rlibhv
