import Mathlib.Data.List.Infix

-- Streams that consist of packages and arrive in pieces.
namespace Framing

variable {β : Type*}

-- What the beginning of the rest of a stream says about the next package: its length, that more has
-- to arrive before it is complete, that it is not acceptable, or that no more packages are wanted.
inductive Next
  | package (n : Nat)
  | more
  | bad
  | stop
  deriving DecidableEq

-- What has been taken from a stream, and what is left of it. A stream gets stuck if a package is
-- empty, because that package is never the last one.
inductive Outcome (β : Type*)
  | more (packages : List (List β)) (rest : List β)
  | bad (packages : List (List β)) (rest : List β)
  | stopped (packages : List (List β)) (rest : List β)
  | stuck

-- The next package may depend on those that have been taken before.
variable (next : List (List β) → List β → Next)

-- What has been said stays true when more arrives.
structure Stable : Prop where
  package : ∀ ps s t n, next ps s = .package n → n ≤ s.length ∧ next ps (s ++ t) = .package n
  bad     : ∀ ps s t, next ps s = .bad → next ps (s ++ t) = .bad
  stop    : ∀ ps s t, next ps s = .stop → next ps (s ++ t) = .stop

def deframe (ps : List (List β)) (s : List β) : Outcome β :=
  match next ps s with
  | .more      => .more ps s
  | .bad       => .bad ps s
  | .stop      => .stopped ps s
  | .package n =>
    if _h : 0 < n ∧ n ≤ s.length then deframe (ps ++ [s.take n]) (s.drop n)
    else .stuck
termination_by s.length
decreasing_by rw [List.length_drop]; omega

-- More of the stream arrives.
def Outcome.feed : Outcome β → List β → Outcome β
  | more ps r, t    => deframe next ps (r ++ t)
  | bad ps r, t     => bad ps (r ++ t)
  | stopped ps r, t => stopped ps (r ++ t)
  | stuck, _        => stuck

variable {next} {ps : List (List β)} {s t : List β} {n : Nat}

theorem deframe_more (h : next ps s = .more) : deframe next ps s = .more ps s := by
  rw [deframe, h]

theorem deframe_bad (h : next ps s = .bad) : deframe next ps s = .bad ps s := by
  rw [deframe, h]

theorem deframe_stop (h : next ps s = .stop) : deframe next ps s = .stopped ps s := by
  rw [deframe, h]

theorem deframe_stuck (h : next ps s = .package 0) : deframe next ps s = .stuck := by
  rw [deframe, h]
  simp

theorem deframe_package (h : next ps s = .package n) (h0 : 0 < n) (hn : n ≤ s.length) :
    deframe next ps s = deframe next (ps ++ [s.take n]) (s.drop n) := by
  rw [deframe, h]
  exact dif_pos ⟨h0, hn⟩

-- It does not matter whether a stream arrives at once or in two pieces.
theorem deframe_append (hn : Stable next) :
    deframe next ps (s ++ t) = (deframe next ps s).feed next t := by
  induction ps, s using deframe.induct next
  case case1 ps s h => rw [deframe_more h]; rfl
  case case2 ps s h => rw [deframe_bad h, deframe_bad (hn.bad ps s t h)]; rfl
  case case3 ps s h => rw [deframe_stop h, deframe_stop (hn.stop ps s t h)]; rfl
  case case4 ps s n h hpos hi =>
    have hle := hpos.2.trans (by simp : s.length ≤ (s ++ t).length)
    rw [deframe_package h hpos.1 hpos.2, deframe_package (hn.package ps s t n h).2 hpos.1 hle,
      List.take_append_of_le_length hpos.2, List.drop_append_of_le_length hpos.2, hi]
  case case5 ps s n h hpos =>
    have hle := (hn.package ps s t n h).1
    obtain rfl : n = 0 := by omega
    rw [deframe_stuck h, deframe_stuck (hn.package ps s t 0 h).2]
    rfl

-- What is said about the rest.
theorem next_rest (next : List (List β) → List β → Next) (ps : List (List β)) (s : List β) :
    match deframe next ps s with
    | .more ps' r    => next ps' r = .more ∧ r <:+ s
    | .bad ps' r     => next ps' r = .bad ∧ r <:+ s
    | .stopped ps' r => next ps' r = .stop ∧ r <:+ s
    | .stuck         => True := by
  induction ps, s using deframe.induct next
  case case1 ps s h => rw [deframe_more h]; exact ⟨h, List.suffix_rfl⟩
  case case2 ps s h => rw [deframe_bad h]; exact ⟨h, List.suffix_rfl⟩
  case case3 ps s h => rw [deframe_stop h]; exact ⟨h, List.suffix_rfl⟩
  case case4 ps s n h hpos hi =>
    rw [deframe_package h hpos.1 hpos.2]
    revert hi
    cases deframe next (ps ++ [s.take n]) (s.drop n)
    case more | bad | stopped => exact fun hi => ⟨hi.1, hi.2.trans (List.drop_suffix n s)⟩
    case stuck => exact id
  case case5 ps s n h hpos =>
    rw [deframe, h]
    simp [hpos]

-- The receiver gets the packages that have been sent.
theorem deframe_packages (hn : Stable next) {qs : List (List β)}
    (hq : ∀ ps, ∀ q ∈ qs, q ≠ [] ∧ next ps q = .package q.length)
    (hr : ∀ ps, next ps s = .more) : deframe next ps (qs.flatten ++ s) = .more (ps ++ qs) s := by
  induction qs generalizing ps
  case nil => simp [deframe_more (hr ps)]
  case cons q qs hi =>
    obtain ⟨hne, hp⟩ := hq ps q (by simp)
    have hp' := (hn.package ps q (qs.flatten ++ s) _ hp).2
    have hlen : q.length ≤ (q ++ (qs.flatten ++ s)).length := by simp
    rw [List.flatten_cons, List.append_assoc, deframe_package hp' (List.length_pos_iff.mpr hne) hlen]
    rw [List.take_left, List.drop_left, hi fun ps q' hq' => hq ps q' (List.mem_cons_of_mem q hq')]
    simp

end Framing
