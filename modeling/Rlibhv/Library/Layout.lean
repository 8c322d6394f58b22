import Mathlib.Logic.Equiv.Basic
import Mathlib.Order.Interval.Finset.Nat

-- Heap-ordered layouts of a complete binary tree. The positions are numbered from 1, the children
-- of position `i` are `2 * i` and `2 * i + 1`, and a layout assigns an element to every position.
-- Only the positions up to the size of the tree count.
namespace Layout

variable {α κ : Type*} [LinearOrder κ] {key : α → κ} {l : ℕ → α} {n i j : ℕ} {x : α}

def Ordered (key : α → κ) (l : ℕ → α) (n : ℕ) : Prop :=
  ∀ j, 2 ≤ j → j ≤ n → key (l (j / 2)) ≤ key (l j)

-- Only the element at `i` may be too small for its parent.
structure Rising (key : α → κ) (l : ℕ → α) (n i : ℕ) : Prop where
  ordered : ∀ j, 2 ≤ j → j ≤ n → j ≠ i → key (l (j / 2)) ≤ key (l j)
  skip    : ∀ j, 2 ≤ i → j ≤ n → j / 2 = i → key (l (i / 2)) ≤ key (l j)

-- Only the element at `i` may be misplaced, in either direction.
structure Loose (key : α → κ) (l : ℕ → α) (n i : ℕ) : Prop where
  ordered : ∀ j, 2 ≤ j → j ≤ n → j ≠ i → j / 2 ≠ i → key (l (j / 2)) ≤ key (l j)
  skip    : ∀ j, 2 ≤ i → j ≤ n → j / 2 = i → key (l (i / 2)) ≤ key (l j)

def swap (l : ℕ → α) (i j : ℕ) : ℕ → α :=
  l ∘ Equiv.swap i j

@[simp]
theorem swap_left : swap l i j i = l j := by
  simp [swap]

@[simp]
theorem swap_right : swap l i j j = l i := by
  simp [swap]

theorem swap_of_ne {k : ℕ} (hi : k ≠ i) (hj : k ≠ j) : swap l i j k = l k := by
  simp [swap, Equiv.swap_apply_of_ne_of_ne hi hj]

theorem Ordered.root_le (h : Ordered key l n) (hi : 1 ≤ i) (hn : i ≤ n) : key (l 1) ≤ key (l i) := by
  induction i using Nat.strong_induction_on
  case h i hi' =>
    by_cases h1 : i = 1
    · rw [h1]
    · exact (hi' (i / 2) (by omega) (by omega) (by omega)).trans <| h i (by omega) hn

namespace Rising

theorem ordered' (h : Rising key l n i) (hi : 2 ≤ i → key (l (i / 2)) ≤ key (l i)) :
    Ordered key l n := by
  intro j hj hn
  by_cases hji : j = i
  · exact hji ▸ hi (hji ▸ hj)
  · exact h.ordered j hj hn hji

-- The element at `i` moves one level up.
theorem swap (h : Rising key l n i) (hi : 2 ≤ i) (hn : i ≤ n) (hl : key (l i) < key (l (i / 2))) :
    Rising key (swap l (i / 2) i) n (i / 2) where
  ordered j hj hjn hne := by
    by_cases hji : j = i
    · subst hji; simpa using hl.le
    rw [swap_of_ne hne hji]
    by_cases h1 : j / 2 = i
    · rw [h1, swap_right]; exact h.skip j hi hjn h1
    by_cases h2 : j / 2 = i / 2
    · rw [h2, swap_left]; exact hl.le.trans <| h2 ▸ h.ordered j hj hjn hji
    · rw [swap_of_ne h2 h1]; exact h.ordered j hj hjn hji
  skip j hi' hjn hji := by
    have hp := h.ordered (i / 2) hi' (by omega) (by omega)
    rw [swap_of_ne (by omega) (by omega)]
    by_cases hj : j = i
    · rw [hj, swap_right]; exact hp
    · rw [swap_of_ne (by omega) hj]; exact hp.trans <| hji ▸ h.ordered j (by omega) hjn hj

end Rising

namespace Loose

theorem rising (h : Loose key l n i) (hc : ∀ j, 2 ≤ j → j ≤ n → j / 2 = i → key (l i) ≤ key (l j)) :
    Rising key l n i where
  skip := h.skip
  ordered j hj hn hne := by
    by_cases hji : j / 2 = i
    · exact hji ▸ hc j hj hn hji
    · exact h.ordered j hj hn hne hji

-- The element at `i` changes places with the smallest one of its children, which is at `j`.
theorem swap (h : Loose key l n i) (hi : 1 ≤ i) (hn : j ≤ n) (hj : j / 2 = i)
    (hm : ∀ k, 2 ≤ k → k ≤ n → k / 2 = i → key (l j) ≤ key (l k)) :
    Loose key (swap l i j) n j where
  ordered k hk hkn hne hkj := by
    by_cases hki : k = i
    · subst hki
      rw [swap_left, swap_of_ne (by omega) (by omega)]
      exact h.skip j hk hn hj
    rw [swap_of_ne hki hne]
    by_cases h1 : k / 2 = i
    · rw [h1, swap_left]; exact hm k hk hkn h1
    · rw [swap_of_ne h1 hkj]; exact h.ordered k hk hkn hki h1
  skip k _ hkn hkj := by
    rw [hj, swap_left, swap_of_ne (by omega) (by omega)]
    exact hkj ▸ h.ordered k (by omega) hkn (by omega) (by omega)

end Loose

theorem Ordered.rising (h : Ordered key l n) :
    Rising key (Function.update l (n + 1) x) (n + 1) (n + 1) where
  ordered j hj hn hne := by
    rw [Function.update_of_ne hne, Function.update_of_ne (by omega)]
    exact h j hj (by omega)
  skip j _ hn hj := by omega

theorem Ordered.loose (h : Ordered key l (n + 1)) :
    Loose key (Function.update l i (l (n + 1))) n i where
  ordered j hj hn hne hji := by
    rw [Function.update_of_ne hne, Function.update_of_ne hji]
    exact h j hj (by omega)
  skip j hi' hn hj := by
    rw [Function.update_of_ne (by omega), Function.update_of_ne (by omega)]
    exact (h i hi' (by omega)).trans <| hj ▸ h j (by omega) (by omega)

section Contents

variable [DecidableEq α]

def contents (l : ℕ → α) (n : ℕ) : Finset α :=
  (Finset.Icc 1 n).image l

theorem mem_contents : x ∈ contents l n ↔ ∃ i, 1 ≤ i ∧ i ≤ n ∧ l i = x := by
  simp [contents, and_assoc]

theorem contents_swap (hi : 1 ≤ i) (hin : i ≤ n) (hj : 1 ≤ j) (hjn : j ≤ n) :
    contents (swap l i j) n = contents l n := by
  ext x
  simp only [mem_contents, swap, Function.comp_apply]
  constructor <;> rintro ⟨k, hk, hkn, hx⟩
  case mp  => exact ⟨Equiv.swap i j k, by grind, by grind, hx⟩
  case mpr => exact ⟨Equiv.swap i j k, by grind, by grind, by simpa using hx⟩

theorem contents_insert : contents (Function.update l (n + 1) x) (n + 1) = insert x (contents l n) := by
  ext y
  simp only [mem_contents, Finset.mem_insert]
  constructor
  case mp =>
    rintro ⟨i, hi, hin, hy⟩
    by_cases hi' : i = n + 1
    · subst hi'; left; simpa [eq_comm] using hy
    · right; exact ⟨i, hi, by omega, by rwa [Function.update_of_ne hi'] at hy⟩
  case mpr =>
    rintro (rfl | ⟨i, hi, hin, rfl⟩)
    · exact ⟨n + 1, by omega, le_rfl, by simp⟩
    · exact ⟨i, hi, by omega, by rw [Function.update_of_ne (by omega)]⟩

theorem contents_erase (hl : ∀ i j, 1 ≤ i → i ≤ n + 1 → 1 ≤ j → j ≤ n + 1 → l i = l j → i = j)
    (hi : 1 ≤ i) (hin : i ≤ n + 1) :
    contents (Function.update l i (l (n + 1))) n = (contents l (n + 1)).erase (l i) := by
  ext x
  simp only [mem_contents, Finset.mem_erase]
  constructor
  case mp =>
    rintro ⟨j, hj, hjn, hx⟩
    have := hl (if j = i then n + 1 else j) i
    refine ⟨by grind, if j = i then n + 1 else j, by grind, by grind, by grind⟩
  case mpr =>
    rintro ⟨hne, j, hj, hjn, rfl⟩
    exact ⟨if j = n + 1 then i else j, by grind, by grind, by grind⟩

end Contents

end Layout
