import Rlibhv.Base.Heap
import Rlibhv.Library.Layout

-- The nodes of a heap of base/heap.h are linked as a complete binary tree.
namespace Rlibhv.Heap

variable {ν : Type*} {h : Heap ν} {l : Nat → ν} {n i j m : Nat} {x p : ν} {c s : Option ν}

-- The pointer to the element at position `i`.
def slot (l : Nat → ν) (n i : Nat) : Option ν :=
  if 1 ≤ i ∧ i ≤ n then some (l i) else none

theorem slot_of_le (hi : 1 ≤ i) (hn : i ≤ n) : slot l n i = some (l i) := by
  simp [slot, hi, hn]

theorem slot_eq_none : slot l n i = none ↔ i = 0 ∨ n < i := by
  simp [slot]; omega

theorem slot_ne (hx : ∀ i, 1 ≤ i → i ≤ n → l i ≠ x) : slot l n i ≠ some x := by
  simp only [slot]
  split
  case isTrue hi => exact fun he => hx _ hi.1 hi.2 (Option.some.inj he)
  case isFalse   => simp

@[simp]
theorem slot_zero : slot l n 0 = none :=
  slot_eq_none.mpr <| .inl rfl

theorem lastParent_one : h.lastParent 1 = some (h.root, 0) := by
  rw [Heap.lastParent, pathOf, if_neg (by omega)]
  rfl

-- Going down from position `pos` along a path.
def follow : (d path pos : Nat) → Nat
  | 0, _, pos        => pos
  | d + 1, path, pos => follow d (path / 2) (2 * pos + path % 2)

theorem le_follow {d path pos : Nat} : pos ≤ follow d path pos := by
  induction d generalizing path pos
  case zero => rfl
  case succ hi => exact (by omega : pos ≤ 2 * pos + path % 2).trans hi

-- The path of a position leads there.
theorem follow_pathOf {path d m : Nat} (hm : 1 ≤ m) :
    follow (pathOf path d m).2 (pathOf path d m).1 1 = follow d path m := by
  induction path, d, m using pathOf.induct
  case case1 path d m h hi =>
    rw [pathOf, if_pos h, hi (by omega), follow]
    congr 1 <;> omega
  case case2 path d m h =>
    obtain rfl : m = 1 := by omega
    rw [pathOf, if_neg h]

theorem pathOf_pos {path d m : Nat} (hm : 2 ≤ m) : 1 ≤ (pathOf path d m).2 := by
  have hle (path d m : Nat) : d ≤ (pathOf path d m).2 := by
    induction path, d, m using pathOf.induct
    case case1 path d m h hi => rw [pathOf, if_pos h]; omega
    case case2 path d m h    => simp [pathOf, h]
  rw [pathOf, if_pos hm]
  exact (Nat.succ_pos d).trans_le (hle _ _ _)

theorem slot_swap (hi : 1 ≤ i) (hin : i ≤ n) (hj : 1 ≤ j) (hjn : j ≤ n) :
    slot (Layout.swap l i j) n m = slot l n (Equiv.swap i j m) := by
  simp only [slot, Layout.swap, Function.comp_apply, Equiv.swap_apply_def]
  grind

-- The nodes form the complete binary tree with layout `l`. All other nodes have no links.
structure Linked (h : Heap ν) (l : Nat → ν) (n : Nat) : Prop where
  inj    : ∀ i j, 1 ≤ i → i ≤ n → 1 ≤ j → j ≤ n → l i = l j → i = j
  root   : h.root = slot l n 1
  parent : ∀ i, 1 ≤ i → i ≤ n → (h.nodes (l i)).parent = slot l n (i / 2)
  left   : ∀ i, 1 ≤ i → i ≤ n → (h.nodes (l i)).left = slot l n (2 * i)
  right  : ∀ i, 1 ≤ i → i ≤ n → (h.nodes (l i)).right = slot l n (2 * i + 1)
  idle   : ∀ x, (∀ i, 1 ≤ i → i ≤ n → l i ≠ x) → h.nodes x = {}

namespace Linked

theorem slot_eq_iff (hl : Linked h l n) (hm : 1 ≤ m) (hmn : m ≤ n) :
    slot l n i = some (l m) ↔ i = m := by
  simp only [slot]
  split
  case isTrue hi => exact ⟨fun he => hl.inj _ _ hi.1 hi.2 hm hmn (Option.some.inj he), (· ▸ rfl)⟩
  case isFalse hi => simp; omega

theorem eq_iff (hl : Linked h l n) (hi : 1 ≤ i) (hin : i ≤ n) (hm : 1 ≤ m) (hmn : m ≤ n) :
    l m = l i ↔ m = i :=
  ⟨hl.inj _ _ hm hmn hi hin, (· ▸ rfl)⟩

-- The walk to a position of the tree, or to the one behind its last element, ends above it.
theorem descend (hl : Linked h l n) {d path pos : Nat} (hp : 1 ≤ pos)
    (hm : follow (d + 1) path pos = m) (hmn : m ≤ n + 1) :
    ∃ path', h.descend (d + 1) path (slot l n pos) = some (slot l n (m / 2), path') ∧
      path' % 2 = m % 2 := by
  induction d generalizing path pos
  case zero =>
    simp only [follow] at hm
    exact ⟨path, by rw [Heap.descend, show m / 2 = pos by omega], by omega⟩
  case succ d hi =>
    have hle : 2 * pos + path % 2 ≤ m := hm ▸ le_follow
    have hpn : pos ≤ n := by omega
    have hm' : follow (d + 1) (path / 2) (2 * pos + path % 2) = m := hm
    obtain ⟨path', hd, hp'⟩ := hi (by omega) hm'
    refine ⟨path', ?_, hp'⟩
    rw [slot_of_le hp hpn, Heap.descend, hl.left _ hp hpn, hl.right _ hp hpn, ← hd]
    rcases Nat.mod_two_eq_zero_or_one path with h | h <;> simp [h]

theorem lastParent (hl : Linked h l n) (hm : 2 ≤ m) (hmn : m ≤ n + 1) :
    ∃ path, h.lastParent m = some (some (l (m / 2)), path) ∧ path % 2 = m % 2 := by
  have hd : 1 ≤ (pathOf 0 0 m).2 := pathOf_pos hm
  obtain ⟨d, hd⟩ := Nat.exists_eq_add_of_le' hd
  have hf : follow (pathOf 0 0 m).2 (pathOf 0 0 m).1 1 = follow 0 0 m := follow_pathOf (by omega)
  rw [hd] at hf
  obtain ⟨path, he, hp⟩ := hl.descend le_rfl hf hmn
  refine ⟨path, ?_, hp⟩
  rw [← hd, ← hl.root, follow, slot_of_le (by omega) (by omega)] at he
  exact he

theorem setNelts (hl : Linked h l n) : Linked { h with nelts := m } l n :=
  ⟨hl.inj, hl.root, hl.parent, hl.left, hl.right, hl.idle⟩

end Linked

-- The last element is no longer pointed at.
structure Cut (h : Heap ν) (l : Nat → ν) (n : Nat) : Prop where
  inj    : ∀ i j, 1 ≤ i → i ≤ n + 1 → 1 ≤ j → j ≤ n + 1 → l i = l j → i = j
  root   : h.root = slot l n 1
  parent : ∀ i, 1 ≤ i → i ≤ n + 1 → (h.nodes (l i)).parent = slot l n (i / 2)
  left   : ∀ i, 1 ≤ i → i ≤ n + 1 → (h.nodes (l i)).left = slot l n (2 * i)
  right  : ∀ i, 1 ≤ i → i ≤ n + 1 → (h.nodes (l i)).right = slot l n (2 * i + 1)
  idle   : ∀ x, (∀ i, 1 ≤ i → i ≤ n + 1 → l i ≠ x) → h.nodes x = {}

namespace Cut

theorem eq_iff (hc : Cut h l n) (hi : 1 ≤ i) (hin : i ≤ n + 1) (hm : 1 ≤ m) (hmn : m ≤ n + 1) :
    l m = l i ↔ m = i :=
  ⟨hc.inj _ _ hm hmn hi hin, (· ▸ rfl)⟩

theorem slot_eq_iff (hc : Cut h l n) (hm : 1 ≤ m) (hmn : m ≤ n + 1) :
    slot l n i = some (l m) ↔ i = m ∧ m ≤ n := by
  simp only [slot]
  split
  case isTrue hi =>
    rw [Option.some.injEq, hc.eq_iff hm hmn hi.1 (by omega)]
    omega
  case isFalse hi => simp; omega

end Cut

variable [DecidableEq ν]

@[simp]
theorem setParent_parent :
    ((h.setParent p c).nodes x).parent = if x = p then c else (h.nodes x).parent := by
  by_cases hx : x = p <;> simp [setParent, hx]

@[simp]
theorem setParent_left : ((h.setParent p c).nodes x).left = (h.nodes x).left := by
  by_cases hx : x = p <;> simp [setParent, hx]

@[simp]
theorem setParent_right : ((h.setParent p c).nodes x).right = (h.nodes x).right := by
  by_cases hx : x = p <;> simp [setParent, hx]

@[simp]
theorem setLeft_parent : ((h.setLeft p c).nodes x).parent = (h.nodes x).parent := by
  by_cases hx : x = p <;> simp [setLeft, hx]

@[simp]
theorem setLeft_left : ((h.setLeft p c).nodes x).left = if x = p then c else (h.nodes x).left := by
  by_cases hx : x = p <;> simp [setLeft, hx]

@[simp]
theorem setLeft_right : ((h.setLeft p c).nodes x).right = (h.nodes x).right := by
  by_cases hx : x = p <;> simp [setLeft, hx]

@[simp]
theorem setRight_parent : ((h.setRight p c).nodes x).parent = (h.nodes x).parent := by
  by_cases hx : x = p <;> simp [setRight, hx]

@[simp]
theorem setRight_left : ((h.setRight p c).nodes x).left = (h.nodes x).left := by
  by_cases hx : x = p <;> simp [setRight, hx]

@[simp]
theorem setRight_right :
    ((h.setRight p c).nodes x).right = if x = p then c else (h.nodes x).right := by
  by_cases hx : x = p <;> simp [setRight, hx]

@[simp]
theorem set_root : (h.setParent p c).root = h.root ∧ (h.setLeft p c).root = h.root ∧
    (h.setRight p c).root = h.root :=
  ⟨rfl, rfl, rfl⟩

@[simp]
theorem set_nelts : (h.setParent p c).nelts = h.nelts ∧ (h.setLeft p c).nelts = h.nelts ∧
    (h.setRight p c).nelts = h.nelts :=
  ⟨rfl, rfl, rfl⟩

@[simp]
theorem adopt_parent :
    ((h.adopt c s).nodes x).parent = if c = some x then s else (h.nodes x).parent := by
  cases c <;> simp [adopt, eq_comm]

@[simp]
theorem adopt_left : ((h.adopt c s).nodes x).left = (h.nodes x).left := by
  cases c <;> simp [adopt]

@[simp]
theorem adopt_right : ((h.adopt c s).nodes x).right = (h.nodes x).right := by
  cases c <;> simp [adopt]

@[simp]
theorem adopt_root : (h.adopt c s).root = h.root := by
  cases c <;> rfl

@[simp]
theorem adopt_nelts : (h.adopt c s).nelts = h.nelts := by
  cases c <;> rfl

@[simp]
theorem relink_parent : ((h.relink c p s).nodes x).parent = (h.nodes x).parent := by
  cases c
  case none => rfl
  case some y => simp only [relink]; split_ifs <;> simp

@[simp]
theorem relink_left : ((h.relink c p s).nodes x).left =
    if c = some x ∧ (h.nodes x).left = some p then s else (h.nodes x).left := by
  cases c
  case none => simp [relink]
  case some y => simp only [relink]; split_ifs <;> grind [setLeft_left, setRight_left]

@[simp]
theorem relink_right : ((h.relink c p s).nodes x).right =
    if c = some x ∧ (h.nodes x).left ≠ some p ∧ (h.nodes x).right = some p then s
    else (h.nodes x).right := by
  cases c
  case none => simp [relink]
  case some y => simp only [relink]; split_ifs <;> grind [setLeft_right, setRight_right]

@[simp]
theorem relink_root : (h.relink c p s).root = if c = none then s else h.root := by
  cases c
  case none => rfl
  case some y => simp only [relink]; split_ifs <;> simp_all

@[simp]
theorem relink_nelts : (h.relink c p s).nelts = h.nelts := by
  cases c
  case none => rfl
  case some y => simp only [relink]; split_ifs <;> rfl

namespace Linked

theorem swap (hl : Linked h l n) (hi : 2 ≤ i) (hn : i ≤ n) :
    ∃ h', h.heapSwap (l (i / 2)) (l i) = some h' ∧ Linked h' (Layout.swap l (i / 2) i) n ∧
      h'.nelts = h.nelts := by
  obtain ⟨p, hp'⟩ : ∃ p, i / 2 = p := ⟨_, rfl⟩
  have hp : 1 ≤ p := by omega
  have hpn : p ≤ n := by omega
  rw [hp']
  have hup := hl.parent i (by omega) hn
  rw [hp', slot_of_le hp hpn] at hup
  have hdown : (h.nodes (l p)).left = some (l i) ∨ (h.nodes (l p)).right = some (l i) := by
    rw [hl.left _ hp hpn, hl.right _ hp hpn]
    rw [hl.slot_eq_iff (by omega) hn, hl.slot_eq_iff (by omega) hn]
    omega
  have hsl {m : Nat} : slot (Layout.swap l p i) n m = slot l n (Equiv.swap p i m) :=
    slot_swap hp hpn (by omega) hn
  have hi' : 1 ≤ i := by omega
  have hip : i = 2 * p ∨ i = 2 * p + 1 := by omega
  have h1 : ¬ 2 * p = p := by omega
  have h2 : ¬ p / 2 = p := by omega
  have h3 : ¬ 2 * p + 1 = p := by omega
  rw [heapSwap, if_pos ⟨hup, hdown⟩]
  refine ⟨_, rfl, ?_, by simp⟩
  constructor
  case inj =>
    intro a b ha han hb hbn he
    have := hl.inj _ _ (by grind) (by grind) (by grind) (by grind) he
    exact (Equiv.swap p i).injective this
  case root =>
    simp [hl.parent, hl.root, hp, hpn, hsl, slot_eq_none]
    grind [slot_of_le]
  case parent | left | right =>
    intro k hk hkn
    have hm : 1 ≤ Equiv.swap p i k ∧ Equiv.swap p i k ≤ n := by grind
    rw [hsl, Layout.swap, Function.comp_apply]
    simp [hl.parent, hl.left, hl.right, hl.slot_eq_iff, hl.eq_iff, hm, hp, hpn, hi', hn, h1, h2, h3]
    rcases hip with rfl | rfl
    all_goals
      simp [hl.slot_eq_iff, hm]
      grind [slot_of_le]
  case idle =>
    intro x hx
    have hx' (k : Nat) (hk : 1 ≤ k) (hkn : k ≤ n) : l k ≠ x := by
      have := hx (Equiv.swap p i k) (by grind) (by grind)
      simpa [Layout.swap] using this
    have hne (k : Nat) (hk : 1 ≤ k) (hkn : k ≤ n) : x ≠ l k := (hx' k hk hkn).symm
    rw [← hl.idle x hx']
    ext1
    all_goals
      rcases hip with rfl | rfl <;>
      simp [hl.parent, hl.left, hl.right, hl.slot_eq_iff, slot_ne hx', hne, hp, hpn, hi', hn, h1,
        h2]

end Linked

theorem Linked.cut (hl : Linked h l (n + 1)) (hn : 1 ≤ n) :
    Cut (if (n + 1) % 2 = 1 then h.setRight (l ((n + 1) / 2)) none
      else h.setLeft (l ((n + 1) / 2)) none) l n := by
  have hp : 1 ≤ (n + 1) / 2 ∧ (n + 1) / 2 ≤ n + 1 := by omega
  have hs (j : Nat) : slot l n j = if j = n + 1 then none else slot l (n + 1) j := by
    simp only [slot]; split_ifs <;> grind
  constructor
  case inj  => exact hl.inj
  case root =>
    rw [hs, if_neg (show ¬1 = n + 1 by omega)]
    split <;> simp [hl.root]
  case parent | left | right =>
    intro i hi hin
    simp only [hs]
    split <;> simp [hl.parent, hl.left, hl.right, hl.eq_iff, hp, hi, hin] <;> grind
  case idle =>
    intro x hx
    rw [← hl.idle x hx]
    have := (hx _ hp.1 hp.2).symm
    split <;> ext1 <;> simp [this]

namespace Cut

-- The last element takes the place of the one at `i`, which loses its links.
theorem replace (hc : Cut h l n) (hn : 1 ≤ n) (hi : 1 ≤ i) (hin : i ≤ n + 1) :
    let h' := h.heapReplace (l i) (l (n + 1))
    Linked (((h'.setParent (l i) none).setLeft (l i) none).setRight (l i) none)
      (Function.update l i (l (n + 1))) n := by
  have h1 : 1 ≤ n + 1 ∧ n + 1 ≤ n + 1 := by omega
  have h2 : ¬ i / 2 = i := by omega
  have hs (j : Nat) : slot (Function.update l i (l (n + 1))) n j =
      if j = i ∧ i ≤ n then some (l (n + 1)) else slot l n j := by
    simp only [slot]; grind
  constructor
  case inj =>
    intro a b ha han hb hbn he
    have := hc.inj (if a = i then n + 1 else a) (if b = i then n + 1 else b)
    grind
  case root =>
    simp [heapReplace, hs, hc.parent, hc.root, hi, hin, slot_eq_none]
    grind
  case parent | left | right =>
    intro k hk hkn
    have hk' : k ≤ n + 1 := by omega
    simp only [hs]
    by_cases hki : k = i
    · subst hki
      simp [heapReplace, hc.parent, hc.left, hc.right, hc.slot_eq_iff, hc.eq_iff, hi, hin, h1, h2]
      grind
    · simp [hki, heapReplace, hc.parent, hc.left, hc.right, hc.slot_eq_iff, hc.eq_iff, hi, hin, hk,
        hk', h1, h2]
      grind
  case idle =>
    intro x hx
    by_cases hxi : x = l i
    · ext1 <;> simp [hxi]
    have hx' (k : Nat) (hk : 1 ≤ k) (hkn : k ≤ n + 1) : l k ≠ x := by
      have := hx k hk
      have := hx i hi
      grind
    have hne (k : Nat) (hk : 1 ≤ k) (hkn : k ≤ n + 1) : x ≠ l k := (hx' k hk hkn).symm
    have hsx (j : Nat) : slot l n j ≠ some x := slot_ne fun k hk hkn => hx' k hk (by omega)
    rw [← hc.idle x hx']
    ext1
    all_goals
      simp [hxi, heapReplace, hc.parent, hc.left, hc.right, hc.slot_eq_iff, hsx, hne, hi, hin, h1,
        h2]

end Cut

-- Linking a new last element.
theorem Linked.link (hl : Linked h l n) (hn : 1 ≤ n) (hx : ∀ i, 1 ≤ i → i ≤ n → l i ≠ x) :
    let p := l ((n + 1) / 2)
    let h' := h.setParent x (some p)
    Linked (if (n + 1) % 2 = 1 then h'.setRight p (some x) else h'.setLeft p (some x))
      (Function.update l (n + 1) x) (n + 1) := by
  have hp : 1 ≤ (n + 1) / 2 ∧ (n + 1) / 2 ≤ n := by omega
  have hne (k : Nat) (hk : 1 ≤ k) (hkn : k ≤ n) : x ≠ l k := (hx k hk hkn).symm
  have hs (j : Nat) : slot (Function.update l (n + 1) x) (n + 1) j =
      if j = n + 1 then some x else slot l n j := by
    simp only [slot]; grind
  constructor
  case inj =>
    intro a b ha han hb hbn he
    have := hl.inj a b
    have := hx a
    have := hx b
    grind
  case root =>
    rw [hs, if_neg (show ¬1 = n + 1 by omega)]
    split <;> simp [hl.root]
  case parent | left | right =>
    intro k hk hkn
    simp only [hs]
    by_cases hkn' : k = n + 1
    · subst hkn'
      split <;> simp [hl.idle x hx, hne, hp] <;> grind [slot]
    · have hkn : k ≤ n := by omega
      split <;> simp [hkn', hl.parent, hl.left, hl.right, hl.eq_iff, hx, hp, hk, hkn] <;> grind
  case idle =>
    intro y hy
    have hy' (k : Nat) (hk : 1 ≤ k) (hkn : k ≤ n) : l k ≠ y := by
      have := hy k hk (by omega)
      rwa [Function.update_of_ne (by omega)] at this
    have hyx : ¬y = x := by
      have := hy (n + 1) (by omega) le_rfl
      simpa [eq_comm] using this
    have hyp := (hy' _ hp.1 hp.2).symm
    rw [← hl.idle y hy']
    split <;> ext1 <;> simp [hyx, hyp]

theorem Linked.single (hl : Linked h l 0) :
    Linked { h.setParent x none with root := some x } (Function.update l 1 x) 1 := by
  have hx := hl.idle x (by omega)
  have h1 : ¬ 2 ≤ 1 := by omega
  constructor
  case inj  => omega
  case root => simp [slot]
  case parent | left | right =>
    intro k hk hkn
    obtain rfl : k = 1 := by omega
    simp [hx, slot]
  case idle =>
    intro y hy
    have hyx : ¬y = x := by simpa [eq_comm] using hy 1 le_rfl le_rfl
    rw [← hl.idle y (by omega)]
    ext1 <;> simp [hyx]

theorem Linked.clear (hl : Linked h l 1) : Linked { h with root := none } l 0 where
  inj    := by omega
  root   := by simp [slot]
  parent := by omega
  left   := by omega
  right  := by omega
  idle x _ := by
    by_cases hx : l 1 = x
    · subst hx
      ext1 <;> simp [hl.parent, hl.left, hl.right, slot]
    · exact hl.idle x fun i hi hin => (by omega : i = 1) ▸ hx

end Rlibhv.Heap
