import Rlibhv.Base.Theorems.Linked

-- The entry at the root of a heap of base/heap.h is the smallest one, and `heap_insert` and
-- `heap_remove` insert and remove.
namespace Rlibhv.Heap

variable {ν κ : Type*} [LinearOrder κ] {h : Heap ν} {l : Nat → ν} {n i j m : Nat} {x : ν}

def less (key : ν → κ) (a b : ν) : Bool :=
  key a < key b

-- Either choice is an element of the tree, and none of the two is smaller than it.
theorem pick_slot (key : ν → κ) (l : Nat → ν) {e k : Nat} (hk : 1 ≤ k) (hn : e ≤ n) :
    ∃ e', pick (less key) (l e) (slot l n k) = l e' ∧ e' ≤ n ∧ (e' = e ∨ e' = k) ∧
      key (l e') ≤ key (l e) ∧ (k ≤ n → key (l e') ≤ key (l k)) := by
  by_cases hkn : k ≤ n
  case neg =>
    rw [slot_eq_none.mpr (by omega)]
    exact ⟨e, rfl, hn, .inl rfl, le_rfl, fun h => (hkn h).elim⟩
  rw [slot_of_le hk hkn, pick, less]
  by_cases hlt : key (l e) < key (l k)
  case pos => exact ⟨e, by simp [hlt], hn, .inl rfl, le_rfl, fun _ => hlt.le⟩
  case neg => exact ⟨k, by simp [hlt], hkn, .inr rfl, le_of_not_gt hlt, fun _ => le_rfl⟩

theorem Linked.est (hl : Linked h l n) (key : ν → κ) (hi : 1 ≤ i) (hin : i ≤ n) :
    ∃ e, Heap.est (less key) (l i) h = l e ∧ e ≤ n ∧ (e = i ∨ e / 2 = i) ∧ key (l e) ≤ key (l i) ∧
      ∀ k, 2 ≤ k → k ≤ n → k / 2 = i → key (l e) ≤ key (l k) := by
  obtain ⟨e₁, he₁, hn₁, hc₁, hi₁, hk₁⟩ := pick_slot key l (by omega : 1 ≤ 2 * i) hin
  obtain ⟨e₂, he₂, hn₂, hc₂, hi₂, hk₂⟩ := pick_slot key l (by omega : 1 ≤ 2 * i + 1) hn₁
  refine ⟨e₂, ?_, hn₂, by omega, hi₂.trans hi₁, fun k _ hkn hki => ?_⟩
  · rw [Heap.est, hl.left i hi hin, hl.right i hi hin, he₁, he₂]
  · rcases (by omega : k = 2 * i ∨ k = 2 * i + 1) with rfl | rfl
    · exact hi₂.trans (hk₁ hkn)
    · exact hk₂ hkn

variable [DecidableEq ν] {key : ν → κ} {f : Finset ν}

-- The entries of the heap are those in `f`, and no entry is above a smaller one.
def Represents (key : ν → κ) (h : Heap ν) (f : Finset ν) : Prop :=
  ∃ l, Linked h l h.nelts ∧ Layout.Ordered key l h.nelts ∧ Layout.contents l h.nelts = f

namespace Linked

theorem siftUp (hl : Linked h l n) (hr : Layout.Rising key l n i) (hi : 1 ≤ i) (hin : i ≤ n)
    {fuel : Nat} (hf : i ≤ fuel) (hn : h.nelts = n) :
    ∃ h', siftUp (less key) (l i) fuel h = some h' ∧ Represents key h' (Layout.contents l n) := by
  induction i using Nat.strong_induction_on generalizing h l fuel
  case h i hi' =>
    obtain ⟨fuel, rfl⟩ := Nat.exists_eq_add_of_le' (hi.trans hf)
    rw [Heap.siftUp, hl.parent i hi hin]
    by_cases h1 : i = 1
    · subst h1
      have ho := hr.ordered' (by omega)
      exact ⟨h, rfl, l, hn ▸ hl, hn ▸ ho, by rw [hn]⟩
    rw [slot_of_le (by omega) (by omega)]
    simp only
    split
    case isTrue hlt =>
      have h2 : 2 ≤ i := by omega
      obtain ⟨h₁, hs, hl₁, hn₁⟩ := hl.swap h2 hin
      have hr₁ := hr.swap h2 hin (by simpa [less] using hlt)
      obtain ⟨h', hu, he⟩ := hi' (i / 2) (by omega) hl₁ hr₁ (by omega) (by omega)
        (by omega : i / 2 ≤ fuel) (hn₁.trans hn)
      rw [Layout.swap_left] at hu
      rw [Layout.contents_swap (by omega) (by omega) hi hin] at he
      exact ⟨h', by rw [hs]; exact hu, he⟩
    case isFalse hlt =>
      have ho := hr.ordered' fun _ => by simpa [less] using hlt
      exact ⟨h, rfl, l, hn ▸ hl, hn ▸ ho, by rw [hn]⟩

theorem siftDown (hl : Linked h l n) (hr : Layout.Loose key l n i) (hi : 1 ≤ i) (hin : i ≤ n)
    {fuel : Nat} (hf : n < i + fuel) :
    ∃ h' l' j, siftDown (less key) (l i) fuel h = some h' ∧ Linked h' l' n ∧ h'.nelts = h.nelts ∧
      Layout.Rising key l' n j ∧ l' j = l i ∧ 1 ≤ j ∧ j ≤ n ∧
      Layout.contents l' n = Layout.contents l n := by
  induction fuel generalizing h l i
  case zero => omega
  case succ fuel hi' =>
    obtain ⟨e, he, hen, hc, hle, hm⟩ := hl.est key hi hin
    rw [Heap.siftDown, he]
    by_cases hei : e = i
    case pos =>
      subst hei
      exact ⟨h, l, e, by simp, hl, rfl, hr.rising hm, rfl, hi, hin, rfl⟩
    case neg =>
      have hc := hc.resolve_left hei
      obtain ⟨h₁, hs, hl₁, hn₁⟩ := hl.swap (i := e) (by omega) hen
      rw [hc] at hs hl₁
      have hr₁ := hr.swap hi hen hc hm
      obtain ⟨h', l', j, hu, hl', hn', hr', hj, hj1, hjn, hcon⟩ :=
        hi' hl₁ hr₁ (by omega) hen (by omega)
      rw [Layout.swap_right] at hu hj
      rw [Layout.contents_swap hi hin (by omega) hen] at hcon
      have hne : ¬l e = l i := mt (hl.inj e i (by omega) hen hi hin) hei
      refine ⟨h', l', j, ?_, hl', hn'.trans hn₁, hr', hj, hj1, hjn, hcon⟩
      simp only [if_neg hne, hs]
      exact hu

end Linked

namespace Represents

theorem card (hr : Represents key h f) : h.nelts = f.card := by
  obtain ⟨l, hl, -, rfl⟩ := hr
  rw [Layout.contents, Finset.card_image_of_injOn, Nat.card_Icc, Nat.add_sub_cancel]
  intro i hi j hj
  simp only [Finset.coe_Icc, Set.mem_Icc] at hi hj
  exact hl.inj i j hi.1 hi.2 hj.1 hj.2

theorem root_eq_none (hr : Represents key h f) : h.root = none ↔ f = ∅ := by
  rw [← Finset.card_eq_zero, ← hr.card]
  obtain ⟨l, hl, -, -⟩ := hr
  rw [hl.root, slot_eq_none]
  omega

theorem root_le (hr : Represents key h f) (hx : h.root = some x) :
    x ∈ f ∧ ∀ y ∈ f, key x ≤ key y := by
  obtain ⟨l, hl, ho, rfl⟩ := hr
  rw [hl.root, slot, ite_eq_iff] at hx
  obtain ⟨hn, hx⟩ := hx.resolve_right (by simp)
  obtain rfl := Option.some.inj hx
  refine ⟨Layout.mem_contents.mpr ⟨1, le_rfl, hn.2, rfl⟩, fun y hy => ?_⟩
  obtain ⟨i, hi, hin, rfl⟩ := Layout.mem_contents.mp hy
  exact ho.root_le hi hin

theorem idle (hr : Represents key h f) (hx : x ∉ f) : h.nodes x = {} := by
  obtain ⟨l, hl, -, rfl⟩ := hr
  exact hl.idle x fun i hi hin he => hx <| Layout.mem_contents.mpr ⟨i, hi, hin, he⟩

-- The keys of other nodes are free to change.
theorem congr {key' : ν → κ} (hr : Represents key h f) (hk : ∀ x ∈ f, key' x = key x) :
    Represents key' h f := by
  obtain ⟨l, hl, ho, rfl⟩ := hr
  refine ⟨l, hl, fun j hj hn => ?_, rfl⟩
  rw [hk _ (Layout.mem_contents.mpr ⟨_, by omega, by omega, rfl⟩),
    hk _ (Layout.mem_contents.mpr ⟨_, by omega, hn, rfl⟩)]
  exact ho j hj hn

theorem init [Inhabited ν] : Represents key (Heap.init fun _ => {}) ∅ := by
  refine ⟨fun _ => default, ⟨?_, ?_, ?_, ?_, ?_, fun _ _ => rfl⟩, ?_, rfl⟩
  case refine_2 => simp [Heap.init, slot]
  all_goals simp only [Heap.init, Layout.Ordered]; omega

end Represents

-- The last part of `heap_remove`. If the removed element was the last one, there is nothing to
-- sift.
theorem settle (hl : Linked h (Function.update l i (l (n + 1))) n) (hn : h.nelts = n)
    (hinj : ∀ i j, 1 ≤ i → i ≤ n + 1 → 1 ≤ j → j ≤ n + 1 → l i = l j → i = j)
    (ho : Layout.Ordered key l (n + 1)) (hi : 1 ≤ i) (hin : i ≤ n + 1) :
    ∃ h', (siftDown (less key) (l (n + 1)) (h.nelts + 1) h).bind
        (fun h => siftUp (less key) (l (n + 1)) (h.nelts + 1) h) = some h' ∧
      Represents key h' (Layout.contents (Function.update l i (l (n + 1))) n) := by
  by_cases hin' : i = n + 1
  case pos =>
    subst hin'
    rw [Function.update_eq_self] at hl ⊢
    have hidle := hl.idle (l (n + 1)) fun j hj hjn he => by
      have := hinj j (n + 1) hj (by omega) (by omega) le_rfl he
      omega
    refine ⟨h, ?_, l, hn ▸ hl, fun j hj hjn => ho j hj (by omega), by rw [hn]⟩
    simp [siftDown, siftUp, est, pick, hidle]
  case neg =>
    obtain ⟨h', l', j, hd, hl', hn', hr, hj, hj1, hjn, hc⟩ :=
      hl.siftDown ho.loose hi (by omega) (by omega : n < i + (h.nelts + 1))
    rw [Function.update_self] at hd hj
    have hu := hl'.siftUp hr hj1 hjn (by omega : j ≤ h'.nelts + 1) (hn'.trans hn)
    rw [hj, hc] at hu
    exact ⟨hu.choose, by rw [hd]; exact hu.choose_spec.1, hu.choose_spec.2⟩

end Heap

open Heap

variable {ν κ : Type*} [LinearOrder κ] [DecidableEq ν]
variable {h : Heap ν} {x : ν} {key : ν → κ} {f : Finset ν}

theorem heapInsert_represents (hr : Represents key h f) (hx : x ∉ f) :
    ∃ h', heapInsert (some (less key)) x h = some h' ∧ Represents key h' (insert x f) := by
  obtain ⟨l, hl, ho, rfl⟩ := hr
  have hx' (i : Nat) (hi : 1 ≤ i) (hin : i ≤ h.nelts) : l i ≠ x :=
    fun he => hx <| Layout.mem_contents.mpr ⟨i, hi, hin, he⟩
  rw [← Layout.contents_insert]
  have hl₀ : Linked { h with nelts := h.nelts + 1 } l h.nelts := hl.setNelts
  have hs (h' : Heap ν) (hl' : Linked h' (Function.update l (h.nelts + 1) x) (h.nelts + 1))
      (hn : h'.nelts = h.nelts + 1) : ∃ h'', siftUp (less key) x h'.nelts h' = some h'' ∧
        Represents key h'' (Layout.contents (Function.update l (h.nelts + 1) x) (h.nelts + 1)) := by
    have h'' := hl'.siftUp ho.rising (by omega) le_rfl hn.ge hn
    rwa [Function.update_self] at h''
  by_cases hn : h.nelts = 0
  case pos =>
    have hp : h.root = none := by rw [hl.root, hn]; rfl
    simp only [hn] at hs hl₀
    simp only [heapInsert, hn, Nat.zero_add, lastParent_one, hp]
    exact hs _ hl₀.single rfl
  case neg =>
    obtain ⟨path, hp, hpm⟩ := hl₀.lastParent (by omega : 2 ≤ h.nelts + 1) le_rfl
    have hl' := hl₀.link (by omega) hx'
    simp only [heapInsert, hp, hpm, Option.bind_eq_bind, Option.bind_some]
    exact hs _ hl' (by split <;> rfl)

theorem heapRemove_represents (hr : Represents key h f) (hx : x ∈ f) :
    ∃ h', heapRemove (some (less key)) x h = some h' ∧ Represents key h' (f.erase x) := by
  obtain ⟨l, hl, ho, rfl⟩ := hr
  obtain ⟨i, hi, hin, rfl⟩ := Layout.mem_contents.mp hx
  obtain ⟨n, hn⟩ := Nat.exists_eq_add_of_le' (hi.trans hin)
  rw [hn] at hl ho hin ⊢
  rw [← Layout.contents_erase hl.inj hi hin]
  have hl₀ : Linked { h with nelts := n } l (n + 1) := hl.setNelts
  rw [heapRemove, if_neg (by omega)]
  simp only [hn, Nat.add_sub_cancel]
  by_cases hn' : n = 0
  case pos =>
    subst hn'
    obtain rfl : i = 1 := by omega
    have hleft : (h.nodes (l 1)).left = none := by rw [hl.left 1 le_rfl le_rfl, slot_eq_none]; omega
    have hself :
        (Heap.mk h.nodes (some (l 1)) 0).setLeft (l 1) none = ⟨h.nodes, some (l 1), 0⟩ := by
      simp [setLeft, ← hleft]
    have hroot : h.root = some (l 1) := by rw [hl.root]; rfl
    simp only [Nat.zero_add, lastParent_one, hroot, hself, hleft, Option.bind_eq_bind,
      Option.bind_some, Nat.reduceMod, reduceIte, Nat.zero_ne_one]
    exact ⟨_, rfl, l, hl₀.clear, fun j hj hjn => by simp at hjn; omega, rfl⟩
  case neg =>
    obtain ⟨path, hp, hpm⟩ := hl₀.lastParent (by omega : 2 ≤ n + 1) (by omega)
    have hlast : (if (n + 1) % 2 = 1 then (h.nodes (l ((n + 1) / 2))).right
        else (h.nodes (l ((n + 1) / 2))).left) = some (l (n + 1)) := by
      rw [hl.left _ (by omega) (by omega), hl.right _ (by omega) (by omega)]
      split <;> rw [hl.slot_eq_iff (by omega) le_rfl] <;> omega
    have hl' := (hl₀.cut (by omega)).replace (by omega) hi hin
    simp only [hp, hpm, hlast, Option.bind_eq_bind, Option.bind_some]
    exact settle hl' (by split <;> simp [heapReplace]) hl.inj ho hi hin

theorem heapDequeue_represents (hr : Represents key h f) (hf : f.Nonempty) :
    ∃ r h', h.root = some r ∧ r ∈ f ∧ (∀ y ∈ f, key r ≤ key y) ∧
      heapDequeue (some (less key)) h = some h' ∧ Represents key h' (f.erase r) := by
  cases hroot : h.root
  case none => exact absurd (hr.root_eq_none.mp hroot) hf.ne_empty
  case some r =>
    have hm := hr.root_le hroot
    obtain ⟨h', he, hr'⟩ := heapRemove_represents hr hm.1
    exact ⟨r, h', rfl, hm.1, hm.2, by rw [heapDequeue, hroot]; exact he, hr'⟩

-- A heap with the entries 7 and 9.
def Heap.pair : Heap Nat where
  nodes
    | 7 => { left := some 9 }
    | 9 => { parent := some 7 }
    | _ => {}
  root  := some 7
  nelts := 2

theorem Heap.pair_represents : Represents id pair {7, 9} := by
  have hcases {i : Nat} (hi : 1 ≤ i) (hin : i ≤ pair.nelts) : i = 1 ∨ i = 2 := by
    simp only [pair] at hin; omega
  refine ⟨fun i => if i = 1 then 7 else 9, ⟨?_, rfl, ?_, ?_, ?_, ?_⟩, ?_, by decide⟩
  case refine_1 =>
    intro i j hi hin hj hjn
    rcases hcases hi hin with rfl | rfl <;> rcases hcases hj hjn with rfl | rfl <;> simp
  case refine_2 | refine_3 | refine_4 =>
    intro i hi hin
    rcases hcases hi hin with rfl | rfl <;> rfl
  case refine_5 =>
    intro x hx
    have h7 : 7 ≠ x := hx 1 (by decide) (by decide)
    have h9 : 9 ≠ x := hx 2 (by decide) (by decide)
    simp only [pair]
    split <;> first | rfl | contradiction
  case refine_6 =>
    intro j hj hn
    obtain rfl := (hcases (by omega) hn).resolve_left (by omega)
    decide

theorem heapInsert_pair :
    ∃ h', heapInsert (some (less id)) 3 pair = some h' ∧ Represents id h' {3, 7, 9} :=
  heapInsert_represents pair_represents (by decide)

theorem heapRemove_pair :
    ∃ h', heapRemove (some (less id)) 7 pair = some h' ∧ Represents id h' {9} :=
  heapRemove_represents pair_represents (by decide)

end Rlibhv
