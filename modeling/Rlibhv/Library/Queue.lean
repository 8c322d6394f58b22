import Mathlib.Data.List.Range
import Mathlib.Logic.Function.Basic

-- A FIFO queue that lives in a window of a growable array: the elements are the `size` cells from
-- index `offset` on. Pushing onto a full array doubles it, pushing at its end moves the window to
-- the front. The window stays inside of the array and all of its cells are initialized.
structure Queue (α : Type*) where
  cells   : Nat → Option α
  size    : Nat
  maxsize : Nat
  offset  : Nat
  bounds  : offset + size ≤ maxsize
  live    : ∀ i < size, (cells (offset + i)).isSome

namespace Queue

variable {α : Type*}

def toList (q : Queue α) : List α :=
  (List.range q.size).filterMap fun i => q.cells (q.offset + i)

def init (maxsize : Nat) : Queue α where
  cells _ := none
  size    := 0
  maxsize := maxsize
  offset  := 0
  bounds  := by simp
  live    := by simp

-- A zeroed queue has no array. This is also what `cleanup` leaves behind.
def empty : Queue α :=
  init 0

def isEmpty (q : Queue α) : Bool :=
  q.size == 0

def front? (q : Queue α) : Option α :=
  if q.size = 0 then none else q.cells q.offset

def resize (q : Queue α) (maxsize : Nat) (h : q.maxsize ≤ maxsize) : Queue α :=
  { q with maxsize := maxsize, bounds := q.bounds.trans h }

def initSize : Nat :=
  16

def doubleResize (q : Queue α) : Queue α :=
  q.resize (if q.maxsize = 0 then initSize else q.maxsize * 2) (by split <;> omega)

def moveFront (q : Queue α) : Queue α where
  cells i := if i < q.size then q.cells (q.offset + i) else q.cells i
  size    := q.size
  maxsize := q.maxsize
  offset  := 0
  bounds  := by have := q.bounds; omega
  live i hi := by simp [hi, q.live i hi]

-- The space `pushBack` makes before it writes the new element.
def reserve (q : Queue α) : Queue α :=
  if q.size = q.maxsize then
    q.doubleResize
  else if q.offset + q.size = q.maxsize then
    q.moveFront
  else
    q

theorem reserve_bounds (q : Queue α) : q.reserve.offset + q.reserve.size < q.reserve.maxsize := by
  have := q.bounds
  simp only [reserve]
  split <;> try split
  · simp only [doubleResize, resize, initSize]; split <;> omega
  · simp only [moveFront]; omega
  · omega

def pushBack (q : Queue α) (a : α) : Queue α where
  cells   := Function.update q.reserve.cells (q.reserve.offset + q.reserve.size) (some a)
  size    := q.reserve.size + 1
  maxsize := q.reserve.maxsize
  offset  := q.reserve.offset
  bounds  := by have := q.reserve_bounds; omega
  live i hi := by
    by_cases h : i = q.reserve.size
    case pos => simp [h]
    case neg =>
      rw [Function.update_of_ne (by omega)]
      exact q.reserve.live i (by omega)

-- The queue must not be empty. On an empty queue nothing is removed.
def popFront (q : Queue α) : Queue α where
  cells   := q.cells
  size    := q.size - 1
  maxsize := q.maxsize
  offset  := if q.size = 0 then q.offset else if q.offset + 1 = q.maxsize then 0 else q.offset + 1
  bounds  := by have := q.bounds; split <;> try split
                all_goals omega
  live i hi := by
    have := q.bounds
    have h := q.live (i + 1) (by omega)
    rwa [if_neg (by omega), if_neg (by omega), Nat.add_assoc, Nat.add_comm 1]

-- The elements of the queue are accessed by reference, so the front can be changed in place.
def setFront (q : Queue α) (a : α) : Queue α :=
  { q with
    cells := Function.update q.cells q.offset (some a)
    live  := fun i hi => by
      by_cases h : i = 0
      case pos => simp [h]
      case neg => rw [Function.update_of_ne (by omega)]; exact q.live i hi }

theorem toList_eq_of_cells {q q' : Queue α} (hs : q'.size = q.size)
    (hc : ∀ i < q.size, q'.cells (q'.offset + i) = q.cells (q.offset + i)) :
    q'.toList = q.toList := by
  simp only [toList, hs]
  exact List.filterMap_congr fun i hi => hc i (List.mem_range.mp hi)

@[simp]
theorem toList_init {maxsize : Nat} : (init maxsize : Queue α).toList = [] := by
  simp [toList, init]

@[simp]
theorem toList_empty : (empty : Queue α).toList = [] :=
  toList_init

theorem length_toList (q : Queue α) : q.toList.length = q.size := by
  have h : ∀ i ∈ List.range q.size, ∃ a, q.cells (q.offset + i) = some a := fun i hi =>
    Option.isSome_iff_exists.mp <| q.live i (List.mem_range.mp hi)
  simp only [toList]
  generalize hr : List.range q.size = is at h
  have : (is.filterMap fun i => q.cells (q.offset + i)).length = is.length := by
    clear hr
    induction is
    case nil => rfl
    case cons hd tl hi =>
      obtain ⟨a, ha⟩ := h hd (by simp)
      simp [ha, hi fun i hm => h i (by simp [hm])]
  simpa [this] using congrArg List.length hr.symm

theorem isEmpty_iff {q : Queue α} : q.isEmpty ↔ q.toList = [] := by
  simp [isEmpty, ←q.length_toList]

theorem popFront_offset {q : Queue α} {i : Nat} (h : i < q.size - 1) :
    q.popFront.offset + i = q.offset + (i + 1) := by
  have := q.bounds
  simp only [popFront]
  rw [if_neg (by omega), if_neg (by omega)]
  omega

theorem toList_of_maxsize {q : Queue α} (h : q.maxsize = 0) : q.toList = [] := by
  have := q.bounds
  exact List.eq_nil_of_length_eq_zero (by rw [q.length_toList]; omega)

theorem toList_eq_cons {q : Queue α} (h : q.size ≠ 0) :
    ∃ a, q.cells q.offset = some a ∧ q.toList = a :: q.popFront.toList := by
  obtain ⟨n, hn⟩ := Nat.exists_eq_succ_of_ne_zero h
  obtain ⟨a, ha⟩ := Option.isSome_iff_exists.mp <| q.live 0 (by omega)
  have hp : q.popFront.size = n := by simp [popFront, hn]
  refine ⟨a, ha, ?_⟩
  simp only [toList, hp, hn, Nat.succ_eq_add_one, List.range_succ_eq_map, List.filterMap_cons, ha,
    List.filterMap_map]
  congr 1
  apply List.filterMap_congr
  intro i hi
  have := List.mem_range.mp hi
  rw [popFront_offset (by omega)]
  rfl

theorem front?_eq (q : Queue α) : q.front? = q.toList.head? := by
  by_cases h : q.size = 0
  case pos => simp [front?, h, List.eq_nil_of_length_eq_zero (q.length_toList ▸ h)]
  case neg =>
    obtain ⟨a, ha, ht⟩ := toList_eq_cons h
    simp [front?, h, ha, ht]

@[simp]
theorem toList_popFront (q : Queue α) : q.popFront.toList = q.toList.tail := by
  by_cases h : q.size = 0
  case pos => simp [popFront, toList, h]
  case neg =>
    obtain ⟨a, _, ht⟩ := toList_eq_cons h
    simp [ht]

theorem toList_reserve (q : Queue α) : q.reserve.toList = q.toList := by
  simp only [reserve]
  split <;> try split
  · rfl
  · exact toList_eq_of_cells rfl fun i hi => by simp [moveFront, hi]
  · rfl

@[simp]
theorem toList_pushBack (q : Queue α) (a : α) : (q.pushBack a).toList = q.toList ++ [a] := by
  rw [←q.toList_reserve]
  simp only [toList, pushBack, List.range_succ, List.filterMap_append]
  congr 1
  · apply List.filterMap_congr
    intro i hi
    have := List.mem_range.mp hi
    rw [Function.update_of_ne (by omega)]
  · simp

theorem toList_setFront {q : Queue α} {a b : α} {as : List α} (h : q.toList = b :: as) :
    (q.setFront a).toList = a :: as := by
  have hs : q.size ≠ 0 := by simp [←q.length_toList, h]
  obtain ⟨c, hc, ht⟩ := toList_eq_cons hs
  obtain ⟨c', hc', ht'⟩ := toList_eq_cons (q := q.setFront a) hs
  have hp : (q.setFront a).popFront.toList = q.popFront.toList := by
    apply toList_eq_of_cells
    · rfl
    · intro i hi
      have hi : i < q.size - 1 := hi
      rw [popFront_offset hi, popFront_offset (q := q.setFront a) hi]
      exact Function.update_of_ne (by simp [setFront]) _ _
  simp only [setFront, Function.update_self, Option.some.injEq] at hc'
  rw [ht', ←hc', hp]
  exact congrArg (a :: ·) (List.cons.inj <| ht ▸ h).right

end Queue
