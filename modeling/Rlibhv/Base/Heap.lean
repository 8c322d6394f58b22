import Mathlib.Logic.Function.Basic
import Mathlib.Data.Option.Basic

-- base/heap.h: a binary heap whose nodes are embedded in the entries and linked by pointers. NULL
-- is `none`. A dereferenced NULL and a failed assertion make the result of a function `none`.
namespace Rlibhv

@[ext]
structure HeapNode (ν : Type*) where
  parent : Option ν := none
  left   : Option ν := none
  right  : Option ν := none
  deriving DecidableEq

-- The nodes here are all those that may be linked into the heap, so `nodes` is the memory that its
-- functions read and write.
structure Heap (ν : Type*) where
  nodes : ν → HeapNode ν
  root  : Option ν
  nelts : Nat

namespace Heap

variable {ν : Type*} [DecidableEq ν]

def init (nodes : ν → HeapNode ν) : Heap ν where
  nodes := nodes
  root  := none
  nelts := 0

def setParent (h : Heap ν) (p : ν) (q : Option ν) : Heap ν :=
  { h with nodes := Function.update h.nodes p { h.nodes p with parent := q } }

def setLeft (h : Heap ν) (p : ν) (q : Option ν) : Heap ν :=
  { h with nodes := Function.update h.nodes p { h.nodes p with left := q } }

def setRight (h : Heap ν) (p : ν) (q : Option ν) : Heap ν :=
  { h with nodes := Function.update h.nodes p { h.nodes p with right := q } }

-- `if (c) c->parent = q`
def adopt (h : Heap ν) (c : Option ν) (q : Option ν) : Heap ν :=
  match c with
  | none   => h
  | some c => h.setParent c q

-- Makes what pointed down at `s`, whose parent is `p`, point at `r`.
def relink (h : Heap ν) (p : Option ν) (s : ν) (r : Option ν) : Heap ν :=
  match p with
  | none   => { h with root := r }
  | some p =>
    if (h.nodes p).left = some s then h.setLeft p r
    else if (h.nodes p).right = some s then h.setRight p r
    else h

-- `heap_replace` with a replacement that is not NULL.
def heapReplace (s r : ν) (h : Heap ν) : Heap ν :=
  let h := h.relink (h.nodes s).parent s (some r)
  let h := h.adopt (h.nodes s).left (some r)
  let h := h.adopt (h.nodes s).right (some r)
  let h := h.setParent r (h.nodes s).parent
  let h := h.setLeft r (h.nodes s).left
  h.setRight r (h.nodes s).right

def heapSwap (parent child : ν) (h : Heap ν) : Option (Heap ν) :=
  if (h.nodes child).parent = some parent ∧
      ((h.nodes parent).left = some child ∨ (h.nodes parent).right = some child) then
    let pparent := (h.nodes parent).parent
    let lchild  := (h.nodes child).left
    let rchild  := (h.nodes child).right
    let h := h.relink pparent parent (some child)
    let h := h.adopt lchild (some parent)
    let h := h.adopt rchild (some parent)
    let h := h.setParent child pparent
    let isLeft  := (h.nodes parent).left = some child
    let sibling := if isLeft then (h.nodes parent).right else (h.nodes parent).left
    let h := h.setLeft child (if isLeft then some parent else sibling)
    let h := h.setRight child (if isLeft then sibling else some parent)
    let h := h.adopt sibling (some child)
    let h := h.setParent parent (some child)
    let h := h.setLeft parent lchild
    some (h.setRight parent rchild)
  else
    none

-- The first loop of `heap_insert` and `heap_remove`: the path from the root to the `n`-th node,
-- with the first turn in the lowest bit, and its length.
def pathOf (path d n : Nat) : Nat × Nat :=
  if 2 ≤ n then pathOf (2 * path + n % 2) (d + 1) (n / 2) else (path, d)

-- The second loop, which follows all turns but the last one, which it leaves in the lowest bit.
def descend (h : Heap ν) : (d path : Nat) → (parent : Option ν) → Option (Option ν × Nat)
  | 0, path, parent | 1, path, parent => some (parent, path)
  | _ + 2, _, none                    => none
  | d + 2, path, some p               =>
    h.descend (d + 1) (path / 2) (if path % 2 = 1 then (h.nodes p).right else (h.nodes p).left)

def lastParent (h : Heap ν) (n : Nat) : Option (Option ν × Nat) :=
  let (path, d) := pathOf 0 0 n
  h.descend d path h.root

-- The function `compare` of the heap reads the entries of the nodes, so it is a parameter. The
-- loops that sift get as many rounds as there are elements.
variable (compare : ν → ν → Bool)

def siftUp (v : ν) : (fuel : Nat) → Heap ν → Option (Heap ν)
  | 0, _        => none
  | fuel + 1, h =>
    match (h.nodes v).parent with
    | none   => some h
    | some p => if compare v p then (h.heapSwap p v).bind (siftUp v fuel) else some h

-- `if (c) est = compare(est, c) ? est : c`
def pick (est : ν) (c : Option ν) : ν :=
  match c with
  | none   => est
  | some c => if compare est c then est else c

-- The node that has to be on top of `v` and its children.
def est (v : ν) (h : Heap ν) : ν :=
  pick compare (pick compare v (h.nodes v).left) (h.nodes v).right

def siftDown (v : ν) : (fuel : Nat) → Heap ν → Option (Heap ν)
  | 0, _        => none
  | fuel + 1, h =>
    let e := est compare v h
    if e = v then some h else (h.heapSwap v e).bind (siftDown v fuel)

end Heap

open Heap

variable {ν : Type*} [DecidableEq ν]

def heapInsert (compare : Option (ν → ν → Bool)) (node : ν) (h : Heap ν) : Option (Heap ν) := do
  let h := { h with nelts := h.nelts + 1 }
  let (parent, path) ← h.lastParent h.nelts
  let h := h.setParent node parent
  let h :=
    match parent with
    | none   => { h with root := some node }
    | some p => if path % 2 = 1 then h.setRight p (some node) else h.setLeft p (some node)
  match compare with
  | none         => return h
  | some compare => siftUp compare node h.nelts h

def heapRemove (compare : Option (ν → ν → Bool)) (node : ν) (h : Heap ν) : Option (Heap ν) :=
  if h.nelts = 0 then some h else do
    let n := h.nelts
    let h := { h with nelts := n - 1 }
    let (parent, path) ← h.lastParent n
    match parent with
    | none   => return h
    | some p =>
      let last := if path % 2 = 1 then (h.nodes p).right else (h.nodes p).left
      let h := if path % 2 = 1 then h.setRight p none else h.setLeft p none
      match last with
      | none      => return if h.root = some node then { h with root := none } else h
      | some last =>
        let h := h.heapReplace node last
        let h := ((h.setParent node none).setLeft node none).setRight node none
        match compare with
        | none         => return h
        | some compare =>
          let h ← siftDown compare last (h.nelts + 1) h
          siftUp compare last (h.nelts + 1) h

-- Removing NULL is a dereferenced NULL unless the heap is empty.
def heapDequeue (compare : Option (ν → ν → Bool)) (h : Heap ν) : Option (Heap ν) :=
  match h.root with
  | none      => if h.nelts = 0 then some h else none
  | some node => heapRemove compare node h

end Rlibhv
