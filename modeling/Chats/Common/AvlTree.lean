import Chats.Lib.Store

/-! # The AVL tree of `common/avl-tree.c`, over the store of its nodes

Pointers are 64-bit words and `0` is `NULL`. Every function passes the store of nodes along
and answers `none` where the C code would touch memory that is not a node. Two functions of
the file fall off their end without a `return`; as in the project's `-O0` build `node_init`
is read as returning `n` and `tree_insert` as returning what `tree_balance(p)` returned. -/
namespace Chats.Avl
set_option autoImplicit false

open Lib

/-- `struct avl_tree_node`. The parent is `none` while it holds an indeterminate value: the
local `q_parent` of `tree_rotate_left` is copied there without ever being set. -/
structure AvlTreeNode where
  host : UInt64
  left : UInt64
  right : UInt64
  parent : Option UInt64
  height : UInt8
  key : ℤ
  data : UInt64
deriving DecidableEq

abbrev Nodes := Store UInt64 AvlTreeNode

/-- `struct avl_tree` at address `self`, with the nodes it owns. -/
structure AvlTree where
  self : UInt64
  root : UInt64
  nodes : Nodes

/-! ## Nodes -/

/-- `node_init`; `n` is the block `allocate` returned. -/
def nodeInit (m : Nodes) (key : ℤ) (data host n : UInt64) : Option (Nodes × UInt64) :=
  -- assert(n)
  if n = 0 then none
  else some (Function.update m n
    (some { host := host, left := 0, right := 0, parent := some 0, height := 1, key := key, data := data }), n)

def nodeDeinit (m : Nodes) (n : UInt64) : Nodes := Function.update m n none

def nodeHeight (m : Nodes) (n : UInt64) : Option UInt8 :=
  if n = 0 then some 0 else (m n).map (·.height)

def nodeBalanceFactor (m : Nodes) (n : UInt64) : Option ℤ := do
  let c ← m n
  let hr ← nodeHeight m c.right
  let hl ← nodeHeight m c.left
  return (hr.toNat : ℤ) - (hl.toNat : ℤ)

def nodeFixHeight (m : Nodes) (n : UInt64) : Option Nodes := do
  let c ← m n
  let hl ← nodeHeight m c.left
  let hr ← nodeHeight m c.right
  m.modify n fun c => { c with height := (if hl > hr then hl else hr) + 1 }

/-- `if (n) n->parent = p;`, with `n` and `p` as the statement reads them. -/
def setParent (m : Nodes) (n : UInt64) (p : Option UInt64) : Option Nodes :=
  if n = 0 then some m else m.modify n fun c => { c with parent := p }

/-! ## Rotations and balance -/

def treeRotateRight (m : Nodes) (p : UInt64) : Option (Nodes × UInt64) := do
  let cp ← m p
  let q := cp.left
  let pParent := cp.parent
  let cq ← m q
  let m ← m.modify p fun c => { c with left := cq.right }
  let m ← m.modify q fun c => { c with right := p }
  let m ← setParent m cq.right (some p)
  let m ← m.modify p fun c => { c with parent := some q }
  let m ← m.modify q fun c => { c with parent := pParent }
  let m ← nodeFixHeight m p
  let m ← nodeFixHeight m q
  return (m, q)

/-- `tree_rotate_left`, where `q_parent` is declared and read but never assigned. -/
def treeRotateLeft (m : Nodes) (q : UInt64) : Option (Nodes × UInt64) := do
  let cq ← m q
  let p := cq.right
  let qParent : Option UInt64 := none
  let cp ← m p
  let m ← m.modify q fun c => { c with right := cp.left }
  let m ← m.modify p fun c => { c with left := q }
  let m ← setParent m cp.left (some q)
  let m ← m.modify q fun c => { c with parent := some p }
  let m ← m.modify p fun c => { c with parent := qParent }
  let m ← nodeFixHeight m q
  let m ← nodeFixHeight m p
  return (m, p)

def treeBalance (m : Nodes) (p : UInt64) : Option (Nodes × UInt64) := do
  let m ← nodeFixHeight m p
  let bf ← nodeBalanceFactor m p
  let c ← m p
  if bf = 2 then
    let bfr ← nodeBalanceFactor m c.right
    if bfr < 0 then
      let (m, r) ← treeRotateRight m c.right
      let m ← m.modify p fun c => { c with right := r }
      treeRotateLeft m p
    else treeRotateLeft m p
  else if bf = -2 then
    let bfl ← nodeBalanceFactor m c.left
    if bfl > 0 then
      let (m, l) ← treeRotateLeft m c.left
      let m ← m.modify p fun c => { c with left := l }
      treeRotateRight m p
    else treeRotateRight m p
  else return (m, p)

/-! ## The recursive operations

The first argument bounds the depth of the recursion (or the length of the walk). The
exported operations use `depth`: no path through distinct addresses is longer. -/

def depth : ℕ := 2 ^ 64

/-- `tree_insert`: the new root of the subtree and `*returned`; `n` is the block that
`node_init` gets from `allocate`. -/
def treeInsert : ℕ → Nodes → UInt64 → ℤ → UInt64 → UInt64 → UInt64 → Option (Nodes × UInt64 × UInt64)
  | 0, _, _, _, _, _, _ => none
  | d + 1, m, p, key, data, host, n =>
    if p = 0 then do
      let (m, returned) ← nodeInit m key data host n
      return (m, returned, returned)
    else do
      let c ← m p
      if key < c.key then
        let (m, l, returned) ← treeInsert d m c.left key data host n
        let m ← m.modify p fun c => { c with left := l }
        let (m, p) ← treeBalance m p
        return (m, p, returned)
      else
        let (m, r, returned) ← treeInsert d m c.right key data host n
        let m ← m.modify p fun c => { c with right := r }
        let (m, p) ← treeBalance m p
        return (m, p, returned)

def avlTreeMin : ℕ → Nodes → UInt64 → Option UInt64
  | 0, _, _ => none
  | d + 1, m, root => do
    let c ← m root
    if c.left = 0 then return root else avlTreeMin d m c.left

def treeRemoveMinimumNode : ℕ → Nodes → UInt64 → Option (Nodes × UInt64)
  | 0, _, _ => none
  | d + 1, m, p => do
    let c ← m p
    if c.left = 0 then return (m, c.right)
    else
      let (m, l) ← treeRemoveMinimumNode d m c.left
      let m ← m.modify p fun c => { c with left := l }
      treeBalance m p

/-- `tree_remove_node`. Its `return_data = p->data` assigns the parameter itself, so the
caller's `data` is never written and the function has no second result. -/
def treeRemoveNode : ℕ → Nodes → UInt64 → ℤ → Option (Nodes × UInt64)
  | 0, _, _, _ => none
  | d + 1, m, p, key =>
    if p = 0 then some (m, 0)
    else do
      let c ← m p
      if key < c.key then
        let (m, l) ← treeRemoveNode d m c.left key
        let m ← m.modify p fun c => { c with left := l }
        treeBalance m p
      else if key > c.key then
        let (m, r) ← treeRemoveNode d m c.right key
        let m ← m.modify p fun c => { c with right := r }
        treeBalance m p
      else
        let q := c.left
        let r := c.right
        let pParent := c.parent
        let m := nodeDeinit m p
        if r = 0 then
          let m ← setParent m q pParent
          return (m, q)
        else
          let min ← avlTreeMin d m r
          let (m, r') ← treeRemoveMinimumNode d m r
          let m ← m.modify min fun c => { c with right := r' }
          let m ← m.modify min fun c => { c with left := q }
          let m ← setParent m q (some min)
          let m ← setParent m r' (some min)
          let m ← m.modify min fun c => { c with parent := pParent }
          treeBalance m min

def treeFind : ℕ → Nodes → UInt64 → ℤ → Option UInt64
  | 0, _, _, _ => none
  | d + 1, m, p, key =>
    if p = 0 then some 0
    else do
      let c ← m p
      if key < c.key then treeFind d m c.left key
      else if key > c.key then treeFind d m c.right key
      else return p

/-! ## The exported operations -/

def avlTreeInit (self : UInt64) : AvlTree where
  self := self
  root := 0
  nodes := fun _ => none

/-- `avl_tree_add`; `n` is the block the allocator hands to `node_init`. -/
def avlTreeAdd (t : AvlTree) (key : ℤ) (data n : UInt64) : Option (AvlTree × UInt64) := do
  let (m, root, p) ← treeInsert depth t.nodes t.root key data t.self n
  return ({ t with root := root, nodes := m }, p)

/-- `avl_tree_remove`; the second result is the local `data`, which stays indeterminate. -/
def avlTreeRemove (t : AvlTree) (key : ℤ) : Option (AvlTree × Option UInt64) := do
  let data : Option UInt64 := none
  let (m, root) ← treeRemoveNode depth t.nodes t.root key
  return ({ t with root := root, nodes := m }, data)

def avlTreeGet (t : AvlTree) (key : ℤ) : Option UInt64 := treeFind depth t.nodes t.root key

/-! ## The walk along the nodes

`avl_tree_next` and `avl_tree_prev` are written twice in the source, once for each side; here
they are one body, applied to what each of them reads and calls. -/

def treeIsChild (child : AvlTreeNode → UInt64) (m : Nodes) (p : UInt64) : Option Bool :=
  if p = 0 then some false
  else do
    let c ← m p
    let up ← c.parent
    if up = 0 then return false
    let u ← m up
    return child u == p

def treeIsLeft : Nodes → UInt64 → Option Bool := treeIsChild AvlTreeNode.left

def treeIsRight : Nodes → UInt64 → Option Bool := treeIsChild AvlTreeNode.right

/-- `while (p && !is(p)) p = p->parent;` -/
def climb (is : Nodes → UInt64 → Option Bool) : ℕ → Nodes → UInt64 → Option UInt64
  | 0, _, _ => none
  | d + 1, m, p =>
    if p = 0 then some 0
    else do
      if ← is m p then return p
      let c ← m p
      let up ← c.parent
      climb is d m up

/-- `avl_tree_max`. The loop ends when `right` is `NULL`, and `right` is what it returns. -/
def avlTreeMax : ℕ → Nodes → UInt64 → Option UInt64
  | 0, _, _ => none
  | d + 1, m, root => do
    let c ← m root
    if c.right = 0 then return c.right else avlTreeMax d m c.right

def neighbour (child : AvlTreeNode → UInt64) (isNear isFar : Nodes → UInt64 → Option Bool)
    (extreme : Nodes → UInt64 → Option UInt64) (m : Nodes) (n : UInt64) : Option UInt64 :=
  if n = 0 then some 0
  else do
    let c ← m n
    if child c = 0 then
      if ← isNear m n then c.parent
      else
        let p ← c.parent
        let p ← climb isNear depth m p
        if p = 0 then return p
        if ← isFar m p then return p
        let q ← m p
        q.parent
    else extreme m (child c)

def avlTreeNext : Nodes → UInt64 → Option UInt64 :=
  neighbour AvlTreeNode.right treeIsLeft treeIsRight (avlTreeMin depth)

def avlTreePrev : Nodes → UInt64 → Option UInt64 :=
  neighbour AvlTreeNode.left treeIsRight treeIsLeft (avlTreeMax depth)

/-- `for (p = first; p; p = next(p))`, with the nodes it comes by. -/
def visits (next : UInt64 → Option UInt64) : ℕ → UInt64 → Option (List UInt64)
  | 0, _ => none
  | d + 1, p =>
    if p = 0 then some []
    else do
      let q ← next p
      let rest ← visits next d q
      return p :: rest

end Chats.Avl
