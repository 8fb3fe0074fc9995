import Edk2.Base
import Edk2.Lib.RedBlack

/-!
# The ordered collection library

`BaseOrderedCollectionRedBlackTreeLib.c` at the level of its pointers. Nodes are cells of a heap,
a pointer is an address or `NULL` (`none`), and dereferencing anything but the address of a cell
is a fault. The two halves of the C functions that mirror each other are one definition with the
side as a parameter.
-/

namespace Edk2.OrderedCollection

open RedBlack

variable {α κ : Type}

abbrev Ptr := ℕ

/-- `RED_BLACK_TREE_NODE`. -/
structure Node (α : Type) where
  userStruct : α
  parent : Option Ptr
  left : Option Ptr
  right : Option Ptr
  color : Color
deriving DecidableEq, Repr

def Node.child (n : Node α) : Side → Option Ptr
  | .left => n.left
  | .right => n.right

def Node.setChild (n : Node α) (d : Side) (p : Option Ptr) : Node α :=
  match d with
  | .left => { n with left := p }
  | .right => { n with right := p }

/-- The nodes in memory. `live` counts them: a walk along more links than there are nodes never
ends, so it bounds the loops. -/
structure Heap (α : Type) where
  cell : Ptr → Option (Node α)
  live : ℕ

namespace Heap

def deref (h : Heap α) : Option Ptr → Except Halt (Node α)
  | none => .error .fault
  | some p =>
    match h.cell p with
    | none => .error .fault
    | some n => .ok n

def store (h : Heap α) (p : Ptr) (n : Node α) : Heap α :=
  { h with cell := Function.update h.cell p (some n) }

/-- Assignment to fields of the node that `p` points to. -/
def modify (h : Heap α) (p : Option Ptr) (f : Node α → Node α) : Except Halt (Heap α) :=
  match p with
  | none => .error .fault
  | some p =>
    match h.cell p with
    | none => .error .fault
    | some n => .ok (h.store p (f n))

def setColor (h : Heap α) (p : Option Ptr) (c : Color) : Except Halt (Heap α) :=
  h.modify p fun n => { n with color := c }

def setParent (h : Heap α) (p parent : Option Ptr) : Except Halt (Heap α) :=
  h.modify p fun n => { n with parent := parent }

/-- `if (P != NULL) { P->Parent = Parent; }`. -/
def setParentOf (h : Heap α) (p parent : Option Ptr) : Except Halt (Heap α) :=
  if p = none then .ok h else h.setParent p parent

/-- `AllocatePool` has returned `p`. -/
def allocate (h : Heap α) (p : Ptr) (n : Node α) : Heap α where
  cell := Function.update h.cell p (some n)
  live := h.live + 1

/-- `FreePool`. -/
def free (h : Heap α) (p : Ptr) : Heap α where
  cell := Function.update h.cell p none
  live := h.live - 1

end Heap

def assertThat (b : Bool) : Except Halt Unit := if b then .ok () else .error .assert

/-! ### Lookup and iteration -/

/-- `while (Node->Left != NULL) { Node = Node->Left; }`, or the same to the right. -/
def extreme (d : Side) (h : Heap α) : ℕ → Option Ptr → Except Halt (Option Ptr)
  | 0, node => do
    let n ← h.deref node
    if n.child d = none then return node else .error .loop
  | fuel + 1, node => do
    let n ← h.deref node
    if n.child d = none then return node else extreme d h fuel (n.child d)

def findLoop (keyCompare : κ → α → ℤ) (key : κ) (h : Heap α) :
    ℕ → Option Ptr → Except Halt (Option Ptr)
  | _, none => .ok none
  | 0, some _ => .error .loop
  | fuel + 1, some p => do
    let n ← h.deref (some p)
    if keyCompare key n.userStruct = 0 then return some p
    else
      findLoop keyCompare key h fuel
        (if keyCompare key n.userStruct < 0 then n.left else n.right)

def orderedCollectionFind (keyCompare : κ → α → ℤ) (h : Heap α) (root : Option Ptr) (key : κ) :
    Except Halt (Option Ptr) :=
  findLoop keyCompare key h h.live root

def orderedCollectionMin (h : Heap α) (root : Option Ptr) : Except Halt (Option Ptr) :=
  if root = none then .ok none else extreme .left h h.live root

def orderedCollectionMax (h : Heap α) (root : Option Ptr) : Except Halt (Option Ptr) :=
  if root = none then .ok none else extreme .right h h.live root

/-- `while (Walk != NULL && Child == Walk->Right) { Child = Walk; Walk = Child->Parent; }`, or the
same with `Walk->Left`. -/
def climb (d : Side) (h : Heap α) : ℕ → Option Ptr → Option Ptr → Except Halt (Option Ptr)
  | _, _, none => .ok none
  | 0, child, some walk => do
    let n ← h.deref (some walk)
    if child = n.child d then .error .loop else return some walk
  | fuel + 1, child, some walk => do
    let n ← h.deref (some walk)
    if child = n.child d then climb d h fuel (some walk) n.parent else return some walk

/-- The node that follows in the direction of `d`. -/
def neighbour (d : Side) (h : Heap α) (node : Option Ptr) : Except Halt (Option Ptr) :=
  if node = none then .ok none
  else do
    let n ← h.deref node
    if n.child d ≠ none then extreme d.other h h.live (n.child d)
    else climb d h h.live node n.parent

def orderedCollectionNext (h : Heap α) (node : Option Ptr) : Except Halt (Option Ptr) :=
  neighbour .right h node

def orderedCollectionPrev (h : Heap α) (node : Option Ptr) : Except Halt (Option Ptr) :=
  neighbour .left h node

/-! ### Rotations -/

/-- Link `new` in the place of `old` below `parent`, or as the new root. -/
def replaceChild (h : Heap α) (newRoot parent old new : Option Ptr) :
    Except Halt (Heap α × Option Ptr) :=
  match parent with
  | none => .ok (h, new)
  | some p => do
    let n ← h.deref (some p)
    let h ← h.modify (some p) fun m =>
      if old = n.left then { m with left := new } else { m with right := new }
    return (h, newRoot)

/-- The pivot sinks to the side `d` and its child on the other side takes its place. -/
def rotate (d : Side) (h : Heap α) (pivot newRoot : Option Ptr) :
    Except Halt (Heap α × Option Ptr) := do
  let pivotNode ← h.deref pivot
  let parent := pivotNode.parent
  let child := pivotNode.child d.other
  let childNode ← h.deref child
  let grandChild := childNode.child d
  let h ← h.modify pivot fun n => n.setChild d.other grandChild
  let h ← h.setParentOf grandChild pivot
  let h ← h.setParent child parent
  let (h, newRoot) ← replaceChild h newRoot parent pivot child
  let h ← h.modify child fun n => n.setChild d pivot
  let h ← h.setParent pivot child
  return (h, newRoot)

def redBlackTreeRotateRight (h : Heap α) (pivot newRoot : Option Ptr) :
    Except Halt (Heap α × Option Ptr) :=
  rotate .right h pivot newRoot

def redBlackTreeRotateLeft (h : Heap α) (pivot newRoot : Option Ptr) :
    Except Halt (Heap α × Option Ptr) :=
  rotate .left h pivot newRoot

/-! ### Insertion -/

def nodeIsNullOrBlack (h : Heap α) : Option Ptr → Except Halt Bool
  | none => .ok true
  | some p => do
    let n ← h.deref (some p)
    return n.color = .black

/-- The descent of `OrderedCollectionInsert`: `Tmp`, `Parent` and `Result` at its end. -/
def insertSearch (userStructCompare : α → α → ℤ) (userStruct : α) (h : Heap α) :
    ℕ → Option Ptr → Option Ptr → ℤ → Except Halt (Option Ptr × Option Ptr × ℤ)
  | _, none, parent, result => .ok (none, parent, result)
  | 0, some _, _, _ => .error .loop
  | fuel + 1, some tmp, parent, _ => do
    let n ← h.deref (some tmp)
    let result := userStructCompare userStruct n.userStruct
    if result = 0 then return (some tmp, parent, result)
    else
      insertSearch userStructCompare userStruct h fuel (if result < 0 then n.left else n.right)
        (some tmp) result

/-- The variables of the rebalancing loop of `OrderedCollectionInsert`. -/
structure InsertState (α : Type) where
  heap : Heap α
  newRoot : Option Ptr
  tmp : Option Ptr
  parent : Option Ptr

/-- `Tmp != NewRoot && Parent->Color == RedBlackTreeRed`. -/
def insertContinues (s : InsertState α) : Except Halt Bool :=
  if s.tmp = s.newRoot then .ok false
  else do
    let n ← s.heap.deref s.parent
    return n.color = .red

/-- If `Tmp` is the inner child of `Parent`, make `Parent` the outer child of `Tmp`. -/
def insertInner (d : Side) (grandParent : Option Ptr) (s : InsertState α) :
    Except Halt (InsertState α) := do
  let parentNode ← s.heap.deref s.parent
  if s.tmp = parentNode.child d.other then
    let tmp := s.parent
    let (h, newRoot) ← rotate d s.heap tmp s.newRoot
    let tmpNode ← h.deref tmp
    let parentNode ← h.deref tmpNode.parent
    assertThat (grandParent = parentNode.parent)
    return { heap := h, newRoot := newRoot, tmp := tmp, parent := tmpNode.parent }
  else return s

/-- The body of the loop when `Parent` is the child of `GrandParent` on side `d`. -/
def insertStepOn (d : Side) (grandParent : Option Ptr) (s : InsertState α) :
    Except Halt (InsertState α) := do
  let grandNode ← s.heap.deref grandParent
  let uncle := grandNode.child d.other
  if ← nodeIsNullOrBlack s.heap uncle then
    let s ← insertInner d grandParent s
    let h ← s.heap.setColor s.parent .black
    let h ← h.setColor grandParent .red
    let (h, newRoot) ← rotate d.other h grandParent s.newRoot
    return { s with heap := h, newRoot := newRoot }
  else
    let h ← s.heap.setColor s.parent .black
    let h ← h.setColor uncle .black
    let h ← h.setColor grandParent .red
    let tmpNode ← h.deref grandParent
    return { s with heap := h, tmp := grandParent, parent := tmpNode.parent }

def insertStep (s : InsertState α) : Except Halt (InsertState α) := do
  let parentNode ← s.heap.deref s.parent
  let grandNode ← s.heap.deref parentNode.parent
  if s.parent = grandNode.left then insertStepOn .left parentNode.parent s
  else insertStepOn .right parentNode.parent s

def insertLoop : ℕ → InsertState α → Except Halt (InsertState α)
  | 0, s => do
    if ← insertContinues s then .error .loop else return s
  | fuel + 1, s => do
    if ← insertContinues s then
      let s ← insertStep s
      insertLoop fuel s
    else return s

/-- What `OrderedCollectionInsert` returns; `node` is the value reported in `*Node`, if any. -/
structure InsertResult (α : Type) where
  status : EfiStatus
  node : Option Ptr
  heap : Heap α
  root : Option Ptr

/-- Link the new node below `parent` and rebalance. -/
def insertNode (h : Heap α) (root : Option Ptr) (tmp : Ptr) (userStruct : α)
    (parent : Option Ptr) (result : ℤ) : Except Halt (InsertResult α) :=
  let node := { userStruct := userStruct, parent := parent, left := none, right := none
                color := if parent = none then .black else .red }
  let h := h.allocate tmp node
  if parent = none then
    .ok { status := .success, node := some tmp, heap := h, root := some tmp }
  else do
    let h ← h.modify parent fun n => n.setChild (if result < 0 then .left else .right) (some tmp)
    let s ← insertLoop h.live { heap := h, newRoot := root, tmp := some tmp, parent := parent }
    let h ← s.heap.setColor s.newRoot .black
    return { status := .success, node := some tmp, heap := h, root := s.newRoot }

/-- `OrderedCollectionInsert` up to its final validation; `allocatePool` is what `AllocatePool`
returns if it is called. -/
def insertUnchecked (userStructCompare : α → α → ℤ) (allocatePool : Option Ptr) (h : Heap α)
    (root : Option Ptr) (userStruct : α) : Except Halt (InsertResult α) := do
  let (tmp, parent, result) ← insertSearch userStructCompare userStruct h h.live root none 0
  if tmp ≠ none then
    return { status := .alreadyStarted, node := tmp, heap := h, root := root }
  else
    match allocatePool with
    | none => return { status := .outOfResources, node := none, heap := h, root := root }
    | some p => insertNode h root p userStruct parent result

/-! ### Deletion -/

/-- The variables of the rebalancing loop of `OrderedCollectionDelete`. -/
structure DeleteState (α : Type) where
  heap : Heap α
  newRoot : Option Ptr
  child : Option Ptr
  parent : Option Ptr

/-- Unlink a node with at most one child. -/
def unlinkLeaf (h : Heap α) (newRoot node : Option Ptr) (n : Node α) :
    Except Halt (DeleteState α × Color) := do
  let child := if n.left ≠ none then n.left else n.right
  let h ← h.setParentOf child n.parent
  let (h, newRoot) ← replaceChild h newRoot n.parent node child
  return ({ heap := h, newRoot := newRoot, child := child, parent := n.parent }, n.color)

/-- Unlink the leftmost node below the right child and make it the parent of that child; the
result holds `ToRelink`, `Parent` and `Child`. -/
def unlinkSuccessor (h : Heap α) (origRightChild : Option Ptr) (rightNode : Node α) :
    Except Halt (Heap α × Option Ptr × Option Ptr × Option Ptr) :=
  if rightNode.left = none then
    .ok (h, origRightChild, origRightChild, rightNode.right)
  else do
    let toRelink ← extreme .left h h.live rightNode.left
    let relinkNode ← h.deref toRelink
    let parent := relinkNode.parent
    let child := relinkNode.right
    let h ← h.modify parent fun n => { n with left := child }
    let h ← h.setParentOf child parent
    let h ← h.modify toRelink fun n => { n with right := origRightChild }
    let h ← h.setParent origRightChild toRelink
    return (h, toRelink, parent, child)

/-- Unlink a node with two children: its successor takes its place and its colour. -/
def unlinkInner (h : Heap α) (newRoot node : Option Ptr) (n : Node α) :
    Except Halt (DeleteState α × Color) := do
  let rightNode ← h.deref n.right
  let (h, toRelink, parent, child) ← unlinkSuccessor h n.right rightNode
  let h ← h.modify toRelink fun m => { m with left := n.left }
  let h ← h.setParent n.left toRelink
  let relinkNode ← h.deref toRelink
  let nodeNow ← h.deref node
  let h ← h.setColor toRelink nodeNow.color
  let h ← h.setParent toRelink n.parent
  let (h, newRoot) ← replaceChild h newRoot n.parent node toRelink
  return ({ heap := h, newRoot := newRoot, child := child, parent := parent }, relinkNode.color)

/-- Unlink the node that is deleted, or its successor, from its place in the tree; the result
holds the colour of what is unlinked. -/
def unlink (h : Heap α) (newRoot node : Option Ptr) (n : Node α) :
    Except Halt (DeleteState α × Color) :=
  if n.left = none ∨ n.right = none then unlinkLeaf h newRoot node n
  else unlinkInner h newRoot node n

/-- `Child != NewRoot && NodeIsNullOrBlack (Child)`. -/
def deleteContinues (s : DeleteState α) : Except Halt Bool :=
  if s.child = s.newRoot then .ok false else nodeIsNullOrBlack s.heap s.child

/-- Make the sibling of `Child` black. -/
def deleteRedSibling (d : Side) (s : DeleteState α) :
    Except Halt (DeleteState α × Option Ptr) := do
  let parentNode ← s.heap.deref s.parent
  let sibling := parentNode.child d.other
  assertThat (sibling ≠ none)
  let siblingNode ← s.heap.deref sibling
  if siblingNode.color = .red then
    let h ← s.heap.setColor sibling .black
    let h ← h.setColor s.parent .red
    let (h, newRoot) ← rotate d h s.parent s.newRoot
    let parentNode ← h.deref s.parent
    assertThat (parentNode.child d.other ≠ none)
    return ({ s with heap := h, newRoot := newRoot }, parentNode.child d.other)
  else return (s, sibling)

/-- Make the far nephew red if the near one is. -/
def deleteNearNephew (d : Side) (s : DeleteState α) (sibling near far : Option Ptr) :
    Except Halt (DeleteState α × Option Ptr × Option Ptr) := do
  if ← nodeIsNullOrBlack s.heap far then
    let h ← s.heap.setColor near .black
    let h ← h.setColor sibling .red
    let (h, newRoot) ← rotate d.other h sibling s.newRoot
    let parentNode ← h.deref s.parent
    let sibling := parentNode.child d.other
    let siblingNode ← h.deref sibling
    return ({ s with heap := h, newRoot := newRoot }, sibling, siblingNode.child d.other)
  else return (s, sibling, far)

/-- The last rotation, which makes up for the missing black node. -/
def deleteFarNephew (d : Side) (s : DeleteState α) (sibling far : Option Ptr) :
    Except Halt (DeleteState α) := do
  assertThat (far ≠ none)
  let farNode ← s.heap.deref far
  assertThat (farNode.color = .red)
  assertThat (sibling ≠ none)
  let siblingNode ← s.heap.deref sibling
  assertThat (siblingNode.color = .black)
  let parentNode ← s.heap.deref s.parent
  let h ← s.heap.setColor sibling parentNode.color
  let h ← h.setColor s.parent .black
  let h ← h.setColor far .black
  let (h, newRoot) ← rotate d h s.parent s.newRoot
  return { s with heap := h, newRoot := newRoot, child := newRoot }

/-- The body of the loop when `Child` is the child of `Parent` on side `d`. -/
def deleteStepOn (d : Side) (s : DeleteState α) : Except Halt (DeleteState α) := do
  let (s, sibling) ← deleteRedSibling d s
  let siblingNode ← s.heap.deref sibling
  assertThat (siblingNode.color = .black)
  let near := siblingNode.child d
  let far := siblingNode.child d.other
  if (← nodeIsNullOrBlack s.heap near) && (← nodeIsNullOrBlack s.heap far) then
    let h ← s.heap.setColor sibling .red
    let parentNode ← h.deref s.parent
    return { s with heap := h, child := s.parent, parent := parentNode.parent }
  else
    let (s, sibling, far) ← deleteNearNephew d s sibling near far
    deleteFarNephew d s sibling far

def deleteStep (s : DeleteState α) : Except Halt (DeleteState α) := do
  let parentNode ← s.heap.deref s.parent
  if s.child = parentNode.left then deleteStepOn .left s else deleteStepOn .right s

def deleteLoop : ℕ → DeleteState α → Except Halt (DeleteState α)
  | 0, s => do
    if ← deleteContinues s then .error .loop else return s
  | fuel + 1, s => do
    if ← deleteContinues s then
      let s ← deleteStep s
      deleteLoop fuel s
    else return s

/-- `if (Child != NULL) { Child->Color = RedBlackTreeBlack; }`. -/
def paintChild (s : DeleteState α) : Except Halt (Heap α) :=
  if s.child = none then .ok s.heap else s.heap.setColor s.child .black

/-- What `OrderedCollectionDelete` leaves. -/
structure DeleteResult (α : Type) where
  userStruct : α
  heap : Heap α
  root : Option Ptr

/-- `OrderedCollectionDelete` up to its final validation. -/
def deleteUnchecked (h : Heap α) (root : Option Ptr) (node : Ptr) :
    Except Halt (DeleteResult α) := do
  let n ← h.deref (some node)
  let (s, colorOfUnlinked) ← unlink h root (some node) n
  let s := { s with heap := s.heap.free node }
  if colorOfUnlinked = .black then
    let s ← deleteLoop s.heap.live s
    let h ← paintChild s
    return { userStruct := n.userStruct, heap := h, root := s.newRoot }
  else return { userStruct := n.userStruct, heap := s.heap, root := s.newRoot }

/-! ### Validation -/

/-- `RedBlackTreeRecursiveCheck`; heights are `UINT32`. -/
def redBlackTreeRecursiveCheck (h : Heap α) : ℕ → Option Ptr → Except Halt ℕ
  | _, none => .ok 1
  | 0, some _ => .error .loop
  | fuel + 1, some p => do
    let n ← h.deref (some p)
    if n.color = .red then
      assertThat (← nodeIsNullOrBlack h n.left)
      assertThat (← nodeIsNullOrBlack h n.right)
    let leftHeight ← redBlackTreeRecursiveCheck h fuel n.left
    let rightHeight ← redBlackTreeRecursiveCheck h fuel n.right
    assertThat (leftHeight = rightHeight)
    return (RbTree.blackCount n.color + leftHeight) % 2 ^ 32

/-- One of the two loops of `RedBlackTreeValidate`: walk on from `last` and count. -/
def validateLoop (d : Side) (inOrder : α → α → Bool) (h : Heap α) :
    ℕ → Option Ptr → ℕ → Except Halt ℕ
  | 0, last, count => do
    let node ← neighbour d h last
    if node = none then return count else .error .loop
  | fuel + 1, last, count => do
    let node ← neighbour d h last
    if node = none then return count
    else
      let lastNode ← h.deref last
      let n ← h.deref node
      assertThat (inOrder lastNode.userStruct n.userStruct)
      validateLoop d inOrder h fuel node ((count + 1) % 2 ^ 32)

def redBlackTreeValidate (userStructCompare : α → α → ℤ) (h : Heap α) (root : Option Ptr) :
    Except Halt Unit := do
  assertThat (← nodeIsNullOrBlack h root)
  let _ ← redBlackTreeRecursiveCheck h h.live root
  let first ← orderedCollectionMin h root
  let forwardCount ← validateLoop .right (fun a b => userStructCompare a b < 0) h h.live first
    (if first = none then 0 else 1)
  let last ← orderedCollectionMax h root
  let backwardCount ← validateLoop .left (fun a b => userStructCompare a b > 0) h h.live last
    (if last = none then 0 else 1)
  assertThat (forwardCount = backwardCount)

/-- `OrderedCollectionInsert`; `validate` is `PcdValidateOrderedCollection`. -/
def orderedCollectionInsert (validate : Bool) (userStructCompare : α → α → ℤ)
    (allocatePool : Option Ptr) (h : Heap α) (root : Option Ptr) (userStruct : α) :
    Except Halt (InsertResult α) := do
  let r ← insertUnchecked userStructCompare allocatePool h root userStruct
  if validate then redBlackTreeValidate userStructCompare r.heap r.root
  return r

def orderedCollectionDelete (validate : Bool) (userStructCompare : α → α → ℤ) (h : Heap α)
    (root : Option Ptr) (node : Ptr) : Except Halt (DeleteResult α) := do
  let r ← deleteUnchecked h root node
  if validate then redBlackTreeValidate userStructCompare r.heap r.root
  return r

end Edk2.OrderedCollection
