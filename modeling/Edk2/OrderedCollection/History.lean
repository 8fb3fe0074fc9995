import Mathlib.Data.List.Nodup
import Mathlib.Data.List.Pairwise
import Mathlib.Data.Set.Basic
import Edk2.OrderedCollection.Delete

/-!
# Validation

`RedBlackTreeValidate` asserts the red-black condition and walks the tree in both directions. On
a collection every assertion of it holds, so the two operations halt nowhere with the validation
switched on.
-/

namespace Edk2.OrderedCollection

open RedBlack RedBlack.RbTree

variable {α : Type} {h : Heap α} {d : Side} {x y : Entry α} {t : RbTree (Entry α)}
  {root par : Option Ptr} {fuel n : ℕ} {l₁ l₂ : List (Entry α)}
  {userStructCompare : α → α → ℤ}

lemma exists_fill_of_walkList (hl : walkList d t = l₁ ++ x :: l₂) :
    ∃ ctx c near far, t = fill ctx (sided d c near x far) ∧
      l₂ = walkList d near ++ walkAfter d ctx := by
  cases d with
  | right =>
    obtain ⟨ctx, c, l, r, ht, -, h₂⟩ := exists_fill_of_toList (t := t) hl
    exact ⟨ctx, c, r, l, ht, h₂⟩
  | left =>
    have hl' : t.toList = l₂.reverse ++ x :: l₁.reverse := by
      grind [walkList]
    obtain ⟨ctx, c, l, r, ht, h₁, -⟩ := exists_fill_of_toList hl'
    refine ⟨ctx, c, l, r, ht, ?_⟩
    grind [walkList, walkAfter]

lemma neighbour_walkList (hh : Holds h root t) (hlive : t.toList.length ≤ h.live)
    (hl : walkList d t = l₁ ++ x :: l₂) :
    neighbour d h (some x.1) = .ok (l₂.head?.map Prod.fst) := by
  obtain ⟨ctx, c, near, far, rfl, rfl⟩ := exists_fill_of_walkList hl
  exact neighbour_spec hh hlive

lemma length_walkList : (walkList d t).length = t.toList.length := by
  cases d <;> simp [walkList]

lemma mem_walkList : x ∈ walkList d t ↔ x ∈ t.toList := by
  cases d <;> simp [walkList]

/-- `OrderedCollectionMin` and `OrderedCollectionMax`: where a walk towards `d` starts. -/
def firstOf (d : Side) (h : Heap α) (root : Option Ptr) : Except Halt (Option Ptr) :=
  match d with
  | .right => orderedCollectionMin h root
  | .left => orderedCollectionMax h root

lemma firstOf_spec (hh : Holds h root t) (hlive : t.toList.length ≤ h.live) :
    firstOf d h root = .ok ((walkList d t).head?.map Prod.fst) := by
  have hrun : firstOf d h root =
      if root = none then .ok none else extreme d.other h h.live root := by
    cases d <;> rfl
  rw [hrun, hh.root_eq]
  by_cases hnil : t = .nil
  · subst hnil
    cases d <;> rfl
  · have hptr : ptr t ≠ none := fun hnone => hnil (ptr_eq_none.mp hnone)
    obtain ⟨y, hy, hext⟩ := extreme_spec (d := d.other) hh.rep hnil hlive
    rw [Side.other_other] at hy
    rw [if_neg hptr, hext, Option.mem_def.mp hy]
    rfl

lemma redBlackTreeRecursiveCheck_spec (hrep : Rep h t par) (ht : Balanced t n)
    (hfuel : t.toList.length ≤ fuel) :
    redBlackTreeRecursiveCheck h fuel (ptr t) = .ok ((n + 1) % 2 ^ 32) := by
  induction t generalizing par n fuel with
  | nil =>
    obtain rfl : n = 0 := ht
    cases fuel <;> rfl
  | node c l x r ihl ihr =>
    obtain ⟨hx, hl, hr⟩ := hrep
    simp only [toList, List.length_append, List.length_cons] at hfuel
    obtain ⟨fuel, rfl⟩ : ∃ m, fuel = m + 1 := Nat.exists_eq_add_one_of_ne_zero (by omega)
    have hlenl : l.toList.length ≤ fuel := by omega
    have hlenr : r.toList.length ≤ fuel := by omega
    cases c with
    | red =>
      obtain ⟨hlc, hrc, hbl, hbr⟩ := ht
      simp only [redBlackTreeRecursiveCheck, ptr_node, Heap.deref_some hx, bind, Except.bind,
        nodeIsNullOrBlack_ptr hl, nodeIsNullOrBlack_ptr hr, hlc, hrc, decide_true, assertThat,
        if_true, ihl hl hbl hlenl, ihr hr hbr hlenr, pure, Except.pure, blackCount, Nat.zero_add,
        Nat.mod_mod]
    | black =>
      obtain ⟨m, rfl, hbl, hbr⟩ := ht
      have hsum : (1 + (m + 1) % 2 ^ 32) % 2 ^ 32 = (m + 1 + 1) % 2 ^ 32 := by
        rw [Nat.add_mod_mod, Nat.add_comm]
      simp only [redBlackTreeRecursiveCheck, ptr_node, Heap.deref_some hx, bind, Except.bind,
        reduceCtorEq, if_false, assertThat, decide_true, if_true, ihl hl hbl hlenl,
        ihr hr hbr hlenr, pure, Except.pure, blackCount, hsum]

lemma validateLoop_spec {inOrder : α → α → Bool} (hh : Holds h root t)
    (hlive : t.toList.length ≤ h.live) (hl : walkList d t = l₁ ++ x :: l₂)
    (hord : (x :: l₂).Pairwise fun y z => inOrder y.2 z.2) (hfuel : l₂.length ≤ fuel) :
    validateLoop d inOrder h fuel (some x.1) (n % 2 ^ 32) = .ok ((n + l₂.length) % 2 ^ 32) := by
  induction l₂ generalizing l₁ x n fuel with
  | nil =>
    have hnext := neighbour_walkList hh hlive hl
    cases fuel <;> simp [validateLoop, hnext, bind, Except.bind, pure, Except.pure]
  | cons y l₂ ih =>
    obtain ⟨fuel, rfl⟩ : ∃ m, fuel = m + 1 :=
      Nat.exists_eq_add_one_of_ne_zero (by simp only [List.length_cons] at hfuel; omega)
    have hnext := neighbour_walkList hh hlive hl
    have hmem : ∀ z ∈ x :: y :: l₂, z ∈ t.toList := by
      intro z hz
      rw [← mem_walkList (d := d), hl]
      exact List.mem_append_right _ hz
    obtain ⟨nx, hx, hux⟩ := hh.rep.cell_of_mem (hmem x List.mem_cons_self)
    obtain ⟨ny, hy, huy⟩ := hh.rep.cell_of_mem (hmem y (List.mem_cons_of_mem _ List.mem_cons_self))
    obtain ⟨hxy, hord'⟩ := List.pairwise_cons.mp hord
    have hlt : inOrder nx.userStruct ny.userStruct = true := by
      rw [hux, huy]
      exact hxy y List.mem_cons_self
    have hl' : walkList d t = (l₁ ++ [x]) ++ y :: l₂ := by
      rw [hl]
      simp
    have hrec := ih (n := n + 1) hl' hord' (by simpa using hfuel : l₂.length ≤ fuel)
    have hcnt : (n % 2 ^ 32 + 1) % 2 ^ 32 = (n + 1) % 2 ^ 32 := Nat.mod_add_mod _ _ _
    simp only [validateLoop, hnext, List.head?_cons, Option.map_some, bind, Except.bind,
      reduceCtorEq, if_false, Heap.deref_some hx, Heap.deref_some hy, assertThat, hlt, if_true,
      hcnt, hrec, List.length_cons]
    congr 2
    omega

lemma validateLoop_first (inOrder : α → α → Bool) (hh : Holds h root t)
    (hlive : t.toList.length ≤ h.live)
    (hord : (walkList d t).Pairwise fun y z => inOrder y.2 z.2) :
    validateLoop d inOrder h h.live ((walkList d t).head?.map Prod.fst)
      (if (walkList d t).head?.map Prod.fst = none then 0 else 1) =
        .ok (t.toList.length % 2 ^ 32) := by
  cases hwalk : walkList d t with
  | nil =>
    have hnil : t = .nil := walkList_eq_nil.mp hwalk
    subst hnil
    cases hliv' : h.live <;>
      simp [validateLoop, neighbour, bind, Except.bind, pure, Except.pure]
  | cons x l =>
    rw [hwalk] at hord
    have hlen : l.length + 1 = t.toList.length := by
      rw [← length_walkList (d := d), hwalk, List.length_cons]
    have hwal' : walkList d t = [] ++ x :: l := hwalk
    have hspec := validateLoop_spec (n := 1) hh hlive hwal' hord (by omega : l.length ≤ h.live)
    rw [show (1 : ℕ) % 2 ^ 32 = 1 from rfl] at hspec
    simp only [List.head?_cons, Option.map_some, reduceCtorEq, if_false, hspec]
    rw [← hlen, Nat.add_comm]

lemma redBlackTreeValidate_ok (hc : IsComparator userStructCompare)
    (hcol : Collection userStructCompare h root t) :
    redBlackTreeValidate userStructCompare h root = .ok () := by
  obtain ⟨hh, ⟨hbla, n, hbal⟩, hsort, hlive⟩ := hcol
  have hroot := nodeIsNullOrBlack_ptr hh.rep
  have hche := redBlackTreeRecursiveCheck_spec hh.rep hbal hlive
  rw [← hh.root_eq] at hroot hche
  have hfwd := validateLoop_first (d := .right) (fun a b => userStructCompare a b < 0) hh hlive
    (hsort.imp decide_eq_true)
  have hbwd := validateLoop_first (d := .left) (fun a b => userStructCompare a b > 0) hh hlive (by
    simp only [walkList, List.pairwise_reverse, decide_eq_true_eq]
    exact hsort.imp fun hlt => (hc.antisymm _ _).mp hlt)
  have hmin : orderedCollectionMin h root = _ := firstOf_spec (d := .right) hh hlive
  have hmax : orderedCollectionMax h root = _ := firstOf_spec (d := .left) hh hlive
  simp only [redBlackTreeValidate, hroot, hbla, bind, Except.bind, assertThat, decide_true,
    if_true, hche, hmin, hfwd, hmax, hbwd]

end Edk2.OrderedCollection

/-!
## Histories of a collection

What a collection is for: a finite ordered set of user structures, each with a node that denotes
it for as long as it is present. The abstract state is the set of the structures with their
nodes; it changes by what the operations report. Every history of insertions and deletions keeps
the heap a red-black tree of exactly these nodes, and the operations act on it as on the set.
-/

namespace Edk2.OrderedCollection

open RedBlack RedBlack.RbTree

variable {α κ : Type} {validate : Bool} {userStructCompare : α → α → ℤ} {S : Set (Entry α)}
  {h : Heap α} {root : Option Ptr} {t : RbTree (Entry α)} {d : Side} {x : Entry α} {u : α} {p : Ptr}
  {l₁ l₂ : List (Entry α)}

def orderedCollectionUserStruct (h : Heap α) (node : Option Ptr) : Except Halt α := do
  let n ← h.deref node
  return n.userStruct

lemma orderedCollectionInsert_spec (validate : Bool) (hc : IsComparator userStructCompare)
    (hcol : Collection userStructCompare h root t) {allocatePool : Option Ptr}
    (hfre : ∀ p ∈ allocatePool, h.cell p = none) (u : α) :
    ∃ r, orderedCollectionInsert validate userStructCompare allocatePool h root u = .ok r ∧
      InsertSpec userStructCompare allocatePool h root t u r := by
  obtain ⟨r, hrun, hspec⟩ := insertUnchecked_spec hc hcol hfre u
  obtain ⟨w, hw⟩ : ∃ w, Collection userStructCompare r.heap r.root w := by
    cases hspec with
    | collision hx heq => exact ⟨t, hcol⟩
    | noMemory hnone hdiff => exact ⟨t, hcol⟩
    | success hsome hdiff hw => exact ⟨_, hw⟩
  refine ⟨r, ?_, hspec⟩
  simp [orderedCollectionInsert, hrun, redBlackTreeValidate_ok hc hw, bind, Except.bind, pure,
    Except.pure]

lemma orderedCollectionDelete_spec (validate : Bool) (hc : IsComparator userStructCompare)
    (hcol : Collection userStructCompare h root t) (hl : walkList d t = l₁ ++ (p, u) :: l₂) :
    ∃ h' root' w, orderedCollectionDelete validate userStructCompare h root p = .ok ⟨u, h', root'⟩ ∧
      Collection userStructCompare h' root' w ∧ walkList d w = l₁ ++ l₂ ∧ h'.cell p = none := by
  have hlist : ∃ m₁ m₂, t.toList = m₁ ++ (p, u) :: m₂ ∧
      ∀ w : RbTree (Entry α), w.toList = m₁ ++ m₂ → walkList d w = l₁ ++ l₂ := by
    cases d with
    | right => exact ⟨l₁, l₂, hl, fun w hw => hw⟩
    | left =>
      refine ⟨l₂.reverse, l₁.reverse, ?_, fun w hw => ?_⟩
      · grind [walkList]
      · simp [walkList, hw]
  obtain ⟨m₁, m₂, hm, hback⟩ := hlist
  obtain ⟨h', root', w, hrun, hw, hwl, hfree, -⟩ := deleteUnchecked_spec hcol hm
  refine ⟨h', root', w, ?_, hw, hback w hwl, hfree⟩
  simp [orderedCollectionDelete, hrun, redBlackTreeValidate_ok hc hw, bind, Except.bind, pure,
    Except.pure]

/-! ### Histories -/

/-- The set after an insertion that has returned `r`. -/
def inserted (S : Set (Entry α)) (u : α) (r : InsertResult α) : Set (Entry α) :=
  {x | x ∈ S ∨ r.status = .success ∧ r.node = some x.1 ∧ x.2 = u}

/-- The set after the deletion of the node `p`. -/
def deleted (S : Set (Entry α)) (p : Ptr) : Set (Entry α) := {x | x ∈ S ∧ x.1 ≠ p}

/-- The histories of a collection: `OrderedCollectionInit` leaves the root `NULL`, `AllocatePool`
returns memory that is not in use, and only nodes that are present may be deleted. -/
inductive History (validate : Bool) (userStructCompare : α → α → ℤ) :
    Set (Entry α) → Heap α → Option Ptr → Prop
  | init (h : Heap α) : History validate userStructCompare ∅ h none
  | insert {S : Set (Entry α)} {h : Heap α} {root : Option Ptr} {allocatePool : Option Ptr}
      {u : α} {r : InsertResult α} : History validate userStructCompare S h root →
      (∀ p ∈ allocatePool, h.cell p = none) →
      orderedCollectionInsert validate userStructCompare allocatePool h root u = .ok r →
      History validate userStructCompare (inserted S u r) r.heap r.root
  | delete {S : Set (Entry α)} {h : Heap α} {root : Option Ptr} {x : Entry α}
      {r : DeleteResult α} : History validate userStructCompare S h root → x ∈ S →
      orderedCollectionDelete validate userStructCompare h root x.1 = .ok r →
      History validate userStructCompare (deleted S x.1) r.heap r.root

/-- The heap holds a collection whose nodes are exactly those of the set. -/
def Refines (userStructCompare : α → α → ℤ) (S : Set (Entry α)) (h : Heap α)
    (root : Option Ptr) (t : RbTree (Entry α)) : Prop :=
  Collection userStructCompare h root t ∧ ∀ x, x ∈ S ↔ x ∈ t.toList

lemma Refines.exists_walkList (href : Refines userStructCompare S h root t) (hx : x ∈ S)
    (d : Side) : ∃ l₁ l₂, walkList d t = l₁ ++ x :: l₂ :=
  List.append_of_mem (mem_walkList.mpr ((href.2 x).mp hx))

lemma Refines.eq_of_ptr (href : Refines userStructCompare S h root t) {y : Entry α} (hx : x ∈ S)
    (hy : y ∈ S) (heq : x.1 = y.1) : x = y :=
  List.inj_on_of_nodup_map href.1.holds.nodup ((href.2 x).mp hx) ((href.2 y).mp hy) heq

lemma Refines.insert (href : Refines userStructCompare S h root t) {allocatePool : Option Ptr}
    {r : InsertResult α} (hspec : InsertSpec userStructCompare allocatePool h root t u r) :
    ∃ w, Refines userStructCompare (inserted S u r) r.heap r.root w := by
  cases hspec with
  | collision hx heq =>
    refine ⟨t, href.1, fun x => ?_⟩
    rw [← href.2 x]
    simp [inserted]
  | noMemory hnone hdiff =>
    refine ⟨t, href.1, fun x => ?_⟩
    rw [← href.2 x]
    simp [inserted]
  | @success p h' root' w l₁ l₂ hsome hdiff hw hl hwl =>
    refine ⟨w, hw, fun x => ?_⟩
    have hset : x ∈ inserted S u ⟨.success, some p, h', root'⟩ ↔ x ∈ S ∨ x = (p, u) := by
      simp only [inserted, Set.mem_ofPred_eq, true_and, Option.some.injEq, Prod.ext_iff, eq_comm]
    rw [hset, href.2 x, hl, hwl]
    simp only [List.mem_append, List.mem_cons]
    tauto

lemma Refines.delete (href : Refines userStructCompare S h root t) {w : RbTree (Entry α)}
    {h' : Heap α} {root' : Option Ptr} (hl : walkList d t = l₁ ++ x :: l₂)
    (hw : Collection userStructCompare h' root' w) (hwl : walkList d w = l₁ ++ l₂) :
    Refines userStructCompare (deleted S x.1) h' root' w := by
  refine ⟨hw, fun y => ?_⟩
  have hmem : ∀ y, y ∈ S ↔ y ∈ l₁ ++ x :: l₂ := by
    intro y
    rw [href.2 y, ← hl, mem_walkList]
  have hnd : (l₁ ++ x :: l₂).Nodup := by
    rw [← hl]
    have := List.Nodup.of_map _ href.1.holds.nodup
    cases d <;> simpa [walkList] using this
  have hx : x ∉ l₁ ++ l₂ := (List.nodup_cons.mp (List.perm_middle.nodup_iff.mp hnd)).1
  rw [← mem_walkList (d := d), hwl]
  constructor
  · rintro ⟨hy, hne⟩
    grind
  · intro hy
    have hyS : y ∈ S := by
      grind
    refine ⟨hyS, fun heq => hx ?_⟩
    have hxS : x ∈ S := (hmem x).mpr (by simp)
    exact href.eq_of_ptr hyS hxS heq ▸ hy

lemma History.refines (hc : IsComparator userStructCompare)
    (hist : History validate userStructCompare S h root) :
    ∃ t, Refines userStructCompare S h root t := by
  induction hist with
  | init h =>
    refine ⟨.nil, ⟨⟨trivial, by simp, rfl⟩, ⟨rfl, 0, rfl⟩, List.Pairwise.nil, Nat.zero_le _⟩, ?_⟩
    simp
  | insert _ hfre hrun ih =>
    obtain ⟨t, href⟩ := ih
    obtain ⟨r, hrun', hspec⟩ := orderedCollectionInsert_spec validate hc href.1 hfre _
    rw [hrun] at hrun'
    cases hrun'
    exact href.insert hspec
  | delete _ hx hrun ih =>
    obtain ⟨t, href⟩ := ih
    obtain ⟨l₁, l₂, hl⟩ := href.exists_walkList hx .right
    obtain ⟨h', root', w, hrun', hw, hwl, -⟩ := orderedCollectionDelete_spec validate hc href.1 hl
    rw [hrun] at hrun'
    cases hrun'
    exact ⟨w, href.delete hl hw hwl⟩

/-- At every point of a history the heap holds a red-black tree of the structures that are
present, linked in both directions and ordered by the comparator, and no insertion or deletion
stops at an assertion, at a bad pointer or in an endless loop. -/
theorem history_redBlack (hc : IsComparator userStructCompare)
    (hist : History validate userStructCompare S h root) :
    (∃ t, Holds h root t ∧ IsRedBlack t ∧ Sorted userStructCompare t.toList ∧
      ∀ x, x ∈ S ↔ x ∈ t.toList) ∧
    (∀ (allocatePool : Option Ptr) (u : α), (∀ p ∈ allocatePool, h.cell p = none) →
      ∃ r, orderedCollectionInsert validate userStructCompare allocatePool h root u = .ok r) ∧
    ∀ x ∈ S, ∃ r, orderedCollectionDelete validate userStructCompare h root x.1 = .ok r := by
  obtain ⟨t, href⟩ := hist.refines hc
  refine ⟨⟨t, href.1.holds, href.1.redBlack, href.1.sorted, href.2⟩, ?_, ?_⟩
  · intro allocatePool u hfresh
    obtain ⟨r, hrun, -⟩ := orderedCollectionInsert_spec validate hc href.1 hfresh u
    exact ⟨r, hrun⟩
  · intro x hx
    obtain ⟨l₁, l₂, hl⟩ := href.exists_walkList hx .right
    obtain ⟨h', root', w, hrun, -⟩ := orderedCollectionDelete_spec validate hc href.1 hl
    exact ⟨_, hrun⟩

lemma isComparator_sub : IsComparator (fun a b : ℤ => a - b) where
  antisymm a b := by omega
  trans a b c := by omega

/-- An empty heap. -/
def emptyHeap : Heap ℤ := ⟨fun _ => none, 0⟩

/-- After the insertions of 5 and 3 with the validation switched on: the tree is not empty and
the deletion of 5 succeeds. -/
theorem history_redBlack_two :
    ∃ r r' r'', orderedCollectionInsert true (fun a b : ℤ => a - b) (some 1) emptyHeap none 5 =
        .ok r ∧
      orderedCollectionInsert true (fun a b : ℤ => a - b) (some 2) r.heap r.root 3 = .ok r' ∧
      orderedCollectionDelete true (fun a b : ℤ => a - b) r'.heap r'.root 1 = .ok r'' ∧
      ∃ t, Holds r'.heap r'.root t ∧ IsRedBlack t ∧ Sorted (fun a b : ℤ => a - b) t.toList ∧
        (1, 5) ∈ t.toList := by
  obtain ⟨r, hr⟩ := (history_redBlack isComparator_sub
    (.init emptyHeap : History true _ _ _ _)).2.1 (some 1) 5 (by simp [emptyHeap])
  have hist := History.insert (.init emptyHeap) (by simp [emptyHeap]) hr
  have hstatus : r.status = .success ∧ r.node = some 1 ∧ r.heap.cell 2 = none := by
    have hval : orderedCollectionInsert true (fun a b : ℤ => a - b) (some 1) emptyHeap none 5 =
        .ok ⟨.success, some 1, emptyHeap.allocate 1 ⟨5, none, none, none, .black⟩, some 1⟩ := rfl
    rw [hval] at hr
    cases hr
    exact ⟨rfl, rfl, rfl⟩
  obtain ⟨r', hr'⟩ := (history_redBlack isComparator_sub hist).2.1 (some 2) 3
    (by simpa using hstatus.2.2)
  have hist' := History.insert hist (by simpa using hstatus.2.2) hr'
  have hmem : ((1, 5) : Entry ℤ) ∈ inserted (inserted ∅ 5 r) 3 r' :=
    .inl (.inr ⟨hstatus.1, hstatus.2.1, rfl⟩)
  obtain ⟨⟨t, hh, hrb, hsort, hset⟩, -, hdel⟩ := history_redBlack isComparator_sub hist'
  grind

/-! ### The set -/

/-- A caller's loop over the nodes in the direction of `d`: it visits each node, fetches the
successor, and then deletes the node if `del` selects it. -/
def iterate (validate : Bool) (userStructCompare : α → α → ℤ) (d : Side) (del : Entry α → Bool) :
    ℕ → Heap α → Option Ptr → Option Ptr → Except Halt (List (Entry α) × Heap α × Option Ptr)
  | _, h, root, none => .ok ([], h, root)
  | 0, _, _, some _ => .error .loop
  | fuel + 1, h, root, some p => do
    let userStruct ← orderedCollectionUserStruct h (some p)
    let next ← neighbour d h (some p)
    if del (p, userStruct) then
      let r ← orderedCollectionDelete validate userStructCompare h root p
      let (rest, h, root) ← iterate validate userStructCompare d del fuel r.heap r.root next
      return ((p, userStruct) :: rest, h, root)
    else
      let (rest, h, root) ← iterate validate userStructCompare d del fuel h root next
      return ((p, userStruct) :: rest, h, root)

/-- Ascending towards the right, descending towards the left. -/
def InDirection (userStructCompare : α → α → ℤ) : Side → α → α → Prop
  | .right, a, b => userStructCompare a b < 0
  | .left, a, b => userStructCompare b a < 0

/-- The operations on the heap are those of the ordered set `S`. -/
structure ActsAsSet (validate : Bool) (userStructCompare : α → α → ℤ) (S : Set (Entry α))
    (h : Heap α) (root : Option Ptr) : Prop where
  /-- Each node denotes its structure. -/
  denotes : ∀ x ∈ S, orderedCollectionUserStruct h (some x.1) = .ok x.2
  /-- `OrderedCollectionFind` finds the structure that compares equal to the key, if there is
  one. -/
  find : ∀ {κ : Type} (keyCompare : κ → α → ℤ) (key : κ),
    Cut userStructCompare (keyCompare key) →
    ∃ found, orderedCollectionFind keyCompare h root key = .ok found ∧
      ∀ p, found = some p ↔ ∃ u, (p, u) ∈ S ∧ keyCompare key u = 0
  /-- A colliding insertion reports the node in its way and changes nothing. -/
  collision : ∀ (allocatePool : Option Ptr) (u : α), (∀ p ∈ allocatePool, h.cell p = none) →
    ∀ x ∈ S, userStructCompare u x.2 = 0 →
      orderedCollectionInsert validate userStructCompare allocatePool h root u =
        .ok ⟨.alreadyStarted, some x.1, h, root⟩
  /-- Any other insertion adds the structure, unless it gets no memory. -/
  insert : ∀ (allocatePool : Option Ptr) (u : α), (∀ p ∈ allocatePool, h.cell p = none) →
    (∀ x ∈ S, userStructCompare u x.2 ≠ 0) →
    (allocatePool = none → orderedCollectionInsert validate userStructCompare allocatePool h root u =
      .ok ⟨.outOfResources, none, h, root⟩) ∧
    ∀ p, allocatePool = some p → ∃ h' root',
      orderedCollectionInsert validate userStructCompare allocatePool h root u =
        .ok ⟨.success, some p, h', root'⟩ ∧
      History validate userStructCompare {x | x ∈ S ∨ x = (p, u)} h' root' ∧
      ∀ x ∈ S, orderedCollectionUserStruct h' (some x.1) = .ok x.2
  /-- A deletion removes the node; every other node denotes what it did. -/
  delete : ∀ x ∈ S, ∃ h' root',
    orderedCollectionDelete validate userStructCompare h root x.1 = .ok ⟨x.2, h', root'⟩ ∧
    History validate userStructCompare (deleted S x.1) h' root' ∧ h'.cell x.1 = none ∧
    ∀ y ∈ S, y.1 ≠ x.1 → orderedCollectionUserStruct h' (some y.1) = .ok y.2
  /-- From the minimum by `OrderedCollectionNext`, or from the maximum by
  `OrderedCollectionPrev`, every structure is visited once and in order, whatever nodes are
  deleted after their successor has been fetched. -/
  visit : ∀ (d : Side) (del : Entry α → Bool), ∃ l : List (Entry α),
    (∀ x, x ∈ l ↔ x ∈ S) ∧ l.Nodup ∧
    (l.Pairwise fun x y => InDirection userStructCompare d x.2 y.2) ∧
    ∃ first, firstOf d h root = .ok first ∧ ∀ fuel, l.length ≤ fuel → ∃ h' root',
      iterate validate userStructCompare d del fuel h root first = .ok (l, h', root') ∧
      History validate userStructCompare {x | x ∈ S ∧ del x = false} h' root'

lemma Refines.denotes (href : Refines userStructCompare S h root t) (hx : x ∈ S) :
    orderedCollectionUserStruct h (some x.1) = .ok x.2 := by
  obtain ⟨n, hn, hu⟩ := href.1.holds.rep.cell_of_mem ((href.2 x).mp hx)
  simp only [orderedCollectionUserStruct, Heap.deref_some hn, bind, Except.bind, hu, pure,
    Except.pure]

lemma Sorted.lt_or_lt {l : List (Entry α)} (hl : Sorted userStructCompare l) {y z : Entry α}
    (hy : y ∈ l) (hz : z ∈ l) (hne : y ≠ z) :
    userStructCompare y.2 z.2 < 0 ∨ userStructCompare z.2 y.2 < 0 := by
  have hpair : l.Pairwise fun y z : Entry α =>
      userStructCompare y.2 z.2 < 0 ∨ userStructCompare z.2 y.2 < 0 := hl.imp Or.inl
  have hsymm : Std.Symm fun y z : Entry α =>
      userStructCompare y.2 z.2 < 0 ∨ userStructCompare z.2 y.2 < 0 := ⟨fun _ _ => Or.symm⟩
  exact hpair.forall hy hz hne

lemma Refines.find (href : Refines userStructCompare S h root t) (keyCompare : κ → α → ℤ)
    (key : κ) (hcut : Cut userStructCompare (keyCompare key)) :
    ∃ found, orderedCollectionFind keyCompare h root key = .ok found ∧
      ∀ p, found = some p ↔ ∃ u, (p, u) ∈ S ∧ keyCompare key u = 0 := by
  have hrep : Rep h (fill [] t) none := href.1.holds.rep
  have hnil : Descends (keyCompare key) ([] : List (Frame (Entry α))) := by
    simp [Descends]
  -- two structures that compare equal to the key cannot both be present
  have huniq : ∀ y ∈ t.toList, ∀ z ∈ t.toList, keyCompare key y.2 = 0 → keyCompare key z.2 = 0 →
      y = z := by
    intro y hy z hz hky hkz
    by_contra hne
    rcases href.1.sorted.lt_or_lt hy hz hne with hlt | hlt
    · exact absurd (hcut _ _ hlt (le_of_eq hky)) (by omega)
    · exact absurd (hcut _ _ hlt (le_of_eq hkz)) (by omega)
  rcases findLoop_spec hrep href.1.live hnil with ⟨y, hy, heq, hrun⟩ | ⟨ctx, hfill, hd, hrun⟩
  · refine ⟨some y.1, ?_, fun p => ?_⟩
    · rw [orderedCollectionFind, href.1.holds.root_eq]
      exact hrun
    · constructor
      · intro hp
        cases hp
        exact ⟨y.2, (href.2 _).mpr hy, heq⟩
      · rintro ⟨u, hmem, hu⟩
        rw [huniq y hy _ ((href.2 _).mp hmem) heq hu]
  · refine ⟨none, ?_, fun p => ?_⟩
    · rw [orderedCollectionFind, href.1.holds.root_eq]
      exact hrun
    · constructor
      · intro hp
        cases hp
      · rintro ⟨u, hmem, hu⟩
        rw [fill_nil] at hfill
        have hsort := href.1.sorted
        rw [← hfill] at hsort
        obtain ⟨hbef, haft⟩ := hd.separates hcut hsort
        have hlist := (href.2 _).mp hmem
        grind [toList_fill, toList_nil]

lemma Refines.iterate (del : Entry α → Bool) (hc : IsComparator userStructCompare) {fuel : ℕ}
    (hist : History validate userStructCompare S h root)
    (href : Refines userStructCompare S h root t) (hl : walkList d t = l₁ ++ l₂)
    (hfuel : l₂.length ≤ fuel) :
    ∃ h' root', iterate validate userStructCompare d del fuel h root (l₂.head?.map Prod.fst) =
        .ok (l₂, h', root') ∧
      History validate userStructCompare {x | x ∈ S ∧ ¬ (x ∈ l₂ ∧ del x = true)} h' root' := by
  induction l₂ generalizing S h root t l₁ fuel with
  | nil =>
    refine ⟨h, root, by cases fuel <;> rfl, ?_⟩
    simpa using hist
  | cons x l₂ ih =>
    obtain ⟨fuel, rfl⟩ : ∃ m, fuel = m + 1 :=
      Nat.exists_eq_add_one_of_ne_zero (by simp only [List.length_cons] at hfuel; omega)
    have hlen : l₂.length ≤ fuel := by simpa using hfuel
    have hx : x ∈ S := by
      rw [href.2, ← mem_walkList (d := d), hl]
      simp
    have huser := href.denotes hx
    have hnext := neighbour_walkList href.1.holds href.1.live hl
    cases hdel : del x with
    | true =>
      obtain ⟨h₁, root₁, w, hrun, hw, hwl, -⟩ := orderedCollectionDelete_spec validate hc href.1 hl
      obtain ⟨h', root', hiter, hist'⟩ := ih (.delete hist hx hrun) (href.delete hl hw hwl) hwl hlen
      refine ⟨h', root', ?_, ?_⟩
      · simp only [OrderedCollection.iterate, List.head?_cons, Option.map_some, huser, hnext, bind,
          Except.bind, hdel, if_true, hrun, hiter, pure, Except.pure]
      · convert hist' using 1
        ext y
        simp only [deleted, Set.mem_ofPred_eq, List.mem_cons]
        constructor
        · rintro ⟨hy, hkeep⟩
          refine ⟨⟨hy, fun heq => hkeep ?_⟩, fun hdy => hkeep ⟨.inr hdy.1, hdy.2⟩⟩
          rw [href.eq_of_ptr hy hx heq]
          exact ⟨.inl rfl, hdel⟩
        grind
    | false =>
      have hl' : walkList d t = (l₁ ++ [x]) ++ l₂ := by
        rw [hl]
        simp
      obtain ⟨h', root', hiter, hist'⟩ := ih hist href hl' hlen
      refine ⟨h', root', ?_, ?_⟩
      · simp only [OrderedCollection.iterate, List.head?_cons, Option.map_some, huser, hnext, bind,
          Except.bind, hdel, Bool.false_eq_true, if_false, hiter, pure, Except.pure]
      grind

lemma Refines.inDirection (href : Refines userStructCompare S h root t) (d : Side) :
    (walkList d t).Pairwise fun x y => InDirection userStructCompare d x.2 y.2 := by
  cases d with
  | right => exact href.1.sorted
  | left => exact List.pairwise_reverse.mpr href.1.sorted

/-- A collection acts as the ordered set of the structures that its history has left in it. -/
theorem history_actsAsSet (hc : IsComparator userStructCompare)
    (hist : History validate userStructCompare S h root) :
    ActsAsSet validate userStructCompare S h root := by
  obtain ⟨t, href⟩ := hist.refines hc
  refine ⟨fun x hx => href.denotes hx, fun keyCompare key => href.find keyCompare key, ?_, ?_, ?_, ?_⟩
  · intro allocatePool u hfresh x hx heq
    obtain ⟨r, hrun, hspec⟩ := orderedCollectionInsert_spec validate hc href.1 hfresh u
    rw [hrun]
    cases hspec with
    | @collision y hy heq' =>
      -- the node in the way is the only one that compares equal
      obtain ⟨found, -, hfound⟩ := href.find userStructCompare u (hc.cut u)
      have hfx := (hfound x.1).mpr ⟨x.2, hx, heq⟩
      have hfy := (hfound y.1).mpr ⟨y.2, (href.2 y).mpr hy, heq'⟩
      rw [← hfx, hfy]
    | noMemory hnone hdiff => exact absurd heq (hdiff x ((href.2 x).mp hx))
    | success hsome hdiff => exact absurd heq (hdiff x ((href.2 x).mp hx))
  · intro allocatePool u hfresh hdiff
    obtain ⟨r, hrun, hspec⟩ := orderedCollectionInsert_spec validate hc href.1 hfresh u
    have hist' := History.insert hist hfresh hrun
    obtain ⟨w, href'⟩ := href.insert hspec
    rw [hrun]
    cases hspec with
    | @collision y hy heq => exact absurd heq (hdiff y ((href.2 y).mpr hy))
    | noMemory hnone _ =>
      simp [hnone]
    | @success p h' root' w' l₁ l₂ hsome _ hw hl hwl hout =>
      rw [hsome]
      refine ⟨nofun, fun q hq => ?_⟩
      cases hq
      have hset : inserted S u ⟨.success, some p, h', root'⟩ = {x | x ∈ S ∨ x = (p, u)} := by
        ext y
        simp only [inserted, Set.mem_ofPred_eq, true_and, Option.some.injEq, Prod.ext_iff, eq_comm]
      rw [hset] at hist'
      exact ⟨h', root', rfl, hist', fun y hy => href'.denotes (.inl hy)⟩
  · intro x hx
    obtain ⟨l₁, l₂, hl⟩ := href.exists_walkList hx .right
    obtain ⟨h', root', w, hrun, hw, hwl, hfree⟩ := orderedCollectionDelete_spec
      validate hc href.1 hl
    have href' := href.delete hl hw hwl
    exact ⟨h', root', hrun, .delete hist hx hrun, hfree, fun y hy hne => href'.denotes ⟨hy, hne⟩⟩
  · intro d del
    have hset : ∀ x, x ∈ walkList d t ↔ x ∈ S := fun x => by rw [mem_walkList, href.2 x]
    have hnd : (walkList d t).Nodup := by
      have := List.Nodup.of_map _ href.1.holds.nodup
      cases d <;> simpa [walkList] using this
    refine ⟨walkList d t, hset, hnd, href.inDirection d, _, firstOf_spec href.1.holds href.1.live,
      fun fuel hfuel => ?_⟩
    obtain ⟨h', root', hiter, hist'⟩ := href.iterate del hc hist (List.nil_append _).symm
      hfuel
    grind

/-- The collection after the insertion of 5. -/
theorem history_actsAsSet_one :
    IsComparator (fun a b : ℤ => a - b) ∧
      ActsAsSet true (fun a b : ℤ => a - b)
        (inserted ∅ 5 ⟨.success, some 1, emptyHeap.allocate 1 ⟨5, none, none, none, .black⟩, some 1⟩)
        (emptyHeap.allocate 1 ⟨5, none, none, none, .black⟩) (some 1) := by
  refine ⟨isComparator_sub, history_actsAsSet isComparator_sub ?_⟩
  have hfresh : ∀ p ∈ some 1, emptyHeap.cell p = none := fun _ _ => rfl
  exact History.insert (.init emptyHeap) hfresh
    (rfl : orderedCollectionInsert true _ (some 1) emptyHeap none 5 = _)

/-- Among `n` structures the search for a key makes at most `2 * log2 (n + 1)` comparisons, whatever
they answer. -/
theorem find_logarithmic {κ : Type} {l : List (Entry α)} (hc : IsComparator userStructCompare)
    (hist : History validate userStructCompare S h root) (hnd : l.Nodup)
    (hl : ∀ x, x ∈ l ↔ x ∈ S) (keyCompare : κ → α → ℤ) (key : κ) :
    ∃ node, orderedCollectionFind keyCompare h root key = .ok node ∧
      findLoop keyCompare key h (2 * Nat.log2 (l.length + 1)) root = .ok node := by
  obtain ⟨t, ⟨hh, hrb, -, hlive⟩, hS⟩ := hist.refines hc
  have hperm : l.Perm t.toList :=
    (List.perm_ext_iff_of_nodup hnd (List.Nodup.of_map _ hh.nodup)).mpr fun x =>
      (hl x).trans (hS x)
  obtain ⟨node, hnode⟩ := findLoop_height keyCompare key hh.rep
  rw [hperm.length_eq, orderedCollectionFind, hh.root_eq]
  exact ⟨node, hnode _ (t.height_le_length.trans hlive), hnode _ hrb.height_le⟩

theorem find_logarithmic_one : ∃ node,
    orderedCollectionFind (fun a b : ℤ => a - b)
        (emptyHeap.allocate 1 ⟨5, none, none, none, .black⟩) (some 1) 3 = .ok node ∧
      findLoop (fun a b : ℤ => a - b) 3
        (emptyHeap.allocate 1 ⟨5, none, none, none, .black⟩) 2 (some 1) = .ok node := by
  have hfresh : ∀ p ∈ some 1, emptyHeap.cell p = none := fun _ _ => rfl
  exact find_logarithmic (l := [(1, 5)]) isComparator_sub
    (History.insert (.init emptyHeap) hfresh
      (rfl : orderedCollectionInsert true _ (some 1) emptyHeap none 5 = _))
    (List.nodup_singleton _) (by simp [inserted, eq_comm]) _ 3

end Edk2.OrderedCollection
