import Edk2.OrderedCollection.Model

/-!
# Trees in the heap

`Rep h t parent` says that the nodes of the tree `t` lie in the heap, linked to each other and to
`parent`. A tree is labelled with the address and the user structure of each node, so the tree
that a heap represents is the abstract value of a collection with the identities of its nodes.
Every primitive of the library is described by what it makes of the tree around its focus.
-/

namespace Edk2.OrderedCollection

open RedBlack RedBlack.RbTree

variable {α : Type}

/-- A label: the address of a node and the user structure it links. -/
abbrev Entry (α : Type) := Ptr × α

/-- The address of the root. -/
def ptr : RbTree (Entry α) → Option Ptr
  | .nil => none
  | .node _ _ x _ => some x.1

def ptrs (t : RbTree (Entry α)) : List Ptr := t.toList.map Prod.fst

/-- The node with `near` as its child on side `d`. -/
def sidedNode (d : Side) (userStruct : α) (parent near far : Option Ptr) (color : Color) : Node α :=
  match d with
  | .left => ⟨userStruct, parent, near, far, color⟩
  | .right => ⟨userStruct, parent, far, near, color⟩

def Rep (h : Heap α) : RbTree (Entry α) → Option Ptr → Prop
  | .nil, _ => True
  | .node c l x r, parent =>
    h.cell x.1 = some ⟨x.2, parent, ptr l, ptr r, c⟩ ∧ Rep h l (some x.1) ∧ Rep h r (some x.1)

/-- The address of the innermost frame: the parent of the hole. -/
def ctxPtr : List (Frame (Entry α)) → Option Ptr
  | [] => none
  | f :: _ => some f.label.1

def ctxPtrs : List (Frame (Entry α)) → List Ptr
  | [] => []
  | f :: ctx => f.label.1 :: (ptrs f.sibling ++ ctxPtrs ctx)

/-- The address of the root of a context with `hole` in its hole. -/
def rootPtr : List (Frame (Entry α)) → Option Ptr → Option Ptr
  | [], hole => hole
  | f :: ctx, _ => rootPtr ctx (some f.label.1)

/-- The frames of a context lie in the heap, around a subtree with root `hole`. -/
def RepCtx (h : Heap α) : List (Frame (Entry α)) → Option Ptr → Prop
  | [], _ => True
  | f :: ctx, hole =>
    h.cell f.label.1 =
        some (sidedNode f.side f.label.2 (ctxPtr ctx) hole (ptr f.sibling) f.color) ∧
      Rep h f.sibling (some f.label.1) ∧ RepCtx h ctx (some f.label.1)

variable {h h' : Heap α} {d : Side} {c : Color} {x : Entry α} {t a b : RbTree (Entry α)}
  {ctx : List (Frame (Entry α))} {f : Frame (Entry α)} {par : Option Ptr} {p q : Ptr}

section sidedNode

variable {u : α} {P N F m : Option Ptr}

@[simp] lemma sidedNode_userStruct : (sidedNode d u P N F c).userStruct = u := by
  cases d <;> rfl

@[simp] lemma sidedNode_parent : (sidedNode d u P N F c).parent = P := by
  cases d <;> rfl

@[simp] lemma sidedNode_color : (sidedNode d u P N F c).color = c := by
  cases d <;> rfl

@[simp] lemma sidedNode_child : (sidedNode d u P N F c).child d = N := by
  cases d <;> rfl

@[simp] lemma sidedNode_child_other : (sidedNode d u P N F c).child d.other = F := by
  cases d <;> rfl

@[simp] lemma sidedNode_setChild :
    (sidedNode d u P N F c).setChild d m = sidedNode d u P m F c := by
  cases d <;> rfl

@[simp] lemma sidedNode_setChild_other :
    (sidedNode d u P N F c).setChild d.other m = sidedNode d u P N m c := by
  cases d <;> rfl

@[simp] lemma sidedNode_setParent :
    { sidedNode d u P N F c with parent := m } = sidedNode d u m N F c := by
  cases d <;> rfl

@[simp] lemma sidedNode_setColor {k : Color} :
    { sidedNode d u P N F c with color := k } = sidedNode d u P N F k := by
  cases d <;> rfl

lemma sidedNode_other : sidedNode d.other u P N F c = sidedNode d u P F N c := by
  cases d <;> rfl

lemma sidedNode_left (hne : N ≠ F) : N = (sidedNode d u P N F c).left ↔ d = .left := by
  cases d <;> simp [sidedNode, hne]

end sidedNode

@[simp] lemma ptr_nil : ptr (.nil : RbTree (Entry α)) = none := rfl

@[simp] lemma ptr_node : ptr (.node c a x b) = some x.1 := rfl

@[simp] lemma ptr_sided : ptr (sided d c a x b) = some x.1 := by
  cases d <;> rfl

@[simp] lemma ptr_plug : ptr (f.plug t) = some f.label.1 := ptr_sided

@[simp] lemma ptr_paint : ptr (t.paint c) = ptr t := by
  cases t <;> rfl

lemma ptr_eq_none : ptr t = none ↔ t = .nil := by
  cases t <;> simp [ptr]

lemma mem_ptrs_of_ptr (hp : ptr t = some p) : p ∈ ptrs t := by
  cases t with
  | nil => cases hp
  | node c l x r =>
    cases hp
    simp [ptrs, toList]

lemma ptr_fill (ctx : List (Frame (Entry α))) (t : RbTree (Entry α)) :
    ptr (fill ctx t) = rootPtr ctx (ptr t) := by
  induction ctx generalizing t with
  | nil => rfl
  | cons f ctx ih => rw [fill_cons, ih, ptr_plug, rootPtr]

@[simp] lemma ctxPtr_nil : ctxPtr ([] : List (Frame (Entry α))) = none := rfl

@[simp] lemma ctxPtr_cons : ctxPtr (f :: ctx) = some f.label.1 := rfl

@[simp] lemma ptrs_nil : ptrs (.nil : RbTree (Entry α)) = [] := rfl

lemma ptrs_sided_perm : (ptrs (sided d c a x b)).Perm (x.1 :: (ptrs a ++ ptrs b)) := by
  cases d
  · simpa [ptrs, sided, toList] using List.perm_middle
  grind [ptrs, sided, toList, List.perm_middle.trans]

lemma ptrs_fill_perm (ctx : List (Frame (Entry α))) (t : RbTree (Entry α)) :
    (ptrs (fill ctx t)).Perm (ptrs t ++ ctxPtrs ctx) := by
  induction ctx generalizing t with
  | nil => simp [ctxPtrs]
  | cons f ctx ih =>
    have hplug : (ptrs (f.plug t)).Perm (ptrs t ++ f.label.1 :: ptrs f.sibling) :=
      ptrs_sided_perm.trans List.perm_middle.symm
    have := (ih (f.plug t)).trans (hplug.append_right (ctxPtrs ctx))
    simpa [ctxPtrs] using this

lemma mem_ptrs_sided : p ∈ ptrs (sided d c a x b) ↔ p = x.1 ∨ p ∈ ptrs a ∨ p ∈ ptrs b := by
  rw [ptrs_sided_perm.mem_iff]
  simp

lemma mem_ptrs_fill : p ∈ ptrs (fill ctx t) ↔ p ∈ ptrs t ∨ p ∈ ctxPtrs ctx := by
  rw [(ptrs_fill_perm ctx t).mem_iff, List.mem_append]

lemma mem_ctxPtrs_cons :
    p ∈ ctxPtrs (f :: ctx) ↔ p = f.label.1 ∨ p ∈ ptrs f.sibling ∨ p ∈ ctxPtrs ctx := by
  simp [ctxPtrs]

lemma nodup_sided : (ptrs (sided d c a x b)).Nodup ↔
    x.1 ∉ ptrs a ∧ x.1 ∉ ptrs b ∧ (ptrs a).Nodup ∧ (ptrs b).Nodup ∧
      ∀ p ∈ ptrs a, p ∉ ptrs b := by
  rw [ptrs_sided_perm.nodup_iff, List.nodup_cons, List.nodup_append, List.mem_append, not_or]
  grind

lemma nodup_fill : (ptrs (fill ctx t)).Nodup ↔
    (ptrs t).Nodup ∧ (ctxPtrs ctx).Nodup ∧ ∀ p ∈ ptrs t, p ∉ ctxPtrs ctx := by
  rw [(ptrs_fill_perm ctx t).nodup_iff, List.nodup_append]
  grind

lemma rep_sided : Rep h (sided d c a x b) par ↔
    h.cell x.1 = some (sidedNode d x.2 par (ptr a) (ptr b) c) ∧ Rep h a (some x.1) ∧
      Rep h b (some x.1) := by
  cases d
  · exact Iff.rfl
  grind [sided, Rep, sidedNode]

lemma rep_fill : Rep h (fill ctx t) none ↔ RepCtx h ctx (ptr t) ∧ Rep h t (ctxPtr ctx) := by
  induction ctx generalizing t with
  | nil => simp [RepCtx, ctxPtr]
  | cons f ctx ih =>
    rw [fill_cons, ih, ptr_plug, Frame.plug, rep_sided, RepCtx, ctxPtr]
    tauto

lemma rep_congr (hcell : ∀ p ∈ ptrs t, h'.cell p = h.cell p) (hrep : Rep h t par) :
    Rep h' t par := by
  induction t generalizing par with
  | nil => trivial
  | node c l x r ihl ihr =>
    obtain ⟨hx, hl, hr⟩ := hrep
    refine ⟨(hcell x.1 (by simp [ptrs, toList])).trans hx, ihl (fun p hp => ?_) hl,
      ihr (fun p hp => ?_) hr⟩
    · grind [ptrs, toList]
    grind [ptrs, toList]

lemma repCtx_congr {hole : Option Ptr} (hcell : ∀ p ∈ ctxPtrs ctx, h'.cell p = h.cell p)
    (hrep : RepCtx h ctx hole) : RepCtx h' ctx hole := by
  induction ctx generalizing hole with
  | nil => trivial
  | cons f ctx ih =>
    obtain ⟨hf, hs, hctx⟩ := hrep
    refine ⟨(hcell _ (mem_ctxPtrs_cons.mpr (.inl rfl))).trans hf, rep_congr (fun p hp => ?_) hs,
      ih (fun p hp => ?_) hctx⟩
    · exact hcell p (mem_ctxPtrs_cons.mpr (.inr (.inl hp)))
    · exact hcell p (mem_ctxPtrs_cons.mpr (.inr (.inr hp)))

lemma Rep.cell_of_mem (hrep : Rep h t par) (hx : x ∈ t.toList) :
    ∃ n, h.cell x.1 = some n ∧ n.userStruct = x.2 := by
  induction t generalizing par with
  | nil => cases hx
  | node c l y r ihl ihr =>
    obtain ⟨hy, hl, hr⟩ := hrep
    rcases List.mem_append.mp hx with hx | hx
    · exact ihl hl hx
    grind

end Edk2.OrderedCollection

/-!
## The primitives on a represented tree

Reading a node, painting it, and rotating around it, each as an equation on the tree that the
heap holds. `Holds h root t` is the link between the two levels; `Within h h' l` says that only
the cells of the addresses `l` have changed.
-/

namespace Edk2.OrderedCollection

open RedBlack RedBlack.RbTree

variable {α : Type}

/-- The heap holds the tree `t`, whose nodes are all different, with root `root`. -/
structure Holds (h : Heap α) (root : Option Ptr) (t : RbTree (Entry α)) : Prop where
  rep : Rep h t none
  nodup : (ptrs t).Nodup
  root_eq : root = ptr t

/-- From `h` to `h'` only cells of the addresses `l` have changed, and none is new or freed. -/
structure Within (h h' : Heap α) (l : List Ptr) : Prop where
  live : h'.live = h.live
  outside : ∀ p, p ∉ l → h'.cell p = h.cell p

/-- A heap that holds `t` becomes one that holds `t'`: the same nodes in the same order, with
nothing else touched. -/
structure Becomes (h : Heap α) (t : RbTree (Entry α)) (h' : Heap α) (root' : Option Ptr)
    (t' : RbTree (Entry α)) : Prop where
  holds : Holds h' root' t'
  toList : t'.toList = t.toList
  within : Within h h' (ptrs t)

variable {h h' h'' : Heap α} {d : Side} {c k : Color} {x y : Entry α}
  {t a b e : RbTree (Entry α)} {ctx : List (Frame (Entry α))} {f : Frame (Entry α)}
  {par root : Option Ptr} {p q : Ptr} {n : Node α} {l l' : List Ptr}

lemma Within.refl : Within h h l := ⟨rfl, fun _ _ => rfl⟩

lemma Within.trans (h₁ : Within h h' l) (h₂ : Within h' h'' l) : Within h h'' l :=
  ⟨h₂.live.trans h₁.live, fun p hp => (h₂.outside p hp).trans (h₁.outside p hp)⟩

lemma Within.mono (hw : Within h h' l) (hl : ∀ p ∈ l, p ∈ l') : Within h h' l' :=
  ⟨hw.live, fun p hp => hw.outside p fun hpl => hp (hl p hpl)⟩

lemma Within.rep (hw : Within h h' l) (hl : ∀ p ∈ ptrs t, p ∉ l) (hrep : Rep h t par) :
    Rep h' t par :=
  rep_congr (fun p hp => hw.outside p (hl p hp)) hrep

lemma Within.repCtx {hole : Option Ptr} (hw : Within h h' l) (hl : ∀ p ∈ ctxPtrs ctx, p ∉ l)
    (hrep : RepCtx h ctx hole) : RepCtx h' ctx hole :=
  repCtx_congr (fun p hp => hw.outside p (hl p hp)) hrep

lemma ptrs_eq (hl : t.toList = a.toList) : ptrs t = ptrs a := by
  rw [ptrs, ptrs, hl]

lemma Becomes.trans {root' : Option Ptr} (h₁ : Becomes h t h' root' a)
    (h₂ : Becomes h' a h'' root b) : Becomes h t h'' root b :=
  ⟨h₂.holds, h₂.toList.trans h₁.toList,
    h₁.within.trans (by rw [← ptrs_eq h₁.toList]; exact h₂.within)⟩

lemma Heap.deref_some (hc : h.cell p = some n) : h.deref (some p) = .ok n := by
  simp only [Heap.deref, hc]

lemma Heap.modify_some (hc : h.cell p = some n) (g : Node α → Node α) :
    h.modify (some p) g = .ok (h.store p (g n)) := by
  simp only [Heap.modify, hc]

@[simp] lemma Heap.store_cell_self : (h.store p n).cell p = some n := by
  simp [Heap.store]

lemma Heap.store_cell_of_ne (hne : q ≠ p) : (h.store p n).cell q = h.cell q := by
  simp [Heap.store, hne]

lemma within_store : Within h (h.store p n) [p] :=
  ⟨rfl, fun _ hq => Heap.store_cell_of_ne (by simpa using hq)⟩

lemma setParentOf_spec (hrep : Rep h t par) (hnd : (ptrs t).Nodup) (q : Option Ptr) :
    ∃ h', h.setParentOf (ptr t) q = .ok h' ∧ Rep h' t q ∧ Within h h' (ptrs t) := by
  cases t with
  | nil => exact ⟨h, rfl, trivial, .refl⟩
  | node c l x r =>
    rw [show RbTree.node c l x r = sided .left c l x r from rfl] at hrep hnd ⊢
    obtain ⟨hx, hl, hr⟩ := rep_sided.mp hrep
    obtain ⟨hxl, hxr, -, -, -⟩ := nodup_sided.mp hnd
    have hw := within_store (h := h) (p := x.1) (n := sidedNode .left x.2 q (ptr l) (ptr r) c)
    refine ⟨h.store x.1 (sidedNode .left x.2 q (ptr l) (ptr r) c), ?_, ?_, hw.mono ?_⟩
    · grind [ptr_sided, Heap.setParentOf, Heap.setParent, Heap.modify_some, sidedNode_setParent]
    · refine rep_sided.mpr ⟨Heap.store_cell_self, hw.rep (fun p hp => ?_) hl,
        hw.rep (fun p hp => ?_) hr⟩
      · rw [List.mem_singleton]
        rintro rfl
        exact hxl hp
      · rw [List.mem_singleton]
        rintro rfl
        exact hxr hp
    · intro p hp
      exact mem_ptrs_sided.mpr (.inl (List.mem_singleton.mp hp))

lemma replaceChild_spec (new : Option Ptr) {old : Option Ptr} (hrep : RepCtx h ctx old)
    (hnd : (ctxPtrs ctx).Nodup) (hold : ∀ p ∈ old, p ∉ ctxPtrs ctx) (hne : old ≠ none)
    (hroot : root = rootPtr ctx old) :
    ∃ h', replaceChild h root (ctxPtr ctx) old new = .ok (h', rootPtr ctx new) ∧
      RepCtx h' ctx new ∧ Within h h' (ctxPtr ctx).toList := by
  cases ctx with
  | nil => exact ⟨h, rfl, trivial, .refl⟩
  | cons f ctx =>
    obtain ⟨hf, hs, hctx⟩ := hrep
    have hnd' := List.nodup_cons.mp hnd
    simp only [List.mem_append, not_or] at hnd'
    obtain ⟨⟨hfs, hfc⟩, -⟩ := hnd'
    have hsib : old ≠ ptr f.sibling := by
      intro heq
      obtain ⟨p, hp⟩ := Option.ne_none_iff_exists'.mp hne
      exact hold p hp (mem_ctxPtrs_cons.mpr (.inr (.inl (mem_ptrs_of_ptr (heq ▸ hp)))))
    have hw := within_store (h := h) (p := f.label.1)
      (n := sidedNode f.side f.label.2 (ctxPtr ctx) new (ptr f.sibling) f.color)
    refine ⟨_, ?_, ⟨Heap.store_cell_self, hw.rep (fun p hp => ?_) hs,
      hw.repCtx (fun p hp => ?_) hctx⟩, hw⟩
    · simp only [replaceChild, ctxPtr, Heap.deref_some hf, Heap.modify_some hf, bind, Except.bind,
        pure, Except.pure, hroot, rootPtr, sidedNode_left hsib]
      congr 2
      cases hside : f.side <;> simp [sidedNode]
    · rw [List.mem_singleton]
      rintro rfl
      exact hfs hp
    · rw [List.mem_singleton]
      rintro rfl
      exact hfc hp

lemma toList_rotate :
    (fill ctx (sided d k (sided d c a x b) y e)).toList =
      (fill ctx (sided d c a x (sided d k b y e))).toList := by
  rw [toList_fill, toList_fill]
  cases d <;> simp [sided, toList]

lemma rotate_spec (hh : Holds h root (fill ctx (sided d c a x (sided d k b y e)))) :
    ∃ h' root', rotate d h (some x.1) root = .ok (h', root') ∧
      Becomes h (fill ctx (sided d c a x (sided d k b y e))) h' root'
        (fill ctx (sided d k (sided d c a x b) y e)) := by
  obtain ⟨hrep, hnd, hroot⟩ := hh
  have hnd' : (ptrs (fill ctx (sided d k (sided d c a x b) y e))).Nodup := by
    unfold ptrs at hnd ⊢
    rwa [toList_rotate]
  obtain ⟨hctx, hfoc⟩ := rep_fill.mp hrep
  obtain ⟨hx, ha, hchi⟩ := rep_sided.mp hfoc
  obtain ⟨hy, hb, he⟩ := rep_sided.mp hchi
  rw [ptr_sided] at hctx hx
  -- all addresses are different
  obtain ⟨hndt, hndc, hdisj⟩ := nodup_fill.mp hnd
  obtain ⟨hxa, hxye, -, hndye, haye⟩ := nodup_sided.mp hndt
  obtain ⟨hyb, hye, hndb, -, hbe⟩ := nodup_sided.mp hndye
  have hxy : y.1 ≠ x.1 := fun heq => hxye (mem_ptrs_sided.mpr (.inl heq.symm))
  have hxb : x.1 ∉ ptrs b := fun hp => hxye (mem_ptrs_sided.mpr (.inr (.inl hp)))
  have hxe : x.1 ∉ ptrs e := fun hp => hxye (mem_ptrs_sided.mpr (.inr (.inr hp)))
  have hya : y.1 ∉ ptrs a := fun hp => haye _ hp (mem_ptrs_sided.mpr (.inl rfl))
  have hab : ∀ p ∈ ptrs a, p ∉ ptrs b :=
    fun p hp hpb => haye p hp (mem_ptrs_sided.mpr (.inr (.inl hpb)))
  have hxc : x.1 ∉ ctxPtrs ctx := hdisj _ (mem_ptrs_sided.mpr (.inl rfl))
  have hyc : y.1 ∉ ctxPtrs ctx :=
    hdisj _ (mem_ptrs_sided.mpr (.inr (.inr (mem_ptrs_sided.mpr (.inl rfl)))))
  have hac : ∀ p ∈ ptrs a, p ∉ ctxPtrs ctx :=
    fun p hp => hdisj p (mem_ptrs_sided.mpr (.inr (.inl hp)))
  have hbc : ∀ p ∈ ptrs b, p ∉ ctxPtrs ctx := fun p hp =>
    hdisj p (mem_ptrs_sided.mpr (.inr (.inr (mem_ptrs_sided.mpr (.inr (.inl hp))))))
  have hec : ∀ p ∈ ptrs e, p ∉ ctxPtrs ctx := fun p hp =>
    hdisj p (mem_ptrs_sided.mpr (.inr (.inr (mem_ptrs_sided.mpr (.inr (.inr hp))))))
  have hctxP : ∀ p ∈ (ctxPtr ctx).toList, p ∈ ctxPtrs ctx := by
    cases ctx with
    | nil => simp [ctxPtr]
    | cons f ctx => simp [ctxPtr, ctxPtrs]
  -- the writes, one after the other
  set h₁ := h.store x.1 (sidedNode d x.2 (ctxPtr ctx) (ptr a) (ptr b) c) with hdef₁
  have hw₁ : Within h h₁ [x.1] := within_store
  obtain ⟨h₂, hset, hb₂, hw₂⟩ := setParentOf_spec (h := h₁) (q := some x.1)
    (hw₁.rep (fun p hp => by simp; rintro rfl; exact hxb hp) hb) hndb
  have hy₂ : h₂.cell y.1 = some (sidedNode d y.2 (some x.1) (ptr b) (ptr e) k) := by
    rw [hw₂.outside _ hyb, hw₁.outside _ (by simpa using hxy), hy]
  set h₃ := h₂.store y.1 (sidedNode d y.2 (ctxPtr ctx) (ptr b) (ptr e) k) with hdef₃
  have hw₃ : Within h₂ h₃ [y.1] := within_store
  have hctx₃ : RepCtx h₃ ctx (some x.1) := by
    refine hw₃.repCtx (fun p hp => ?_) (hw₂.repCtx (fun p hp hpb => hbc p hpb hp)
      (hw₁.repCtx (fun p hp => ?_) hctx))
    · simp only [List.mem_singleton]
      rintro rfl
      exact hyc hp
    · simp only [List.mem_singleton]
      rintro rfl
      exact hxc hp
  obtain ⟨h₄, hrepl, hctx₄, hw₄⟩ := replaceChild_spec (some y.1) hctx₃ hndc
    (by simpa using hxc) (by simp) (hroot.trans (by rw [ptr_fill, ptr_sided]))
  have hy₄ : h₄.cell y.1 = some (sidedNode d y.2 (ctxPtr ctx) (ptr b) (ptr e) k) := by
    rw [hw₄.outside _ fun hp => hyc (hctxP _ hp), hdef₃, Heap.store_cell_self]
  set h₅ := h₄.store y.1 (sidedNode d y.2 (ctxPtr ctx) (some x.1) (ptr e) k) with hdef₅
  have hw₅ : Within h₄ h₅ [y.1] := within_store
  have hx₅ : h₅.cell x.1 = some (sidedNode d x.2 (ctxPtr ctx) (ptr a) (ptr b) c) := by
    rw [hw₅.outside _ (by simpa using hxy.symm), hw₄.outside _ fun hp => hxc (hctxP _ hp),
      hw₃.outside _ (by simpa using hxy.symm), hw₂.outside _ hxb, hdef₁, Heap.store_cell_self]
  set h₆ := h₅.store x.1 (sidedNode d x.2 (some y.1) (ptr a) (ptr b) c) with hdef₆
  have hw₆ : Within h₅ h₆ [x.1] := within_store
  -- what the writes leave in place
  have hkeep : ∀ p, p ≠ x.1 → p ≠ y.1 → p ∉ ctxPtrs ctx → h₆.cell p = h₂.cell p := by
    intro p hpx hpy hpc
    rw [hw₆.outside _ (by simpa using hpx), hw₅.outside _ (by simpa using hpy),
      hw₄.outside _ fun hp => hpc (hctxP _ hp), hw₃.outside _ (by simpa using hpy)]
  have hkee' : ∀ p, p ≠ x.1 → p ∉ ptrs b → h₂.cell p = h.cell p := by
    intro p hpx hpb
    rw [hw₂.outside _ hpb, hw₁.outside _ (by simpa using hpx)]
  refine ⟨h₆, rootPtr ctx (some y.1), ?_, ⟨rep_fill.mpr ⟨?_, rep_sided.mpr ⟨?_, rep_sided.mpr
    ⟨?_, ?_, ?_⟩, ?_⟩⟩, hnd', by rw [ptr_fill, ptr_sided]⟩, toList_rotate, ?_, ?_⟩
  · simp only [rotate, Heap.deref_some hx, bind, Except.bind, sidedNode_child_other,
      sidedNode_parent, Heap.deref_some hy, sidedNode_child, Heap.modify_some hx,
      sidedNode_setChild_other, ← hdef₁, hset, Heap.setParent, Heap.modify_some hy₂,
      sidedNode_setParent, ← hdef₃, hrepl, Heap.modify_some hy₄, sidedNode_setChild, ← hdef₅,
      Heap.modify_some hx₅, ← hdef₆, pure, Except.pure]
  · rw [ptr_sided]
    refine hw₆.repCtx (fun p hp => ?_) (hw₅.repCtx (fun p hp => ?_) hctx₄)
    · simp only [List.mem_singleton]
      rintro rfl
      exact hxc hp
    · simp only [List.mem_singleton]
      rintro rfl
      exact hyc hp
  · rw [ptr_sided, hw₆.outside _ (by simpa using hxy), hdef₅, Heap.store_cell_self]
  · rw [hdef₆, Heap.store_cell_self]
  · grind [rep_congr]
  · grind [rep_congr]
  · grind [rep_congr]
  · rw [hw₆.live, hw₅.live, hw₄.live, hw₃.live, hw₂.live, hw₁.live]
  grind [mem_ptrs_fill, mem_ptrs_sided]

lemma Holds.deref (hh : Holds h root (fill ctx (sided d c a x b))) :
    h.deref (some x.1) = .ok (sidedNode d x.2 (ctxPtr ctx) (ptr a) (ptr b) c) :=
  Heap.deref_some (rep_sided.mp (rep_fill.mp hh.rep).2).1

lemma Holds.deref_frame (hh : Holds h root (fill (f :: ctx) t)) :
    h.deref (some f.label.1) =
      .ok (sidedNode f.side f.label.2 (ctxPtr ctx) (ptr t) (ptr f.sibling) f.color) := by
  rw [fill_cons, Frame.plug] at hh
  exact hh.deref

lemma nodeIsNullOrBlack_ptr (hrep : Rep h t par) :
    nodeIsNullOrBlack h (ptr t) = .ok (t.color = .black) := by
  cases t with
  | nil => rfl
  | node c l x r =>
    obtain ⟨hx, -, -⟩ := hrep
    simp only [ptr, nodeIsNullOrBlack, Heap.deref_some hx, bind, Except.bind]
    rfl

lemma fill_far : fill ctx (sided d c a x b) = fill (⟨d.other, c, x, a⟩ :: ctx) b := by
  rw [fill_cons, Frame.plug, sided_other]

lemma fill_near : fill ctx (sided d c a x b) = fill (⟨d, c, x, b⟩ :: ctx) a := rfl

lemma toList_setColor :
    (fill ctx (sided d k a x b)).toList = (fill ctx (sided d c a x b)).toList := by
  rw [toList_fill, toList_fill]
  cases d <;> simp [sided, toList]

lemma setColor_spec (hh : Holds h root (fill ctx (sided d c a x b))) (k : Color) :
    ∃ h', h.setColor (some x.1) k = .ok h' ∧
      Becomes h (fill ctx (sided d c a x b)) h' root (fill ctx (sided d k a x b)) := by
  obtain ⟨hrep, hnd, hroot⟩ := hh
  obtain ⟨hctx, hfoc⟩ := rep_fill.mp hrep
  obtain ⟨hx, ha, hb⟩ := rep_sided.mp hfoc
  obtain ⟨hndt, -, hdisj⟩ := nodup_fill.mp hnd
  obtain ⟨hxa, hxb, -, -, -⟩ := nodup_sided.mp hndt
  have hw := within_store (h := h) (p := x.1) (n := sidedNode d x.2 (ctxPtr ctx) (ptr a) (ptr b) k)
  have havo : ∀ l : List Ptr, x.1 ∉ l → ∀ p ∈ l, p ∉ [x.1] := by
    grind
  refine ⟨_, ?_, ⟨rep_fill.mpr ⟨?_, rep_sided.mpr ⟨Heap.store_cell_self, ?_, ?_⟩⟩, ?_, ?_⟩,
    toList_setColor, hw.mono ?_⟩
  · rw [Heap.setColor, Heap.modify_some hx, sidedNode_setColor]
  · rw [ptr_sided] at hctx ⊢
    exact hw.repCtx (havo _ (hdisj _ (mem_ptrs_sided.mpr (.inl rfl)))) hctx
  · exact hw.rep (havo _ hxa) ha
  · exact hw.rep (havo _ hxb) hb
  · rwa [ptrs_eq toList_setColor]
  · rw [hroot, ptr_fill, ptr_fill, ptr_sided, ptr_sided]
  · intro p hp
    exact mem_ptrs_fill.mpr (.inl (mem_ptrs_sided.mpr (.inl (List.mem_singleton.mp hp))))

lemma setColor_ptr (hh : Holds h root (fill ctx t)) (hne : t ≠ .nil) (k : Color) :
    ∃ h', h.setColor (ptr t) k = .ok h' ∧
      Becomes h (fill ctx t) h' root (fill ctx (t.paint k)) := by
  obtain ⟨c, a, x, b, rfl⟩ := exists_sided .left hne
  rw [ptr_sided, paint_sided]
  exact setColor_spec hh k

lemma rootPtr_mem (f : Frame (Entry α)) (ctx : List (Frame (Entry α))) (hole : Option Ptr) :
    ∃ p ∈ ctxPtrs (f :: ctx), rootPtr (f :: ctx) hole = some p := by
  induction ctx generalizing f hole with
  | nil => exact ⟨f.label.1, by simp [ctxPtrs], rfl⟩
  | cons g ctx ih =>
    obtain ⟨p, hp, hroot⟩ := ih g (some f.label.1)
    exact ⟨p, mem_ctxPtrs_cons.mpr (.inr (.inr hp)), hroot⟩

lemma Holds.ptr_ne_root (hh : Holds h root (fill (f :: ctx) t)) : ptr t ≠ root := by
  intro heq
  obtain ⟨p, hp, hroot⟩ := rootPtr_mem f ctx (ptr t)
  have hptr : ptr t = some p := by rw [heq, hh.root_eq, ptr_fill, hroot]
  exact (nodup_fill.mp hh.nodup).2.2 p (mem_ptrs_of_ptr hptr) hp

lemma Holds.sibling_ne (hh : Holds h root (fill (f :: ctx) t)) (hne : t ≠ .nil) :
    ptr t ≠ ptr f.sibling := by
  intro heq
  obtain ⟨p, hp⟩ := Option.ne_none_iff_exists'.mp fun hnone => hne (ptr_eq_none.mp hnone)
  exact (nodup_fill.mp hh.nodup).2.2 p (mem_ptrs_of_ptr hp)
    (mem_ctxPtrs_cons.mpr (.inr (.inl (mem_ptrs_of_ptr (heq ▸ hp)))))

lemma length_le_toList (ctx : List (Frame (Entry α))) (t : RbTree (Entry α)) :
    ctx.length + t.toList.length ≤ (fill ctx t).toList.length := by
  induction ctx generalizing t with
  | nil => simp
  | cons f ctx ih =>
    have hplug : t.toList.length + 1 ≤ (f.plug t).toList.length := by
      rw [Frame.plug]
      cases f.side <;> simp only [sided, toList, List.length_append, List.length_cons] <;> omega
    grind [fill_cons, List.length_cons]

end Edk2.OrderedCollection
