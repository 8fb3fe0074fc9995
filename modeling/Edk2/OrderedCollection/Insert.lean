import Edk2.OrderedCollection.Search

/-!
# Insertion

The descent finds the place of the new structure, and the rebalancing loop carries a red node
upwards until its parent is black. The invariant of the loop: the tree in the hole is balanced
with a red root, the context around it is balanced, and the two may clash only where they meet.
-/

namespace Edk2.OrderedCollection

open RedBlack RedBlack.RbTree

variable {α : Type} {h h' : Heap α} {d : Side} {c k : Color} {x y z : Entry α}
  {t a b s u : RbTree (Entry α)} {ctx : List (Frame (Entry α))} {f : Frame (Entry α)}
  {root : Option Ptr} {n : ℕ}

lemma insertStepOn_redUncle (tmp : Option Ptr) {e : Side}
    (hh : Holds h root (fill ctx (sided d .black (sided e .red t x s) y u)))
    (hu : u.color = .red) :
    ∃ h', insertStepOn d (some y.1) ⟨h, root, tmp, some x.1⟩ =
        .ok ⟨h', root, some y.1, ctxPtr ctx⟩ ∧
      Becomes h (fill ctx (sided d .black (sided e .red t x s) y u)) h' root
        (fill ctx (sided d .red (sided e .black t x s) y (u.paint .black))) := by
  have hune : u ≠ .nil := by
    rintro rfl
    cases hu
  have hurep : Rep h u (some y.1) := (rep_sided.mp (rep_fill.mp hh.rep).2).2.2
  -- the three paintings, each at the focus of its own context
  obtain ⟨h₁, hset₁, hb₁⟩ := setColor_spec (fill_near ▸ hh) .black
  rw [← fill_near, ← fill_near] at hb₁
  obtain ⟨h₂, hset₂, hb₂⟩ := setColor_ptr (fill_far ▸ hb₁.holds) hune .black
  rw [← fill_far, ← fill_far] at hb₂
  obtain ⟨h₃, hset₃, hb₃⟩ := setColor_spec hb₂.holds .red
  refine ⟨h₃, ?_, hb₁.trans (hb₂.trans hb₃)⟩
  simp only [insertStepOn, hh.deref, bind, Except.bind, sidedNode_child_other,
    nodeIsNullOrBlack_ptr hurep, hu, reduceCtorEq, decide_false, Bool.false_eq_true, if_false,
    hset₁, hset₂, hset₃, hb₃.holds.deref, sidedNode_parent, pure, Except.pure]

lemma insertInner_inner
    (hh : Holds h root (fill ctx (sided d .black (sided d .red s x (sided d .red a z b)) y u))) :
    ∃ h' root', insertInner d (some y.1) ⟨h, root, some z.1, some x.1⟩ =
        .ok ⟨h', root', some x.1, some z.1⟩ ∧
      Becomes h (fill ctx (sided d .black (sided d .red s x (sided d .red a z b)) y u)) h' root'
        (fill ctx (sided d .black (sided d .red (sided d .red s x a) z b) y u)) := by
  rw [fill_near] at hh
  obtain ⟨h', root', hrot, hb⟩ := rotate_spec hh
  have hx := hb.holds
  rw [fill_near] at hx
  refine ⟨h', root', ?_, hb⟩
  simp only [insertInner, hh.deref, bind, Except.bind, sidedNode_child_other, ptr_sided, if_true,
    hrot, hx.deref, hb.holds.deref, sidedNode_parent, ctxPtr_cons, assertThat, decide_true, pure,
    Except.pure]

lemma insertInner_outer (htne : t ≠ .nil)
    (hh : Holds h root (fill ctx (sided d .black (sided d .red t x s) y u))) :
    insertInner d (some y.1) ⟨h, root, ptr t, some x.1⟩ = .ok ⟨h, root, ptr t, some x.1⟩ := by
  rw [fill_near] at hh
  have hne : ptr t ≠ ptr s := Holds.sibling_ne (fill_near ▸ hh) htne
  simp only [insertInner, hh.deref, bind, Except.bind, sidedNode_child_other, hne, if_false, pure,
    Except.pure]

lemma insert_rotate
    (hh : Holds h root (fill ctx (sided d .black (sided d .red t x s) y u))) :
    ∃ h₁ h₂ h' root', h.setColor (some x.1) .black = .ok h₁ ∧
      h₁.setColor (some y.1) .red = .ok h₂ ∧
      rotate d.other h₂ (some y.1) root = .ok (h', root') ∧
      Becomes h (fill ctx (sided d .black (sided d .red t x s) y u)) h' root'
        (fill ctx (sided d .black t x (sided d .red s y u))) := by
  obtain ⟨h₁, hset₁, hb₁⟩ := setColor_spec (fill_near ▸ hh) .black
  rw [← fill_near, ← fill_near] at hb₁
  obtain ⟨h₂, hset₂, hb₂⟩ := setColor_spec hb₁.holds .red
  -- seen from the other side, this is the shape that a rotation takes
  have hside : ∀ {c k : Color}, sided d c (sided d k t x s) y u =
      sided d.other c u y (sided d.other k s x t) := by
    intro c k
    rw [sided_other, sided_other]
  have hsid' : ∀ {c k : Color}, sided d c t x (sided d k s y u) =
      sided d.other c (sided d.other k u y s) x t := by
    intro c k
    rw [sided_other, sided_other]
  have hh₂ := hb₂.holds
  rw [hside] at hh₂
  obtain ⟨h', root', hrot, hb⟩ := rotate_spec hh₂
  rw [← hside, ← hsid'] at hb
  exact ⟨h₁, h₂, h', root', hset₁, hset₂, hrot, hb₁.trans (hb₂.trans hb)⟩

lemma insertStepOn_blackUncle {e : Side}
    (hh : Holds h root (fill ctx (sided d .black (sided e .red t x s) y u)))
    (hu : u.color = .black) (ht : t.color = .red) (hs : s.color = .black)
    (htn : Balanced t n) (hsn : Balanced s n) (hun : Balanced u n) :
    ∃ s' w, insertStepOn d (some y.1) ⟨h, root, ptr t, some x.1⟩ = .ok s' ∧
      Becomes h (fill ctx (sided d .black (sided e .red t x s) y u)) s'.heap s'.newRoot
        (fill ctx w) ∧
      (∃ m, s'.heap.deref s'.parent = .ok m ∧ m.color = .black) ∧
      w.color = .black ∧ Balanced w (n + 1) := by
  have hurep : Rep h u (some y.1) := (rep_sided.mp (rep_fill.mp hh.rep).2).2.2
  have htne : t ≠ .nil := by
    rintro rfl
    cases ht
  rcases Side.eq_or_eq_other d e with rfl | rfl
  · obtain ⟨h₁, h₂, h', root', hset₁, hset₂, hrot, hb⟩ := insert_rotate hh
    refine ⟨⟨h', root', ptr t, some x.1⟩, _, ?_, hb, ⟨_, hb.holds.deref, sidedNode_color⟩,
      color_sided, ?_⟩
    · simp only [insertStepOn, hh.deref, bind, Except.bind, sidedNode_child_other,
        nodeIsNullOrBlack_ptr hurep, hu, decide_true, if_true, insertInner_outer htne hh, hset₁,
        hset₂, hrot, pure, Except.pure]
    · exact balanced_black.mpr ⟨n, rfl, htn, balanced_red.mpr ⟨hs, hu, hsn, hun⟩⟩
  · obtain ⟨a, z, b, rfl⟩ := exists_sided_red d ht
    obtain ⟨ha, hb, han, hbn⟩ := balanced_red.mp htn
    rw [sided_other] at hh ⊢
    obtain ⟨h₀, root₀, hinn, hb₀⟩ := insertInner_inner hh
    obtain ⟨h₁, h₂, h', root', hset₁, hset₂, hrot, hb₁⟩ := insert_rotate hb₀.holds
    refine ⟨⟨h', root', some x.1, some z.1⟩, _, ?_, hb₀.trans hb₁,
      ⟨_, hb₁.holds.deref, sidedNode_color⟩, color_sided, ?_⟩
    · simp only [insertStepOn, hh.deref, bind, Except.bind, sidedNode_child_other, ptr_sided,
        nodeIsNullOrBlack_ptr hurep, hu, decide_true, if_true, hinn, hset₁, hset₂, hrot, pure,
        Except.pure]
    · exact balanced_black.mpr ⟨n, rfl, balanced_red.mpr ⟨hs, ha, hsn, han⟩,
        balanced_red.mpr ⟨hb, hu, hbn, hun⟩⟩

lemma insertLoop_stops {st : InsertState α} (fuel : ℕ) (hc : insertContinues st = .ok false) :
    insertLoop fuel st = .ok st := by
  cases fuel <;>
    simp only [insertLoop, hc, bind, Except.bind, Bool.false_eq_true, if_false, pure, Except.pure]

lemma insertContinues_black {st : InsertState α} {m : Node α}
    (hm : st.heap.deref st.parent = .ok m) (hc : m.color = .black) :
    insertContinues st = .ok false := by
  simp [hm, bind, Except.bind, pure, Except.pure, hc, reduceCtorEq, decide_false, insertContinues]

lemma paint_of_color (hc : t.color = .black) : t.paint .black = t := by
  cases t with
  | nil => rfl
  | node c l x r =>
    cases hc
    rfl

lemma insertStep_eq (tmp : Option Ptr) {g : Frame (Entry α)}
    (hh : Holds h root (fill (f :: g :: ctx) t)) :
    insertStep ⟨h, root, tmp, some f.label.1⟩ =
      insertStepOn g.side (some g.label.1) ⟨h, root, tmp, some f.label.1⟩ := by
  have hg : Holds h root (fill (g :: ctx) (f.plug t)) := hh
  have hne := hg.sibling_ne sided_ne_nil
  rw [ptr_plug] at hne
  have hgd := hg.deref_frame
  rw [ptr_plug] at hgd
  simp only [insertStep, hh.deref_frame, bind, Except.bind, sidedNode_parent, ctxPtr_cons, hgd,
    sidedNode_left hne]
  cases g.side <;> simp

/-- From a red node whose subtree is balanced, in a balanced context, the loop reaches a tree that
is red-black once its root is painted black. -/
lemma insertLoop_spec {fuel : ℕ} (hfuel : ctx.length ≤ fuel) (hh : Holds h root (fill ctx t))
    (ht : t.color = .red) (htn : Balanced t n) (hctx : CtxBalanced ctx n) :
    ∃ st w, insertLoop fuel ⟨h, root, ptr t, ctxPtr ctx⟩ = .ok st ∧
      Becomes h (fill ctx t) st.heap st.newRoot w ∧ IsRedBlack (w.paint .black) := by
  induction fuel using Nat.strong_induction_on generalizing h root t ctx n with
  | _ fuel ih =>
    have hrefl : Becomes h (fill ctx t) h root (fill ctx t) := ⟨hh, rfl, .refl⟩
    cases ctx with
    | nil =>
      have hroot : insertContinues ⟨h, root, ptr t, none⟩ = .ok false := by
        simp only [insertContinues, hh.root_eq, fill_nil, if_true]
      exact ⟨_, _, insertLoop_stops fuel hroot, hrefl, color_paint_black, htn.paint_black⟩
    | cons f ctx =>
      obtain ⟨hs, hred, hctx'⟩ := hctx
      cases hf : f.color with
      | black =>
        have hstop : insertContinues ⟨h, root, ptr t, ctxPtr (f :: ctx)⟩ = .ok false :=
          insertContinues_black hh.deref_frame (by rw [sidedNode_color, hf])
        refine ⟨_, _, insertLoop_stops fuel hstop, hrefl, ?_⟩
        have hrb : IsRedBlack (fill (f :: ctx) t) := by
          refine isRedBlack_fill ⟨hs, hred, hctx'⟩ htn fun hneed => ?_
          rw [NeedsBlack, hf] at hneed
          cases hneed
        rwa [paint_of_color hrb.1]
      | red =>
        obtain ⟨hsc, hbla⟩ := hred hf
        cases ctx with
        | nil => exact absurd trivial hbla
        | cons g ctx =>
          have hg : g.color = .black := by
            cases hgc : g.color with
            | red => exact absurd hgc hbla
            | black => rfl
          have hcont : insertContinues ⟨h, root, ptr t, ctxPtr (f :: g :: ctx)⟩ = .ok true := by
            simp only [insertContinues, hh.ptr_ne_root, if_false, ctxPtr_cons, hh.deref_frame, bind,
              Except.bind, pure, Except.pure, sidedNode_color, hf, decide_true]
          obtain ⟨fuel, rfl⟩ : ∃ m, fuel = m + 1 :=
            Nat.exists_eq_add_one_of_ne_zero (by simp only [List.length_cons] at hfuel; omega)
          obtain ⟨hgs, -, hctx''⟩ := hctx'
          rw [hf, blackCount, Nat.add_zero] at hgs hctx''
          rw [hg, blackCount] at hctx''
          -- the two frames as the shape that a step works on
          obtain ⟨fs, fc, x, s⟩ := f
          obtain ⟨gs, gc, y, u⟩ := g
          cases hf
          cases hg
          simp only at hs hsc hgs
          have hstep := insertStep_eq (ptr t) hh
          simp only [fill_cons, Frame.plug] at hh
          simp only [ctxPtr_cons] at hcont
          cases huc : u.color with
          | red =>
            obtain ⟨h', hrun, hb⟩ := insertStepOn_redUncle (ptr t) hh huc
            have hun : Balanced (u.paint .black) (n + 1) := by
              obtain ⟨a, z, b, rfl⟩ := exists_sided_red .left huc
              obtain ⟨-, -, ha, hb⟩ := balanced_red.mp hgs
              rw [paint_sided]
              exact balanced_black.mpr ⟨n, rfl, ha, hb⟩
            have hbal : Balanced (sided gs .red (sided fs .black t x s) y (u.paint .black))
                (n + 1) :=
              balanced_red.mpr ⟨color_sided, color_paint_black, balanced_black.mpr
                ⟨n, rfl, htn, hs⟩, hun⟩
            obtain ⟨st, w, hloop, hb', hw⟩ := ih fuel (Nat.lt_succ_self _)
              (by simp only [List.length_cons] at hfuel; omega) hb.holds color_sided hbal hctx''
            refine ⟨st, w, ?_, hb.trans hb', hw⟩
            rw [ptr_sided] at hloop
            simp only [insertLoop, hcont, bind, Except.bind, if_true, ctxPtr_cons, hstep, hrun, hloop]
          | black =>
            obtain ⟨st, w, hrun, hb, ⟨m, hm, hmc⟩, hwc, hwn⟩ :=
              insertStepOn_blackUncle hh huc ht hsc htn hs hgs
            have hrb : IsRedBlack (fill ctx w) := isRedBlack_fill hctx'' hwn fun _ => hwc
            refine ⟨st, fill ctx w, ?_, hb, by rwa [paint_of_color hrb.1]⟩
            simp only [insertLoop, hcont, bind, Except.bind, if_true, ctxPtr_cons, hstep, hrun,
              insertLoop_stops fuel (insertContinues_black hm hmc)]

/-! ### Linking the new node -/

lemma not_mem_ptrs {p : Ptr} {par : Option Ptr} (hrep : Rep h t par) (hp : h.cell p = none) :
    p ∉ ptrs t := by
  intro hmem
  obtain ⟨x, hx, rfl⟩ := List.mem_map.mp hmem
  obtain ⟨n, hn, -⟩ := hrep.cell_of_mem hx
  rw [hp] at hn
  cases hn

lemma holds_link {p : Ptr} {u : α} (hp : h.cell p = none)
    (hh : Holds h root (fill (f :: ctx) .nil)) :
    ∃ h', (h.allocate p ⟨u, some f.label.1, none, none, .red⟩).modify (some f.label.1)
        (fun m => m.setChild f.side (some p)) = .ok h' ∧
      Holds h' root (fill (f :: ctx) (.node .red .nil (p, u) .nil)) ∧
      h'.live = h.live + 1 ∧ ∀ q, q ≠ p → q ≠ f.label.1 → h'.cell q = h.cell q := by
  have hfre := not_mem_ptrs hh.rep hp
  rw [mem_ptrs_fill, not_or, mem_ctxPtrs_cons, not_or, not_or] at hfre
  obtain ⟨-, hpf, hps, hpc⟩ := hfre
  obtain ⟨⟨hf, hs, hctx⟩, -⟩ := rep_fill.mp hh.rep
  obtain ⟨-, hndc, -⟩ := nodup_fill.mp hh.nodup
  have hndc' := List.nodup_cons.mp hndc
  simp only [List.mem_append, not_or] at hndc'
  obtain ⟨⟨hfs, hfc⟩, -⟩ := hndc'
  set h₁ := h.allocate p ⟨u, some f.label.1, none, none, .red⟩ with hdef₁
  have hcel₁ : ∀ q, q ≠ p → h₁.cell q = h.cell q := by
    intro q hq
    simp [hdef₁, Heap.allocate, hq]
  have hf₁ : h₁.cell f.label.1 = some (sidedNode f.side f.label.2 (ctxPtr ctx) none
      (ptr f.sibling) f.color) := by
    rw [hcel₁ _ (Ne.symm hpf), hf]
    rfl
  set h₂ := h₁.store f.label.1 (sidedNode f.side f.label.2 (ctxPtr ctx) (some p)
    (ptr f.sibling) f.color) with hdef₂
  have hcel₂ : ∀ q, q ≠ p → q ≠ f.label.1 → h₂.cell q = h.cell q := by
    grind [Heap.store_cell_of_ne]
  refine ⟨h₂, ?_, ⟨rep_fill.mpr ⟨⟨Heap.store_cell_self, ?_, ?_⟩, ?_, trivial, trivial⟩, ?_, ?_⟩, rfl,
    hcel₂⟩
  · rw [Heap.modify_some hf₁, sidedNode_setChild]
  · grind [rep_congr]
  · grind [repCtx_congr]
  · rw [hdef₂, Heap.store_cell_of_ne hpf, hdef₁]
    simp [Heap.allocate]
  · refine nodup_fill.mpr ⟨by simp [ptrs, toList], hndc, fun q hq => ?_⟩
    grind [ptrs, toList, mem_ctxPtrs_cons]
  · rw [hh.root_eq, ptr_fill, ptr_fill]
    rfl

lemma insertNode_spec {p : Ptr} {u : α} {r : ℤ} (hp : h.cell p = none)
    (hh : Holds h root (fill ctx .nil)) (hrb : IsRedBlack (fill ctx (.nil : RbTree (Entry α))))
    (hlive : (fill ctx (.nil : RbTree (Entry α))).toList.length ≤ h.live)
    (hr : ∀ f ∈ ctx.head?, r < 0 ↔ f.side = .left) :
    ∃ h' root' w, insertNode h root p u (ctxPtr ctx) r = .ok ⟨.success, some p, h', root'⟩ ∧
      Holds h' root' w ∧ IsRedBlack w ∧ w.toList = before ctx ++ (p, u) :: after ctx ∧
      h'.live = h.live + 1 ∧
      ∀ q, q ≠ p → q ∉ ptrs (fill ctx (.nil : RbTree (Entry α))) → h'.cell q = h.cell q := by
  cases ctx with
  | nil =>
    refine ⟨h.allocate p ⟨u, none, none, none, .black⟩, some p, .node .black .nil (p, u) .nil, ?_,
      ⟨⟨?_, trivial, trivial⟩, by simp [ptrs, toList], rfl⟩, ⟨rfl, 1, 0, rfl, rfl, rfl⟩, rfl, rfl,
      fun q hq _ => ?_⟩
    · simp [insertNode]
    · simp [Heap.allocate]
    · simp [Heap.allocate, hq]
  | cons f ctx =>
    obtain ⟨n, hctx, hnil, -⟩ := balanced_of_fill hrb
    obtain ⟨h₁, hlink, hh₁, hliv₁, hcel₁⟩ := holds_link (u := u) hp hh
    have hnode : Balanced (.node .red .nil (p, u) .nil : RbTree (Entry α)) n :=
      ⟨rfl, rfl, hnil, hnil⟩
    have hlen := length_le_toList (f :: ctx) (.nil : RbTree (Entry α))
    have hfuel : (f :: ctx).length ≤ h₁.live := by
      simp only [toList_nil, List.length_nil] at hlen
      omega
    obtain ⟨st, w, hloop, hb, hw⟩ := insertLoop_spec hfuel hh₁ rfl hnode hctx
    have hwne : w ≠ .nil := by
      rintro rfl
      have := hb.toList
      rw [toList_fill] at this
      simp [toList] at this
    have hwho : Holds st.heap st.newRoot (fill [] w) := hb.holds
    obtain ⟨h₂, hset, hb₂⟩ := setColor_ptr hwho hwne .black
    have hside : (if r < 0 then Side.left else Side.right) = f.side := by
      have := hr f rfl
      cases hs : f.side <;> simp_all
    refine ⟨h₂, st.newRoot, w.paint .black, ?_, hb₂.holds, hw, ?_, ?_, ?_⟩
    · rw [← hb.holds.root_eq] at hset
      simp only [ptr_node, ctxPtr_cons] at hloop
      simp only [insertNode, ctxPtr_cons, reduceCtorEq, if_false, hside, hlink, bind, Except.bind,
        hloop, hset, pure, Except.pure]
    · rw [toList_paint, hb.toList, toList_fill]
      simp [toList]
    · rw [hb₂.within.live, hb.within.live, hliv₁]
    · intro q hqp hq
      have hq₁ : q ∉ ptrs (fill (f :: ctx) (.node .red .nil (p, u) .nil : RbTree (Entry α))) := by
        grind [mem_ptrs_fill, ptrs_nil, ptrs, toList]
      have hqf : q ≠ f.label.1 := by
        rintro rfl
        exact hq (mem_ptrs_fill.mpr (.inr (mem_ctxPtrs_cons.mpr (.inl rfl))))
      rw [hb₂.within.outside q (by rwa [fill_nil, ptrs_eq hb.toList]),
        hb.within.outside q hq₁, hcel₁ q hqp hqf]

/-- A heap that holds a collection: a red-black tree of nodes ordered by the comparator. -/
structure Collection (userStructCompare : α → α → ℤ) (h : Heap α) (root : Option Ptr)
    (t : RbTree (Entry α)) : Prop where
  holds : Holds h root t
  redBlack : IsRedBlack t
  sorted : Sorted userStructCompare t.toList
  live : t.toList.length ≤ h.live

variable {userStructCompare : α → α → ℤ}

/-- What an insertion does: it reports a structure that compares equal, or fails without memory,
or links the new structure at its place in the order. -/
inductive InsertSpec (userStructCompare : α → α → ℤ) (allocatePool : Option Ptr) (h : Heap α)
    (root : Option Ptr) (t : RbTree (Entry α)) (u : α) : InsertResult α → Prop
  | collision {x : Entry α} : x ∈ t.toList → userStructCompare u x.2 = 0 →
      InsertSpec userStructCompare allocatePool h root t u ⟨.alreadyStarted, some x.1, h, root⟩
  | noMemory : allocatePool = none → (∀ x ∈ t.toList, userStructCompare u x.2 ≠ 0) →
      InsertSpec userStructCompare allocatePool h root t u ⟨.outOfResources, none, h, root⟩
  | success {p : Ptr} {h' : Heap α} {root' : Option Ptr} {w : RbTree (Entry α)}
      {l₁ l₂ : List (Entry α)} : allocatePool = some p →
      (∀ x ∈ t.toList, userStructCompare u x.2 ≠ 0) → Collection userStructCompare h' root' w →
      t.toList = l₁ ++ l₂ → w.toList = l₁ ++ (p, u) :: l₂ →
      (∀ q, q ≠ p → q ∉ ptrs t → h'.cell q = h.cell q) →
      InsertSpec userStructCompare allocatePool h root t u ⟨.success, some p, h', root'⟩

lemma insertUnchecked_spec (hc : IsComparator userStructCompare)
    (hcol : Collection userStructCompare h root t) {allocatePool : Option Ptr}
    (hfre : ∀ p ∈ allocatePool, h.cell p = none) (u : α) :
    ∃ r, insertUnchecked userStructCompare allocatePool h root u = .ok r ∧
      InsertSpec userStructCompare allocatePool h root t u r := by
  have hrep : Rep h (fill [] t) none := hcol.holds.rep
  have hnil : Descends (userStructCompare u) ([] : List (Frame (Entry α))) := by
    simp [Descends]
  rcases insertSearch_spec (r := 0) hrep hcol.live hnil (by simp) with
    ⟨y, hy, parent, heq, hrun⟩ | ⟨ctx, r, hfill, hd, hr, hrun⟩
  · refine ⟨_, ?_, .collision hy heq⟩
    rw [hcol.holds.root_eq]
    simp only [insertUnchecked, ctxPtr_nil] at hrun ⊢
    simp only [hrun, bind, Except.bind, ne_eq, reduceCtorEq, not_false_eq_true, if_true, pure,
      Except.pure]
  · rw [fill_nil] at hfill
    subst hfill
    obtain ⟨hbef, haft⟩ := hd.separates (hc.cut u) hcol.sorted
    have hdiff : ∀ x ∈ (fill ctx (.nil : RbTree (Entry α))).toList, userStructCompare u x.2 ≠ 0 := by
      grind [toList_fill, toList_nil]
    rw [ctxPtr_nil, ← hcol.holds.root_eq] at hrun
    cases hal : allocatePool with
    | none =>
      refine ⟨_, ?_, .noMemory rfl hdiff⟩
      simp only [insertUnchecked, hrun, bind, Except.bind, ne_eq, not_true, if_false, pure,
        Except.pure]
    | some p =>
      obtain ⟨h', root', w, hins, hh', hrb, hlist, hlive, hcell⟩ :=
        insertNode_spec (u := u) (hfre p hal) hcol.holds hcol.redBlack hcol.live hr
      have hold : (fill ctx (.nil : RbTree (Entry α))).toList = before ctx ++ after ctx := by
        rw [toList_fill, toList_nil, List.append_nil]
      refine ⟨_, ?_, .success rfl hdiff ⟨hh', hrb, ?_, ?_⟩ hold hlist hcell⟩
      · simp only [insertUnchecked, hrun, bind, Except.bind, ne_eq, not_true, if_false, hins]
      · have hsort := hcol.sorted
        rw [hold, Sorted, List.pairwise_append] at hsort
        rw [hlist, Sorted, List.pairwise_append, List.pairwise_cons]
        refine ⟨hsort.1, ⟨fun y hy => haft y hy, hsort.2.1⟩, fun x hx y hy => ?_⟩
        · rcases List.mem_cons.mp hy with rfl | hy
          · exact (hc.antisymm _ _).mpr (hbef x hx)
          · exact hsort.2.2 x hx y hy
      · have := hcol.live
        grind

end Edk2.OrderedCollection
