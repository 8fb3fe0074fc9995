import Edk2.OrderedCollection.Insert

/-!
# The rebalancing loop of the deletion

The subtree in the hole is one black node short of what its context expects. The loop moves the
hole upwards until a red node, a rotation or the root makes up for it.
-/

namespace Edk2.OrderedCollection

open RedBlack RedBlack.RbTree

variable {α : Type} {h h' : Heap α} {d : Side} {c k : Color} {x y z : Entry α}
  {t a b e w : RbTree (Entry α)} {ctx : List (Frame (Entry α))} {f : Frame (Entry α)}
  {root child : Option Ptr} {n : ℕ}

lemma deleteRedSibling_red (child : Option Ptr) (hane : a ≠ .nil)
    (hh : Holds h root (fill ctx (sided d .black t x (sided d .red a y b)))) :
    ∃ h' root', deleteRedSibling d ⟨h, root, child, some x.1⟩ =
        .ok (⟨h', root', child, some x.1⟩, ptr a) ∧
      Becomes h (fill ctx (sided d .black t x (sided d .red a y b))) h' root'
        (fill ctx (sided d .black (sided d .red t x a) y b)) := by
  obtain ⟨h₁, hset₁, hb₁⟩ := setColor_spec (fill_far ▸ hh) .black
  rw [← fill_far, ← fill_far] at hb₁
  obtain ⟨h₂, hset₂, hb₂⟩ := setColor_spec hb₁.holds .red
  obtain ⟨h', root', hrot, hb⟩ := rotate_spec hb₂.holds
  have hx := hb.holds
  rw [fill_near] at hx
  have hsib := (fill_far ▸ hh : Holds h root (fill (⟨d.other, .black, x, t⟩ :: ctx)
    (sided d .red a y b))).deref
  have hptr : ptr a ≠ none := fun hnone => hane (ptr_eq_none.mp hnone)
  refine ⟨h', root', ?_, hb₁.trans (hb₂.trans hb)⟩
  simp only [deleteRedSibling, hh.deref, bind, Except.bind, sidedNode_child_other, ptr_sided,
    assertThat, ne_eq, reduceCtorEq, not_false_eq_true, decide_true, if_true, hsib,
    sidedNode_color, hset₁, hset₂, hrot, hx.deref, hptr, pure, Except.pure]

lemma deleteRedSibling_black (child : Option Ptr)
    (hh : Holds h root (fill ctx (sided d c t x (sided d .black a y b)))) :
    deleteRedSibling d ⟨h, root, child, some x.1⟩ = .ok (⟨h, root, child, some x.1⟩, some y.1) := by
  have hsib := (fill_far ▸ hh : Holds h root (fill (⟨d.other, c, x, t⟩ :: ctx)
    (sided d .black a y b))).deref
  simp only [deleteRedSibling, hh.deref, bind, Except.bind, sidedNode_child_other, ptr_sided,
    assertThat, ne_eq, reduceCtorEq, not_false_eq_true, decide_true, if_true, hsib,
    sidedNode_color, if_false, pure, Except.pure]

lemma deleteNearNephew_red (child : Option Ptr) (he : e.color = .black)
    (hh : Holds h root (fill ctx (sided d c t x (sided d .black (sided d .red a z b) y e)))) :
    ∃ h' root', deleteNearNephew d ⟨h, root, child, some x.1⟩ (some y.1) (some z.1) (ptr e) =
        .ok (⟨h', root', child, some x.1⟩, some z.1, some y.1) ∧
      Becomes h (fill ctx (sided d c t x (sided d .black (sided d .red a z b) y e))) h' root'
        (fill ctx (sided d c t x (sided d .black a z (sided d .red b y e)))) := by
  have hsib : Holds h root (fill (⟨d.other, c, x, t⟩ :: ctx)
      (sided d .black (sided d .red a z b) y e)) := fill_far ▸ hh
  have herep : Rep h e (some y.1) := (rep_sided.mp (rep_fill.mp hsib.rep).2).2.2
  have hnear : Holds h root (fill (⟨d, .black, y, e⟩ :: ⟨d.other, c, x, t⟩ :: ctx)
      (sided d .red a z b)) := hsib
  obtain ⟨h₁, hset₁, hb₁⟩ := setColor_spec hnear .black
  have hh₁ : Holds h₁ root (fill (⟨d.other, c, x, t⟩ :: ctx)
      (sided d .black (sided d .black a z b) y e)) := hb₁.holds
  obtain ⟨h₂, hset₂, hb₂⟩ := setColor_spec hh₁ .red
  -- the rotation at the sibling, seen from the other side
  have hside : sided d .red (sided d .black a z b) y e =
      sided d.other .red e y (sided d.other .black b z a) := by
    rw [sided_other, sided_other]
  have hsid' : sided d .black a z (sided d .red b y e) =
      sided d.other .black (sided d.other .red e y b) z a := by
    rw [sided_other, sided_other]
  have hh₂ := hb₂.holds
  rw [hside] at hh₂
  obtain ⟨h', root', hrot, hb₃⟩ := rotate_spec hh₂
  rw [← hside, ← hsid'] at hb₃
  have hz := hb₃.holds.deref
  have hb : Becomes h (fill ctx (sided d c t x (sided d .black (sided d .red a z b) y e))) h' root'
      (fill ctx (sided d c t x (sided d .black a z (sided d .red b y e)))) := by
    have hfar : ∀ w, fill ctx (sided d c t x w) = fill (⟨d.other, c, x, t⟩ :: ctx) w :=
      fun _ => fill_far
    rw [hfar, hfar]
    exact hb₁.trans (hb₂.trans hb₃)
  refine ⟨h', root', ?_, hb⟩
  simp only [deleteNearNephew, nodeIsNullOrBlack_ptr herep, he, decide_true, if_true, bind,
    Except.bind, hset₁, hset₂, hrot, hb.holds.deref, sidedNode_child_other, ptr_sided, hz, pure,
    Except.pure]

lemma deleteNearNephew_far (child near : Option Ptr) (he : e.color = .red)
    (hh : Holds h root (fill ctx (sided d c t x (sided d .black a y e)))) :
    deleteNearNephew d ⟨h, root, child, some x.1⟩ (some y.1) near (ptr e) =
      .ok (⟨h, root, child, some x.1⟩, some y.1, ptr e) := by
  have hsib : Holds h root (fill (⟨d.other, c, x, t⟩ :: ctx) (sided d .black a y e)) :=
    fill_far ▸ hh
  have herep : Rep h e (some y.1) := (rep_sided.mp (rep_fill.mp hsib.rep).2).2.2
  simp only [deleteNearNephew, nodeIsNullOrBlack_ptr herep, he, reduceCtorEq, decide_false,
    Bool.false_eq_true, if_false, bind, Except.bind, pure, Except.pure]

lemma deleteFarNephew_spec (child : Option Ptr) (he : e.color = .red)
    (hh : Holds h root (fill ctx (sided d c t x (sided d .black a y e)))) :
    ∃ h' root', deleteFarNephew d ⟨h, root, child, some x.1⟩ (some y.1) (ptr e) =
        .ok ⟨h', root', root', some x.1⟩ ∧
      Becomes h (fill ctx (sided d c t x (sided d .black a y e))) h' root'
        (fill ctx (sided d c (sided d .black t x a) y (e.paint .black))) := by
  obtain ⟨e₁, z, e₂, rfl⟩ := exists_sided_red d he
  have hsib : Holds h root (fill (⟨d.other, c, x, t⟩ :: ctx)
      (sided d .black a y (sided d .red e₁ z e₂))) := fill_far ▸ hh
  have hfar : Holds h root (fill (⟨d.other, .black, y, a⟩ :: ⟨d.other, c, x, t⟩ :: ctx)
      (sided d .red e₁ z e₂)) := fill_far ▸ hsib
  obtain ⟨h₁, hset₁, hb₁⟩ := setColor_spec hsib c
  rw [← fill_far, ← fill_far] at hb₁
  obtain ⟨h₂, hset₂, hb₂⟩ := setColor_spec hb₁.holds .black
  have hh₂ : Holds h₂ root (fill (⟨d.other, c, y, a⟩ :: ⟨d.other, .black, x, t⟩ :: ctx)
      (sided d .red e₁ z e₂)) := by
    rw [← fill_far, ← fill_far]
    exact hb₂.holds
  obtain ⟨h₃, hset₃, hb₃⟩ := setColor_spec hh₂ .black
  rw [← fill_far, ← fill_far, ← fill_far, ← fill_far] at hb₃
  obtain ⟨h', root', hrot, hb₄⟩ := rotate_spec hb₃.holds
  rw [paint_sided]
  refine ⟨h', root', ?_, hb₁.trans (hb₂.trans (hb₃.trans hb₄))⟩
  simp only [deleteFarNephew, ptr_sided, assertThat, ne_eq, reduceCtorEq, not_false_eq_true,
    decide_true, if_true, bind, Except.bind, hfar.deref, sidedNode_color, hsib.deref, hh.deref,
    hset₁, hset₂, hset₃, hrot, pure, Except.pure]

lemma nephews (hh : Holds h root (fill ctx (sided d c t x (sided d .black a y e)))) :
    h.deref (some y.1) = .ok (sidedNode d y.2 (some x.1) (ptr a) (ptr e) .black) ∧
      nodeIsNullOrBlack h (ptr a) = .ok (a.color = .black) ∧
      nodeIsNullOrBlack h (ptr e) = .ok (e.color = .black) := by
  have hsib : Holds h root (fill (⟨d.other, c, x, t⟩ :: ctx) (sided d .black a y e)) :=
    fill_far ▸ hh
  obtain ⟨-, ha, he⟩ := rep_sided.mp (rep_fill.mp hsib.rep).2
  exact ⟨hsib.deref, nodeIsNullOrBlack_ptr ha, nodeIsNullOrBlack_ptr he⟩

lemma deleteStepOn_blackNephews {st : DeleteState α}
    (hred : deleteRedSibling d st = .ok (⟨h, root, child, some x.1⟩, some y.1))
    (hh : Holds h root (fill ctx (sided d c t x (sided d .black a y e))))
    (ha : a.color = .black) (he : e.color = .black) :
    ∃ h', deleteStepOn d st = .ok ⟨h', root, some x.1, ctxPtr ctx⟩ ∧
      Becomes h (fill ctx (sided d c t x (sided d .black a y e))) h' root
        (fill ctx (sided d c t x (sided d .red a y e))) := by
  obtain ⟨hy, hna, hne⟩ := nephews hh
  obtain ⟨h', hset, hb⟩ := setColor_spec (fill_far ▸ hh) .red
  rw [← fill_far, ← fill_far] at hb
  refine ⟨h', ?_, hb⟩
  simp only [deleteStepOn, hred, bind, Except.bind, hy, sidedNode_color, assertThat, decide_true,
    if_true, sidedNode_child, sidedNode_child_other, hna, hne, ha, he, Bool.and_self, hset,
    hb.holds.deref, sidedNode_parent, pure, Except.pure]

lemma deleteStepOn_redNephew {st : DeleteState α}
    (hred : deleteRedSibling d st = .ok (⟨h, root, child, some x.1⟩, some y.1))
    (hh : Holds h root (fill ctx (sided d c t x (sided d .black a y e))))
    (hnep : ¬ (a.color = .black ∧ e.color = .black)) (ht : Balanced t n) (ha : Balanced a n)
    (he : Balanced e n) :
    ∃ h' root' near v far, deleteStepOn d st = .ok ⟨h', root', root', some x.1⟩ ∧
      Becomes h (fill ctx (sided d c t x (sided d .black a y e))) h' root'
        (fill ctx (sided d c near v far)) ∧
      (near.color = .black ∧ far.color = .black) ∧ Balanced near (n + 1) ∧
      Balanced far (n + 1) := by
  obtain ⟨hy, hna, hne⟩ := nephews hh
  cases hec : e.color with
  | red =>
    have hnear := deleteNearNephew_far child (ptr a) hec hh
    obtain ⟨h', root', hfar, hb⟩ := deleteFarNephew_spec child hec hh
    refine ⟨h', root', _, _, _, ?_, hb, ⟨color_sided, color_paint_black⟩,
      balanced_black.mpr ⟨n, rfl, ht, ha⟩, ?_⟩
    · simp only [deleteStepOn, hred, bind, Except.bind, hy, sidedNode_color, assertThat,
        decide_true, if_true, sidedNode_child, sidedNode_child_other, hna, hne, hec, reduceCtorEq,
        decide_false, Bool.and_false, Bool.false_eq_true, if_false, hnear, hfar]
    · obtain ⟨e₁, z, e₂, rfl⟩ := exists_sided_red d hec
      obtain ⟨-, -, he₁, he₂⟩ := balanced_red.mp he
      rw [paint_sided]
      exact balanced_black.mpr ⟨n, rfl, he₁, he₂⟩
  | black =>
    have hac : a.color = .red := by
      cases hac : a.color with
      | red => rfl
      | black => exact absurd ⟨hac, hec⟩ hnep
    obtain ⟨a₁, z, a₂, rfl⟩ := exists_sided_red d hac
    obtain ⟨ha₁c, ha₂c, ha₁, ha₂⟩ := balanced_red.mp ha
    obtain ⟨h₁, root₁, hnear, hb₁⟩ := deleteNearNephew_red child hec hh
    obtain ⟨h', root', hfar, hb₂⟩ := deleteFarNephew_spec child color_sided hb₁.holds
    rw [ptr_sided] at hfar
    rw [paint_sided] at hb₂
    refine ⟨h', root', _, _, _, ?_, hb₁.trans hb₂, ⟨color_sided, color_sided⟩,
      balanced_black.mpr ⟨n, rfl, ht, ha₁⟩, balanced_black.mpr ⟨n, rfl, ha₂, he⟩⟩
    rw [ptr_sided, color_sided] at hna
    rw [ptr_sided] at hy
    simp only [deleteStepOn, hred, bind, Except.bind, hy, sidedNode_color, assertThat,
      decide_true, if_true, sidedNode_child, sidedNode_child_other, hna, hne, reduceCtorEq,
      decide_false, Bool.false_and, Bool.false_eq_true, if_false, hnear, hfar]

/-! ### The loop -/

lemma deleteLoop_stops {st : DeleteState α} (fuel : ℕ) (hc : deleteContinues st = .ok false) :
    deleteLoop fuel st = .ok st := by
  cases fuel <;>
    simp only [deleteLoop, hc, bind, Except.bind, Bool.false_eq_true, if_false, pure, Except.pure]

lemma deleteStep_eq (hh : Holds h root (fill (f :: ctx) t)) (hs : f.sibling ≠ .nil) :
    deleteStep ⟨h, root, ptr t, some f.label.1⟩ =
      deleteStepOn f.side ⟨h, root, ptr t, some f.label.1⟩ := by
  have hne : ptr t ≠ ptr f.sibling := by
    by_cases ht : t = .nil
    · intro heq
      rw [ht, ptr_nil, eq_comm, ptr_eq_none] at heq
      exact hs heq
    · exact hh.sibling_ne ht
  simp only [deleteStep, hh.deref_frame, bind, Except.bind, sidedNode_left hne]
  cases f.side <;> simp

/-- The sibling, once it is black: either it was, or it is a child of the old one and the parent
has become red. -/
lemma deleteRedSibling_spec (hh : Holds h root (fill (f :: ctx) t))
    (hctx : CtxBalanced (f :: ctx) (n + 1)) (child : Option Ptr) :
    ∃ h' root' c' ctx' a y e, deleteRedSibling f.side ⟨h, root, child, some f.label.1⟩ =
        .ok (⟨h', root', child, some f.label.1⟩, some y.1) ∧
      Becomes h (fill (f :: ctx) t) h' root'
        (fill ctx' (sided f.side c' t f.label (sided f.side .black a y e))) ∧
      Balanced a n ∧ Balanced e n ∧ (c' = .red → ¬ NeedsBlack ctx') ∧
      CtxBalanced ctx' (n + 1 + blackCount c') ∧ ((c' = f.color ∧ ctx' = ctx) ∨ c' = .red) := by
  obtain ⟨d, c, x, w⟩ := f
  obtain ⟨hw, hred, hctx'⟩ := hctx
  simp only at hw hred hctx'
  rw [fill_cons, Frame.plug] at hh ⊢
  obtain ⟨k, a, y, e, rfl⟩ := exists_sided d (ne_nil_of_balanced hw)
  cases k with
  | black =>
    obtain ⟨m, hm, ha, he⟩ := balanced_black.mp hw
    obtain rfl : n = m := by omega
    exact ⟨h, root, c, ctx, a, y, e, deleteRedSibling_black child hh, ⟨hh, rfl, .refl⟩, ha, he,
      fun hc => (hred hc).2, hctx', .inl ⟨rfl, rfl⟩⟩
  | red =>
    obtain ⟨hac, hec, ha, he⟩ := balanced_red.mp hw
    have hc : c = .black := by
      cases c with
      | red =>
        have := (hred rfl).1
        rw [color_sided] at this
        cases this
      | black => rfl
    subst hc
    obtain ⟨h', root', hrun, hb⟩ := deleteRedSibling_red child (ne_nil_of_balanced ha) hh
    obtain ⟨k, a₁, z, a₂, rfl⟩ := exists_sided d (ne_nil_of_balanced ha)
    rw [color_sided] at hac
    subst hac
    obtain ⟨m, hm, ha₁, ha₂⟩ := balanced_black.mp ha
    obtain rfl : n = m := by omega
    rw [ptr_sided] at hrun
    refine ⟨h', root', .red, ⟨d, .black, y, e⟩ :: ctx, a₁, z, a₂, hrun, hb, ha₁, ha₂, ?_,
      ⟨he, ?_, hctx'⟩, .inr rfl⟩
    · intro _ hneed
      cases hneed
    · intro hneed
      cases hneed

/-- From a hole that is one black node short the loop reaches a tree that is red-black once the
node it stops at is painted black. -/
lemma deleteLoop_spec {fuel : ℕ} (hfuel : ctx.length ≤ fuel) (hh : Holds h root (fill ctx t))
    (ht : Balanced t n) (hctx : CtxBalanced ctx (n + 1)) :
    ∃ st ctx' t', deleteLoop fuel ⟨h, root, ptr t, ctxPtr ctx⟩ = .ok st ∧
      Becomes h (fill ctx t) st.heap st.newRoot (fill ctx' t') ∧ st.child = ptr t' ∧
      IsRedBlack (fill ctx' (t'.paint .black)) := by
  induction fuel generalizing h root t ctx n with
  | zero =>
    obtain rfl : ctx = [] := List.eq_nil_of_length_eq_zero (by omega)
    have hstop : deleteContinues ⟨h, root, ptr t, none⟩ = .ok false := by
      simp only [deleteContinues, hh.root_eq, fill_nil, if_true]
    exact ⟨_, [], t, deleteLoop_stops 0 hstop, ⟨hh, rfl, .refl⟩, rfl, color_paint_black,
      ht.paint_black⟩
  | succ fuel ih =>
    cases ctx with
    | nil =>
      have hstop : deleteContinues ⟨h, root, ptr t, none⟩ = .ok false := by
        simp only [deleteContinues, hh.root_eq, fill_nil, if_true]
      exact ⟨_, [], t, deleteLoop_stops _ hstop, ⟨hh, rfl, .refl⟩, rfl, color_paint_black,
        ht.paint_black⟩
    | cons f ctx =>
      have htrep := (rep_fill.mp hh.rep).2
      have hcont : deleteContinues ⟨h, root, ptr t, some f.label.1⟩ =
          .ok (decide (t.color = .black)) := by
        simp only [deleteContinues, hh.ptr_ne_root, if_false, nodeIsNullOrBlack_ptr htrep]
      cases htc : t.color with
      | red =>
        -- a red node in the hole is painted black
        rw [htc] at hcont
        refine ⟨_, f :: ctx, t, deleteLoop_stops _ hcont, ⟨hh, rfl, .refl⟩, rfl, ?_⟩
        obtain ⟨a, z, b, rfl⟩ := exists_sided_red .left htc
        obtain ⟨-, -, ha, hb⟩ := balanced_red.mp ht
        rw [paint_sided]
        exact isRedBlack_fill hctx (balanced_black.mpr ⟨n, rfl, ha, hb⟩) fun _ => color_sided
      | black =>
        rw [htc] at hcont
        obtain ⟨h₁, root₁, c', ctx', a, y, e, hred, hb₁, ha, he, hneed, hctx', hcase⟩ :=
          deleteRedSibling_spec hh hctx (ptr t)
        have hstep := deleteStep_eq hh (ne_nil_of_balanced hctx.1)
        have hloop : ∀ st, deleteStepOn f.side ⟨h, root, ptr t, some f.label.1⟩ = .ok st →
            deleteLoop (fuel + 1) ⟨h, root, ptr t, some f.label.1⟩ = deleteLoop fuel st := by
          intro st hst
          simp only [deleteLoop, hcont, decide_true, if_true, bind, Except.bind, hstep, hst]
        by_cases hnep : a.color = .black ∧ e.color = .black
        · obtain ⟨h₂, hrun, hb₂⟩ :=
            deleteStepOn_blackNephews hred hb₁.holds hnep.1 hnep.2
          have hsib : Balanced (sided f.side .red a y e) n :=
            balanced_red.mpr ⟨hnep.1, hnep.2, ha, he⟩
          cases hc : c' with
          | red =>
            -- the parent is red: the loop stops there
            subst hc
            have hprep := (rep_fill.mp hb₂.holds.rep).2
            have hstop : deleteContinues ⟨h₂, root₁, some f.label.1, ctxPtr ctx'⟩ = .ok false := by
              grind [ptr_sided, color_sided, deleteContinues, nodeIsNullOrBlack_ptr]
            refine ⟨_, ctx', _, (hloop _ hrun).trans (deleteLoop_stops _ hstop), hb₁.trans hb₂,
              ptr_sided.symm, ?_⟩
            rw [paint_sided]
            exact isRedBlack_fill hctx' (balanced_black.mpr ⟨n, rfl, ht, hsib⟩) fun _ => color_sided
          | black =>
            subst hc
            obtain ⟨-, rfl⟩ : (Color.black = f.color ∧ ctx' = ctx) := by
              grind
            obtain ⟨st, ctx'', t', hrec, hb₃, hchi, hrb⟩ := ih
              (by simp only [List.length_cons] at hfuel; omega) hb₂.holds
              (balanced_black.mpr ⟨n, rfl, ht, hsib⟩) hctx'
            rw [ptr_sided] at hrec
            exact ⟨st, ctx'', t', (hloop _ hrun).trans hrec, hb₁.trans (hb₂.trans hb₃), hchi, hrb⟩
        · obtain ⟨h₂, root₂, near, v, far, hrun, hb₂, hcol, hnear, hfar⟩ :=
            deleteStepOn_redNephew hred hb₁.holds hnep ht ha he
          have hstop : deleteContinues ⟨h₂, root₂, root₂, some f.label.1⟩ = .ok false := by
            simp only [deleteContinues, if_true]
          have hbal : Balanced (sided f.side c' near v far) (n + 1 + blackCount c') :=
            balanced_plug (f := ⟨f.side, c', v, far⟩) hnear hfar fun _ => hcol
          have hrb : IsRedBlack (fill ctx' (sided f.side c' near v far)) := by
            refine isRedBlack_fill hctx' hbal fun hn => ?_
            rw [color_sided]
            cases c' with
            | red => exact absurd hn (hneed rfl)
            | black => rfl
          refine ⟨_, [], fill ctx' (sided f.side c' near v far),
            (hloop _ hrun).trans (deleteLoop_stops _ hstop), hb₁.trans hb₂, hb₂.holds.root_eq, ?_⟩
          rwa [fill_nil, paint_of_color hrb.1]

end Edk2.OrderedCollection
