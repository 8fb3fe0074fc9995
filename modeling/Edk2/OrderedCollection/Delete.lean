import Edk2.OrderedCollection.DeleteLoop

/-!
# Deletion

Before the loop runs, the node is unlinked: a node with at most one child is replaced by it, a
node with two children by its successor, which is taken out of the right subtree first. A segment
is a context inside a subtree; it ends at the parent of that subtree instead of the root.
-/

namespace Edk2.OrderedCollection

open RedBlack RedBlack.RbTree

variable {α : Type} {h h' : Heap α} {c k : Color} {x y : Entry α}
  {t l r b : RbTree (Entry α)} {ctx seg : List (Frame (Entry α))} {f : Frame (Entry α)}
  {root par hole : Option Ptr} {p : Ptr} {u : α} {n : ℕ}

/-- The parent of the hole of a segment below `par`. -/
def segPtr (par : Option Ptr) : List (Frame (Entry α)) → Option Ptr
  | [] => par
  | f :: _ => some f.label.1

/-- The frames of a segment lie in the heap, below `par` and around a subtree with root `hole`. -/
def RepSeg (h : Heap α) (par : Option Ptr) : List (Frame (Entry α)) → Option Ptr → Prop
  | [], _ => True
  | f :: seg, hole =>
    h.cell f.label.1 =
        some (sidedNode f.side f.label.2 (segPtr par seg) hole (ptr f.sibling) f.color) ∧
      Rep h f.sibling (some f.label.1) ∧ RepSeg h par seg (some f.label.1)

lemma rep_fill_seg :
    Rep h (fill seg t) par ↔ RepSeg h par seg (ptr t) ∧ Rep h t (segPtr par seg) := by
  induction seg generalizing t with
  | nil => simp [RepSeg, segPtr]
  | cons f seg ih =>
    rw [fill_cons, ih, ptr_plug, Frame.plug, rep_sided, RepSeg, segPtr]
    tauto

lemma repSeg_congr (hcell : ∀ p ∈ ctxPtrs seg, h'.cell p = h.cell p)
    (hrep : RepSeg h par seg hole) : RepSeg h' par seg hole := by
  induction seg generalizing hole with
  | nil => trivial
  | cons f seg ih =>
    obtain ⟨hf, hs, hseg⟩ := hrep
    refine ⟨(hcell _ (mem_ctxPtrs_cons.mpr (.inl rfl))).trans hf, rep_congr (fun p hp => ?_) hs,
      ih (fun p hp => ?_) hseg⟩
    · exact hcell p (mem_ctxPtrs_cons.mpr (.inr (.inl hp)))
    · exact hcell p (mem_ctxPtrs_cons.mpr (.inr (.inr hp)))

lemma repSeg_setParent (q : Option Ptr) (hrep : RepSeg h par (f :: seg) hole)
    (hnd : (ctxPtrs (f :: seg)).Nodup) :
    ∃ h', h.setParent (rootPtr (f :: seg) hole) q = .ok h' ∧ RepSeg h' q (f :: seg) hole ∧
      Within h h' (ctxPtrs (f :: seg)) := by
  induction seg generalizing f hole with
  | nil =>
    obtain ⟨hf, hs, -⟩ := hrep
    have hfs : f.label.1 ∉ ptrs f.sibling := by
      grind [ctxPtrs]
    have hw := within_store (h := h) (p := f.label.1)
      (n := sidedNode f.side f.label.2 q hole (ptr f.sibling) f.color)
    refine ⟨_, ?_, ⟨Heap.store_cell_self, hw.rep (fun p hp => ?_) hs, trivial⟩, hw.mono ?_⟩
    · simp only [rootPtr, Heap.setParent, Heap.modify_some hf, sidedNode_setParent, segPtr]
    · rw [List.mem_singleton]
      rintro rfl
      exact hfs hp
    · intro p hp
      exact mem_ctxPtrs_cons.mpr (.inl (List.mem_singleton.mp hp))
  | cons g seg ih =>
    obtain ⟨hf, hs, hseg⟩ := hrep
    have hnd' := List.nodup_cons.mp hnd
    simp only [List.mem_append, not_or] at hnd'
    obtain ⟨⟨hfs, hfc⟩, hnd''⟩ := hnd'
    obtain ⟨-, hndg, hdisj⟩ := List.nodup_append.mp hnd''
    obtain ⟨h', hrun, hseg', hw⟩ := ih hseg hndg
    refine ⟨h', hrun, ⟨?_, hw.rep (fun p hp hpc => hdisj p hp p hpc rfl) hs, hseg'⟩,
      hw.mono fun p hp => mem_ctxPtrs_cons.mpr (.inr (.inr hp))⟩
    rw [hw.outside _ hfc, hf]
    rfl

lemma exists_leftmost (hne : t ≠ .nil) :
    ∃ seg c y b, t = fill seg (.node c .nil y b) ∧ ∀ f ∈ seg, f.side = .left := by
  induction t with
  | nil => exact absurd rfl hne
  | node c l x r ihl =>
    by_cases hl : l = .nil
    · exact ⟨[], c, x, r, by rw [hl]; rfl, by simp⟩
    · obtain ⟨seg, k, y, b, hfill, hside⟩ := ihl hl
      refine ⟨seg ++ [⟨.left, c, x, r⟩], k, y, b, ?_, ?_⟩
      · rw [fill_append, ← hfill]
        rfl
      grind

lemma before_left (hside : ∀ f ∈ seg, f.side = .left) : before seg = [] := by
  induction seg with
  | nil => rfl
  | cons f seg ih =>
    grind [before]

lemma exists_root_left (hside : ∀ g ∈ f :: seg, g.side = .left) (hne : t ≠ .nil) :
    ∃ c l x r, fill (f :: seg) t = .node c l x r ∧ l ≠ .nil := by
  induction seg generalizing f t with
  | nil =>
    refine ⟨f.color, t, f.label, f.sibling, ?_, hne⟩
    rw [fill_cons, fill_nil, Frame.plug, hside f List.mem_cons_self]
    rfl
  | cons g seg ih =>
    exact ih (fun g' hg' => hside g' (List.mem_cons_of_mem _ hg')) sided_ne_nil

lemma free_cell_of_ne {q : Ptr} (hne : q ≠ p) : (h.free p).cell q = h.cell q := by
  simp [Heap.free, hne]

lemma holds_free (hrep : Rep h t none) (hnd : (ptrs t).Nodup) (hroot : root = ptr t)
    (hp : p ∉ ptrs t) : Holds (h.free p) root t := by
  refine ⟨rep_congr (fun q hq => free_cell_of_ne ?_) hrep, hnd, hroot⟩
  rintro rfl
  exact hp hq

/-! ### Unlinking -/

lemma ctxPtr_mem : ∀ q ∈ (ctxPtr ctx).toList, q ∈ ctxPtrs ctx := by
  cases ctx with
  | nil => simp
  | cons f ctx => simp [ctxPtrs]

lemma unlinkLeaf_spec (hh : Holds h root (fill ctx (.node c l (p, u) r)))
    (hnil : l = .nil ∨ r = .nil) :
    ∃ h' root' b, unlinkLeaf h root (some p) ⟨u, ctxPtr ctx, ptr l, ptr r, c⟩ =
        .ok (⟨h', root', ptr b, ctxPtr ctx⟩, c) ∧
      Holds (h'.free p) root' (fill ctx b) ∧ b.toList = l.toList ++ r.toList ∧
      Within h h' (ptrs (fill ctx (.node c l (p, u) r))) ∧ (b = l ∨ b = r) := by
  rw [show RbTree.node c l (p, u) r = sided .left c l (p, u) r from rfl] at hh ⊢
  obtain ⟨hctx, hp, hl, hr⟩ := (rep_fill.trans (and_congr_right fun _ => rep_sided)).mp hh.rep
  obtain ⟨hndt, hndc, hdisj⟩ := nodup_fill.mp hh.nodup
  obtain ⟨hpl, hpr, hndl, hndr, -⟩ := nodup_sided.mp hndt
  rw [ptr_sided] at hctx
  -- the subtree that moves up
  obtain ⟨b, hbptr, hb, hbmem, hpb, hndb, hlist, hor⟩ : ∃ b : RbTree (Entry α),
      (if ptr l ≠ none then ptr l else ptr r) = ptr b ∧ Rep h b (some p) ∧
      (∀ q ∈ ptrs b, q ∈ ptrs (sided .left c l (p, u) r)) ∧ p ∉ ptrs b ∧ (ptrs b).Nodup ∧
      b.toList = l.toList ++ r.toList ∧ (b = l ∨ b = r) := by
    by_cases hlnil : l = .nil
    · subst hlnil
      exact ⟨r, by simp, hr, fun q hq => mem_ptrs_sided.mpr (.inr (.inr hq)), hpr, hndr, rfl,
        .inr rfl⟩
    · have hrnil : r = .nil := hnil.resolve_left hlnil
      subst hrnil
      have hptr : ptr l ≠ none := fun hnone => hlnil (ptr_eq_none.mp hnone)
      exact ⟨l, by simp [hptr], hl, fun q hq => mem_ptrs_sided.mpr (.inr (.inl hq)), hpl, hndl,
        by simp, .inl rfl⟩
  have hbc : ∀ q ∈ ptrs b, q ∉ ctxPtrs ctx := fun q hq => hdisj q (hbmem q hq)
  have hpc : p ∉ ctxPtrs ctx := hdisj p (mem_ptrs_sided.mpr (.inl rfl))
  obtain ⟨h₁, hset, hb₁, hw₁⟩ := setParentOf_spec hb hndb (ctxPtr ctx)
  have hctx₁ : RepCtx h₁ ctx (some p) := hw₁.repCtx (fun q hq hqb => hbc q hqb hq) hctx
  obtain ⟨h₂, hrepl, hctx₂, hw₂⟩ := replaceChild_spec (ptr b) hctx₁ hndc (by simpa using hpc)
    (by simp) (hh.root_eq.trans (by rw [ptr_fill, ptr_sided]))
  have hb₂ : Rep h₂ b (ctxPtr ctx) :=
    hw₂.rep (fun q hq hqc => hbc q hq (ctxPtr_mem q hqc)) hb₁
  refine ⟨h₂, rootPtr ctx (ptr b), b, ?_, holds_free (rep_fill.mpr ⟨hctx₂, hb₂⟩)
    (nodup_fill.mpr ⟨hndb, hndc, hbc⟩) (ptr_fill _ _).symm ?_, hlist, ?_, hor⟩
  · simp only [unlinkLeaf, hbptr, hset, bind, Except.bind, hrepl, pure, Except.pure]
  · grind [mem_ptrs_fill]
  · refine (hw₁.mono fun q hq => ?_).trans (hw₂.mono fun q hq => ?_)
    · exact mem_ptrs_fill.mpr (.inl (hbmem q hq))
    · exact mem_ptrs_fill.mpr (.inr (ctxPtr_mem q hq))

lemma unlinkSuccessor_spec (hside : ∀ f ∈ seg, f.side = .left)
    (hr : Rep h (fill seg (.node k .nil y b)) (some p))
    (hnd : (ptrs (fill seg (.node k .nil y b))).Nodup)
    (hlive : (fill seg (.node k .nil y b)).toList.length ≤ h.live) {m : Node α}
    (hm : h.deref (ptr (fill seg (.node k .nil y b))) = .ok m) :
    ∃ h' q, unlinkSuccessor h (ptr (fill seg (.node k .nil y b))) m =
        .ok (h', some y.1, segPtr (some y.1) seg, ptr b) ∧
      Rep h' (fill seg b) (some y.1) ∧
      h'.cell y.1 = some ⟨y.2, q, none, ptr (fill seg b), k⟩ ∧
      Within h h' (ptrs (fill seg (.node k .nil y b))) := by
  rw [show RbTree.node k .nil y b = sided .left k .nil y b from rfl] at hr hnd hlive hm ⊢
  obtain ⟨hseg, hy, -, hb⟩ := (rep_fill_seg.trans (and_congr_right fun _ => rep_sided)).mp hr
  obtain ⟨hndt, hnds, hdisj⟩ := nodup_fill.mp hnd
  obtain ⟨-, hyb, -, hndb, -⟩ := nodup_sided.mp hndt
  have hys : y.1 ∉ ctxPtrs seg := hdisj _ (mem_ptrs_sided.mpr (.inl rfl))
  have hbs : ∀ q ∈ ptrs b, q ∉ ctxPtrs seg :=
    fun q hq => hdisj q (mem_ptrs_sided.mpr (.inr (.inr hq)))
  cases seg with
  | nil =>
    rw [fill_nil, ptr_sided, Heap.deref_some hy] at hm
    cases hm
    exact ⟨h, some p, rfl, hb, hy, .refl⟩
  | cons f seg =>
    have hf := hside f List.mem_cons_self
    -- the walk to the left ends at the successor
    obtain ⟨cr, rl, xr, rr, hroot, hrl⟩ := exists_root_left hside
      (sided_ne_nil : sided .left k .nil y b ≠ .nil)
    have hlist : (fill (f :: seg) (sided .left k .nil y b)).toList =
        y :: (b.toList ++ after (f :: seg)) := by
      rw [toList_fill, before_left hside]
      rfl
    have hwalk : extreme .left h h.live m.left = .ok (some y.1) ∧ m.left ≠ none := by
      rw [hroot] at hr hm hlist hlive
      obtain ⟨hxr, hrlr, -⟩ := hr
      rw [ptr_node, Heap.deref_some hxr] at hm
      cases hm
      simp only [toList, List.length_append, List.length_cons] at hlive hlist
      obtain ⟨z, hz, hrun⟩ := extreme_spec (d := .left) hrlr hrl (by omega : _ ≤ h.live)
      have hzy : z = y := by
        obtain ⟨v, vs, hv⟩ := List.exists_cons_of_ne_nil
          (fun hnil => hrl (walkList_eq_nil.mp hnil) : walkList (α := α) .right rl ≠ [])
        grind [walkList, Side.other, List.head?_cons, Option.mem_some_iff, List.cons.injEq]
      exact ⟨hzy ▸ hrun, fun hnone => hrl (ptr_eq_none.mp hnone)⟩
    obtain ⟨hfce, hfs, hseg'⟩ := hseg
    have hnds' := List.nodup_cons.mp hnds
    simp only [List.mem_append, not_or] at hnds'
    obtain ⟨⟨hffs, hfseg⟩, -⟩ := hnds'
    have hfy : f.label.1 ≠ y.1 := fun heq => hys (mem_ctxPtrs_cons.mpr (.inl heq.symm))
    have hfb : f.label.1 ∉ ptrs b := fun hq => hbs _ hq (mem_ctxPtrs_cons.mpr (.inl rfl))
    -- the writes
    set h₁ := h.store f.label.1 (sidedNode f.side f.label.2 (segPtr (some p) seg) (ptr b)
      (ptr f.sibling) f.color) with hdef₁
    have hw₁ : Within h h₁ [f.label.1] := within_store
    have hmod₁ : h.modify (some f.label.1) (fun n => { n with left := ptr b }) = .ok h₁ := by
      rw [Heap.modify_some hfce, hdef₁, hf]
      rfl
    have hseg₁ : RepSeg h₁ (some p) (f :: seg) (ptr b) := by
      refine ⟨Heap.store_cell_self, hw₁.rep (fun q hq => ?_) hfs,
        repSeg_congr (fun q hq => hw₁.outside q ?_) hseg'⟩
      · rw [List.mem_singleton]
        rintro rfl
        exact hffs hq
      · rw [List.mem_singleton]
        rintro rfl
        exact hfseg hq
    have hb₁ : Rep h₁ b (some y.1) := hw₁.rep (fun q hq => by
      rw [List.mem_singleton]
      rintro rfl
      exact hfb hq) hb
    obtain ⟨h₂, hset₂, hb₂, hw₂⟩ := setParentOf_spec hb₁ hndb (some f.label.1)
    have hy₂ : h₂.cell y.1 = some ⟨y.2, some f.label.1, none, ptr b, k⟩ := by
      rw [hw₂.outside _ hyb, hw₁.outside _ (by simpa using hfy.symm), hy]
      rfl
    set h₃ := h₂.store y.1 ⟨y.2, some f.label.1, none,
      ptr (fill (f :: seg) (sided .left k .nil y b)), k⟩ with hdef₃
    have hw₃ : Within h₂ h₃ [y.1] := within_store
    have hseg₃ : RepSeg h₃ (some p) (f :: seg) (ptr b) := by
      refine repSeg_congr (fun q hq => ?_) hseg₁
      rw [hw₃.outside q, hw₂.outside q fun hqb => hbs q hqb hq]
      rw [List.mem_singleton]
      rintro rfl
      exact hys hq
    obtain ⟨h₄, hset₄, hseg₄, hw₄⟩ := repSeg_setParent (some y.1) hseg₃ hnds
    have hroo : ptr (fill (f :: seg) b) = ptr (fill (f :: seg) (sided .left k .nil y b)) := by
      rw [ptr_fill, ptr_fill]
      rfl
    have hb₄ : Rep h₄ b (some f.label.1) := by
      refine hw₄.rep hbs (hw₃.rep (fun q hq => ?_) hb₂)
      rw [List.mem_singleton]
      rintro rfl
      exact hyb hq
    refine ⟨h₄, some f.label.1, ?_, rep_fill_seg.mpr ⟨hseg₄, hb₄⟩, ?_, ?_⟩
    · have hset₄' : h₃.setParent (ptr (fill (f :: seg) (sided .left k .nil y b))) (some y.1) =
          .ok h₄ := by
        rw [ptr_fill]
        exact hset₄
      have hyd : h.deref (some y.1) = .ok ⟨y.2, some f.label.1, none, ptr b, k⟩ :=
        Heap.deref_some hy
      simp only [unlinkSuccessor, hwalk.2, if_false, hwalk.1, bind, Except.bind, hyd, hmod₁, hset₂,
        Heap.modify_some hy₂, ← hdef₃, hset₄', pure, Except.pure, segPtr]
    · rw [hw₄.outside _ hys, hdef₃, Heap.store_cell_self, hroo]
    · have hmem : ∀ q, q ∈ ctxPtrs (f :: seg) → q ∈ ptrs (fill (f :: seg)
          (sided .left k .nil y b)) := fun q hq => mem_ptrs_fill.mpr (.inr hq)
      refine (hw₁.mono fun q hq => ?_).trans ((hw₂.mono fun q hq => ?_).trans
        ((hw₃.mono fun q hq => ?_).trans (hw₄.mono hmem)))
      · exact hmem q (mem_ctxPtrs_cons.mpr (.inl (List.mem_singleton.mp hq)))
      · exact mem_ptrs_fill.mpr (.inl (mem_ptrs_sided.mpr (.inr (.inr hq))))
      · exact mem_ptrs_fill.mpr (.inl (mem_ptrs_sided.mpr (.inl (List.mem_singleton.mp hq))))

lemma segPtr_eq_ctxPtr : segPtr (some f.label.1) seg = ctxPtr (seg ++ f :: ctx) := by
  cases seg <;> rfl

lemma not_mem_singleton {q : Ptr} {s : List Ptr} (hp : p ∉ s) (hq : q ∈ s) : q ∉ [p] := by
  rw [List.mem_singleton]
  rintro rfl
  exact hp hq

lemma unlinkInner_spec (hside : ∀ f ∈ seg, f.side = .left) (hl : l ≠ .nil)
    (hh : Holds h root (fill ctx (.node c l (p, u) (fill seg (.node k .nil y b)))))
    (hlive : (fill seg (.node k .nil y b)).toList.length ≤ h.live) :
    ∃ h' root', unlinkInner h root (some p)
          ⟨u, ctxPtr ctx, ptr l, ptr (fill seg (.node k .nil y b)), c⟩ =
        .ok (⟨h', root', ptr b, ctxPtr (seg ++ ⟨.right, c, y, l⟩ :: ctx)⟩, k) ∧
      Holds (h'.free p) root' (fill (seg ++ ⟨.right, c, y, l⟩ :: ctx) b) ∧
      Within h h' (ptrs (fill ctx (.node c l (p, u) (fill seg (.node k .nil y b))))) := by
  obtain ⟨ck, rl, xr, rr, hr⟩ : ∃ ck rl xr rr, fill seg (.node k .nil y b) = .node ck rl xr rr := by
    cases hs : fill seg (.node k .nil y b) with
    | nil =>
      grind [toList_fill, toList]
    | node ck rl xr rr => exact ⟨ck, rl, xr, rr, rfl⟩
  set r := fill seg (.node k .nil y b) with hrdef
  rw [show RbTree.node c l (p, u) r = sided .left c l (p, u) r from rfl] at hh ⊢
  obtain ⟨hctx, hp, hlrep, hrrep⟩ := (rep_fill.trans (and_congr_right fun _ => rep_sided)).mp hh.rep
  obtain ⟨hndt, hndc, hdisj⟩ := nodup_fill.mp hh.nodup
  obtain ⟨hpl, hpr, hndl, hndr, hlr⟩ := nodup_sided.mp hndt
  rw [ptr_sided] at hctx
  have hrd : h.deref (ptr r) = .ok ⟨xr.2, some p, ptr rl, ptr rr, ck⟩ := by
    rw [hr, ptr_node]
    rw [hr] at hrrep
    exact Heap.deref_some hrrep.1
  obtain ⟨h₁, q, hsucc, hb₁, hy₁, hw₁⟩ := unlinkSuccessor_spec hside hrrep hndr hlive hrd
  rw [← hrdef] at hsucc hw₁
  -- where the addresses lie
  have hrmem : ∀ v ∈ ptrs (fill seg b), v ∈ ptrs r := by
    intro v hv
    rw [mem_ptrs_fill] at hv
    rw [hrdef, mem_ptrs_fill]
    exact hv.imp_left fun hv => (mem_ptrs_sided (d := .left)).mpr (.inr (.inr hv))
  have hyr : y.1 ∈ ptrs r :=
    mem_ptrs_fill.mpr (.inl ((mem_ptrs_sided (d := .left)).mpr (.inl rfl)))
  have hrc : ∀ v ∈ ptrs r, v ∉ ctxPtrs ctx :=
    fun v hv => hdisj v (mem_ptrs_sided.mpr (.inr (.inr hv)))
  have hlc : ∀ v ∈ ptrs l, v ∉ ctxPtrs ctx :=
    fun v hv => hdisj v (mem_ptrs_sided.mpr (.inr (.inl hv)))
  have hpc : p ∉ ctxPtrs ctx := hdisj p (mem_ptrs_sided.mpr (.inl rfl))
  have hyl : y.1 ∉ ptrs l := fun hv => hlr _ hv hyr
  have hyp : y.1 ≠ p := fun heq => hpr (heq ▸ hyr)
  obtain ⟨hndsb, hysb⟩ : (ptrs (fill seg b)).Nodup ∧ y.1 ∉ ptrs (fill seg b) := by
    obtain ⟨hnd₁, hnd₂, hd⟩ := nodup_fill.mp hndr
    rw [show RbTree.node k .nil y b = sided .left k .nil y b from rfl] at hnd₁
    obtain ⟨-, hyb, -, hndb, -⟩ := nodup_sided.mp hnd₁
    refine ⟨nodup_fill.mpr ⟨hndb, hnd₂, fun v hv => hd v ?_⟩, ?_⟩
    · exact (mem_ptrs_sided (d := .left)).mpr (.inr (.inr hv))
    · rw [mem_ptrs_fill]
      rintro (hv | hv)
      · exact hyb hv
      · exact hd _ ((mem_ptrs_sided (d := .left)).mpr (.inl rfl)) hv
  -- the writes
  set h₂ := h₁.store y.1 ⟨y.2, q, ptr l, ptr (fill seg b), k⟩ with hdef₂
  have hw₂ : Within h₁ h₂ [y.1] := within_store
  have hl₂ : Rep h₂ l (some p) :=
    hw₂.rep (fun v hv => not_mem_singleton hyl hv) (hw₁.rep hlr hlrep)
  obtain ⟨h₃, hset₃, hl₃, hw₃⟩ := setParentOf_spec hl₂ hndl (some y.1)
  have hptrl : ptr l ≠ none := fun hnone => hl (ptr_eq_none.mp hnone)
  rw [Heap.setParentOf, if_neg hptrl] at hset₃
  have hy₃ : h₃.cell y.1 = some ⟨y.2, q, ptr l, ptr (fill seg b), k⟩ := by
    rw [hw₃.outside _ hyl, hdef₂, Heap.store_cell_self]
  have hp₃ : h₃.cell p = some (sidedNode .left u (ctxPtr ctx) (ptr l) (ptr r) c) := by
    rw [hw₃.outside _ hpl, hw₂.outside _ (by simpa using hyp.symm), hw₁.outside _ hpr, hp]
  set h₄ := h₃.store y.1 ⟨y.2, q, ptr l, ptr (fill seg b), c⟩ with hdef₄
  have hy₄ : h₄.cell y.1 = some ⟨y.2, q, ptr l, ptr (fill seg b), c⟩ := Heap.store_cell_self
  set h₅ := h₄.store y.1 ⟨y.2, ctxPtr ctx, ptr l, ptr (fill seg b), c⟩ with hdef₅
  have hset₄ : h₃.setColor (some y.1) c = .ok h₄ := Heap.modify_some hy₃ _
  have hset₅ : h₄.setParent (some y.1) (ctxPtr ctx) = .ok h₅ := Heap.modify_some hy₄ _
  have hw₅ : Within h₃ h₅ [y.1] := (within_store.trans within_store : Within h₃ h₅ [y.1])
  have hctx₅ : RepCtx h₅ ctx (some p) := by
    refine hw₅.repCtx (fun v hv => not_mem_singleton (hrc _ hyr) hv) ?_
    refine hw₃.repCtx (fun v hv hvl => hlc v hvl hv) ?_
    refine hw₂.repCtx (fun v hv => not_mem_singleton (hrc _ hyr) hv) ?_
    exact hw₁.repCtx (fun v hv hvr => hrc v hvr hv) hctx
  obtain ⟨h₆, hrepl, hctx₆, hw₆⟩ := replaceChild_spec (some y.1) hctx₅ hndc
    (by simpa using hpc) (by simp) (hh.root_eq.trans (by rw [ptr_fill, ptr_sided]))
  have hkeep : ∀ v ∈ ptrs r, h₆.cell v = h₅.cell v :=
    fun v hv => hw₆.outside v fun hvc => hrc v hv (ctxPtr_mem v hvc)
  have hnode : Rep h₆ (sided .left c l y (fill seg b)) (ctxPtr ctx) := by
    refine rep_sided.mpr ⟨?_, ?_, ?_⟩
    · rw [hkeep _ hyr, hdef₅, Heap.store_cell_self]
      rfl
    · refine hw₆.rep (fun v hv hvc => hlc v hv (ctxPtr_mem v hvc)) ?_
      exact hw₅.rep (fun v hv => not_mem_singleton hyl hv) hl₃
    · refine hw₆.rep (fun v hv hvc => hrc v (hrmem v hv) (ctxPtr_mem v hvc)) ?_
      refine hw₅.rep (fun v hv => not_mem_singleton hysb hv) ?_
      refine hw₃.rep (fun v hv hvl => hlr v hvl (hrmem v hv)) ?_
      exact hw₂.rep (fun v hv => not_mem_singleton hysb hv) hb₁
  have hsha : fill (seg ++ ⟨.right, c, y, l⟩ :: ctx) b =
      fill ctx (sided .left c l y (fill seg b)) := by
    rw [fill_append]
    rfl
  refine ⟨h₆, rootPtr ctx (some y.1), ?_, ?_, ?_⟩
  · simp only [unlinkInner, hrd, bind, Except.bind, hsucc, Heap.modify_some hy₁, ← hdef₂, hset₃,
      Heap.deref_some hy₃, Heap.deref_some hp₃, sidedNode_color, hset₄, hset₅, hrepl, pure,
      Except.pure]
    rw [← segPtr_eq_ctxPtr]
  · rw [hsha]
    refine holds_free (rep_fill.mpr ⟨by rwa [ptr_sided], hnode⟩) (nodup_fill.mpr ⟨?_, hndc, ?_⟩)
      (by rw [ptr_fill, ptr_sided]) ?_
    · exact nodup_sided.mpr ⟨hyl, hysb, hndl, hndsb, fun v hv hvr => hlr v hv (hrmem v hvr)⟩
    · intro v hv
      rcases mem_ptrs_sided.mp hv with rfl | hv | hv
      · exact hrc _ hyr
      · exact hlc v hv
      · exact hrc v (hrmem v hv)
    grind [mem_ptrs_fill, mem_ptrs_sided]
  · have hmem : ∀ v ∈ ptrs r, v ∈ ptrs (fill ctx (sided .left c l (p, u) r)) :=
      fun v hv => mem_ptrs_fill.mpr (.inl (mem_ptrs_sided.mpr (.inr (.inr hv))))
    have hymem : ∀ v ∈ [y.1], v ∈ ptrs (fill ctx (sided .left c l (p, u) r)) := by
      intro v hv
      rw [List.mem_singleton.mp hv]
      exact hmem _ hyr
    refine (hw₁.mono hmem).trans ((hw₂.mono hymem).trans ((hw₃.mono fun v hv => ?_).trans
      ((hw₅.mono hymem).trans (hw₆.mono fun v hv => ?_))))
    · exact mem_ptrs_fill.mpr (.inl (mem_ptrs_sided.mpr (.inr (.inl hv))))
    · exact mem_ptrs_fill.mpr (.inr (ctxPtr_mem v hv))

lemma deleteLoop_paint (hfuel : ctx.length ≤ h.live) (hh : Holds h root (fill ctx b))
    (hb : Balanced b n) (hctx : CtxBalanced ctx (n + 1)) :
    ∃ st h' w, deleteLoop h.live ⟨h, root, ptr b, ctxPtr ctx⟩ = .ok st ∧
      paintChild st = .ok h' ∧ Becomes h (fill ctx b) h' st.newRoot w ∧ IsRedBlack w := by
  obtain ⟨st, ctx', t', hloop, hbec, hchi, hrb⟩ := deleteLoop_spec hfuel hh hb hctx
  by_cases hnil : t' = .nil
  · subst hnil
    refine ⟨st, st.heap, fill ctx' .nil, hloop, ?_, hbec, hrb⟩
    rw [paintChild, hchi, ptr_nil, if_pos rfl]
  · obtain ⟨h', hset, hbec'⟩ := setColor_ptr hbec.holds hnil .black
    have hne : ptr t' ≠ none := fun hnone => hnil (ptr_eq_none.mp hnone)
    refine ⟨st, h', _, hloop, ?_, hbec.trans hbec', hrb⟩
    rw [paintChild, hchi, if_neg hne, hset]

variable {userStructCompare : α → α → ℤ} {l₁ l₂ : List (Entry α)}

lemma deleteUnchecked_of_unlink {m : Node α} {root₁ : Option Ptr} {h₁ : Heap α}
    (hcol : Collection userStructCompare h root t) (hl : t.toList = l₁ ++ (p, u) :: l₂)
    (hm : h.deref (some p) = .ok m) (hu : m.userStruct = u)
    (hunl : unlink h root (some p) m = .ok (⟨h₁, root₁, ptr b, ctxPtr ctx⟩, k))
    (hh : Holds (h₁.free p) root₁ (fill ctx b)) (hlist : (fill ctx b).toList = l₁ ++ l₂)
    (hw : Within h h₁ (ptrs t)) (hb : Balanced b n) (hred : k = .red → b.color = .black)
    (hctx : CtxBalanced ctx (n + blackCount k)) :
    ∃ h' root' w, deleteUnchecked h root p = .ok ⟨u, h', root'⟩ ∧
      Collection userStructCompare h' root' w ∧ w.toList = l₁ ++ l₂ ∧ h'.cell p = none ∧
      ∀ q, q ∉ ptrs t → h'.cell q = h.cell q := by
  have hpt : p ∈ ptrs t := by
    rw [ptrs, hl]
    simp
  have hsort : Sorted userStructCompare (l₁ ++ l₂) := by
    have := hcol.sorted
    rw [hl] at this
    exact List.Pairwise.sublist (List.Sublist.append_left (List.sublist_cons_self _ _) _) this
  have hlive : (fill ctx b).toList.length ≤ (h₁.free p).live := by
    have hlen := hcol.live
    rw [hl, List.length_append, List.length_cons] at hlen
    have hfre : (h₁.free p).live = h.live - 1 := by rw [← hw.live]; rfl
    rw [hlist, List.length_append, hfre]
    omega
  have hpb : p ∉ ptrs (fill ctx b) := by
    have hnd := hcol.holds.nodup
    grind [ptrs, List.perm_middle.nodup_iff, List.nodup_cons]
  have hout : ∀ q, q ∉ ptrs t → (h₁.free p).cell q = h.cell q := by
    intro q hq
    have hqp : q ≠ p := fun heq => hq (heq ▸ hpt)
    rw [free_cell_of_ne hqp, hw.outside q hq]
  have hsub : ∀ q, q ∉ ptrs t → q ∉ ptrs (fill ctx b) := by
    grind [ptrs]
  have hfree : (h₁.free p).cell p = none := by simp [Heap.free]
  cases k with
  | red =>
    refine ⟨h₁.free p, root₁, fill ctx b, ?_, ⟨hh, ?_, ?_, hlive⟩, hlist, hfree, hout⟩
    · simp only [deleteUnchecked, hm, bind, Except.bind, hunl, reduceCtorEq, if_false, pure,
        Except.pure, hu]
    · exact isRedBlack_fill hctx hb fun _ => hred rfl
    · rwa [hlist]
  | black =>
    have hlen := length_le_toList ctx b
    obtain ⟨st, h', w, hloop, hset, hbec, hrb⟩ := deleteLoop_paint (by omega) hh hb hctx
    refine ⟨h', st.newRoot, w, ?_, ⟨hbec.holds, hrb, ?_, ?_⟩, hbec.toList.trans hlist, ?_, ?_⟩
    · simp only [deleteUnchecked, hm, bind, Except.bind, hunl, if_true, hloop, pure,
        Except.pure, hset, hu]
    · rwa [hbec.toList, hlist]
    · rw [hbec.toList, hbec.within.live]
      exact hlive
    · rw [hbec.within.outside p hpb, hfree]
    · intro q hq
      rw [hbec.within.outside q (hsub q hq), hout q hq]

lemma deleteUnchecked_spec (hcol : Collection userStructCompare h root t)
    (hl : t.toList = l₁ ++ (p, u) :: l₂) :
    ∃ h' root' w, deleteUnchecked h root p = .ok ⟨u, h', root'⟩ ∧
      Collection userStructCompare h' root' w ∧ w.toList = l₁ ++ l₂ ∧ h'.cell p = none ∧
      ∀ q, q ∉ ptrs t → h'.cell q = h.cell q := by
  obtain ⟨ctx, c, l, r, rfl, rfl, rfl⟩ := exists_fill_of_toList hl
  have hm : h.deref (some p) = .ok ⟨u, ctxPtr ctx, ptr l, ptr r, c⟩ :=
    Heap.deref_some (rep_fill.mp hcol.holds.rep).2.1
  by_cases hnil : l = .nil ∨ r = .nil
  · obtain ⟨n, hctx, hnode, -⟩ := balanced_of_fill hcol.redBlack
    obtain ⟨h₁, root₁, b, hunl, hh, hlist, hw, hor⟩ := unlinkLeaf_spec hcol.holds hnil
    obtain ⟨m, rfl, hb, hred⟩ := hnode.child hor
    refine deleteUnchecked_of_unlink hcol hl hm rfl ?_ hh ?_ hw hb hred hctx
    · rw [unlink, if_pos (hnil.imp (fun h => by rw [h]; rfl) fun h => by rw [h]; rfl)]
      exact hunl
    · rw [toList_fill, hlist]
      simp
  · push Not at hnil
    obtain ⟨hlne, hrne⟩ := hnil
    obtain ⟨seg, k, y, b, rfl, hside⟩ := exists_leftmost hrne
    -- the node that is really unlinked is the successor
    have hrb := hcol.redBlack
    rw [show fill ctx (.node c l (p, u) (fill seg (.node k .nil y b))) =
      fill (seg ++ ⟨.right, c, (p, u), l⟩ :: ctx) (.node k .nil y b) by
        rw [fill_append]; rfl] at hrb
    obtain ⟨n, hctx, hnode, -⟩ := balanced_of_fill hrb
    have hlive := hcol.live
    rw [toList_fill, toList, List.length_append, List.length_append, List.length_append,
      List.length_cons] at hlive
    obtain ⟨h₁, root₁, hunl, hh, hw⟩ :=
      unlinkInner_spec hside hlne hcol.holds (by omega)
    obtain ⟨m, rfl, hb, hred⟩ := hnode.child (.inr rfl)
    refine deleteUnchecked_of_unlink hcol hl hm rfl ?_ hh ?_ hw hb hred (ctxBalanced_relabel hctx)
    · rw [unlink, if_neg]
      · exact hunl
      · rintro (hnone | hnone)
        · exact hlne (ptr_eq_none.mp hnone)
        · exact hrne (ptr_eq_none.mp hnone)
    · have hsha : fill (seg ++ ⟨.right, c, y, l⟩ :: ctx) b =
          fill ctx (.node c l y (fill seg b)) := by
        rw [fill_append]
        rfl
      simp [hsha, toList_fill, toList, before_left hside]

end Edk2.OrderedCollection
