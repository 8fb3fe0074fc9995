import Mathlib.Data.Int.Order.Basic
import Edk2.OrderedCollection.Primitives

/-!
# Iteration

The iterators follow the links of the tree; on a represented tree they follow the order of its
labels. The lists below are read in the direction of the walk, so that `Next` and `Prev`, and
`Min` and `Max`, are the two instances of one statement.
-/

namespace Edk2.OrderedCollection

open RedBlack RedBlack.RbTree

variable {α : Type} {h : Heap α} {d : Side} {c : Color} {x : Entry α}
  {t near far : RbTree (Entry α)} {ctx : List (Frame (Entry α))} {f : Frame (Entry α)}
  {root par : Option Ptr} {fuel : ℕ}

/-- The labels of a tree in the order in which a walk towards `d` meets them. -/
def walkList (d : Side) (t : RbTree (Entry α)) : List (Entry α) :=
  match d with
  | .left => t.toList.reverse
  | .right => t.toList

/-- The labels that a walk towards `d` meets after it leaves the hole. -/
def walkAfter (d : Side) (ctx : List (Frame (Entry α))) : List (Entry α) :=
  match d with
  | .left => (before ctx).reverse
  | .right => after ctx

lemma walkList_other_sided :
    walkList d.other (sided d c near x far) =
      walkList d.other near ++ x :: walkList d.other far := by
  cases d <;> simp [walkList, sided, toList, Side.other]

lemma walkList_eq_nil : walkList d t = [] ↔ t = .nil := by
  cases d <;> cases t <;> simp [walkList, toList]

lemma walkAfter_same (hs : f.side = d) : walkAfter d (f :: ctx) = walkAfter d ctx := by
  subst hs
  cases hs : f.side <;> simp [walkAfter, before, after, hs]

lemma walkAfter_other (hs : f.side = d.other) :
    walkAfter d (f :: ctx) = f.label :: (walkList d f.sibling ++ walkAfter d ctx) := by
  cases d <;> simp [walkAfter, walkList, before, after, hs, Side.other]

lemma extreme_spec (hrep : Rep h t par) (hne : t ≠ .nil) (hfuel : t.toList.length ≤ fuel) :
    ∃ y ∈ (walkList d.other t).head?, extreme d h fuel (ptr t) = .ok (some y.1) := by
  induction fuel generalizing t par with
  | zero =>
    have : t.toList = [] := List.eq_nil_of_length_eq_zero (by omega)
    cases t <;> simp [toList] at this hne
  | succ fuel ih =>
    obtain ⟨c, near, x, far, rfl⟩ := exists_sided d hne
    obtain ⟨hx, hnear, -⟩ := rep_sided.mp hrep
    rw [walkList_other_sided]
    by_cases hnil : near = .nil
    · simp [hnil, walkList_eq_nil.mpr, extreme, ptr_sided, Heap.deref_some hx, bind, Except.bind,
        sidedNode_child, ptr_nil, pure, Except.pure]
    · have hlen : near.toList.length ≤ fuel := by
        have : near.toList.length < (sided d c near x far).toList.length := by
          cases d <;> simp [sided, toList]
          omega
        omega
      obtain ⟨y, hy, hrun⟩ := ih hnear hnil hlen
      have hptr : ptr near ≠ none := fun hnone => hnil (ptr_eq_none.mp hnone)
      simp [List.head?_append, Option.mem_def.mp hy, extreme, ptr_sided, Heap.deref_some hx, bind,
        Except.bind, sidedNode_child, hptr, hrun]

lemma climb_spec (hh : Holds h root (fill ctx t)) (hne : t ≠ .nil) (hfuel : ctx.length ≤ fuel) :
    climb d h fuel (ptr t) (ctxPtr ctx) = .ok ((walkAfter d ctx).head?.map Prod.fst) := by
  induction ctx generalizing t fuel with
  | nil =>
    cases d <;> cases fuel <;> rfl
  | cons f ctx ih =>
    obtain ⟨fuel, rfl⟩ : ∃ m, fuel = m + 1 :=
      Nat.exists_eq_add_one_of_ne_zero (by simp only [List.length_cons] at hfuel; omega)
    have hf := hh.deref_frame
    rcases Side.eq_or_eq_other d f.side with hs | hs
    · have hchi : (sidedNode f.side f.label.2 (ctxPtr ctx) (ptr t) (ptr f.sibling)
          f.color).child d = ptr t := by
        rw [hs, sidedNode_child]
      have hup : Holds h root (fill ctx (f.plug t)) := hh
      have hrec := ih hup sided_ne_nil (by simpa using hfuel)
      rw [ptr_plug] at hrec
      simp only [climb, ctxPtr_cons, hf, bind, Except.bind, hchi, if_true, sidedNode_parent, hrec,
        walkAfter_same hs]
    · have hchi : (sidedNode f.side f.label.2 (ctxPtr ctx) (ptr t) (ptr f.sibling)
          f.color).child d = ptr f.sibling := by
        rw [hs, sidedNode_other, sidedNode_child]
      simp only [climb, ctxPtr_cons, hf, bind, Except.bind, hchi, hh.sibling_ne hne, if_false,
        walkAfter_other hs, List.head?_cons, Option.map_some, pure, Except.pure]

lemma neighbour_spec (hh : Holds h root (fill ctx (sided d c near x far)))
    (hlive : (fill ctx (sided d c near x far)).toList.length ≤ h.live) :
    neighbour d h (some x.1) = .ok ((walkList d near ++ walkAfter d ctx).head?.map Prod.fst) := by
  have hlen := length_le_toList ctx (sided d c near x far)
  have hnear := (rep_sided.mp (rep_fill.mp hh.rep).2).2.1
  by_cases hnil : near = .nil
  · have hcli := climb_spec (d := d) hh sided_ne_nil (by omega : ctx.length ≤ h.live)
    rw [ptr_sided] at hcli
    simp only [neighbour, reduceCtorEq, if_false, hh.deref, bind, Except.bind, sidedNode_child,
      hnil, ptr_nil, ne_eq, not_true, sidedNode_parent, hcli, walkList_eq_nil.mpr,
      List.nil_append]
  · have hptr : ptr near ≠ none := fun hnone => hnil (ptr_eq_none.mp hnone)
    have hlt : near.toList.length ≤ h.live := by
      have : near.toList.length ≤ (sided d c near x far).toList.length := by
        cases d <;> simp [sided, toList]
        omega
      omega
    obtain ⟨y, hy, hrun⟩ := extreme_spec (d := d.other) hnear hnil hlt
    rw [Side.other_other] at hy
    simp only [neighbour, reduceCtorEq, if_false, hh.deref, bind, Except.bind, sidedNode_child,
      hptr, ne_eq, not_false_eq_true, if_true, hrun, List.head?_append, Option.mem_def.mp hy,
      Option.some_or, Option.map_some]

lemma exists_fill_of_toList {l₁ l₂ : List (Entry α)} (hl : t.toList = l₁ ++ x :: l₂) :
    ∃ ctx c l r, t = fill ctx (.node c l x r) ∧ l₁ = before ctx ++ l.toList ∧
      l₂ = r.toList ++ after ctx := by
  suffices hgen : ∀ (t : RbTree (Entry α)) ctx (l₁ l₂ : List (Entry α)), t.toList = l₁ ++ x :: l₂ →
      ∃ ctx' c l r, fill ctx t = fill ctx' (.node c l x r) ∧
        before ctx ++ l₁ = before ctx' ++ l.toList ∧ l₂ ++ after ctx = r.toList ++ after ctx' by
    obtain ⟨ctx, c, l, r, ht, h₁, h₂⟩ := hgen t [] l₁ l₂ hl
    exact ⟨ctx, c, l, r, ht, by simpa [before] using h₁, by simpa [after] using h₂⟩
  intro t
  induction t with
  | nil =>
    intro ctx l₁ l₂ hl
    simp at hl
  | node c l y r ihl ihr =>
    intro ctx l₁ l₂ hl
    rw [toList] at hl
    -- the position lies in the left subtree, at the root, or in the right subtree
    rcases List.append_eq_append_iff.mp hl with ⟨m, hm₁, hm₂⟩ | ⟨m, hm₁, hm₂⟩
    · cases m with
      | nil =>
        simp only [List.nil_append, List.cons.injEq] at hm₂
        obtain ⟨rfl, rfl⟩ := hm₂
        exact ⟨ctx, c, l, r, rfl, by simpa using hm₁, rfl⟩
      | cons z m =>
        simp only [List.cons_append, List.cons.injEq] at hm₂
        obtain ⟨rfl, hr⟩ := hm₂
        obtain ⟨ctx', c', l', r', hfill, h₁, h₂⟩ := ihr (⟨.right, c, y, l⟩ :: ctx) m l₂ hr
        refine ⟨ctx', c', l', r', hfill, ?_, h₂⟩
        rw [← h₁, hm₁]
        simp [before]
    · cases m with
      | nil =>
        simp only [List.nil_append, List.cons.injEq] at hm₂
        obtain ⟨rfl, rfl⟩ := hm₂
        grind
      | cons z m =>
        simp only [List.cons_append, List.cons.injEq] at hm₂
        obtain ⟨rfl, hr⟩ := hm₂
        obtain ⟨ctx', c', l', r', hfill, h₁, h₂⟩ := ihl (⟨.left, c, y, r⟩ :: ctx) l₁ m hm₁
        refine ⟨ctx', c', l', r', hfill, h₁, ?_⟩
        rw [← h₂, hr]
        simp [after]

end Edk2.OrderedCollection

/-!
## Searching an ordered tree

Both the lookup and the descent of the insertion walk down the tree by the sign of a comparison
of one fixed thing with the user structures they meet. On a tree that is ordered by the
comparator such a walk separates what compares greater from what compares less.
-/

namespace Edk2.OrderedCollection

open RedBlack RedBlack.RbTree

variable {α κ : Type}

/-- The caller's comparison function is a total order up to equality. -/
structure IsComparator (userStructCompare : α → α → ℤ) : Prop where
  antisymm : ∀ a b, userStructCompare a b < 0 ↔ 0 < userStructCompare b a
  trans : ∀ a b c, userStructCompare a b ≤ 0 → userStructCompare b c ≤ 0 →
    userStructCompare a c ≤ 0

/-- `g` compares something with user structures in a way that fits their order. -/
def Cut (userStructCompare : α → α → ℤ) (g : α → ℤ) : Prop :=
  ∀ a b, userStructCompare a b < 0 → g a ≤ 0 → g b < 0

/-- The labels are strictly ascending. -/
def Sorted (userStructCompare : α → α → ℤ) (l : List (Entry α)) : Prop :=
  l.Pairwise fun x y => userStructCompare x.2 y.2 < 0

/-- The frames lie on the way down that `g` takes. -/
def Descends (g : α → ℤ) (ctx : List (Frame (Entry α))) : Prop :=
  ∀ f ∈ ctx, match f.side with
    | .left => g f.label.2 < 0
    | .right => 0 < g f.label.2

variable {userStructCompare : α → α → ℤ} {g : α → ℤ} {h : Heap α} {x y : Entry α}
  {t : RbTree (Entry α)} {ctx : List (Frame (Entry α))} {f : Frame (Entry α)} {fuel : ℕ}

namespace IsComparator

variable (hc : IsComparator userStructCompare) {a b c : α}

include hc

lemma lt_of_le_of_lt (hab : userStructCompare a b ≤ 0) (hbc : userStructCompare b c < 0) :
    userStructCompare a c < 0 := by
  have hac := hc.trans a b c hab (le_of_lt hbc)
  -- if the two ends were equal, the second inequality would turn around
  by_contra hge
  have hca : userStructCompare c a ≤ 0 := by
    by_contra hpos
    exact hge ((hc.antisymm a c).mpr (by omega))
  have hcb := hc.trans c a b hca hab
  have := (hc.antisymm b c).mp hbc
  omega

lemma cut (a : α) : Cut userStructCompare (userStructCompare a) :=
  fun _ _ hbc hab => hc.lt_of_le_of_lt hab hbc

end IsComparator

lemma Descends.separates (hcut : Cut userStructCompare g)
    (hsort : Sorted userStructCompare (fill ctx t).toList) (hd : Descends g ctx) :
    (∀ y ∈ before ctx, 0 < g y.2) ∧ ∀ y ∈ after ctx, g y.2 < 0 := by
  induction ctx generalizing t with
  | nil => simp [before, after]
  | cons f ctx ih =>
    obtain ⟨hb, ha⟩ := ih (t := f.plug t) hsort fun f' hf' => hd f' (List.mem_cons_of_mem _ hf')
    have hf := hd f List.mem_cons_self
    have hplug : Sorted userStructCompare (f.plug t).toList := by
      grind [fill_cons, toList_fill, Sorted, List.append_assoc, List.pairwise_append,
        List.pairwise_append.mp]
    obtain ⟨side, c, label, s⟩ := f
    cases side with
    | left =>
      simp only [Frame.plug, sided, toList, Sorted, List.pairwise_append, List.pairwise_cons]
        at hplug
      refine ⟨hb, fun y hy => ?_⟩
      simp only [after, List.mem_cons, List.mem_append] at hy
      rcases hy with rfl | hy | hy
      · exact hf
      · exact hcut _ _ (hplug.2.1.1 y hy) (le_of_lt hf)
      · exact ha y hy
    | right =>
      simp only [Frame.plug, sided, toList, Sorted, List.pairwise_append, List.pairwise_cons]
        at hplug
      refine ⟨fun y hy => ?_, ha⟩
      simp only [before, List.mem_append, List.mem_singleton] at hy
      rcases hy with hy | hy | rfl
      · exact hb y hy
      · by_contra hle
        have := hcut _ _ (hplug.2.2 y hy label List.mem_cons_self) (not_lt.mp hle)
        exact absurd hf (not_lt.mpr (le_of_lt this))
      · exact hf

lemma Descends.cons_left {s : RbTree (Entry α)} {c : Color} (hd : Descends g ctx)
    (hx : g x.2 < 0) : Descends g (⟨.left, c, x, s⟩ :: ctx) :=
  List.forall_mem_cons.mpr ⟨hx, hd⟩

lemma Descends.cons_right {s : RbTree (Entry α)} {c : Color} (hd : Descends g ctx)
    (hx : 0 < g x.2) : Descends g (⟨.right, c, x, s⟩ :: ctx) :=
  List.forall_mem_cons.mpr ⟨hx, hd⟩

lemma findLoop_spec {keyCompare : κ → α → ℤ} {key : κ} (hrep : Rep h (fill ctx t) none)
    (hfuel : t.toList.length ≤ fuel) (hd : Descends (keyCompare key) ctx) :
    (∃ y ∈ t.toList, keyCompare key y.2 = 0 ∧
      findLoop keyCompare key h fuel (ptr t) = .ok (some y.1)) ∨
    ∃ ctx', fill ctx' .nil = fill ctx t ∧ Descends (keyCompare key) ctx' ∧
      findLoop keyCompare key h fuel (ptr t) = .ok none := by
  induction t generalizing ctx fuel with
  | nil => exact .inr ⟨ctx, rfl, hd, by cases fuel <;> rfl⟩
  | node c l y r ihl ihr =>
    obtain ⟨hy, -, -⟩ := (rep_fill.mp hrep).2
    simp only [toList, List.length_append, List.length_cons] at hfuel
    obtain ⟨fuel, rfl⟩ : ∃ m, fuel = m + 1 := Nat.exists_eq_add_one_of_ne_zero (by omega)
    by_cases heq : keyCompare key y.2 = 0
    · refine .inl ⟨y, by simp [toList], heq, ?_⟩
      simp only [findLoop, ptr_node, Heap.deref_some hy, bind, Except.bind, heq, if_true, pure,
        Except.pure]
    · rcases lt_or_gt_of_ne heq with hlt | hgt
      · have hfind : findLoop keyCompare key h (fuel + 1) (ptr (.node c l y r)) =
            findLoop keyCompare key h fuel (ptr l) := by
          simp only [findLoop, ptr_node, Heap.deref_some hy, bind, Except.bind, heq, if_false, hlt,
            if_true]
        have hrepl : Rep h (fill (⟨.left, c, y, r⟩ :: ctx) l) none := hrep
        have hlen : l.toList.length ≤ fuel := by omega
        rw [hfind]
        rcases ihl hrepl hlen (hd.cons_left hlt) with ⟨z, hz, hres⟩ | hres
        · exact .inl ⟨z, by simp [toList, hz], hres⟩
        · exact .inr hres
      · have hge : ¬ keyCompare key y.2 < 0 := not_lt.mpr (le_of_lt hgt)
        have hfind : findLoop keyCompare key h (fuel + 1) (ptr (.node c l y r)) =
            findLoop keyCompare key h fuel (ptr r) := by
          simp only [findLoop, ptr_node, Heap.deref_some hy, bind, Except.bind, heq, if_false, hge]
        have hrepr : Rep h (fill (⟨.right, c, y, l⟩ :: ctx) r) none := hrep
        have hlen : r.toList.length ≤ fuel := by omega
        rw [hfind]
        rcases ihr hrepr hlen (hd.cons_right hgt) with ⟨z, hz, hres⟩ | hres
        · exact .inl ⟨z, by simp [toList, hz], hres⟩
        · exact .inr hres

lemma findLoop_height (keyCompare : κ → α → ℤ) (key : κ) {par : Option Ptr}
    (hrep : Rep h t par) :
    ∃ node, ∀ fuel, t.height ≤ fuel → findLoop keyCompare key h fuel (ptr t) = .ok node := by
  induction t generalizing par with
  | nil => exact ⟨none, fun fuel _ => by cases fuel <;> rfl⟩
  | node c l y r ihl ihr =>
    obtain ⟨hy, hl, hr⟩ := hrep
    obtain ⟨nl, hnl⟩ := ihl hl
    obtain ⟨nr, hnr⟩ := ihr hr
    refine ⟨if keyCompare key y.2 = 0 then some y.1
      else if keyCompare key y.2 < 0 then nl else nr, fun fuel hfuel => ?_⟩
    simp only [height] at hfuel
    obtain ⟨fuel, rfl⟩ := Nat.exists_eq_add_one_of_ne_zero (Nat.ne_zero_of_lt hfuel)
    simp only [findLoop, ptr_node, Heap.deref_some hy, bind, Except.bind]
    split_ifs
    · rfl
    · exact hnl fuel (by omega)
    · exact hnr fuel (by omega)

lemma insertSearch_spec {u : α} {r : ℤ} (hrep : Rep h (fill ctx t) none)
    (hfuel : t.toList.length ≤ fuel) (hd : Descends (userStructCompare u) ctx)
    (hr : ∀ f ∈ ctx.head?, r < 0 ↔ f.side = .left) :
    (∃ y ∈ t.toList, ∃ parent, userStructCompare u y.2 = 0 ∧
      insertSearch userStructCompare u h fuel (ptr t) (ctxPtr ctx) r = .ok (some y.1, parent, 0)) ∨
    ∃ ctx' r', fill ctx' .nil = fill ctx t ∧ Descends (userStructCompare u) ctx' ∧
      (∀ f ∈ ctx'.head?, r' < 0 ↔ f.side = .left) ∧
      insertSearch userStructCompare u h fuel (ptr t) (ctxPtr ctx) r =
        .ok (none, ctxPtr ctx', r') := by
  induction t generalizing ctx fuel r with
  | nil => exact .inr ⟨ctx, r, rfl, hd, hr, by cases fuel <;> rfl⟩
  | node c l y t' ihl ihr =>
    obtain ⟨hy, -, -⟩ := (rep_fill.mp hrep).2
    simp only [toList, List.length_append, List.length_cons] at hfuel
    obtain ⟨fuel, rfl⟩ : ∃ m, fuel = m + 1 := Nat.exists_eq_add_one_of_ne_zero (by omega)
    by_cases heq : userStructCompare u y.2 = 0
    · refine .inl ⟨y, by simp [toList], ctxPtr ctx, heq, ?_⟩
      simp only [insertSearch, ptr_node, Heap.deref_some hy, bind, Except.bind, heq, if_true, pure,
        Except.pure]
    · rcases lt_or_gt_of_ne heq with hlt | hgt
      · have hsea : insertSearch userStructCompare u h (fuel + 1) (ptr (.node c l y t'))
            (ctxPtr ctx) r = insertSearch userStructCompare u h fuel (ptr l)
              (ctxPtr (⟨.left, c, y, t'⟩ :: ctx)) (userStructCompare u y.2) := by
          simp only [insertSearch, ptr_node, Heap.deref_some hy, bind, Except.bind, heq, if_false, hlt,
            if_true, ctxPtr_cons]
        rw [hsea]
        have hrepl : Rep h (fill (⟨.left, c, y, t'⟩ :: ctx) l) none := hrep
        have hlen : l.toList.length ≤ fuel := by omega
        rcases ihl hrepl hlen (hd.cons_left hlt) (by simpa using hlt) with ⟨z, hz, hres⟩ | hres
        · exact .inl ⟨z, by simp [toList, hz], hres⟩
        · exact .inr hres
      · have hge : ¬ userStructCompare u y.2 < 0 := not_lt.mpr (le_of_lt hgt)
        have hsea : insertSearch userStructCompare u h (fuel + 1) (ptr (.node c l y t'))
            (ctxPtr ctx) r = insertSearch userStructCompare u h fuel (ptr t')
              (ctxPtr (⟨.right, c, y, l⟩ :: ctx)) (userStructCompare u y.2) := by
          simp only [insertSearch, ptr_node, Heap.deref_some hy, bind, Except.bind, heq, if_false, hge,
            ctxPtr_cons]
        rw [hsea]
        have hrepr : Rep h (fill (⟨.right, c, y, l⟩ :: ctx) t') none := hrep
        have hlen : t'.toList.length ≤ fuel := by omega
        rcases ihr hrepr hlen (hd.cons_right hgt) (by simpa using hge) with ⟨z, hz, hres⟩ | hres
        · exact .inl ⟨z, by simp [toList, hz], hres⟩
        · exact .inr hres

end Edk2.OrderedCollection
