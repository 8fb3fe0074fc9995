import Mathlib.Algebra.Group.Nat.Defs
import Mathlib.Data.List.Basic

/-!
# Red-black trees with one-hole contexts

Trees of labelled coloured nodes, seen from one side or from the other: `sided d` builds a node
from its child on side `d`, its label and its child on the other side, so that an argument about
a rotation is made once for both directions. A context is the list of frames from a hole up to
the root. `Balanced` is the red-black condition on trees, `CtxBalanced` the one on contexts.
-/

namespace RedBlack

inductive Color
  | red
  | black
deriving DecidableEq, Repr

inductive Side
  | left
  | right
deriving DecidableEq, Repr

def Side.other : Side → Side
  | left => right
  | right => left

@[simp] lemma Side.other_other (d : Side) : d.other.other = d := by
  cases d <;> rfl

lemma Side.eq_or_eq_other (d e : Side) : e = d ∨ e = d.other := by
  cases d <;> cases e <;> simp [Side.other]

@[simp] lemma Side.other_ne (d : Side) : d.other ≠ d := by
  cases d <;> simp [Side.other]

inductive RbTree (ε : Type*)
  | nil
  | node (color : Color) (left : RbTree ε) (label : ε) (right : RbTree ε)

namespace RbTree

variable {ε : Type*}

/-- The node with child `near` on side `d` and child `far` on the other side. -/
def sided (d : Side) (c : Color) (near : RbTree ε) (x : ε) (far : RbTree ε) : RbTree ε :=
  match d with
  | .left => node c near x far
  | .right => node c far x near

/-- The colour of the root; the empty tree is black. -/
def color : RbTree ε → Color
  | nil => .black
  | node c _ _ _ => c

/-- The labels in order. -/
def toList : RbTree ε → List ε
  | nil => []
  | node _ l x r => l.toList ++ x :: r.toList

/-- The tree with its root painted. -/
def paint (c : Color) : RbTree ε → RbTree ε
  | nil => nil
  | node _ l x r => node c l x r

/-- What a node of a colour adds to the black height. -/
def blackCount : Color → ℕ
  | .red => 0
  | .black => 1

/-- The red-black condition: `n` black nodes on every path to a leaf, no red node with a red
child. -/
def Balanced : RbTree ε → ℕ → Prop
  | nil, n => n = 0
  | node .red l _ r, n => l.color = .black ∧ r.color = .black ∧ Balanced l n ∧ Balanced r n
  | node .black l _ r, n => ∃ m, n = m + 1 ∧ Balanced l m ∧ Balanced r m

@[simp] lemma color_nil : (nil : RbTree ε).color = .black := rfl
@[simp] lemma toList_nil : (nil : RbTree ε).toList = [] := rfl
@[simp] lemma balanced_nil {n : ℕ} : Balanced (nil : RbTree ε) n ↔ n = 0 := Iff.rfl

variable {d : Side} {c : Color} {x : ε} {t near far : RbTree ε} {n : ℕ}

@[simp] lemma color_sided : (sided d c near x far).color = c := by
  cases d <;> rfl

@[simp] lemma paint_sided {b : Color} : (sided d c near x far).paint b = sided d b near x far := by
  cases d <;> rfl

@[simp] lemma toList_paint : (t.paint c).toList = t.toList := by
  cases t <;> rfl

lemma balanced_red : Balanced (sided d .red near x far) n ↔
    near.color = .black ∧ far.color = .black ∧ Balanced near n ∧ Balanced far n := by
  cases d
  · exact Iff.rfl
  · simp only [sided, Balanced]
    tauto

lemma balanced_black : Balanced (sided d .black near x far) n ↔
    ∃ m, n = m + 1 ∧ Balanced near m ∧ Balanced far m := by
  cases d
  · exact Iff.rfl
  · simp only [sided, Balanced]
    tauto

lemma sided_other : sided d.other c near x far = sided d c far x near := by
  cases d <;> rfl

lemma sided_ne_nil : sided d c near x far ≠ nil := by
  cases d <;> simp [sided]

/-- A tree that is not empty is a node, seen from any side. -/
lemma exists_sided (d : Side) (h : t ≠ nil) : ∃ c near x far, t = sided d c near x far := by
  cases t with
  | nil => exact absurd rfl h
  | node c l x r =>
    cases d
    · exact ⟨c, l, x, r, rfl⟩
    · exact ⟨c, r, x, l, rfl⟩

lemma exists_sided_red (d : Side) (h : t.color = .red) :
    ∃ near x far, t = sided d .red near x far := by
  have hne : t ≠ nil := by
    rintro rfl
    cases h
  obtain ⟨c, near, x, far, rfl⟩ := exists_sided d hne
  rw [color_sided] at h
  exact ⟨near, x, far, by rw [h]⟩

lemma ne_nil_of_balanced (h : Balanced t (n + 1)) : t ≠ nil := by
  rintro rfl
  cases h

/-- Painting a red root black adds one to the black height. -/
lemma Balanced.paint_black (h : Balanced t n) : ∃ m, Balanced (t.paint .black) m := by
  cases t with
  | nil => exact ⟨n, h⟩
  | node c l x r =>
    cases c with
    | red =>
      obtain ⟨-, -, hl, hr⟩ := h
      exact ⟨n + 1, n, rfl, hl, hr⟩
    | black => exact ⟨n, h⟩

lemma color_paint_black : (t.paint .black).color = .black := by
  cases t <;> rfl

/-- The number of nodes on the longest path to a leaf. -/
def height : RbTree ε → ℕ
  | nil => 0
  | node _ l _ r => max l.height r.height + 1

lemma height_le_length (t : RbTree ε) : t.height ≤ t.toList.length := by
  induction t with
  | nil => exact Nat.le_refl 0
  | node c l x r ihl ihr =>
    simp only [height, toList, List.length_append, List.length_cons]
    omega

lemma Balanced.height_le (h : Balanced t n) :
    t.height ≤ 2 * n + 1 ∧ (t.color = .black → t.height ≤ 2 * n) := by
  induction t generalizing n with
  | nil => exact ⟨Nat.zero_le _, fun _ => Nat.zero_le _⟩
  | node c l x r ihl ihr =>
    cases c with
    | red =>
      obtain ⟨hlc, hrc, hl, hr⟩ := h
      refine ⟨Nat.succ_le_succ (Nat.max_le.mpr ⟨(ihl hl).2 hlc, (ihr hr).2 hrc⟩), fun hc => ?_⟩
      cases hc
    | black =>
      obtain ⟨m, rfl, hl, hr⟩ := h
      have hle : (node .black l x r).height ≤ 2 * (m + 1) :=
        Nat.succ_le_succ (Nat.max_le.mpr ⟨(ihl hl).1, (ihr hr).1⟩)
      exact ⟨Nat.le_succ_of_le hle, fun _ => hle⟩

lemma Balanced.pow_le (h : Balanced t n) : 2 ^ n ≤ t.toList.length + 1 := by
  induction t generalizing n with
  | nil =>
    cases h
    exact Nat.le_refl 1
  | node c l x r ihl ihr =>
    simp only [toList, List.length_append, List.length_cons]
    cases c with
    | red =>
      obtain ⟨-, -, hl, -⟩ := h
      have hl := ihl hl
      omega
    | black =>
      obtain ⟨m, rfl, hl, hr⟩ := h
      have hl := ihl hl
      have hr := ihr hr
      omega

/-! ### Contexts -/

/-- A node on the path to the hole: the side of it on which the hole lies, and the rest of it. -/
structure Frame (ε : Type*) where
  side : Side
  color : Color
  label : ε
  sibling : RbTree ε

/-- The node that a frame makes of the subtree in its hole. -/
def Frame.plug (f : Frame ε) (t : RbTree ε) : RbTree ε := sided f.side f.color t f.label f.sibling

/-- The tree that a context makes of the subtree in its hole. -/
def fill : List (Frame ε) → RbTree ε → RbTree ε
  | [], t => t
  | f :: ctx, t => fill ctx (f.plug t)

@[simp] lemma fill_nil : fill [] t = t := rfl

@[simp] lemma fill_cons {f : Frame ε} {ctx : List (Frame ε)} :
    fill (f :: ctx) t = fill ctx (f.plug t) := rfl

lemma fill_append (ctx₁ ctx₂ : List (Frame ε)) (t : RbTree ε) :
    fill (ctx₁ ++ ctx₂) t = fill ctx₂ (fill ctx₁ t) := by
  induction ctx₁ generalizing t with
  | nil => rfl
  | cons f ctx₁ ih => exact ih (f.plug t)

/-- The labels before the hole. -/
def before : List (Frame ε) → List ε
  | [] => []
  | f :: ctx =>
    match f.side with
    | .left => before ctx
    | .right => before ctx ++ (f.sibling.toList ++ [f.label])

/-- The labels after the hole. -/
def after : List (Frame ε) → List ε
  | [] => []
  | f :: ctx =>
    match f.side with
    | .left => f.label :: (f.sibling.toList ++ after ctx)
    | .right => after ctx

lemma toList_fill (ctx : List (Frame ε)) (t : RbTree ε) :
    (fill ctx t).toList = before ctx ++ t.toList ++ after ctx := by
  induction ctx generalizing t with
  | nil => simp [before, after]
  | cons f ctx ih =>
    obtain ⟨side, c, x, s⟩ := f
    cases side
    · simp [ih, Frame.plug, sided, toList, before, after]
    · simp [ih, Frame.plug, sided, toList, before, after]

/-- The hole has to be filled with a black root. -/
def NeedsBlack : List (Frame ε) → Prop
  | [] => True
  | f :: _ => f.color = .red

/-- The red-black condition around a hole of black height `n`. -/
def CtxBalanced : List (Frame ε) → ℕ → Prop
  | [], _ => True
  | f :: ctx, n =>
    Balanced f.sibling n ∧ (f.color = .red → f.sibling.color = .black ∧ ¬ NeedsBlack ctx) ∧
      CtxBalanced ctx (n + blackCount f.color)

/-- A red-black tree with a black root. -/
def IsRedBlack (t : RbTree ε) : Prop := t.color = .black ∧ ∃ n, Balanced t n

/-- A red-black tree is at most twice as high as a tree of its size has to be. -/
lemma IsRedBlack.height_le (h : IsRedBlack t) :
    t.height ≤ 2 * Nat.log2 (t.toList.length + 1) := by
  obtain ⟨hc, n, hbal⟩ := h
  have hn := (Nat.le_log2 (Nat.succ_ne_zero _)).mpr hbal.pow_le
  exact Nat.le_trans (hbal.height_le.2 hc) (Nat.mul_le_mul_left 2 hn)

lemma balanced_plug {f : Frame ε} (ht : Balanced t n) (hs : Balanced f.sibling n)
    (hred : f.color = .red → t.color = .black ∧ f.sibling.color = .black) :
    Balanced (f.plug t) (n + blackCount f.color) := by
  obtain ⟨side, c, x, s⟩ := f
  cases c with
  | red => exact balanced_red.mpr ⟨(hred rfl).1, (hred rfl).2, ht, hs⟩
  | black => exact balanced_black.mpr ⟨n, rfl, ht, hs⟩

/-- A balanced context filled with a balanced tree is a red-black tree. -/
lemma isRedBlack_fill {ctx : List (Frame ε)} (hctx : CtxBalanced ctx n) (ht : Balanced t n)
    (hbla : NeedsBlack ctx → t.color = .black) : IsRedBlack (fill ctx t) := by
  induction ctx generalizing t n with
  | nil => exact ⟨hbla trivial, n, ht⟩
  | cons f ctx ih =>
    obtain ⟨hs, hred, hctx⟩ := hctx
    refine ih hctx (balanced_plug ht hs fun hf => ⟨hbla hf, (hred hf).1⟩) fun hneed => ?_
    rw [Frame.plug, color_sided]
    cases hc : f.color with
    | red => exact absurd hneed (hred hc).2
    | black => rfl

/-- A subtree of a red-black tree is balanced, and so is the context around it. -/
lemma balanced_of_fill {ctx : List (Frame ε)} (h : IsRedBlack (fill ctx t)) :
    ∃ n, CtxBalanced ctx n ∧ Balanced t n ∧ (NeedsBlack ctx → t.color = .black) := by
  induction ctx generalizing t with
  | nil =>
    obtain ⟨hc, n, ht⟩ := h
    exact ⟨n, trivial, ht, fun _ => hc⟩
  | cons f ctx ih =>
    obtain ⟨n, hctx, hplug, hbla⟩ := ih h
    obtain ⟨side, c, x, s⟩ := f
    cases c with
    | red =>
      obtain ⟨htc, hsc, ht, hs⟩ := balanced_red.mp hplug
      refine ⟨n, ⟨hs, fun _ => ⟨hsc, fun hneed => ?_⟩, hctx⟩, ht, fun _ => htc⟩
      grind [Frame.plug, color_sided]
    | black =>
      obtain ⟨m, rfl, ht, hs⟩ := balanced_black.mp hplug
      refine ⟨m, ⟨hs, ?_, hctx⟩, ht, ?_⟩
      · intro hf
        cases hf
      · intro hf
        cases hf

/-- The labels of the frames do not matter to the red-black condition. -/
lemma ctxBalanced_relabel {x y : ε} {l : RbTree ε} {seg ctx : List (Frame ε)}
    (h : CtxBalanced (seg ++ ⟨d, c, x, l⟩ :: ctx) n) :
    CtxBalanced (seg ++ ⟨d, c, y, l⟩ :: ctx) n := by
  induction seg generalizing n with
  | nil => exact h
  | cons f seg ih =>
    obtain ⟨hs, hred, hctx⟩ := h
    refine ⟨hs, fun hf => ⟨(hred hf).1, ?_⟩, ih hctx⟩
    cases seg with
    | nil => exact (hred hf).2
    | cons g seg => exact (hred hf).2

/-- A child of a balanced node lacks at most the blackness of that node. -/
lemma Balanced.child {l r b : RbTree ε} (h : Balanced (node c l x r) n) (hb : b = l ∨ b = r) :
    ∃ m, n = m + blackCount c ∧ Balanced b m ∧ (c = .red → b.color = .black) := by
  cases c with
  | red =>
    obtain ⟨hlc, hrc, hl, hr⟩ := h
    rcases hb with rfl | rfl
    · exact ⟨n, rfl, hl, fun _ => hlc⟩
    · exact ⟨n, rfl, hr, fun _ => hrc⟩
  | black =>
    obtain ⟨m, rfl, hl, hr⟩ := h
    rcases hb with rfl | rfl
    · exact ⟨m, rfl, hl, fun hred => by cases hred⟩
    · exact ⟨m, rfl, hr, fun hred => by cases hred⟩

end RbTree

end RedBlack
