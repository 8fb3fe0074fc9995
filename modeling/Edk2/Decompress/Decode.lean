import Mathlib.Data.Nat.Bitwise
import Edk2.Lib.Orbit
import Edk2.Decompress.Tables

/-!
# Bits and walks

The bit buffer holds 32 bits whatever the source is, so it always selects an entry of a table. A
walk that starts there either comes to a symbol or never ends: when its bits are used up it follows
the left links, and there are only so many nodes.
-/

namespace Edk2.Decompress

open Outcome

variable {short : Prop} {s s' s'' : Scratch} {n fuel numOfBits bound : ℕ}

/-- What the bit buffer and the source are like. A source may be `short` of the bytes that its
header announces. -/
structure BitsOk (short : Prop) (s : Scratch) : Prop where
  mBitBuf : s.mBitBuf < 2 ^ 32
  mBitCount : s.mBitCount ≤ 8
  mSubBitBuf : s.mSubBitBuf < 2 ^ 8
  source : ¬ short → s.mInBuf + s.mCompSize ≤ s.mSrcBase.length

/-- Only the bit buffer and the position in the source have changed. -/
def Refilled (s s' : Scratch) : Prop :=
  ∃ bitBuf subBitBuf bitCount inBuf compSize, s' =
    { s with
      mBitBuf := bitBuf, mSubBitBuf := subBitBuf, mBitCount := bitCount, mInBuf := inBuf
      mCompSize := compSize }

lemma Refilled.refl (s : Scratch) : Refilled s s := ⟨_, _, _, _, _, rfl⟩

lemma Refilled.trans (h : Refilled s s') (h' : Refilled s' s'') : Refilled s s'' := by
  obtain ⟨a, b, c, d, e, rfl⟩ := h
  obtain ⟨a', b', c', d', e', rfl⟩ := h'
  exact ⟨a', b', c', d', e', rfl⟩

/-- A read behind the end of the source. -/
def Lacks (short : Prop) (f : Failure) (_ : Scratch) : Prop := f = .bounds ∧ short

lemma nextByte_spec (h : BitsOk short s) :
    Ends (nextByte s) (fun _ s' => BitsOk short s' ∧ Refilled s s' ∧ s'.mBitCount = 8)
      (Lacks short) := by
  refine ends_bind (ends_get (ends_ite (fun hpos => ?_) fun _ => ?_))
  · cases hget : s.mSrcBase[s.mInBuf]? with
    | none =>
      refine ends_throw ⟨rfl, by_contra fun hlong => ?_⟩
      have hsou := h.source hlong
      have hend := List.getElem?_eq_none_iff.mp hget
      omega
    | some byte =>
      refine ends_set ⟨⟨h.mBitBuf, le_rfl, UInt8.toNat_lt byte, fun hlong => ?_⟩,
        ⟨_, _, _, _, _, rfl⟩, rfl⟩
      have hsou := h.source hlong
      simp only
      omega
  · exact ends_set ⟨⟨h.mBitBuf, le_rfl, Nat.two_pow_pos 8, h.source⟩, ⟨_, _, _, _, _, rfl⟩, rfl⟩

lemma fillLoop_spec (h : BitsOk short s) (hfuel : numOfBits + 2 ≤ fuel ∨
    (s.mBitCount = 8 ∧ numOfBits + 1 ≤ fuel)) :
    Ends (fillLoop fuel numOfBits s)
      (fun rest s' => BitsOk short s' ∧ Refilled s s' ∧ rest ≤ s'.mBitCount) (Lacks short) := by
  induction fuel generalizing s numOfBits with
  | zero => omega
  | succ fuel ih =>
    refine ends_bind (ends_get (ends_ite (fun hmore => ?_) fun hdone => ?_))
    · refine ends_bind (ends_set ?_)
      have h₁ : BitsOk short { s with
          mBitBuf := s.mBitBuf ||| u32 (s.mSubBitBuf * 2 ^ (numOfBits - s.mBitCount)) } :=
        ⟨Nat.or_lt_two_pow h.mBitBuf (Nat.mod_lt _ (by decide)), h.mBitCount, h.mSubBitBuf, h.source⟩
      refine ends_bind ((nextByte_spec h₁).imp fun _ s₂ h₂ => ?_)
      obtain ⟨hok, href, hcnt⟩ := h₂
      refine (ih hok (.inr ⟨hcnt, by omega⟩)).imp fun rest s₃ h₃ => ⟨h₃.1, ?_, h₃.2.2⟩
      exact Refilled.trans ⟨_, _, _, _, _, rfl⟩ (href.trans h₃.2.1)
    · exact ends_pure ⟨h, Refilled.refl s, not_lt.mp hdone⟩

lemma fillBuf_spec (numOfBits : ℕ) (h : BitsOk short s) :
    Ends (fillBuf numOfBits s) (fun _ s' => BitsOk short s' ∧ Refilled s s') (Lacks short) := by
  refine ends_bind (ends_modify ?_)
  have h₁ : BitsOk short { s with mBitBuf := u32 (s.mBitBuf * 2 ^ numOfBits) } :=
    ⟨Nat.mod_lt _ (by decide), h.mBitCount, h.mSubBitBuf, h.source⟩
  refine ends_bind ((fillLoop_spec h₁ (.inl le_rfl)).imp fun rest s₂ h₂ => ?_)
  obtain ⟨hok, href, hrest⟩ := h₂
  refine ends_modify ⟨⟨?_, ?_, hok.mSubBitBuf, hok.source⟩, ?_⟩
  · refine Nat.or_lt_two_pow hok.mBitBuf ?_
    exact lt_of_le_of_lt (Nat.div_le_self _ _) (lt_trans hok.mSubBitBuf (by decide))
  · exact (Nat.sub_le _ _).trans hok.mBitCount
  · exact Refilled.trans (Refilled.trans ⟨_, _, _, _, _, rfl⟩ href) ⟨_, _, _, _, _, rfl⟩

lemma getBits_spec (h : BitsOk short s) (hbits : numOfBits ≤ 32) :
    Ends (getBits numOfBits s)
      (fun value s' => BitsOk short s' ∧ Refilled s s' ∧ value < 2 ^ numOfBits) (Lacks short) := by
  refine ends_bind (ends_get (ends_bind ((fillBuf_spec numOfBits h).imp fun _ s₁ h₁ => ?_)))
  refine ends_pure ⟨h₁.1, h₁.2, Nat.div_lt_of_lt_mul ?_⟩
  rw [← Nat.pow_add, Nat.sub_add_cancel hbits]
  exact h.mBitBuf

namespace Walk

/-- The node that a walk has come to after `k` steps. -/
def node (w : Walk) : ℕ → ℕ
  | 0 => w.entry
  | k + 1 => child w.mLeft w.mRight w.mBitBuf (w.mask / 2 ^ k) (w.node k)

lemma node_succ (w : Walk) (k : ℕ) :
    w.node (k + 1) = child w.mLeft w.mRight w.mBitBuf (w.mask / 2 ^ k) (w.node k) := rfl

/-- The walk comes to a symbol. -/
def Reaches (w : Walk) : Prop := ∃ k, w.node k < w.bound

/-- The rest of a walk after its first step. -/
def tail (w : Walk) : Walk :=
  { w with mask := w.mask / 2, entry := child w.mLeft w.mRight w.mBitBuf w.mask w.entry }

lemma node_tail (w : Walk) (k : ℕ) : w.tail.node k = w.node (k + 1) := by
  induction k with
  | zero =>
    rw [node_succ, Nat.pow_zero, Nat.div_one]
    rfl
  | succ k ih =>
    rw [node_succ, ih, node_succ w (k + 1), Nat.pow_succ', ← Nat.div_div_eq_div_mul]
    rfl

/-- Links lead to nodes. -/
structure Inside (w : Walk) : Prop where
  left : ∀ i, w.mLeft i < nodes
  right : ∀ i, w.mRight i < nodes
  entry : w.entry < nodes

lemma Inside.tail {w : Walk} (h : w.Inside) : w.tail.Inside := by
  refine ⟨h.left, h.right, ?_⟩
  simp only [Walk.tail, child]
  split_ifs
  · exact h.right _
  · exact h.left _

lemma Inside.node_lt {w : Walk} (h : w.Inside) (k : ℕ) : w.node k < nodes := by
  cases k with
  | zero => exact h.entry
  | succ k =>
    rw [node, child]
    split_ifs
    · exact h.right _
    · exact h.left _

lemma node_left {w : Walk} (hmask : w.mask < 2 ^ 32) (k : ℕ) :
    w.node (32 + k) = w.mLeft^[k] (w.node 32) := by
  induction k with
  | zero => rfl
  | succ k ih =>
    have hzero : w.mask / 2 ^ (32 + k) = 0 := by
      refine Nat.div_eq_of_lt (lt_of_lt_of_le hmask ?_)
      grind
    simp [node, hzero, ih, Function.iterate_succ_apply', child, Nat.and_zero]

lemma not_reaches {w : Walk} (h : w.Inside) (hmask : w.mask < 2 ^ 32)
    (hall : ∀ k ≤ bitBufSiz + nodes, w.bound ≤ w.node k) : ¬ w.Reaches := by
  have hfor : ∀ k, w.bound ≤ w.mLeft^[k] (w.node 32) := by
    refine Orbit.forall_of_forall_le (n := nodes) (fun k => ?_) fun k hk => ?_
    · rw [← node_left hmask]
      exact h.node_lt _
    · rw [← node_left hmask]
      exact hall _ (Nat.add_le_add_left hk 32)
  rintro ⟨k, hk⟩
  rcases Nat.lt_or_ge k 32 with hlt | hge
  · grind
  · obtain ⟨j, rfl⟩ := Nat.exists_eq_add_of_le hge
    grind [node_left]

lemma reaches_of_own {w : Walk} {E P : Set ℕ} {avail : ℕ} {t : Tables}
    (h : Own w.bound E P avail t) (hl : t.mLeft = w.mLeft) (hr : t.mRight = w.mRight)
    (hent : w.entry < w.bound ∨ w.entry ∈ P) : w.Reaches := by
  by_contra hno
  have hge : ∀ k, w.bound ≤ w.node k := fun k => not_lt.mp fun hlt => hno ⟨k, hlt⟩
  have hup : ∀ k, w.node k ∈ P ∧ k ≤ w.node k := by
    intro k
    induction k with
    | zero => exact ⟨hent.resolve_left (not_lt.mpr (hge 0)), Nat.zero_le _⟩
    | succ k ih =>
      have hnext := hge (k + 1)
      rw [node, child] at hnext ⊢
      split_ifs at hnext ⊢
      · have hlink := (h.right _ ih.1).resolve_left (not_lt.mpr (hr ▸ hnext))
        grind
      · have hlink := (h.left _ ih.1).resolve_left (not_lt.mpr (hl ▸ hnext))
        grind
  have hlast := hup avail
  exact absurd (h.lt _ hlast.1) (not_lt.mpr hlast.2)

end Walk

lemma walkLoop_spec (fuel : ℕ) (w : Walk) (h : w.Inside) (hl : w.mLeft = s.mLeft) (hr : w.mRight = s.mRight)
    (hb : w.mBitBuf = s.mBitBuf) :
    Ends (walkLoop w.bound fuel w.mask w.entry s) (fun v s' => s' = s ∧ v < w.bound ∧ w.Reaches)
      (fun f s' => f = .hang ∧ s' = s ∧ ∀ k ≤ fuel, w.bound ≤ w.node k) := by
  induction fuel generalizing w with
  | zero =>
    refine ends_ite (fun hge => ends_throw ⟨rfl, rfl, fun k hk => ?_⟩) fun hlt => ?_
    · rw [Nat.le_zero.mp hk]
      exact hge
    · exact ends_pure ⟨rfl, not_le.mp hlt, 0, not_le.mp hlt⟩
  | succ fuel ih =>
    refine ends_ite (fun hge => ?_) fun hlt => ends_pure ⟨rfl, not_le.mp hlt, 0, not_le.mp hlt⟩
    refine ends_ite (fun _ => ?_) fun hout => absurd h.entry hout
    refine ends_bind (ends_get ?_)
    rw [← hl, ← hr, ← hb]
    refine (ih w.tail h.tail hl hr hb).mono (fun v s' hv => ?_) fun f s' hf => ?_
    · obtain ⟨hs, hlt, k, hk⟩ := hv
      rw [Walk.node_tail] at hk
      exact ⟨hs, hlt, k + 1, hk⟩
    · obtain ⟨hf, hs, hall⟩ := hf
      refine ⟨hf, hs, fun k hk => ?_⟩
      cases k with
      | zero => exact hge
      | succ k =>
        rw [← Walk.node_tail]
        exact hall k (Nat.le_of_succ_le_succ hk)

end Edk2.Decompress

/-!
## Decoding

Every access of the decoder stays in bounds, whatever the source is. It can only hang in a walk
that starts in a table without codes of its own: a set of a single symbol that does not exist, a
set in which no symbol has a code, or a Char&Len Set whose bad table was not reported.
-/

namespace Edk2.Decompress

open Outcome

variable {short : Prop} {s s' s'' : Scratch} {n fuel numOfBits bound nn : ℕ} {f : Failure}

/-- The state of the decoder at any time. -/
structure Good (short : Prop) (s : Scratch) : Prop where
  bits : BitsOk short s
  left : ∀ i, s.mLeft i < nodes
  right : ∀ i, s.mRight i < nodes
  mPTTable : ∀ i, s.mPTTable i < nodes
  mCTable : ∀ i, s.mCTable i < nodes
  stale : ∀ w ∈ s.stale, w.Reaches

/-- The nodes of the table `mPTTable` are its own. -/
def OwnPT (bound : ℕ) (s : Scratch) : Prop :=
  s.ownPT = true → ∃ avail, Grown bound {i | i < 2 ^ 8} avail ⟨s.mLeft, s.mRight, s.mPTTable⟩

/-- The nodes of the table `mCTable` are its own. -/
def OwnC (s : Scratch) : Prop :=
  s.ownC = true → ∃ avail, Grown nc {i | i < 2 ^ 12} avail ⟨s.mLeft, s.mRight, s.mCTable⟩

/-- The decoder hangs in a walk that does not come to a symbol, or the source ends too early. -/
def Fails (short : Prop) (f : Failure) (s : Scratch) : Prop :=
  (f = .hang ∧ ∃ w ∈ s.stale, ¬ w.Reaches) ∨ (f = .bounds ∧ short)

/-- Only bits and code lengths have changed. -/
def Aside (s s' : Scratch) : Prop :=
  ∃ bitBuf subBitBuf bitCount inBuf compSize ptLen cLen walks, s' =
    { s with
      mBitBuf := bitBuf, mSubBitBuf := subBitBuf, mBitCount := bitCount, mInBuf := inBuf
      mCompSize := compSize, mPTLen := ptLen, mCLen := cLen, stale := walks }

lemma Aside.refl (s : Scratch) : Aside s s := ⟨_, _, _, _, _, _, _, _, rfl⟩

lemma Aside.trans (h : Aside s s') (h' : Aside s' s'') : Aside s s'' := by
  obtain ⟨a, b, c, d, e, pl, cl, ws, rfl⟩ := h
  obtain ⟨a', b', c', d', e', pl', cl', ws', rfl⟩ := h'
  exact ⟨a', b', c', d', e', pl', cl', ws', rfl⟩

lemma Refilled.aside (h : Refilled s s') : Aside s s' := by
  obtain ⟨a, b, c, d, e, rfl⟩ := h
  exact ⟨_, _, _, _, _, _, _, _, rfl⟩

lemma Aside.ownPT (h : Aside s s') (hown : OwnPT bound s) : OwnPT bound s' := by
  obtain ⟨a, b, c, d, e, pl, cl, ws, rfl⟩ := h
  exact hown

lemma Aside.ownC (h : Aside s s') (hown : OwnC s) : OwnC s' := by
  obtain ⟨a, b, c, d, e, pl, cl, ws, rfl⟩ := h
  exact hown

lemma Good.refilled (h : Good short s) (hbits : BitsOk short s') (hr : Refilled s s') : Good short s' := by
  obtain ⟨a, b, c, d, e, rfl⟩ := hr
  exact ⟨hbits, h.left, h.right, h.mPTTable, h.mCTable, h.stale⟩

lemma fillBuf_good (numOfBits : ℕ) (h : Good short s) :
    Ends (fillBuf numOfBits s) (fun _ s' => Good short s' ∧ Aside s s') (Fails short) :=
  (fillBuf_spec numOfBits h.bits).mono (fun _ _ h₁ => ⟨h.refilled h₁.1 h₁.2, h₁.2.aside⟩)
    fun _ _ hf => .inr hf

lemma getBits_good (h : Good short s) (hbits : numOfBits ≤ 32) :
    Ends (getBits numOfBits s) (fun v s' => Good short s' ∧ Aside s s' ∧ v < 2 ^ numOfBits) (Fails short) :=
  (getBits_spec h.bits hbits).mono
    (fun _ _ h₁ => ⟨h.refilled h₁.1 h₁.2.1, h₁.2.1.aside, h₁.2.2⟩) fun _ _ hf => .inr hf

lemma walk_spec {own : Bool} {table : ℕ → ℕ} {tableBits : ℕ} (h : Good short s)
    (htab : ∀ i, table i < nodes) (hbits : tableBits ≤ 31)
    (hown : own = true → ∃ avail, Grown bound {i | i < 2 ^ tableBits} avail
      ⟨s.mLeft, s.mRight, table⟩) :
    Ends (walk own table tableBits bound s) (fun v s' => Good short s' ∧ Aside s s' ∧ v < bound) (Fails short) := by
  refine ends_bind (ends_get (ends_ite (fun hin => ?_) fun hout => ?_))
  · let w : Walk := ⟨s.mLeft, s.mRight, s.mBitBuf, 2 ^ (bitBufSiz - 1 - tableBits),
      table (s.mBitBuf / 2 ^ (bitBufSiz - tableBits)), bound⟩
    have hins : w.Inside := ⟨h.left, h.right, htab _⟩
    have hmask : w.mask < 2 ^ 32 := Nat.pow_lt_pow_right (by decide) (by simp only [bitBufSiz]; omega)
    refine ends_bind (ends_modify ?_)
    cases own with
    | true =>
      refine (walkLoop_spec _ w hins rfl rfl rfl).mono ?_ ?_
      · rintro v _ ⟨rfl, hlt, -⟩
        exact ⟨h, Aside.refl _, hlt⟩
      · rintro f _ ⟨-, rfl, hall⟩
        obtain ⟨avail, hgro⟩ := hown rfl
        obtain ⟨P, hP⟩ := hgro.own
        exact absurd (w.reaches_of_own hP rfl rfl (hP.table _ hin))
          (Walk.not_reaches hins hmask hall)
    | false =>
      have hloop := walkLoop_spec (s := { s with stale := w :: s.stale }) (bitBufSiz + nodes) w
        hins rfl rfl rfl
      rw [if_neg Bool.false_ne_true]
      refine hloop.mono ?_ ?_
      · rintro v _ ⟨rfl, hlt, hrea⟩
        refine ⟨⟨⟨h.bits.mBitBuf, h.bits.mBitCount, h.bits.mSubBitBuf, h.bits.source⟩, h.left,
          h.right, h.mPTTable, h.mCTable, ?_⟩, ⟨_, _, _, _, _, _, _, _, rfl⟩, hlt⟩
        intro w' hw'
        rcases List.mem_cons.mp hw' with rfl | hw'
        · exact hrea
        · exact h.stale w' hw'
      · rintro f _ ⟨rfl, rfl, hall⟩
        exact .inl ⟨rfl, w, List.mem_cons_self, Walk.not_reaches hins hmask hall⟩
  · -- the bit buffer selects an entry
    refine absurd (Nat.div_lt_of_lt_mul ?_) hout
    rw [← Nat.pow_add, Nat.sub_add_cancel (by simp only [bitBufSiz]; omega)]
    exact h.bits.mBitBuf

lemma walkPT_spec (h : Good short s) (hown : OwnPT bound s) :
    Ends (walkPT bound s) (fun v s' => Good short s' ∧ Aside s s' ∧ v < bound) (Fails short) :=
  ends_bind (ends_get (walk_spec h h.mPTTable (by decide) hown))

lemma walkC_spec (h : Good short s) (hown : OwnC s) :
    Ends (walkC s) (fun v s' => Good short s' ∧ Aside s s' ∧ v < nc) (Fails short) :=
  ends_bind (ends_get (walk_spec h h.mCTable (by decide) hown))

lemma Good.lengths {pl cl : ℕ → ℕ} (h : Good short s) : Good short { s with mPTLen := pl, mCLen := cl } :=
  ⟨⟨h.bits.mBitBuf, h.bits.mBitCount, h.bits.mSubBitBuf, h.bits.source⟩, h.left, h.right,
    h.mPTTable, h.mCTable, h.stale⟩

lemma readPTLenAt_spec {index : ℕ} (h : Good short s) (hind : index < npt) :
    Ends (readPTLenAt index s) (fun _ s' => Good short s' ∧ Aside s s') (Fails short) :=
  ends_bind (ends_get (ends_ite (fun _ => ends_pure ⟨h, Aside.refl s⟩) fun hout => absurd hind hout))

lemma readCLenAt_spec {index : ℕ} (h : Good short s) (hind : index < nc) :
    Ends (readCLenAt index s) (fun _ s' => Good short s' ∧ Aside s s') (Fails short) :=
  ends_bind (ends_get (ends_ite (fun _ => ends_pure ⟨h, Aside.refl s⟩) fun hout => absurd hind hout))

lemma writePTLenAt_spec {index value : ℕ} (h : Good short s) (hind : index < npt) :
    Ends (writePTLenAt index value s) (fun _ s' => Good short s' ∧ Aside s s') (Fails short) :=
  ends_ite (fun _ => ends_modify ⟨h.lengths, ⟨_, _, _, _, _, _, _, _, rfl⟩⟩)
    fun hout => absurd hind hout

lemma writeCLenAt_spec {index value : ℕ} (h : Good short s) (hind : index < nc) :
    Ends (writeCLenAt index value s) (fun _ s' => Good short s' ∧ Aside s s') (Fails short) :=
  ends_ite (fun _ => ends_modify ⟨h.lengths, ⟨_, _, _, _, _, _, _, _, rfl⟩⟩)
    fun hout => absurd hind hout

lemma zeroPTLoop_spec {charC index : ℕ} (h : Good short s) :
    Ends (zeroPTLoop charC index s) (fun _ s' => Good short s' ∧ Aside s s') (Fails short) := by
  induction charC generalizing s index with
  | zero => exact ends_pure ⟨h, Aside.refl s⟩
  | succ charC ih =>
    refine ends_ite (fun hind => ?_) fun _ => ends_pure ⟨h, Aside.refl s⟩
    refine ends_bind ((writePTLenAt_spec h hind).imp fun _ s₁ h₁ => ?_)
    exact (ih h₁.1).imp fun _ s₂ h₂ => ⟨h₂.1, h₁.2.trans h₂.2⟩

lemma zeroCLoop_spec {charC index : ℕ} (h : Good short s) :
    Ends (zeroCLoop charC index s) (fun _ s' => Good short s' ∧ Aside s s') (Fails short) := by
  induction charC generalizing s index with
  | zero => exact ends_pure ⟨h, Aside.refl s⟩
  | succ charC ih =>
    refine ends_ite (fun hind => ?_) fun _ => ends_pure ⟨h, Aside.refl s⟩
    refine ends_bind ((writeCLenAt_spec h hind).imp fun _ s₁ h₁ => ?_)
    exact (ih h₁.1).imp fun _ s₂ h₂ => ⟨h₂.1, h₁.2.trans h₂.2⟩

lemma specialZeros_spec {special index : ℕ} (h : Good short s) :
    Ends (specialZeros special index s) (fun _ s' => Good short s' ∧ Aside s s') (Fails short) := by
  refine ends_ite (fun _ => ?_) fun _ => ends_pure ⟨h, Aside.refl s⟩
  refine ends_bind ((getBits_good h (by decide)).imp fun _ s₁ h₁ => ?_)
  exact (zeroPTLoop_spec h₁.1).imp fun _ s₂ h₂ => ⟨h₂.1, h₁.2.1.trans h₂.2⟩

lemma readPTLoop_spec {number special index : ℕ} (h : Good short s) :
    Ends (readPTLoop number special fuel index s) (fun _ s' => Good short s' ∧ Aside s s') (Fails short) := by
  induction fuel generalizing s index with
  | zero => exact ends_pure ⟨h, Aside.refl s⟩
  | succ fuel ih =>
    refine ends_ite (fun hind => ?_) fun _ => ends_pure ⟨h, Aside.refl s⟩
    refine ends_bind (ends_get (ends_bind ((fillBuf_good _ h).imp fun _ s₁ h₁ => ?_)))
    refine ends_bind ((writePTLenAt_spec h₁.1 hind.2).imp fun _ s₂ h₂ => ?_)
    refine ends_bind ((specialZeros_spec h₂.1).imp fun _ s₃ h₃ => ?_)
    refine (ih h₃.1).imp fun _ s₄ h₄ => ⟨h₄.1, ?_⟩
    exact h₁.2.trans (h₂.2.trans (h₃.2.trans h₄.2))

lemma zeroRun_spec {charC : ℕ} (h : Good short s) :
    Ends (zeroRun charC s) (fun _ s' => Good short s' ∧ Aside s s') (Fails short) := by
  refine ends_ite (fun _ => ends_pure ⟨h, Aside.refl s⟩) fun _ => ends_ite (fun _ => ?_) fun _ => ?_
  · exact ends_bind ((getBits_good h (by decide)).imp fun _ _ h₁ => ends_pure ⟨h₁.1, h₁.2.1⟩)
  · exact ends_bind ((getBits_good h (by decide)).imp fun _ _ h₁ => ends_pure ⟨h₁.1, h₁.2.1⟩)

lemma enterCLen_spec {charC index : ℕ} (h : Good short s) (hind : index < nc) :
    Ends (enterCLen charC index s) (fun _ s' => Good short s' ∧ Aside s s') (Fails short) := by
  refine ends_ite (fun _ => ?_) fun _ => ?_
  · refine ends_bind ((zeroRun_spec h).imp fun _ s₁ h₁ => ?_)
    exact (zeroCLoop_spec h₁.1).imp fun _ s₂ h₂ => ⟨h₂.1, h₁.2.trans h₂.2⟩
  · exact ends_bind ((writeCLenAt_spec h hind).imp fun _ _ h₁ => ends_pure h₁)

lemma readCLoop_spec {number index : ℕ} (h : Good short s) (hown : OwnPT nt s) :
    Ends (readCLoop number fuel index s) (fun _ s' => Good short s' ∧ Aside s s') (Fails short) := by
  induction fuel generalizing s index with
  | zero => exact ends_pure ⟨h, Aside.refl s⟩
  | succ fuel ih =>
    refine ends_ite (fun hind => ?_) fun _ => ends_pure ⟨h, Aside.refl s⟩
    refine ends_bind ((walkPT_spec h hown).imp fun charC s₁ h₁ => ?_)
    have hchar : charC < npt := lt_trans h₁.2.2 (by decide)
    refine ends_bind ((readPTLenAt_spec h₁.1 hchar).imp fun len s₂ h₂ => ?_)
    refine ends_bind ((fillBuf_good len h₂.1).imp fun _ s₃ h₃ => ?_)
    refine ends_bind ((enterCLen_spec h₃.1 hind.2).imp fun _ s₄ h₄ => ?_)
    have hasi := h₁.2.1.trans (h₂.2.trans (h₃.2.trans h₄.2))
    exact (ih h₄.1 (hasi.ownPT hown)).imp fun _ s₅ h₅ => ⟨h₅.1, hasi.trans h₅.2⟩

/-- What the decoder leaves alone while it reads a block header or a code. -/
structure Keeps (s s' : Scratch) : Prop where
  mOutBuf : s'.mOutBuf = s.mOutBuf
  mOrigSize : s'.mOrigSize = s.mOrigSize
  mPBit : s'.mPBit = s.mPBit

lemma Keeps.refl (s : Scratch) : Keeps s s := ⟨rfl, rfl, rfl⟩

lemma Keeps.trans (h : Keeps s s') (h' : Keeps s' s'') : Keeps s s'' :=
  ⟨h'.mOutBuf.trans h.mOutBuf, h'.mOrigSize.trans h.mOrigSize, h'.mPBit.trans h.mPBit⟩

lemma Aside.keeps (h : Aside s s') : Keeps s s' := by
  obtain ⟨a, b, c, d, e, pl, cl, ws, rfl⟩ := h
  exact ⟨rfl, rfl, rfl⟩

lemma ends_onPT {α : Type} {m : TableM α} {Q : α → Tables → Prop} {R : α → Scratch → Prop}
    {E : Failure → Scratch → Prop}
    (hm : Ends (m ⟨s.mLeft, s.mRight, s.mPTTable⟩) Q (fun _ _ => False))
    (h : ∀ a t, Q a t → R a { s with mLeft := t.mLeft, mRight := t.mRight, mPTTable := t.table }) :
    Ends (onPT m s) R E := by
  unfold onPT
  rcases hrun : m ⟨s.mLeft, s.mRight, s.mPTTable⟩ with ⟨a, t⟩ | ⟨e, t⟩
  · exact ends_ok (h a t (hm.of_ok hrun))
  · exact (hm.of_error hrun).elim

lemma ends_onC {α : Type} {m : TableM α} {Q : α → Tables → Prop} {R : α → Scratch → Prop}
    {E : Failure → Scratch → Prop}
    (hm : Ends (m ⟨s.mLeft, s.mRight, s.mCTable⟩) Q (fun _ _ => False))
    (h : ∀ a t, Q a t → R a { s with mLeft := t.mLeft, mRight := t.mRight, mCTable := t.table }) :
    Ends (onC m s) R E := by
  unfold onC
  rcases hrun : m ⟨s.mLeft, s.mRight, s.mCTable⟩ with ⟨a, t⟩ | ⟨e, t⟩
  · exact ends_ok (h a t (hm.of_ok hrun))
  · exact (hm.of_error hrun).elim

lemma Grown.touched {E : Set ℕ} {avail limit : ℕ} {t t' : Tables} (h : Grown bound E avail t)
    (ht : Touched limit t t') (hlim : limit ≤ bound) (htab : t'.table = t.table)
    (hsma : Small t') : Grown bound E avail t' := by
  obtain ⟨P, hP⟩ := h.own
  refine ⟨hsma, ⟨P, hP.lt, htab ▸ hP.table, fun n hn => ?_, fun n hn => ?_⟩, h.avail_le, h.le_avail⟩
  · rcases ht.left n with heq | hlt
    · rw [heq]
      exact hP.left n hn
    · exact .inl (lt_of_lt_of_le hlt hlim)
  · rcases ht.right n with heq | hlt
    · rw [heq]
      exact hP.right n hn
    · exact .inl (lt_of_lt_of_le hlt hlim)

lemma grown_single {t : Tables} (h : Small t) {E : Set ℕ} {charC : ℕ} (hle : bound ≤ nodes)
    (htab : ∀ i, t.table i = charC) (hlt : charC < bound) : Grown bound E bound t := by
  refine ⟨h, ⟨∅, ?_, fun i _ => .inl (by rw [htab]; exact hlt), ?_, ?_⟩, hle, le_rfl⟩
  · exact fun n hn => absurd hn (Set.notMem_empty n)
  · exact fun n hn => absurd hn (Set.notMem_empty n)
  · exact fun n hn => absurd hn (Set.notMem_empty n)

/-- What the reading of an Extra Set or a Position Set leaves. -/
structure ReadPT (short : Prop) (nn : ℕ) (s : Scratch) (status : ℕ) (s' : Scratch) : Prop where
  good : Good short s'
  keeps : Keeps s s'
  ownC : OwnC s → OwnC s'
  ownPT : status = 0 → OwnPT nn s'

lemma singlePT_spec {nbit : ℕ} (h : Good short s) (hnn : nn ≤ npt) (hnbit : nbit ≤ 5) :
    Ends (singlePT nn nbit s) (ReadPT short nn s) (Fails short) := by
  refine ends_bind ((getBits_good h (by omega)).imp fun charC s₁ h₁ => ?_)
  obtain ⟨hgood, hasi, hlt⟩ := h₁
  have hchar : charC < nodes := by
    refine lt_of_lt_of_le hlt ((Nat.pow_le_pow_right (by decide) hnbit).trans (by decide))
  refine ends_bind (ends_modify (ends_pure ⟨⟨⟨hgood.bits.mBitBuf, hgood.bits.mBitCount,
    hgood.bits.mSubBitBuf, hgood.bits.source⟩, hgood.left, hgood.right, fun _ => hchar,
    hgood.mCTable, hgood.stale⟩, ⟨hasi.keeps.mOutBuf, hasi.keeps.mOrigSize, hasi.keeps.mPBit⟩,
    fun hown => hasi.ownC hown, fun _ hsin => ⟨nn, ?_⟩⟩))
  refine grown_single ⟨hgood.left, hgood.right, fun _ => hchar⟩ (hnn.trans (by decide))
    (fun _ => rfl) ?_
  simpa using hsin

lemma severalPT_spec {number special : ℕ} (h : Good short s) (hpos : 0 < nn) (hnn : nn ≤ npt) :
    Ends (severalPT nn number special s) (ReadPT short nn s) (Fails short) := by
  refine ends_bind ((readPTLoop_spec h).imp fun index s₁ h₁ => ends_bind (ends_modify ?_))
  obtain ⟨hgood, hasi⟩ := h₁
  refine ends_bind (ends_get (ends_bind ?_))
  have hsize : npt = 31 := rfl
  have hlim : nn + nn * (16 - 8) ≤ nc := by
    have : nc = 510 := rfl
    omega
  refine ends_onPT (makeTable_spec ⟨hgood.left, hgood.right, hgood.mPTTable⟩ hpos
    (hnn.trans (by decide)) hnn (by decide) (hnn.trans (by decide))) fun status t ht => ?_
  refine ends_bind (ends_modify (ends_pure ⟨⟨⟨hgood.bits.mBitBuf, hgood.bits.mBitCount,
    hgood.bits.mSubBitBuf, hgood.bits.source⟩, ht.small.left, ht.small.right, ht.small.table,
    hgood.mCTable, hgood.stale⟩, ⟨hasi.keeps.mOutBuf, hasi.keeps.mOrigSize, hasi.keeps.mPBit⟩,
    fun hown hc => ?_, fun hok hcode => ?_⟩))
  · obtain ⟨avail, hgro⟩ := hasi.ownC hown hc
    exact ⟨avail, hgro.touched ⟨ht.touched.left, ht.touched.right⟩ hlim rfl
      ⟨ht.small.left, ht.small.right, hgood.mCTable⟩⟩
  · simp only [Bool.and_eq_true] at hcode
    exact ht.own hok hcode.2

lemma readPTLen_spec {nbit special : ℕ} (nn : ℕ) (h : Good short s) (hpos : 0 < nn) (hnn : nn ≤ npt)
    (hnbit : nbit ≤ 5) : Ends (readPTLen nn nbit special s) (ReadPT short nn s) (Fails short) := by
  refine ends_bind ((getBits_good h (by omega)).imp fun number s₁ h₁ => ?_)
  have hback : ∀ status s', ReadPT short nn s₁ status s' → ReadPT short nn s status s' :=
    fun status s' hr => ⟨hr.good, h₁.2.1.keeps.trans hr.keeps, fun ho => hr.ownC (h₁.2.1.ownC ho),
      hr.ownPT⟩
  exact ends_ite (fun _ => (singlePT_spec h₁.1 hnn hnbit).imp hback)
    fun _ => (severalPT_spec h₁.1 hpos hnn).imp hback

lemma singleC_spec (h : Good short s) :
    Ends (singleC s) (fun _ s' => Good short s' ∧ Keeps s s' ∧ OwnC s') (Fails short) := by
  refine ends_bind ((getBits_good h (by decide)).imp fun charC s₁ h₁ => ends_modify ?_)
  obtain ⟨hgood, hasi, hlt⟩ := h₁
  have hkee := hasi.keeps
  have hchar : charC < nodes := lt_of_lt_of_le hlt (by decide)
  refine ⟨⟨⟨hgood.bits.mBitBuf, hgood.bits.mBitCount, hgood.bits.mSubBitBuf, hgood.bits.source⟩,
    hgood.left, hgood.right, hgood.mPTTable, fun _ => hchar, hgood.stale⟩,
    ⟨hkee.mOutBuf, hkee.mOrigSize, hkee.mPBit⟩, fun hsin => ⟨nc, ?_⟩⟩
  refine grown_single ⟨hgood.left, hgood.right, fun _ => hchar⟩ (by decide) (fun _ => rfl) ?_
  simpa using hsin

lemma severalC_spec {number : ℕ} (h : Good short s) (hown : OwnPT nt s) :
    Ends (severalC number s) (fun _ s' => Good short s' ∧ Keeps s s' ∧ OwnC s') (Fails short) := by
  refine ends_bind ((readCLoop_spec h hown).imp fun index s₁ h₁ => ?_)
  refine ends_bind (ends_modify (ends_bind (ends_get (ends_bind ?_))))
  obtain ⟨hgood, hasi⟩ := h₁
  have hkee := hasi.keeps
  refine ends_onC (makeTable_spec ⟨hgood.left, hgood.right, hgood.mCTable⟩ (by decide)
    (by decide) le_rfl (by decide) (by decide)) fun status t ht => ends_modify ?_
  refine ⟨⟨⟨hgood.bits.mBitBuf, hgood.bits.mBitCount, hgood.bits.mSubBitBuf, hgood.bits.source⟩,
    ht.small.left, ht.small.right, hgood.mPTTable, ht.small.table, hgood.stale⟩,
    ⟨hkee.mOutBuf, hkee.mOrigSize, hkee.mPBit⟩, fun hcode => ?_⟩
  simp only [Bool.and_eq_true, decide_eq_true_eq] at hcode
  exact ht.own hcode.1 hcode.2

lemma readCLen_spec (h : Good short s) (hown : OwnPT nt s) :
    Ends (readCLen s) (fun _ s' => Good short s' ∧ Keeps s s' ∧ OwnC s') (Fails short) := by
  refine ends_bind ((getBits_good h (by decide)).imp fun number s₁ h₁ => ?_)
  have hkee := h₁.2.1.keeps
  refine ends_ite (fun _ => ?_) fun _ => ?_
  · exact (singleC_spec h₁.1).imp fun _ s₂ h₂ => ⟨h₂.1, hkee.trans h₂.2.1, h₂.2.2⟩
  · exact (severalC_spec h₁.1 (h₁.2.1.ownPT hown)).imp
      fun _ s₂ h₂ => ⟨h₂.1, hkee.trans h₂.2.1, h₂.2.2⟩

/-- The state of the decoder between two codes. -/
structure Ready (short : Prop) (s : Scratch) : Prop where
  good : Good short s
  ownC : OwnC s
  ownPT : OwnPT maxNp s
  mPBit : s.mPBit ≤ 5

lemma Ready.aside (h : Ready short s) (hgood : Good short s') (ha : Aside s s') : Ready short s' :=
  ⟨hgood, ha.ownC h.ownC, ha.ownPT h.ownPT, ha.keeps.mPBit ▸ h.mPBit⟩

lemma Good.setBlock (blockSize flag : ℕ) (h : Good short s) :
    Good short { s with mBlockSize := blockSize, mBadTableFlag := flag } :=
  ⟨⟨h.bits.mBitBuf, h.bits.mBitCount, h.bits.mSubBitBuf, h.bits.source⟩, h.left, h.right,
    h.mPTTable, h.mCTable, h.stale⟩

lemma OwnC.setBlock (blockSize flag : ℕ) (h : OwnC s) :
    OwnC { s with mBlockSize := blockSize, mBadTableFlag := flag } := h

lemma OwnPT.setBlock (blockSize flag : ℕ) (h : OwnPT bound s) :
    OwnPT bound { s with mBlockSize := blockSize, mBadTableFlag := flag } := h

/-- What the start of a block leaves: a bad table sets the flag. -/
structure Started (short : Prop) (s : Scratch) (tables : Bool) (s' : Scratch) : Prop where
  good : Good short s'
  keeps : Keeps s s'
  ready : tables = true → Ready short s'
  flag : tables = false → s'.mBadTableFlag ≠ 0

lemma readPositions_spec (h : Good short s) (hown : OwnC s) (hpbit : s.mPBit ≤ 5) :
    Ends (readPositions s) (Started short s) (Fails short) := by
  refine ends_bind (ends_get (ends_bind ((readPTLen_spec maxNp h (by decide) (by decide) hpbit).imp
    fun flag s₁ h₁ => ends_bind (ends_modify (ends_pure ?_)))))
  refine ⟨h₁.good.setBlock _ _, ⟨h₁.keeps.mOutBuf, h₁.keeps.mOrigSize, h₁.keeps.mPBit⟩, fun hok => ?_,
    fun hbad => ?_⟩
  · have hzero : flag = 0 := by simpa using hok
    exact ⟨h₁.good.setBlock _ _, h₁.ownC hown, h₁.ownPT hzero, h₁.keeps.mPBit ▸ hpbit⟩
  · simpa using hbad

lemma startBlock_spec (h : Good short s) (hpbit : s.mPBit ≤ 5) :
    Ends (startBlock s) (Started short s) (Fails short) := by
  refine ends_bind ((getBits_good h (by decide)).imp fun blockSize s₁ h₁ =>
    ends_bind (ends_modify ?_))
  have hk₁ := h₁.2.1.keeps
  refine ends_bind ((readPTLen_spec nt (h₁.1.setBlock _ _) (by decide) (by decide)
    (by decide)).imp fun flag s₂ h₂ => ends_bind (ends_modify ?_))
  have hk₂ : Keeps s { s₂ with mBadTableFlag := flag } :=
    ⟨h₂.keeps.mOutBuf.trans hk₁.mOutBuf, h₂.keeps.mOrigSize.trans hk₁.mOrigSize,
      h₂.keeps.mPBit.trans hk₁.mPBit⟩
  refine ends_ite (fun hbad => ?_) fun hok => ?_
  · exact ends_pure ⟨h₂.good.setBlock _ _, hk₂, fun hfal => absurd hfal Bool.false_ne_true,
      fun _ => hbad⟩
  · refine ends_bind ((readCLen_spec (h₂.good.setBlock _ flag) (h₂.ownPT (not_not.mp hok))).imp
      fun _ s₃ h₃ => ?_)
    obtain ⟨hgoo₃, hk₃, hown₃⟩ := h₃
    have hk := hk₂.trans hk₃
    refine (readPositions_spec hgoo₃ hown₃ (hk.mPBit ▸ hpbit)).imp fun good s₄ h₄ => ?_
    exact ⟨h₄.good, hk.trans h₄.keeps, h₄.ready, h₄.flag⟩

lemma checkBlock_spec (h : Ready short s) : Ends (checkBlock s) (Started short s) (Fails short) := by
  refine ends_bind (ends_get (ends_ite (fun _ => startBlock_spec h.good h.mPBit) fun _ => ?_))
  exact ends_pure ⟨h.good, Keeps.refl s, fun _ => h, fun hfal => by cases hfal⟩

/-- What a code leaves. -/
structure Decoded (short : Prop) (s : Scratch) (s' : Scratch) : Prop where
  good : Good short s'
  keeps : Keeps s s'
  ready : s'.mBadTableFlag = 0 → Ready short s'

lemma decodeC_spec (h : Ready short s) : Ends (decodeC s) (fun _ s' => Decoded short s s') (Fails short) := by
  refine ends_bind ((checkBlock_spec h).imp fun good s₁ h₁ => ?_)
  refine ends_ite (fun hok => ?_) fun hbad => ?_
  · have hr₁ := h₁.ready hok
    refine ends_bind (ends_modify ?_)
    have hr₂ : Ready short { s₁ with mBlockSize := u16 (s₁.mBlockSize + (2 ^ 16 - 1)) } :=
      ⟨hr₁.good.setBlock _ _, hr₁.ownC.setBlock _ _, hr₁.ownPT.setBlock _ _, hr₁.mPBit⟩
    refine ends_bind ((walkC_spec hr₂.good hr₂.ownC).imp fun index2 s₃ h₃ => ?_)
    refine ends_bind ((readCLenAt_spec h₃.1 h₃.2.2).imp fun len s₄ h₄ => ?_)
    refine ends_bind ((fillBuf_good len h₄.1).imp fun _ s₅ h₅ => ends_pure ?_)
    have hasi := h₃.2.1.trans (h₄.2.trans h₅.2)
    have hk : Keeps s s₅ :=
      ⟨hasi.keeps.mOutBuf.trans h₁.keeps.mOutBuf, hasi.keeps.mOrigSize.trans h₁.keeps.mOrigSize,
        hasi.keeps.mPBit.trans h₁.keeps.mPBit⟩
    exact ⟨h₅.1, hk, fun _ => hr₂.aside h₅.1 hasi⟩
  · refine ends_pure ⟨h₁.good, h₁.keeps, fun hzero => ?_⟩
    exact absurd hzero (h₁.flag (Bool.eq_false_iff.mpr hbad))

lemma decodeP_spec (h : Ready short s) :
    Ends (decodeP s) (fun pos s' => Ready short s' ∧ Aside s s' ∧ pos < 2 ^ 30) (Fails short) := by
  refine ends_bind ((walkPT_spec h.good h.ownPT).imp fun val s₁ h₁ => ?_)
  have hval : val < 31 := h₁.2.2
  refine ends_bind ((readPTLenAt_spec h₁.1 hval).imp fun len s₂ h₂ => ?_)
  refine ends_bind ((fillBuf_good len h₂.1).imp fun _ s₃ h₃ => ?_)
  have hasi := h₁.2.1.trans (h₂.2.trans h₃.2)
  refine ends_ite (fun hgt => ?_) fun hle => ?_
  · refine ends_bind ((getBits_good h₃.1 (by omega)).imp fun bits s₄ h₄ => ends_pure ?_)
    have hasi₄ := hasi.trans h₄.2.1
    refine ⟨h.aside h₄.1 hasi₄, hasi₄, ?_⟩
    have hpow : 2 ^ (val - 1) ≤ 2 ^ 29 := Nat.pow_le_pow_right (by decide) (by omega)
    have hbits := h₄.2.2
    exact lt_of_le_of_lt (Nat.mod_le _ _) (by omega)
  · exact ends_pure ⟨h.aside h₃.1 hasi, hasi, by omega⟩

end Edk2.Decompress
