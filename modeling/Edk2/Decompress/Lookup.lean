import Edk2.Compress.MakeTree
import Edk2.Decompress.Build

/-!
# Looking up codes

A complete code never makes `MakeTable` give up, and the walk that starts at the table entry of the next
bits stops at the symbol whose code these bits begin with, whatever comes after it.
-/

namespace Edk2.Decompress

open Outcome

variable {bitLen lenCnt stack code mFreq : ℕ → ℕ} {n size tableBits avail c d fuel : ℕ} {t t' : Tables}
  {g : Nodes} {slot : Slot} {s : Scratch}

lemma Complete.lengthStart_ne_zero (h : Complete n bitLen) (hbits : tableBits ≤ 15)
    (hn : n < 2 ^ (tableBits + 1)) : lengthStart bitLen n (tableBits + 1) ≠ 0 := by
  intro hzero
  have hlong : ∀ c ∈ (Finset.range n).filter (fun c => bitLen c ≠ 0),
      2 ^ (codeBit - bitLen c) ≤ 2 ^ (15 - tableBits) := by
    intro c hc
    obtain ⟨hc, hne⟩ := Finset.mem_filter.mp hc
    have hcode : HasCode bitLen n c := ⟨Finset.mem_range.mp hc, hne⟩
    refine Nat.pow_le_pow_right (by decide) ?_
    by_contra hlt
    have hlt : bitLen c + 1 ≤ tableBits + 1 := by
      change ¬ 16 - bitLen c ≤ 15 - tableBits at hlt
      omega
    have hend := Decompress.codeStart_add_le hcode
    have hmono : lengthStart bitLen n (bitLen c + 1) ≤ lengthStart bitLen n (tableBits + 1) :=
      Canonical.base_mono hlt
    have hwid := Nat.two_pow_pos (codeBit - bitLen c)
    omega
  have hsum := Finset.sum_le_card_nsmul _ _ _ hlong
  have hcard := Finset.card_filter_le (Finset.range n) fun c => bitLen c ≠ 0
  rw [Finset.card_range] at hcard
  have hlt := Nat.mul_lt_mul_of_pos_right (lt_of_le_of_lt hcard hn)
    (Nat.two_pow_pos (15 - tableBits))
  rw [← Nat.pow_add, show tableBits + 1 + (15 - tableBits) = 16 by omega] at hlt
  rw [h.kraft, nsmul_eq_mul, Nat.cast_id] at hsum
  omega

/-- No code is entered yet. -/
def noNodes : Nodes := ⟨fun _ => (0, 0), ∅⟩

lemma Trie.empty (h : ∀ v, (Slot.table v).Used bitLen n tableBits n → t.table v = 0) :
    Trie bitLen n tableBits 0 n noNodes t := by
  have hnone : ∀ a, n ≤ a → ¬ a < n := fun a => not_lt.mpr
  refine ⟨rfl, fun a hge hlt => absurd hlt (hnone a hge), fun a b hge hlt => absurd hlt (hnone a hge),
    fun q hq => absurd hq (Finset.notMem_empty q), fun q hq => absurd hq (Finset.notMem_empty q),
    fun c hc => absurd hc (Nat.not_lt_zero c), ?_, fun c hc => absurd hc (Nat.not_lt_zero c)⟩
  intro slot hslot
  cases slot with
  | table v => exact .inl ⟨h v hslot, Finset.notMem_empty _, fun c hc => absurd hc (Nat.not_lt_zero c)⟩
  | left a => exact absurd hslot.2 (hnone a hslot.1)
  | right a => exact absurd hslot.2 (hnone a hslot.1)

lemma clearLong_trie (t : Tables) (hcom : Complete n bitLen) (hbits : tableBits ≤ 15)
    (hn : n < 2 ^ (tableBits + 1)) : Ends (clearLong bitLen n tableBits t)
      (fun _ t' => Trie bitLen n tableBits 0 n noNodes t') (fun _ _ => False) := by
  have hne := hcom.lengthStart_ne_zero hbits hn
  have hle : lengthStart bitLen n (tableBits + 1) ≤ 2 ^ 16 := hcom.lengthStart_le (by omega)
  have hpos := Nat.two_pow_pos (codeBit - tableBits)
  have hspl : 2 ^ tableBits * 2 ^ (codeBit - tableBits) = 2 ^ 16 := by
    rw [← Nat.pow_add]
    congr 1
    change tableBits + (16 - tableBits) = 16
    omega
  obtain ⟨a, ha⟩ : 2 ^ (codeBit - tableBits) ∣ lengthStart bitLen n (tableBits + 1) :=
    Canonical.width_dvd_base le_rfl
  rw [Nat.mul_comm] at ha
  have hsta : start bitLen n (tableBits + 1) = a * 2 ^ (codeBit - tableBits) % 2 ^ 16 := by
    rw [start_eq (Nat.le_add_left 1 tableBits), ha]
  have hused : ∀ v, (Slot.table v).Used bitLen n tableBits n → a ≤ v ∧ v < 2 ^ tableBits := by
    rintro v ⟨hge, hlt⟩
    rw [ha] at hge
    exact ⟨Nat.le_of_mul_le_mul_right hge hpos, hlt⟩
  rcases Nat.lt_or_eq_of_le hle with hlt | heq
  · rw [ha] at hlt hne
    rw [Nat.mod_eq_of_lt hlt] at hsta
    have hind : start bitLen n (tableBits + 1) / 2 ^ (16 - tableBits) = a := by
      rw [hsta]
      exact Nat.mul_div_cancel _ hpos
    unfold clearLong
    rw [hind]
    refine ends_ite (fun _ => ?_) fun hout => ?_
    · refine (fillTable_spec le_rfl).imp fun _ t₁ h₁ => ?_
      subst h₁
      exact Trie.empty fun v hv => if_pos (hused v hv)
    · refine absurd ⟨fun hzero => hne (by rw [hzero, Nat.zero_mul]), ?_⟩ hout
      rw [← hspl] at hlt
      exact Nat.lt_of_mul_lt_mul_right hlt
  · -- all codes are short
    have hzero : start bitLen n (tableBits + 1) / 2 ^ (16 - tableBits) = 0 := by
      rw [hsta, ← ha, heq, Nat.mod_self, Nat.zero_div]
    have hall : a = 2 ^ tableBits := by
      grind
    unfold clearLong
    rw [hzero]
    refine ends_ite (fun hin => absurd rfl hin.1) fun _ => ends_pure ?_
    grind [Trie.empty]

lemma Complete.pending (h : Complete n bitLen) :
    Pending bitLen n tableBits 0 (scaledStart bitLen n tableBits) := by
  intro c _ hcn hne
  have hpos : 1 ≤ bitLen c := Nat.one_le_iff_ne_zero.mpr hne
  have hnone : count bitLen 0 (bitLen c) = 0 := rfl
  rw [hnone, Nat.zero_mul, Nat.add_zero]
  unfold scaledStart
  rw [h.start_eq ⟨hcn, hne⟩]
  grind

lemma makeTable_trie (t : Tables) (hcom : Complete n bitLen) (hn : n ≤ nc) (hsize : n ≤ size)
    (hpos : 8 ≤ tableBits) (hbits : tableBits ≤ 15) : Ends (makeTable n bitLen size tableBits t)
      (fun status t' => status = 0 ∧ ∃ avail g, Trie bitLen n tableBits n avail g t')
      (fun _ _ => False) := by
  have hroom : n < 2 ^ (tableBits + 1) := by
    have hpow : 2 ^ 9 ≤ 2 ^ (tableBits + 1) := Nat.pow_le_pow_right (by decide) (by omega)
    have hn : n ≤ 510 := hn
    omega
  unfold makeTable
  refine ends_ite (fun hlt => absurd hsize (not_le.mpr hlt)) fun _ => ?_
  refine ends_ite (fun hany => ?_) fun _ => ?_
  · obtain ⟨c, hc, hgt⟩ := List.any_eq_true.mp hany
    have hle : bitLen c ≤ 16 := hcom.le c (List.mem_range.mp hc)
    exact absurd hle (by simpa using hgt)
  have hlast : start bitLen n 17 = 0 := by
    rw [start_eq (by decide), hcom.lengthStart_eq, Nat.mod_self]
  refine ends_ite (fun hne => absurd hlast hne) fun _ => ?_
  refine ends_bind ((clearLong_trie t hcom hbits hroom).imp fun _ t₁ h₁ => ?_)
  rw [List.range_eq_range']
  exact charLoop_trie h₁ hcom hn (by omega) hbits (Nat.zero_add n) hcom.pending

/-! ### Walks -/

lemma and_mask (hd : d < 16) : (s.mBitBuf &&& 2 ^ (31 - d) ≠ 0) ↔
    (s.mBitBuf / 2 ^ 16).testBit (15 - d) = true := by
  rw [Nat.and_two_pow, Nat.testBit_div_two_pow, show 15 - d + 16 = 31 - d by omega]
  cases s.mBitBuf.testBit (31 - d) <;> simp

/-- The buffer begins with the code. -/
def BeginsWith (bitLen : ℕ → ℕ) (n c buf : ℕ) : Prop :=
  ∀ d ≤ bitLen c, firstBits (buf / 2 ^ 16) d = firstBits (codeStart bitLen n c) d

lemma Complete.beginsWith {buf : ℕ} (h : Complete n bitLen) (hc : HasCode bitLen n c)
    (hbuf : buf / 2 ^ (32 - bitLen c) = codeStart bitLen n c / 2 ^ (codeBit - bitLen c)) :
    BeginsWith bitLen n c buf := by
  intro d hd
  have h16 : bitLen c ≤ 16 := h.le c hc.1
  have hspl : ∀ x : ℕ, x / 2 ^ (16 - d) = x / 2 ^ (16 - bitLen c) / 2 ^ (bitLen c - d) := by
    intro x
    rw [Nat.div_div_eq_div_mul, ← Nat.pow_add, show 16 - bitLen c + (bitLen c - d) = 16 - d by omega]
  have hhigh : buf / 2 ^ 16 / 2 ^ (16 - bitLen c) = buf / 2 ^ (32 - bitLen c) := by
    rw [Nat.div_div_eq_div_mul, ← Nat.pow_add, show 16 + (16 - bitLen c) = 32 - bitLen c by omega]
  change buf / 2 ^ 16 / 2 ^ (16 - d) = codeStart bitLen n c / 2 ^ (16 - d)
  rw [hspl, hspl, hhigh, hbuf]

lemma walkLoop_found (h : Trie bitLen n tableBits n avail g t) (hcom : Complete n bitLen)
    (hn : n ≤ nc) (hpos : 0 < tableBits) (hc : HasCode bitLen n c) (hleft : s.mLeft = t.mLeft)
    (hrig : s.mRight = t.mRight) (hbuf : BeginsWith bitLen n c s.mBitBuf)
    (hslot : slot.Used bitLen n tableBits avail) (hd : d ≤ bitLen c)
    (hpath : slot.path g.home tableBits = (d, firstBits (codeStart bitLen n c) d))
    (hfuel : bitLen c < d + fuel) :
    Ends (walkLoop n fuel (2 ^ (31 - d)) (t.get slot) s) (fun value _ => value = c)
      (fun _ _ => False) := by
  have h16 : bitLen c ≤ 16 := hcom.le c hc.1
  have hdep : tableBits ≤ d := by
    have hle := h.le_path hslot
    rwa [hpath] at hle
  induction fuel generalizing slot d with
  | zero => omega
  | succ fuel ih =>
    have hcon := h.content slot hslot
    rw [hpath] at hcon
    have hcode : d = bitLen c →
        IsCode bitLen n c (d, firstBits (codeStart bitLen n c) d) := fun heq => ⟨heq.symm, rfl⟩
    have hgoes : d ≠ bitLen c → GoesOn bitLen n c (d, firstBits (codeStart bitLen n c) d) :=
      fun hne => ⟨lt_of_le_of_ne hd hne, rfl⟩
    have hd0 : (d, firstBits (codeStart bitLen n c) d).1 ≠ 0 := by
      change d ≠ 0
      omega
    rcases hcon with ⟨-, hnot, hnone⟩ | ⟨hge, hlt, hhome⟩ | ⟨hlt, hsym⟩
    · -- the path of the code is not empty
      by_cases heq : d = bitLen c
      · exact absurd (hcode heq) (hnone c hc.1)
      · exact absurd (h.entered c hc.1 d hdep (hgoes heq).1) hnot
    · have hne : d ≠ bitLen c := by
        intro heq
        obtain ⟨-, c', hc', hgoe'⟩ := h.long _ (h.own _ hge hlt)
        rw [hhome] at hgoe'
        exact hgoe'.not_isCode hc' hc.1 hd0 (hcode heq)
      have hroom := h.avail_le hcom hn
      have hd16 : d < 16 := by omega
      refine ends_ite (fun _ => ?_) fun hno => absurd hge hno
      refine ends_ite (fun _ => ?_) fun hno => absurd (lt_of_lt_of_le hlt hroom) hno
      refine ends_bind (ends_get ?_)
      have hmask : 2 ^ (31 - d) / 2 = 2 ^ (31 - (d + 1)) := by
        rw [show 31 - d = 31 - (d + 1) + 1 by omega, Nat.pow_succ]
        exact Nat.mul_div_cancel _ (by decide)
      have hnext := firstBits_succ (x := codeStart bitLen n c) hd16
      have hbit : (s.mBitBuf / 2 ^ 16).testBit (15 - d) = (codeStart bitLen n c).testBit (15 - d) := by
        have hsucc := firstBits_succ (x := s.mBitBuf / 2 ^ 16) hd16
        rw [hbuf (d + 1) (by omega), hbuf d hd, hnext] at hsucc
        cases hx : (codeStart bitLen n c).testBit (15 - d) <;>
          cases hy : (s.mBitBuf / 2 ^ 16).testBit (15 - d) <;> simp_all
      rw [hmask]
      unfold child
      by_cases hset : s.mBitBuf &&& 2 ^ (31 - d) ≠ 0
      · have hone := (and_mask hd16).mp hset
        rw [if_pos hset, hrig]
        refine @ih (d + 1) (.right (t.get slot)) ⟨hge, hlt⟩ (by omega) ?_ (by omega) (by omega)
        simp only [Slot.path, hhome]
        rw [hnext, ← hbit, if_pos hone]
      · have hzero := fun h => hset ((and_mask hd16).mpr h)
        rw [if_neg hset, hleft]
        refine @ih (d + 1) (.left (t.get slot)) ⟨hge, hlt⟩ (by omega) ?_ (by omega) (by omega)
        simp only [Slot.path, hhome]
        rw [hnext, ← hbit, if_neg hzero]
        rfl
    · by_cases heq : d = bitLen c
      · refine ends_ite (fun hge => absurd hlt (not_lt.mpr hge)) fun _ => ends_pure ?_
        exact hsym.unique hlt hc.1 hd0 (hcode heq)
      · exact absurd hsym ((hgoes heq).not_isCode hc.1 hlt hd0)

lemma Trie.table_eq {v : ℕ} (h : Trie bitLen n tableBits n avail g t) (hbits : tableBits ≤ 16)
    (hc : HasCode bitLen n c) (hlen : bitLen c ≤ tableBits)
    (hv : v / 2 ^ (tableBits - bitLen c) = firstBits (codeStart bitLen n c) (bitLen c)) :
    t.table v = c := by
  obtain ⟨a, ha⟩ : 2 ^ (codeBit - bitLen c) ∣ codeStart bitLen n c :=
    Canonical.width_dvd_position
  have hwid := Nat.two_pow_pos (tableBits - bitLen c)
  have hfst : firstBits (codeStart bitLen n c) (bitLen c) = a := by
    unfold firstBits
    rw [ha, Nat.mul_div_cancel_left _ (Nat.two_pow_pos _)]
  have hsta : codeStart bitLen n c / 2 ^ (codeBit - tableBits) =
      a * 2 ^ (tableBits - bitLen c) := by
    have hpow : 2 ^ (codeBit - bitLen c) =
        2 ^ (codeBit - tableBits) * 2 ^ (tableBits - bitLen c) := by
      rw [← Nat.pow_add]
      congr 1
      change 16 - bitLen c = 16 - tableBits + (tableBits - bitLen c)
      omega
    rw [ha, hpow, Nat.mul_assoc, Nat.mul_div_cancel_left _ (Nat.two_pow_pos _), Nat.mul_comm]
  have hin := (@mem_entries_iff bitLen n tableBits c v hlen hbits).mp ?_
  · exact h.short c hc.1 hc.2 hlen v hin.1 hin.2
  · rw [hsta, ← hfst, ← hv]
    exact ⟨Nat.div_mul_le_self _ _, Nat.lt_div_mul_add hwid⟩

lemma walk_found (h : Trie bitLen n tableBits n avail g t) (hcom : Complete n bitLen)
    (hn : n ≤ nc) (hpos : 0 < tableBits) (hbits : tableBits ≤ 15) (hc : HasCode bitLen n c)
    (hleft : s.mLeft = t.mLeft) (hrig : s.mRight = t.mRight) (hlt : s.mBitBuf < 2 ^ 32)
    (hbuf : s.mBitBuf / 2 ^ (32 - bitLen c) = codeStart bitLen n c / 2 ^ (codeBit - bitLen c))
    (own : Bool) :
    Ends (walk own t.table tableBits n s) (fun value _ => value = c) (fun _ _ => False) := by
  have h16 : bitLen c ≤ 16 := hcom.le c hc.1
  have hbeg := hcom.beginsWith hc hbuf
  have hind : s.mBitBuf / 2 ^ (32 - tableBits) < 2 ^ tableBits := by
    refine Nat.div_lt_of_lt_mul ?_
    rwa [← Nat.pow_add, Nat.sub_add_cancel (by omega)]
  refine ends_bind (ends_get (ends_ite (fun _ => ?_) fun hno => absurd hind hno))
  refine ends_bind (ends_modify ?_)
  by_cases hsho : bitLen c ≤ tableBits
  · -- the entry holds the symbol itself
    have hent : t.table (s.mBitBuf / 2 ^ (32 - tableBits)) = c := by
      refine h.table_eq (by omega) hc hsho ?_
      rw [Nat.div_div_eq_div_mul, ← Nat.pow_add,
        show 32 - tableBits + (tableBits - bitLen c) = 32 - bitLen c by omega, hbuf]
      rfl
    rw [hent]
    exact ends_ite (fun hge => absurd hc.1 (not_lt.mpr hge)) fun _ => ends_pure rfl
  · have hlong := not_le.mp hsho
    have hhigh : s.mBitBuf / 2 ^ (32 - tableBits) = firstBits (codeStart bitLen n c) tableBits := by
      rw [← hbeg tableBits hlong.le]
      change _ = s.mBitBuf / 2 ^ 16 / 2 ^ (16 - tableBits)
      rw [Nat.div_div_eq_div_mul, ← Nat.pow_add,
        show 16 + (16 - tableBits) = 32 - tableBits by omega]
    have hused := @used_table bitLen n tableBits c avail hcom hc hlong
    rw [hhigh]
    refine walkLoop_found h hcom hn hpos hc ?_ ?_ ?_ hused hlong.le rfl ?_
    · cases own <;> exact hleft
    · cases own <;> exact hrig
    · cases own <;> exact hbeg
    · change bitLen c < tableBits + (32 + nodes)
      omega

/-- A code that fills up all strings of 16 bits is accepted, and whatever follows the code of a symbol
that the compressor has assigned, the next bits are decoded to this symbol. -/
theorem makeTable_codesFound (t : Tables) (stack code : ℕ → ℕ) (hn : n ≤ nc) (hsize : n ≤ size)
    (hwidth : 8 ≤ tableBits ∧ tableBits ≤ 15) (hcomplete : Complete n bitLen)
    (hcnt : ∀ i, 1 ≤ i → i ≤ 16 → lenCnt i = count bitLen n i) :
    Ends (makeTable n bitLen size tableBits t)
      (fun status t' => status = 0 ∧ ∀ c, HasCode bitLen n c → ∀ s : Scratch,
        s.mLeft = t'.mLeft → s.mRight = t'.mRight → s.mBitBuf < 2 ^ 32 →
          s.mBitBuf / 2 ^ (32 - bitLen c) = EfiCompress.makeCode lenCnt bitLen stack code n c →
            ∀ own, Ends (walk own t'.table tableBits n s) (fun value _ => value = c)
              (fun _ _ => False))
      (fun _ _ => False) := by
  refine (makeTable_trie t hcomplete hn hsize hwidth.1 hwidth.2).imp ?_
  rintro status t' ⟨hstatus, avail, g, htrie⟩
  refine ⟨hstatus, fun c hc s hleft hright hlt hbuf own => ?_⟩
  rw [hcomplete.makeCode_eq hcnt hc] at hbuf
  exact walk_found htrie hcomplete hn (by omega) hwidth.2 hc hleft hright hlt hbuf own

/-- One code of each length, and a second one of the greatest. -/
def unaryLen (c : ℕ) : ℕ := if c < 16 then c + 1 else 16

theorem makeTable_unaryLen :
    Ends (makeTable 17 unaryLen 17 8 ⟨fun _ => 0, fun _ => 0, fun _ => 0⟩)
      (fun status t' => status = 0 ∧ ∀ c, HasCode unaryLen 17 c → ∀ s : Scratch,
        s.mLeft = t'.mLeft → s.mRight = t'.mRight → s.mBitBuf < 2 ^ 32 →
          s.mBitBuf / 2 ^ (32 - unaryLen c) = EfiCompress.makeCode (count unaryLen 17) unaryLen
              (fun _ => 0) (fun _ => 0) 17 c →
            ∀ own, Ends (walk own t'.table 8 17 s) (fun value _ => value = c) (fun _ _ => False))
      (fun _ _ => False) :=
  makeTable_codesFound _ _ _ (by decide) le_rfl (by decide) ⟨by decide, by decide⟩
    (fun _ _ _ => rfl)

/-- Every string of 16 bits begins with the code of one symbol, and of one only. -/
theorem existsUnique_makeCode (stack code : ℕ → ℕ) (hcomplete : Complete n bitLen)
    (hcnt : ∀ i, 1 ≤ i → i ≤ 16 → lenCnt i = count bitLen n i) {bits : ℕ} (hbits : bits < 2 ^ 16) :
    ∃! c, HasCode bitLen n c ∧
      bits / 2 ^ (codeBit - bitLen c) = EfiCompress.makeCode lenCnt bitLen stack code n c := by
  have hcode : ∀ c, HasCode bitLen n c →
      (bits / 2 ^ (codeBit - bitLen c) = EfiCompress.makeCode lenCnt bitLen stack code n c ↔
        codeStart bitLen n c ≤ bits ∧ bits < codeStart bitLen n c + 2 ^ (codeBit - bitLen c)) := by
    intro c hc
    obtain ⟨q, hq⟩ : 2 ^ (codeBit - bitLen c) ∣ codeStart bitLen n c := Canonical.width_dvd_position
    have hwid := Nat.two_pow_pos (codeBit - bitLen c)
    rw [hcomplete.makeCode_eq hcnt hc, hq, Nat.mul_div_cancel_left _ hwid, Nat.div_eq_iff hwid,
      Nat.mul_comm q]
    omega
  obtain ⟨c, hc, hne, -, hin⟩ :=
    Canonical.exists_position (hbits.trans_eq hcomplete.lengthStart_eq.symm)
  refine ⟨c, ⟨⟨hc, hne⟩, (hcode c ⟨hc, hne⟩).mpr hin⟩, ?_⟩
  rintro c' ⟨hc', hbeg⟩
  by_contra hdiff
  have hin' := (hcode c' hc').mp hbeg
  have hapart := Canonical.position_apart codeBit hc'.1 hc hc'.2 hne hdiff
  unfold codeStart at hin'
  unfold Canonical.width at hapart hin
  omega

/-- The codes of `unaryLen`. -/
theorem existsUnique_makeCode_unaryLen : ∃! c, HasCode unaryLen 17 c ∧
    6 / 2 ^ (codeBit - unaryLen c) = EfiCompress.makeCode (count unaryLen 17) unaryLen
      (fun _ => 0) (fun _ => 0) 17 c :=
  existsUnique_makeCode _ _ ⟨by decide, by decide⟩ (fun _ _ _ => rfl) (by decide)

/-- What the compressor makes of any frequencies, the decompressor takes apart: its table is built from
the lengths, and the code of a symbol leads to the symbol. -/
theorem makeTree_decoded (t : Tables) (a : EfiCompress.Arrays) (hn : n ≤ nc) (hsize : n ≤ size)
    (hwidth : 8 ≤ tableBits ∧ tableBits ≤ 15) (hsum : ∑ i ∈ Finset.range n, mFreq i < 2 ^ 16)
    (htwo : 2 ≤ (EfiCompress.occurring mFreq n).card) :
    ∃ tree, EfiCompress.makeTree n mFreq a = some tree ∧
      Ends (makeTable n tree.len size tableBits t)
        (fun status t' => status = 0 ∧ ∀ c < n, mFreq c ≠ 0 → ∀ s : Scratch,
          s.mLeft = t'.mLeft → s.mRight = t'.mRight → s.mBitBuf < 2 ^ 32 →
            s.mBitBuf / 2 ^ (32 - tree.len c) = tree.code c →
              ∀ own, Ends (walk own t'.table tableBits n s) (fun value _ => value = c)
                (fun _ _ => False))
        (fun _ _ => False) := by
  obtain ⟨tree, cnt, code, htree, hlen, hmap, hcode⟩ := EfiCompress.makeTree_code a hsum htwo
  have hcomplete : Complete n tree.len := by
    refine ⟨fun c hc => ?_, hlen.kraft⟩
    by_cases hfreq : mFreq c = 0
    · exact (hlen.absent c hc hfreq).trans_le (Nat.zero_le _)
    · exact (hlen.occurs c hc hfreq).2
  have hcnt : ∀ i, 1 ≤ i → i ≤ 16 → cnt i = count tree.len n i := by
    intro i hpos hle
    have hlev : (EfiCompress.levelList cnt 16).count i = cnt i :=
      EfiCompress.count_levelList hpos hle
    rw [← hlev, ← Multiset.coe_count, ← hmap, Multiset.count_map]
    change ((Multiset.filter _ (Multiset.range n)).filter _).card =
      (Multiset.range n).countP fun c => tree.len c = i
    rw [Multiset.filter_filter, Multiset.countP_eq_card_filter]
    congr 1
    refine Multiset.filter_congr fun c hc => ?_
    have habs := hlen.absent c (Multiset.mem_range.mp hc)
    grind
  refine ⟨tree, htree, (makeTable_trie t hcomplete hn hsize hwidth.1 hwidth.2).imp ?_⟩
  rintro status t' ⟨hstatus, avail, g, htrie⟩
  refine ⟨hstatus, fun c hc hfreq s hleft hright hlt hbuf own => ?_⟩
  have hhas : HasCode tree.len n c := ⟨hc, Nat.one_le_iff_ne_zero.mp (hlen.occurs c hc hfreq).1⟩
  rw [hcode, hcomplete.makeCode_eq hcnt hhas] at hbuf
  exact walk_found htrie hcomplete hn (by omega) hwidth.2 hhas hleft hright hlt hbuf own

theorem makeTree_decoded_fibonacciFreq : ∃ tree,
    EfiCompress.makeTree 22 EfiCompress.fibonacciFreq EfiCompress.zeroArrays = some tree ∧
      Ends (makeTable 22 tree.len 22 8 ⟨fun _ => 0, fun _ => 0, fun _ => 0⟩)
        (fun status _ => status = 0) (fun _ _ => False) := by
  obtain ⟨tree, htree, h⟩ := @makeTree_decoded EfiCompress.fibonacciFreq 22 22 8 ⟨fun _ => 0, fun _ => 0, fun _ => 0⟩
    EfiCompress.zeroArrays (by decide) le_rfl (by decide) (by decide) (by decide)
  exact ⟨tree, htree, h.imp fun _ _ h => h.1⟩

end Edk2.Decompress
