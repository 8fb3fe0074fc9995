import Edk2.Lib.Canonical
import Edk2.Compress.Model
import Edk2.Decompress.Tables

/-!
# The codes of both sides

The compressor numbers the codes of each length from the first one on, the decompression library keeps
where each of them starts among all strings of 16 bits. For lengths that fill up these strings the two
agree: the code of the compressor is the prefix that the numbers of the library share.
-/

namespace Edk2.Decompress

open Canonical (base)
open Function (update)

variable {n c d k : ℕ} {bitLen lenCnt stack code : ℕ → ℕ}

/-- Lengths up to 16 that fill up all strings of 16 bits. -/
structure Complete (n : ℕ) (bitLen : ℕ → ℕ) : Prop where
  le : ∀ c < n, bitLen c ≤ codeBit
  kraft : ∑ c ∈ (Finset.range n).filter (fun c => bitLen c ≠ 0), 2 ^ (codeBit - bitLen c) = 2 ^ 16

/-- Where the code of a symbol starts among the strings of 16 bits. -/
def codeStart (bitLen : ℕ → ℕ) (n c : ℕ) : ℕ := Canonical.position codeBit bitLen n c

/-- Where the codes of a length start. -/
def lengthStart (bitLen : ℕ → ℕ) (n d : ℕ) : ℕ := base codeBit bitLen n d

/-- The symbol has a code. -/
def HasCode (bitLen : ℕ → ℕ) (n c : ℕ) : Prop := c < n ∧ bitLen c ≠ 0

lemma Complete.lengthStart_eq (h : Complete n bitLen) : lengthStart bitLen n 17 = 2 ^ 16 := by
  unfold lengthStart
  rw [Canonical.base_eq_sum fun c hc => Nat.lt_succ_of_le (h.le c hc)]
  exact h.kraft

lemma Complete.lengthStart_le (h : Complete n bitLen) (hd : d ≤ 17) :
    lengthStart bitLen n d ≤ 2 ^ 16 :=
  h.lengthStart_eq ▸ Canonical.base_mono hd

lemma codeStart_add_le (hc : HasCode bitLen n c) :
    codeStart bitLen n c + 2 ^ (codeBit - bitLen c) ≤ lengthStart bitLen n (bitLen c + 1) :=
  Canonical.position_add_le codeBit hc.1 hc.2

lemma Complete.codeStart_add_le (h : Complete n bitLen) (hc : HasCode bitLen n c) :
    codeStart bitLen n c + 2 ^ (codeBit - bitLen c) ≤ 2 ^ 16 :=
  (Decompress.codeStart_add_le hc).trans (h.lengthStart_le (Nat.succ_le_succ (h.le c hc.1)))

lemma Complete.codeStart_lt (h : Complete n bitLen) (hc : HasCode bitLen n c) :
    codeStart bitLen n c < 2 ^ 16 := by
  have hle := h.codeStart_add_le hc
  have hpos := Nat.two_pow_pos (codeBit - bitLen c)
  omega

lemma start_eq (hd : 1 ≤ d) : start bitLen n d = lengthStart bitLen n d % 2 ^ 16 := by
  induction d, hd using Nat.le_induction with
  | base => rfl
  | succ d hd ih =>
    unfold lengthStart at ih ⊢
    rw [start_succ hd, Canonical.base_succ (by omega), ih, Nat.mod_add_mod]
    rfl

lemma Complete.start_eq (h : Complete n bitLen) (hc : HasCode bitLen n c) :
    start bitLen n (bitLen c) = lengthStart bitLen n (bitLen c) := by
  have hlt := h.codeStart_lt hc
  have hle : lengthStart bitLen n (bitLen c) ≤ codeStart bitLen n c := Canonical.base_le_position
  have hpos : 1 ≤ bitLen c := Nat.one_le_iff_ne_zero.mpr hc.2
  rw [Decompress.start_eq hpos, Nat.mod_eq_of_lt (by omega)]

lemma startCodes_eq (hcnt : ∀ i, 1 ≤ i → i ≤ 16 → lenCnt i = count bitLen n i) (hd : 1 ≤ d)
    (hdk : d ≤ k + 1) (hd16 : d ≤ 16) : EfiCompress.startCodes lenCnt stack k d =
      lengthStart bitLen n d / 2 ^ (codeBit - d) % 2 ^ 16 := by
  induction k generalizing d with
  | zero =>
    obtain rfl : d = 1 := by omega
    rw [show lengthStart bitLen n 1 = 0 from rfl, Nat.zero_div]
    exact Function.update_self 1 0 stack
  | succ k ih =>
    unfold EfiCompress.startCodes
    by_cases hlast : d = k + 2
    · subst hlast
      obtain ⟨q, hq⟩ : 2 ^ (codeBit - (k + 1)) ∣ lengthStart bitLen n (k + 1) :=
        Canonical.width_dvd_base (Nat.le_succ _)
      have hpow : 2 ^ (codeBit - (k + 1)) = 2 * 2 ^ (codeBit - (k + 2)) := by
        rw [← Nat.pow_succ', show codeBit - (k + 1) = codeBit - (k + 2) + 1 from by
          change 16 - (k + 1) = 16 - (k + 2) + 1
          omega]
      have hpos := Nat.two_pow_pos (codeBit - (k + 2))
      have hnext : lengthStart bitLen n (k + 2) =
          2 ^ (codeBit - (k + 2)) * (2 * (q + count bitLen n (k + 1))) := by
        have hsucc : lengthStart bitLen n (k + 2) = lengthStart bitLen n (k + 1) +
            count bitLen n (k + 1) * 2 ^ (codeBit - (k + 1)) :=
          Canonical.base_succ (Nat.succ_ne_zero k)
        rw [hsucc, hq, hpow]
        ring
      have hprev := @ih (k + 1) (Nat.le_add_left 1 k) le_rfl (by omega)
      rw [hq, Nat.mul_div_cancel_left _ (Nat.two_pow_pos _)] at hprev
      rw [hnext, Nat.mul_div_cancel_left _ hpos]
      simp only [Function.update_self, hprev, hcnt (k + 1) (by omega) (by omega)]
      omega
    grind

lemma assignCodes_eq {starts : ℕ → ℕ} (hsta : ∀ d, 1 ≤ d → d ≤ 16 → starts d < 2 ^ 16) :
    (∀ d, 1 ≤ d → d ≤ 16 → (EfiCompress.assignCodes bitLen k (starts, code)).1 d =
      (starts d + count bitLen k d) % 2 ^ 16) ∧
    ∀ c < k, 1 ≤ bitLen c → bitLen c ≤ 16 → (EfiCompress.assignCodes bitLen k (starts, code)).2 c =
      (starts (bitLen c) + count bitLen c (bitLen c)) % 2 ^ 16 := by
  induction k with
  | zero =>
    refine ⟨fun d hd hd16 => ?_, fun c hc => absurd hc (Nat.not_lt_zero c)⟩
    exact (Nat.mod_eq_of_lt (hsta d hd hd16)).symm
  | succ k ih =>
    obtain ⟨hnext, hcod⟩ := ih
    have hcnt : ∀ d, count bitLen (k + 1) d = count bitLen k d + if bitLen k = d then 1 else 0 :=
      fun d => Canonical.count_succ
    unfold EfiCompress.assignCodes
    refine ⟨fun d hd hd16 => ?_, fun c hc hpos h16 => ?_⟩
    · grind
    grind

lemma Complete.makeCode_eq (h : Complete n bitLen)
    (hcnt : ∀ i, 1 ≤ i → i ≤ 16 → lenCnt i = count bitLen n i) (hc : HasCode bitLen n c) :
    EfiCompress.makeCode lenCnt bitLen stack code n c =
      codeStart bitLen n c / 2 ^ (codeBit - bitLen c) := by
  have hpos : 1 ≤ bitLen c := Nat.one_le_iff_ne_zero.mpr hc.2
  have h16 : bitLen c ≤ 16 := h.le c hc.1
  have hsta : ∀ d, 1 ≤ d → d ≤ 16 → EfiCompress.startCodes lenCnt stack 16 d =
      lengthStart bitLen n d / 2 ^ (codeBit - d) % 2 ^ 16 :=
    fun d hd hd16 => startCodes_eq hcnt hd (by omega) hd16
  have hcode := (@assignCodes_eq n bitLen code (EfiCompress.startCodes lenCnt stack 16)
    fun d hd hd16 => by
      rw [hsta d hd hd16]
      exact Nat.mod_lt _ (by decide)).2 c hc.1 hpos h16
  have hwid := Nat.two_pow_pos (codeBit - bitLen c)
  obtain ⟨q, hq⟩ : 2 ^ (codeBit - bitLen c) ∣ lengthStart bitLen n (bitLen c) :=
    Canonical.width_dvd_base (Nat.le_succ _)
  have hposi : codeStart bitLen n c =
      2 ^ (codeBit - bitLen c) * (q + count bitLen c (bitLen c)) := by
    rw [Nat.mul_add, ← hq, Nat.mul_comm _ (count _ _ _)]
    rfl
  have hlt := h.codeStart_lt hc
  have hle := Nat.le_mul_of_pos_left (q + count bitLen c (bitLen c)) hwid
  unfold EfiCompress.makeCode
  rw [hcode, hsta _ hpos h16, hq, Nat.mul_div_cancel_left _ hwid, Nat.mod_add_mod, hposi,
    Nat.mul_div_cancel_left _ hwid, Nat.mod_eq_of_lt (by omega)]

end Edk2.Decompress

/-!
## The trees of long codes

The codes that are longer than the width of the table make trees below its entries. Every slot that can be
reached stands for a string of bits, its path. It is empty if no code that was entered begins with the
path, holds a node if one goes on behind it, and holds a symbol if one ends there.
-/

namespace Edk2.Decompress

open Outcome

/-- The first `d` bits of a string of 16 bits. -/
def firstBits (x d : ℕ) : ℕ := x / 2 ^ (codeBit - d)

lemma firstBits_succ {x d : ℕ} (hd : d < 16) :
    firstBits x (d + 1) = 2 * firstBits x d + if x.testBit (15 - d) then 1 else 0 := by
  have hbit : (if x.testBit (15 - d) then 1 else 0) = x / 2 ^ (15 - d) % 2 := by
    rw [Nat.testBit_eq_decide_div_mod_eq]
    by_cases h : x / 2 ^ (15 - d) % 2 = 1
    · simp [h]
    · rw [if_neg (by simpa using h)]
      omega
  have hhalf : firstBits x d = x / 2 ^ (15 - d) / 2 := by
    unfold firstBits
    rw [Nat.div_div_eq_div_mul, ← Nat.pow_succ, show codeBit - d = 15 - d + 1 from by
      change 16 - d = 15 - d + 1
      omega]
  have hnext : firstBits x (d + 1) = x / 2 ^ (15 - d) := by
    unfold firstBits
    rw [show codeBit - (d + 1) = 15 - d from by
      change 16 - (d + 1) = 15 - d
      omega]
  omega

lemma firstBits_half {x d : ℕ} (hd : d < 16) : firstBits x (d + 1) / 2 = firstBits x d := by
  rw [firstBits_succ hd]
  split_ifs <;> omega

lemma firstBits_lt {x d : ℕ} (hx : x < 2 ^ 16) (hd : d ≤ 16) : firstBits x d < 2 ^ d := by
  refine Nat.div_lt_of_lt_mul ?_
  rw [← Nat.pow_add]
  rwa [show codeBit - d + d = 16 from Nat.sub_add_cancel hd]

/-- A string of bits, by its length and its number. -/
abbrev Path := ℕ × ℕ

variable {bitLen : ℕ → ℕ} {n tableBits m avail c c' d : ℕ} {t : Tables} {q : Path}
  {slot slot' : Slot}

/-- The path is the code of the symbol. -/
def IsCode (bitLen : ℕ → ℕ) (n c : ℕ) (q : Path) : Prop :=
  bitLen c = q.1 ∧ firstBits (codeStart bitLen n c) q.1 = q.2

/-- The code of the symbol goes on behind the path. -/
def GoesOn (bitLen : ℕ → ℕ) (n c : ℕ) (q : Path) : Prop :=
  q.1 < bitLen c ∧ firstBits (codeStart bitLen n c) q.1 = q.2

lemma IsCode.unique (hc : c < n) (hc' : c' < n) (hq : q.1 ≠ 0) (h : IsCode bitLen n c q)
    (h' : IsCode bitLen n c' q) : c = c' := by
  apply @Canonical.eq_of_div_eq codeBit n c c' bitLen hc hc'
  · rwa [h.1]
  · rw [h.1, h'.1]
  · have heq := h.2.trans h'.2.symm
    rw [← h.1] at heq
    exact heq

lemma GoesOn.not_isCode (hc : c < n) (hc' : c' < n) (hq : q.1 ≠ 0) (h : GoesOn bitLen n c q) :
    ¬ IsCode bitLen n c' q := by
  intro h'
  have heq : c' = c := by
    apply @Canonical.eq_of_div_eq codeBit n c' c bitLen hc' hc
    · rwa [h'.1]
    · rw [h'.1]
      exact h.1.le
    · have heq := h'.2.trans h.2.symm
      rw [← h'.1] at heq
      exact heq
  have hlt := h.1
  rw [← h'.1, heq] at hlt
  exact lt_irrefl _ hlt

/-- The paths of the nodes. -/
structure Nodes where
  home : ℕ → Path
  paths : Finset Path

variable {g : Nodes}

/-- The path of a slot. -/
def Slot.path (home : ℕ → Path) (tableBits : ℕ) : Slot → Path
  | .table v => (tableBits, v)
  | .left a => ((home a).1 + 1, 2 * (home a).2)
  | .right a => ((home a).1 + 1, 2 * (home a).2 + 1)

/-- The slot belongs to the long codes. -/
def Slot.Used (bitLen : ℕ → ℕ) (n tableBits avail : ℕ) : Slot → Prop
  | .table v => lengthStart bitLen n (tableBits + 1) ≤ v * 2 ^ (codeBit - tableBits) ∧
      v < 2 ^ tableBits
  | .left a => n ≤ a ∧ a < avail
  | .right a => n ≤ a ∧ a < avail

/-- What a slot with the path `q` holds when the codes of the symbols below `m` are entered. -/
def Content (bitLen : ℕ → ℕ) (n m avail : ℕ) (g : Nodes) (q : Path) (value : ℕ) : Prop :=
  (value = 0 ∧ q ∉ g.paths ∧ ∀ c < m, ¬ IsCode bitLen n c q) ∨
    (n ≤ value ∧ value < avail ∧ g.home value = q) ∨ (value < m ∧ IsCode bitLen n value q)

/-- The tables when the codes of the symbols below `m` are entered. -/
structure Trie (bitLen : ℕ → ℕ) (n tableBits m avail : ℕ) (g : Nodes) (t : Tables) : Prop where
  card : avail = n + g.paths.card
  own : ∀ a, n ≤ a → a < avail → g.home a ∈ g.paths
  inj : ∀ a b, n ≤ a → a < avail → n ≤ b → b < avail → g.home a = g.home b → a = b
  long : ∀ q ∈ g.paths, tableBits ≤ q.1 ∧ ∃ c < n, GoesOn bitLen n c q
  closed : ∀ q ∈ g.paths, tableBits < q.1 → (q.1 - 1, q.2 / 2) ∈ g.paths
  entered : ∀ c < m, ∀ d, tableBits ≤ d → d < bitLen c →
    (d, firstBits (codeStart bitLen n c) d) ∈ g.paths
  content : ∀ slot : Slot, slot.Used bitLen n tableBits avail →
    Content bitLen n m avail g (slot.path g.home tableBits) (t.get slot)
  short : ∀ c < m, bitLen c ≠ 0 → bitLen c ≤ tableBits → ∀ v,
    codeStart bitLen n c ≤ v * 2 ^ (codeBit - tableBits) →
      v * 2 ^ (codeBit - tableBits) < codeStart bitLen n c + 2 ^ (codeBit - bitLen c) → t.table v = c

lemma get_set (t : Tables) (slot slot' : Slot) (value : ℕ) :
    (t.set value slot).get slot' = if slot' = slot then value else t.get slot' := by
  cases slot <;> cases slot' <;> simp [Tables.set, Tables.get, store_apply]

lemma Trie.parent (h : Trie bitLen n tableBits m avail g t)
    (hslot : slot.Used bitLen n tableBits avail) :
    (slot.path g.home tableBits).1 = tableBits ∨
      tableBits < (slot.path g.home tableBits).1 ∧
        ((slot.path g.home tableBits).1 - 1, (slot.path g.home tableBits).2 / 2) ∈ g.paths := by
  have hnode : ∀ a, n ≤ a → a < avail → tableBits < (g.home a).1 + 1 ∧ g.home a ∈ g.paths :=
    fun a ha hlt => ⟨Nat.lt_succ_of_le (h.long _ (h.own a ha hlt)).1, h.own a ha hlt⟩
  cases slot with
  | table v => exact .inl rfl
  | left a =>
    obtain ⟨hlt, hmem⟩ := hnode a hslot.1 hslot.2
    refine .inr ⟨hlt, ?_⟩
    simpa [Slot.path] using hmem
  | right a =>
    obtain ⟨hlt, hmem⟩ := hnode a hslot.1 hslot.2
    refine .inr ⟨hlt, ?_⟩
    have hhalf : (2 * (g.home a).2 + 1) / 2 = (g.home a).2 := by omega
    simpa [Slot.path, hhalf] using hmem

lemma Trie.le_path (h : Trie bitLen n tableBits m avail g t)
    (hslot : slot.Used bitLen n tableBits avail) :
    tableBits ≤ (slot.path g.home tableBits).1 := by
  rcases h.parent hslot with heq | ⟨hlt, -⟩
  · exact heq.ge
  · exact hlt.le

lemma Trie.path_inj (h : Trie bitLen n tableBits m avail g t)
    (hslot : slot.Used bitLen n tableBits avail) (hslo' : slot'.Used bitLen n tableBits avail)
    (heq : slot.path g.home tableBits = slot'.path g.home tableBits) : slot = slot' := by
  have hdeep : ∀ a, n ≤ a → a < avail → tableBits < (g.home a).1 + 1 :=
    fun a ha hlt => Nat.lt_succ_of_le (h.long _ (h.own a ha hlt)).1
  have hsame : ∀ a b, n ≤ a → a < avail → n ≤ b → b < avail → (g.home a).1 + 1 = (g.home b).1 + 1 →
      (g.home a).2 = (g.home b).2 → a = b :=
    fun a b ha hlt hb hlt' h₁ h₂ => h.inj a b ha hlt hb hlt' (Prod.ext (Nat.succ.inj h₁) h₂)
  cases slot with
  | table v =>
    cases slot' with
    | table v' => exact congrArg Slot.table (Prod.ext_iff.mp heq).2
    | left b =>
      have hlt := hdeep b hslo'.1 hslo'.2
      have hfst : tableBits = (g.home b).1 + 1 := (Prod.ext_iff.mp heq).1
      omega
    | right b =>
      have hlt := hdeep b hslo'.1 hslo'.2
      have hfst : tableBits = (g.home b).1 + 1 := (Prod.ext_iff.mp heq).1
      omega
  | left a =>
    have hlt := hdeep a hslot.1 hslot.2
    cases slot' with
    | table v' =>
      have hfst : (g.home a).1 + 1 = tableBits := (Prod.ext_iff.mp heq).1
      omega
    | left b =>
      have hsnd : 2 * (g.home a).2 = 2 * (g.home b).2 := (Prod.ext_iff.mp heq).2
      rw [hsame a b hslot.1 hslot.2 hslo'.1 hslo'.2 (Prod.ext_iff.mp heq).1 (by omega)]
    | right b =>
      have hsnd : 2 * (g.home a).2 = 2 * (g.home b).2 + 1 := (Prod.ext_iff.mp heq).2
      omega
  | right a =>
    have hlt := hdeep a hslot.1 hslot.2
    cases slot' with
    | table v' =>
      have hfst : (g.home a).1 + 1 = tableBits := (Prod.ext_iff.mp heq).1
      omega
    | left b =>
      have hsnd : 2 * (g.home a).2 + 1 = 2 * (g.home b).2 := (Prod.ext_iff.mp heq).2
      omega
    | right b =>
      have hsnd : 2 * (g.home a).2 + 1 = 2 * (g.home b).2 + 1 := (Prod.ext_iff.mp heq).2
      rw [hsame a b hslot.1 hslot.2 hslo'.1 hslo'.2 (Prod.ext_iff.mp heq).1 (by omega)]

lemma card_paths_lt (hcom : Complete n bitLen)
    (hlong : ∀ q ∈ g.paths, ∃ c < n, GoesOn bitLen n c q) : g.paths.card < n := by
  apply @Canonical.card_prefixes_lt codeBit n bitLen hcom.lengthStart_eq
  intro q hq
  obtain ⟨c, hc, hlt, hbits⟩ := hlong q hq
  exact ⟨c, hc, hlt, hcom.le c hc, hbits⟩

lemma Trie.avail_le (h : Trie bitLen n tableBits m avail g t) (hcom : Complete n bitLen)
    (hn : n ≤ nc) : avail ≤ nodes := by
  have hcard := card_paths_lt hcom fun q hq => (h.long q hq).2
  have hava := h.card
  have hn : n ≤ 510 := hn
  change avail ≤ 1019
  omega

lemma Trie.inBounds (h : Trie bitLen n tableBits m avail g t) (hcom : Complete n bitLen)
    (hn : n ≤ nc) (hslot : slot.Used bitLen n tableBits avail) : slot.InBounds tableBits := by
  have hle := h.avail_le hcom hn
  cases slot with
  | table v => exact hslot.2
  | left a => exact lt_of_lt_of_le hslot.2 hle
  | right a => exact lt_of_lt_of_le hslot.2 hle

end Edk2.Decompress
