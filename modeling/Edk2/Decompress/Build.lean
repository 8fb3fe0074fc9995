import Mathlib.Data.Nat.Bitwise
import Edk2.Decompress.Codes

/-!
# Entering the codes

A code leads from its table entry down to a slot of its own. On the way a node is made wherever no code went
on before, and there is always room for it.
-/

namespace Edk2.Decompress

open Outcome
open Function (update)

variable {bitLen : ℕ → ℕ} {n tableBits m avail avail' c c' d : ℕ} {t t' : Tables} {q : Path}
  {slot slot' : Slot} {g g' : Nodes}

lemma short_not_used {v : ℕ} (hc : HasCode bitLen n c) (hle : bitLen c ≤ tableBits)
    (hv : v * 2 ^ (codeBit - tableBits) < codeStart bitLen n c + 2 ^ (codeBit - bitLen c))
    (avail : ℕ) : ¬ (Slot.table v).Used bitLen n tableBits avail := by
  rintro ⟨hge, -⟩
  have hend := codeStart_add_le hc
  have hmono : lengthStart bitLen n (bitLen c + 1) ≤ lengthStart bitLen n (tableBits + 1) :=
    Canonical.base_mono (Nat.succ_le_succ hle)
  omega

/-! ### Making nodes -/

/-- The slot leads to a node now. -/
structure Opened (bitLen : ℕ → ℕ) (n tableBits m : ℕ) (g : Nodes) (q : Path) (slot : Slot)
    (avail' : ℕ) (t' : Tables) (g' : Nodes) : Prop where
  trie : Trie bitLen n tableBits m avail' g' t'
  used : slot.Used bitLen n tableBits avail'
  node : n ≤ t'.get slot ∧ t'.get slot < avail' ∧ g'.home (t'.get slot) = q
  mono : g.paths ⊆ g'.paths

/-- The node `avail` gets the path `q`. -/
def Nodes.add (g : Nodes) (avail : ℕ) (q : Path) : Nodes :=
  ⟨update g.home avail q, insert q g.paths⟩

lemma Slot.path_add (hslot : slot.Used bitLen n tableBits avail) :
    slot.path (g.add avail q).home tableBits = slot.path g.home tableBits := by
  have hne : ∀ a < avail, (g.add avail q).home a = g.home a :=
    fun a ha => Function.update_of_ne ha.ne _ _
  cases slot with
  | table v => rfl
  | left a => simp only [Slot.path, hne a hslot.2]
  | right a => simp only [Slot.path, hne a hslot.2]

lemma Trie.open (h : Trie bitLen n tableBits m avail g t) (hcom : Complete n bitLen)
    (hmn : m ≤ n) (hpos : 0 < tableBits) (hslot : slot.Used bitLen n tableBits avail)
    (hq : slot.path g.home tableBits = q) (hc : c < n) (hgoes : GoesOn bitLen n c q)
    (hnew : q ∉ g.paths) :
    Opened bitLen n tableBits m g q slot (avail + 1)
      (((t.set 0 (.left avail)).set 0 (.right avail)).set avail slot) (g.add avail q) := by
  have hn : n ≤ avail := by
    have := h.card
    omega
  have hdep : tableBits ≤ q.1 := hq ▸ h.le_path hslot
  have hq0 : q.1 ≠ 0 := by omega
  have hhome : ∀ a < avail, (g.add avail q).home a = g.home a :=
    fun a ha => Function.update_of_ne ha.ne _ _
  have hself : (g.add avail q).home avail = q := Function.update_self ..
  have hne : ∀ {s : Slot}, s.Used bitLen n tableBits avail → s ≠ .left avail ∧ s ≠ .right avail := by
    intro s hs
    constructor <;> rintro rfl <;> exact absurd hs.2 (lt_irrefl _)
  -- no code goes on behind the new path
  have hchi : ∀ bit, (q.1 + 1, 2 * q.2 + bit) ∉ insert q g.paths ∨ 1 < bit := by
    intro bit
    by_cases hbit : 1 < bit
    · exact .inr hbit
    · left
      intro hmem
      rcases Finset.mem_insert.mp hmem with heq | hmem
      · have hfst : q.1 + 1 = q.1 := (Prod.ext_iff.mp heq).1
        omega
      · have hpar := h.closed _ hmem (Nat.lt_succ_of_le hdep)
        grind
  have hnone : ∀ bit ≤ 1, ∀ c < m, ¬ IsCode bitLen n c (q.1 + 1, 2 * q.2 + bit) := by
    intro bit hbit c hcm hcode
    have hlen : bitLen c = q.1 + 1 := hcode.1
    have h16 := hcom.le c (by omega)
    have hmem := h.entered c hcm q.1 hdep (by omega)
    have hbits : firstBits (codeStart bitLen n c) (q.1 + 1) = 2 * q.2 + bit := hcode.2
    grind [firstBits_half]
  have hemp : ∀ bit ≤ 1, Content bitLen n m (avail + 1) (g.add avail q)
      (q.1 + 1, 2 * q.2 + bit) 0 := by
    intro bit hbit
    exact .inl ⟨rfl, (hchi bit).resolve_right (by omega), hnone bit hbit⟩
  have hkeep : ∀ {s : Slot}, s.Used bitLen n tableBits avail → s ≠ slot →
      Content bitLen n m (avail + 1) (g.add avail q) (s.path g.home tableBits) (t.get s) := by
    intro s hs hsne
    rcases h.content s hs with ⟨hzero, hnot, hcod⟩ | ⟨hle, hlt, heq⟩ | hsym
    · refine .inl ⟨hzero, ?_, hcod⟩
      rw [Nodes.add, Finset.mem_insert, not_or]
      refine ⟨fun heq => hsne (h.path_inj hs hslot (heq.trans hq.symm)), hnot⟩
    · exact .inr (.inl ⟨hle, by omega, (hhome _ hlt).trans heq⟩)
    · exact .inr (.inr hsym)
  refine ⟨⟨?_, ?_, ?_, ?_, ?_, ?_, ?_, ?_⟩, ?_, ?_, Finset.subset_insert _ _⟩
  · rw [Nodes.add, Finset.card_insert_of_notMem hnew, h.card, Nat.add_assoc]
  · intro a ha hlt
    rcases Nat.lt_or_eq_of_le (Nat.le_of_lt_succ hlt) with hlt | rfl
    · rw [hhome a hlt]
      exact Finset.mem_insert_of_mem (h.own a ha hlt)
    · rw [hself]
      exact Finset.mem_insert_self _ _
  · intro a b ha hlt hb hlt' heq
    rcases Nat.lt_or_eq_of_le (Nat.le_of_lt_succ hlt) with hlt | rfl <;>
      rcases Nat.lt_or_eq_of_le (Nat.le_of_lt_succ hlt') with hlt' | rfl
    · rw [hhome a hlt, hhome b hlt'] at heq
      exact h.inj a b ha hlt hb hlt' heq
    · rw [hhome a hlt, hself] at heq
      exact absurd (heq ▸ h.own a ha hlt) hnew
    · rw [hhome b hlt', hself] at heq
      exact absurd (heq ▸ h.own b hb hlt') hnew
    · rfl
  · intro p hp
    rcases Finset.mem_insert.mp hp with rfl | hp
    · exact ⟨hdep, c, hc, hgoes⟩
    · exact h.long p hp
  · intro p hp hlt
    rcases Finset.mem_insert.mp hp with rfl | hp
    · rcases h.parent hslot with heq | ⟨-, hmem⟩
      · rw [hq] at heq
        omega
      · rw [hq] at hmem
        exact Finset.mem_insert_of_mem hmem
    · exact Finset.mem_insert_of_mem (h.closed p hp hlt)
  · intro c hc d hd hlt
    exact Finset.mem_insert_of_mem (h.entered c hc d hd hlt)
  · intro s hs
    rw [get_set, get_set, get_set]
    by_cases hssl : s = slot
    · subst hssl
      rw [if_pos rfl, Slot.path_add hslot, hq]
      exact .inr (.inl ⟨hn, Nat.lt_succ_self _, hself⟩)
    · rw [if_neg hssl]
      by_cases hrig : s = .right avail
      · subst hrig
        rw [if_pos rfl]
        simp only [Slot.path, hself]
        exact hemp 1 le_rfl
      · rw [if_neg hrig]
        by_cases hleft : s = .left avail
        · subst hleft
          rw [if_pos rfl]
          simp only [Slot.path, hself]
          exact hemp 0 (Nat.zero_le _)
        · rw [if_neg hleft]
          have hs : s.Used bitLen n tableBits avail := by
            cases s with
            | table v => exact hs
            | left a =>
              have hne : a ≠ avail := fun heq => hleft (heq ▸ rfl)
              exact ⟨hs.1, by have := hs.2; omega⟩
            | right a =>
              have hne : a ≠ avail := fun heq => hrig (heq ▸ rfl)
              exact ⟨hs.1, by have := hs.2; omega⟩
          rw [Slot.path_add hs]
          exact hkeep hs hssl
  · intro c hc hlen hle v hlo hhi
    have hnot := short_not_used ⟨lt_of_lt_of_le hc hmn, hlen⟩ hle hhi
    have hvsl : Slot.table v ≠ slot := fun heq => hnot avail (heq ▸ hslot)
    have hget := get_set ((t.set 0 (.left avail)).set 0 (.right avail)) slot (.table v) avail
    rw [if_neg hvsl] at hget
    exact hget.trans (h.short c hc hlen hle v hlo hhi)
  · cases slot with
    | table v => exact hslot
    | left a => exact ⟨hslot.1, hslot.2.le.trans_lt (Nat.lt_succ_self _)⟩
    | right a => exact ⟨hslot.1, hslot.2.le.trans_lt (Nat.lt_succ_self _)⟩
  grind [get_set]

lemma growSlot_opened (h : Trie bitLen n tableBits m avail g t) (hcom : Complete n bitLen)
    (hn : n ≤ nc) (hmn : m ≤ n) (hpos : 0 < tableBits)
    (hslot : slot.Used bitLen n tableBits avail) (hq : slot.path g.home tableBits = q) (hc : c < n)
    (hgoes : GoesOn bitLen n c q) :
    Ends (growSlot tableBits slot avail t)
      (fun avail' t' => ∃ g', Opened bitLen n tableBits m g q slot avail' t' g')
      (fun _ _ => False) := by
  have hin := h.inBounds hcom hn hslot
  have hq0 : q.1 ≠ 0 := by
    have hle := h.le_path hslot
    rw [hq] at hle
    omega
  refine ends_bind ((readSlot_spec hin).imp ?_)
  rintro value s ⟨rfl, rfl⟩
  have hcon := h.content slot hslot
  rw [hq] at hcon
  have hsym : ¬ (s.get slot < m ∧ IsCode bitLen n (s.get slot) q) :=
    fun ⟨hlt, hcode⟩ => hgoes.not_isCode hc (lt_of_lt_of_le hlt hmn) hq0 hcode
  rcases hcon with ⟨hzero, hnew, -⟩ | ⟨hle, hlt, hhome⟩ | hcode
  · -- there is room for one more node
    have hope := h.open hcom hmn hpos hslot hq hc hgoes hnew
    have hroom : avail < nodes := hope.trie.avail_le hcom hn
    refine ends_ite (fun _ => ?_) fun hno => absurd ⟨hzero, hroom⟩ hno
    have hleft : (Slot.left avail).InBounds tableBits := hroom
    have hrig : (Slot.right avail).InBounds tableBits := hroom
    refine ends_bind ((writeSlot_spec hleft).imp fun _ t₁ h₁ => ?_)
    refine ends_bind ((writeSlot_spec hrig).imp fun _ t₂ h₂ => ?_)
    refine ends_bind ((writeSlot_spec hin).imp fun _ t₃ h₃ => ?_)
    subst h₁ h₂ h₃
    exact ends_pure ⟨_, hope⟩
  · have hpos : 0 < n := lt_of_le_of_lt (Nat.zero_le _) hc
    refine ends_ite (fun hno => absurd hno.1 (by omega)) fun _ => ?_
    exact ends_pure ⟨g, h, hslot, ⟨hle, hlt, hhome⟩, Finset.Subset.refl _⟩
  · exact absurd hcode hsym

lemma Opened.descend {mask index3 : ℕ} (h : Opened bitLen n tableBits m g q slot avail t g')
    (hcom : Complete n bitLen) (hn : n ≤ nc) :
    Ends (descend tableBits mask index3 slot t)
      (fun slot' t' => t' = t ∧ slot'.Used bitLen n tableBits avail ∧
        slot'.path g'.home tableBits =
          (q.1 + 1, 2 * q.2 + if index3 &&& mask ≠ 0 then 1 else 0)) (fun _ _ => False) := by
  obtain ⟨hge, hlt, hhome⟩ := h.node
  have hroom := h.trie.avail_le hcom hn
  refine ends_bind ((readSlot_spec (h.trie.inBounds hcom hn h.used)).imp ?_)
  rintro value s ⟨rfl, rfl⟩
  refine ends_ite (fun _ => ?_) fun hno => absurd (lt_of_lt_of_le hlt hroom) hno
  refine ends_ite (fun hbit => ?_) fun hbit => ?_
  · refine ends_pure ⟨rfl, ⟨hge, hlt⟩, ?_⟩
    rw [if_pos hbit]
    simp only [Slot.path, hhome]
  · refine ends_pure ⟨rfl, ⟨hge, hlt⟩, ?_⟩
    simp [hbit, Slot.path, hhome]

/-- The way of a code down to its slot. -/
structure Reached (bitLen : ℕ → ℕ) (n tableBits m c d : ℕ) (g : Nodes) (slot : Slot) (avail : ℕ)
    (t : Tables) (g' : Nodes) : Prop where
  trie : Trie bitLen n tableBits m avail g' t
  used : slot.Used bitLen n tableBits avail
  path : slot.path g'.home tableBits =
    (bitLen c, firstBits (codeStart bitLen n c) (bitLen c))
  entered : ∀ e, d ≤ e → e < bitLen c → (e, firstBits (codeStart bitLen n c) e) ∈ g'.paths
  mono : g.paths ⊆ g'.paths

lemma testBit_shifted {x d : ℕ} (hbits : tableBits ≤ 15) (hd : tableBits ≤ d) (hd16 : d < 16) :
    ((x * 2 ^ (d - tableBits) % 2 ^ 16) &&& 2 ^ (15 - tableBits) ≠ 0) ↔
      x.testBit (15 - d) = true := by
  rw [Nat.and_two_pow, Nat.testBit_mod_two_pow]
  have hlt : 15 - tableBits < 16 := by omega
  grind

lemma slotLoop_reached {index : ℕ} (h : Trie bitLen n tableBits m avail g t)
    (hcom : Complete n bitLen) (hn : n ≤ nc) (hmn : m ≤ n) (hpos : 0 < tableBits)
    (hbits : tableBits ≤ 15) (hc : c < n) (hslot : slot.Used bitLen n tableBits avail)
    (hd : tableBits ≤ d) (hind : d + index = bitLen c)
    (hpath : slot.path g.home tableBits = (d, firstBits (codeStart bitLen n c) d)) :
    Ends (slotLoop tableBits (2 ^ (15 - tableBits)) index
        (codeStart bitLen n c * 2 ^ (d - tableBits) % 2 ^ 16) slot avail t)
      (fun r t' => ∃ g', Reached bitLen n tableBits m c d g r.1 r.2 t' g') (fun _ _ => False) := by
  have h16 := hcom.le c hc
  induction index generalizing slot avail g t d with
  | zero =>
    obtain rfl : d = bitLen c := hind
    exact ends_pure ⟨g, h, hslot, hpath, fun e he hlt => absurd he (not_le.mpr hlt),
      Finset.Subset.refl _⟩
  | succ index ih =>
    have hd16 : d < 16 := by
      change bitLen c ≤ 16 at h16
      omega
    have hgoes : GoesOn bitLen n c (d, firstBits (codeStart bitLen n c) d) :=
      ⟨show d < bitLen c by omega, rfl⟩
    refine ends_bind ((growSlot_opened h hcom hn hmn hpos hslot hpath hc hgoes).imp ?_)
    rintro avail₁ t₁ ⟨g₁, hope⟩
    refine ends_bind ((hope.descend hcom hn).imp ?_)
    rintro slot₁ t₂ ⟨rfl, hused, hpat₁⟩
    have hnext : slot₁.path g₁.home tableBits =
        (d + 1, firstBits (codeStart bitLen n c) (d + 1)) := by
      rw [hpat₁, firstBits_succ hd16]
      simp only [testBit_shifted hbits hd hd16]
    have hshi : u16 (codeStart bitLen n c * 2 ^ (d - tableBits) % 2 ^ 16 * 2) =
        codeStart bitLen n c * 2 ^ (d + 1 - tableBits) % 2 ^ 16 := by
      unfold u16
      rw [Nat.mod_mul_mod, Nat.mul_assoc, ← Nat.pow_succ,
        show (d - tableBits).succ = d + 1 - tableBits by omega]
    rw [hshi]
    have hmem : (d, firstBits (codeStart bitLen n c) d) ∈ g₁.paths := by
      obtain ⟨hge, hlt, hhome⟩ := hope.node
      exact hhome ▸ hope.trie.own _ hge hlt
    refine (ih hope.trie hused (by omega) (by omega) hnext).imp ?_
    rintro r t₃ ⟨g₂, hrea⟩
    refine ⟨g₂, hrea.trie, hrea.used, hrea.path, fun e he hlt => ?_, hope.mono.trans hrea.mono⟩
    rcases Nat.lt_or_eq_of_le he with hlt' | rfl
    · exact hrea.entered e hlt' hlt
    · exact hrea.mono hmem

end Edk2.Decompress

/-!
## Building the table of a complete code

When the lengths fill up all strings of 16 bits `MakeTable` succeeds, and afterwards the codes of all symbols
are entered.
-/

namespace Edk2.Decompress

open Outcome

variable {bitLen next : ℕ → ℕ} {n tableBits m avail c c' d k : ℕ} {t t' : Tables}
  {slot : Slot} {g g' : Nodes}

lemma Trie.not_isCode_short (h : Trie bitLen n tableBits m avail g t) (hpos : 0 < tableBits)
    (hm : m < n) (hlen : bitLen m ≤ tableBits) (hslot : slot.Used bitLen n tableBits avail) :
    ¬ IsCode bitLen n m (slot.path g.home tableBits) := by
  rintro ⟨heq, hbits⟩
  have hle := h.le_path hslot
  have hpath : (slot.path g.home tableBits).1 = tableBits := by omega
  cases slot with
  | table v =>
    have hbits : firstBits (codeStart bitLen n m) tableBits = v := hbits
    have hdiv := Nat.div_mul_le_self (codeStart bitLen n m) (2 ^ (codeBit - tableBits))
    have hwid := Nat.two_pow_pos (codeBit - bitLen m)
    unfold firstBits at hbits
    rw [hbits] at hdiv
    exact short_not_used ⟨hm, by omega⟩ hlen (by omega) avail hslot
  | left a =>
    have hlt := (h.long _ (h.own a hslot.1 hslot.2)).1
    have hpath : (g.home a).1 + 1 = tableBits := hpath
    omega
  | right a =>
    have hlt := (h.long _ (h.own a hslot.1 hslot.2)).1
    have hpath : (g.home a).1 + 1 = tableBits := hpath
    omega

lemma Trie.next_short (h : Trie bitLen n tableBits m avail g t) (hpos : 0 < tableBits) (hm : m < n)
    (hlen : bitLen m ≤ tableBits)
    (hsame : ∀ slot : Slot, slot.Used bitLen n tableBits avail → t'.get slot = t.get slot)
    (hsho : ∀ c < m + 1, bitLen c ≠ 0 → bitLen c ≤ tableBits → ∀ v,
      codeStart bitLen n c ≤ v * 2 ^ (codeBit - tableBits) →
        v * 2 ^ (codeBit - tableBits) < codeStart bitLen n c + 2 ^ (codeBit - bitLen c) →
          t'.table v = c) : Trie bitLen n tableBits (m + 1) avail g t' := by
  refine ⟨h.card, h.own, h.inj, h.long, h.closed, ?_, ?_, hsho⟩
  · intro c hc d hd hlt
    rcases Nat.lt_or_eq_of_le (Nat.le_of_lt_succ hc) with hc | rfl
    · exact h.entered c hc d hd hlt
    · omega
  · intro slot hslot
    rw [hsame slot hslot]
    rcases h.content slot hslot with ⟨hzero, hnot, hcod⟩ | hnode | ⟨hlt, hcode⟩
    · refine .inl ⟨hzero, hnot, fun c hc => ?_⟩
      rcases Nat.lt_or_eq_of_le (Nat.le_of_lt_succ hc) with hc | rfl
      · exact hcod c hc
      · exact h.not_isCode_short hpos hm hlen hslot
    · exact .inr (.inl hnode)
    · exact .inr (.inr ⟨by omega, hcode⟩)

lemma mem_entries_iff {v : ℕ} (hlen : bitLen c ≤ tableBits) (hbits : tableBits ≤ 16) :
    codeStart bitLen n c / 2 ^ (codeBit - tableBits) ≤ v ∧
      v < codeStart bitLen n c / 2 ^ (codeBit - tableBits) + 2 ^ (tableBits - bitLen c) ↔
    codeStart bitLen n c ≤ v * 2 ^ (codeBit - tableBits) ∧
      v * 2 ^ (codeBit - tableBits) < codeStart bitLen n c + 2 ^ (codeBit - bitLen c) := by
  have hpos := Nat.two_pow_pos (codeBit - tableBits)
  have hpow : 2 ^ (codeBit - bitLen c) = 2 ^ (tableBits - bitLen c) * 2 ^ (codeBit - tableBits) := by
    rw [← Nat.pow_add]
    grind
  obtain ⟨a, ha⟩ : 2 ^ (codeBit - tableBits) ∣ codeStart bitLen n c :=
    (Canonical.width_dvd hlen).trans Canonical.width_dvd_position
  simp [ha, hpow, Nat.mul_comm _ a, ← Nat.add_mul]

lemma entries_apart {x : ℕ} (hc : HasCode bitLen n c) (hc' : HasCode bitLen n c')
    (h : codeStart bitLen n c ≤ x) (hx : x < codeStart bitLen n c + 2 ^ (codeBit - bitLen c))
    (h' : codeStart bitLen n c' ≤ x)
    (hx' : x < codeStart bitLen n c' + 2 ^ (codeBit - bitLen c')) : c = c' := by
  by_contra hne
  rcases Canonical.position_apart codeBit hc.1 hc'.1 hc.2 hc'.2 hne with hle | hle
  · have hle : codeStart bitLen n c + 2 ^ (codeBit - bitLen c) ≤ codeStart bitLen n c' := hle
    omega
  · have hle : codeStart bitLen n c' + 2 ^ (codeBit - bitLen c') ≤ codeStart bitLen n c := hle
    omega

lemma Complete.nextCode_le (h : Complete n bitLen) (hm : HasCode bitLen n m)
    (hlen : bitLen m ≤ tableBits) (hbits : tableBits ≤ 16) :
    codeStart bitLen n m / 2 ^ (codeBit - tableBits) + 2 ^ (tableBits - bitLen m) ≤
      2 ^ tableBits := by
  have hpos := Nat.two_pow_pos (tableBits - bitLen m)
  obtain ⟨v, hv⟩ : ∃ v, v = codeStart bitLen n m / 2 ^ (codeBit - tableBits) := ⟨_, rfl⟩
  have hlast := (@mem_entries_iff bitLen n tableBits m (v + 2 ^ (tableBits - bitLen m) - 1) hlen
    hbits).mp
  rw [← hv] at hlast ⊢
  have hlast := hlast ⟨by omega, by omega⟩
  have hend := h.codeStart_add_le hm
  have hspl : 2 ^ tableBits * 2 ^ (codeBit - tableBits) = 2 ^ 16 := by
    rw [← Nat.pow_add]
    congr 1
    change tableBits + (16 - tableBits) = 16
    omega
  have hlt := Nat.lt_of_mul_lt_mul_right (hlast.2.trans_le (hend.trans hspl.ge))
  omega

lemma Complete.nextCode_eq (h : Complete n bitLen) (hm : HasCode bitLen n m)
    (hlen : bitLen m ≤ tableBits) (hbits : tableBits ≤ 15) :
    u16 (codeStart bitLen n m / 2 ^ (codeBit - tableBits) + weight tableBits (bitLen m)) =
      codeStart bitLen n m / 2 ^ (codeBit - tableBits) + 2 ^ (tableBits - bitLen m) := by
  have hle := h.nextCode_le hm hlen (by omega)
  have hpow : 2 ^ tableBits ≤ 2 ^ 15 := Nat.pow_le_pow_right (by decide) hbits
  simp [hm.2, hlen, weight, u16]
  omega

lemma Trie.fill (h : Trie bitLen n tableBits m avail g t) (hpos : 0 < tableBits)
    (hbits : tableBits ≤ 16) (hm : HasCode bitLen n m) (hlen : bitLen m ≤ tableBits) :
    Trie bitLen n tableBits (m + 1) avail g
      { t with table := fun i =>
          if codeStart bitLen n m / 2 ^ (codeBit - tableBits) ≤ i ∧
            i < codeStart bitLen n m / 2 ^ (codeBit - tableBits) + 2 ^ (tableBits - bitLen m)
          then m else t.table i } := by
  refine h.next_short hpos hm.1 hlen ?_ ?_
  · intro slot hslot
    cases slot with
    | table v =>
      apply if_neg
      rw [mem_entries_iff hlen hbits]
      exact fun hin => short_not_used hm hlen hin.2 avail hslot
    | left a => rfl
    | right a => rfl
  · intro c hc hne hle v hlo hhi
    simp only [mem_entries_iff hlen hbits]
    have hcode : HasCode bitLen n c := ⟨lt_of_lt_of_le hc hm.1, hne⟩
    split_ifs with hin
    · exact entries_apart hm hcode hin.1 hin.2 hlo hhi
    · rcases Nat.lt_or_eq_of_le (Nat.le_of_lt_succ hc) with hc | rfl
      · exact h.short c hc hne hle v hlo hhi
      · exact absurd ⟨hlo, hhi⟩ hin

lemma Reached.finish (h : Reached bitLen n tableBits m m tableBits g slot avail t g') (hmn : m < n)
    (hlen : tableBits < bitLen m) :
    Trie bitLen n tableBits (m + 1) avail g' (t.set m slot) := by
  have htrie := h.trie
  refine ⟨htrie.card, htrie.own, htrie.inj, htrie.long, htrie.closed, ?_, ?_, ?_⟩
  · intro c hc d hd hlt
    rcases Nat.lt_or_eq_of_le (Nat.le_of_lt_succ hc) with hc | rfl
    · exact htrie.entered c hc d hd hlt
    · exact h.entered d hd hlt
  · intro s hs
    rw [get_set]
    by_cases hssl : s = slot
    · subst hssl
      rw [if_pos rfl, h.path]
      exact .inr (.inr ⟨Nat.lt_succ_self m, rfl, rfl⟩)
    · rw [if_neg hssl]
      rcases htrie.content s hs with ⟨hzero, hnot, hcod⟩ | hnode | ⟨hlt, hcode⟩
      · refine .inl ⟨hzero, hnot, fun c hc hcode => ?_⟩
        rcases Nat.lt_or_eq_of_le (Nat.le_of_lt_succ hc) with hc | rfl
        · exact hcod c hc hcode
        · apply hssl
          apply htrie.path_inj hs h.used
          rw [h.path]
          exact Prod.ext hcode.1.symm (hcode.1 ▸ hcode.2.symm)
      · exact .inr (.inl hnode)
      · exact .inr (.inr ⟨by omega, hcode⟩)
  · intro c hc hne hle v hlo hhi
    rcases Nat.lt_or_eq_of_le (Nat.le_of_lt_succ hc) with hc | rfl
    · have hnot := short_not_used ⟨by omega, hne⟩ hle hhi avail
      have hget := get_set t slot (.table v) m
      rw [if_neg fun heq : Slot.table v = slot => hnot (by rw [heq]; exact h.used)] at hget
      exact hget.trans (htrie.short c hc hne hle v hlo hhi)
    · omega

lemma used_table (hcom : Complete n bitLen) (hm : HasCode bitLen n m) (hlen : tableBits < bitLen m) :
    (Slot.table (codeStart bitLen n m / 2 ^ (codeBit - tableBits))).Used bitLen n tableBits avail := by
  have h16 : bitLen m ≤ 16 := hcom.le m hm.1
  have hsta : lengthStart bitLen n (tableBits + 1) ≤ codeStart bitLen n m :=
    (Canonical.base_mono hlen).trans Canonical.base_le_position
  obtain ⟨a, ha⟩ : 2 ^ (codeBit - tableBits) ∣ lengthStart bitLen n (tableBits + 1) :=
    Canonical.width_dvd_base le_rfl
  refine ⟨?_, firstBits_lt (hcom.codeStart_lt hm) (by omega)⟩
  rw [ha] at hsta ⊢
  rw [Nat.mul_comm]
  exact Nat.mul_le_mul_right _ ((Nat.le_div_iff_mul_le (Nat.two_pow_pos _)).mpr (by
    rwa [Nat.mul_comm]))

lemma enterLong_trie (h : Trie bitLen n tableBits m avail g t) (hcom : Complete n bitLen)
    (hn : n ≤ nc) (hpos : 0 < tableBits) (hbits : tableBits ≤ 15) (hm : HasCode bitLen n m)
    (hlen : tableBits < bitLen m) :
    Ends (enterLong tableBits m (bitLen m) (codeStart bitLen n m) avail t)
      (fun avail' t' => ∃ g', Trie bitLen n tableBits (m + 1) avail' g' t')
      (fun _ _ => False) := by
  have hind : tableBits + (bitLen m - tableBits) = bitLen m := by omega
  have hloop := slotLoop_reached h hcom hn hm.1.le hpos hbits hm.1
    (used_table hcom hm hlen) le_rfl hind rfl
  have hcode : codeStart bitLen n m * 2 ^ (tableBits - tableBits) % 2 ^ 16 =
      codeStart bitLen n m := by
    rw [Nat.sub_self, Nat.pow_zero, Nat.mul_one]
    exact Nat.mod_eq_of_lt (hcom.codeStart_lt hm)
  rw [hcode] at hloop
  refine ends_bind (hloop.imp ?_)
  rintro ⟨slot, avail₁⟩ t₁ ⟨g₁, hrea⟩
  refine ends_bind ((writeSlot_spec (hrea.trie.inBounds hcom hn hrea.used)).imp ?_)
  rintro - t₂ rfl
  exact ends_pure ⟨g₁, hrea.finish hm.1 hlen⟩

/-- `Start` holds where the next code of each length that is still to come starts. -/
def Pending (bitLen : ℕ → ℕ) (n tableBits m : ℕ) (next : ℕ → ℕ) : Prop :=
  ∀ c, m ≤ c → c < n → bitLen c ≠ 0 → next (bitLen c) =
    (lengthStart bitLen n (bitLen c) + count bitLen m (bitLen c) * 2 ^ (codeBit - bitLen c)) /
      if bitLen c ≤ tableBits then 2 ^ (codeBit - tableBits) else 1

lemma Pending.skip (h : Pending bitLen n tableBits m next) (hm : bitLen m = 0) :
    Pending bitLen n tableBits (m + 1) next := by
  intro c hc hcn hne
  have hcnt : count bitLen (m + 1) (bitLen c) = count bitLen m (bitLen c) + _ :=
    Canonical.count_succ
  rw [if_neg (by omega), Nat.add_zero] at hcnt
  rw [hcnt]
  exact h c (by omega) hcn hne

lemma Pending.store (h : Pending bitLen n tableBits m next) (hcom : Complete n bitLen)
    (hbits : tableBits ≤ 15) :
    Pending bitLen n tableBits (m + 1) (store next (bitLen m)
      (u16 ((codeStart bitLen n m / if bitLen m ≤ tableBits then 2 ^ (codeBit - tableBits) else 1) +
        weight tableBits (bitLen m)))) := by
  intro c hc hcn hne
  have hcnt : count bitLen (m + 1) (bitLen c) = count bitLen m (bitLen c) + _ :=
    Canonical.count_succ
  rw [store_apply]
  by_cases hlen : bitLen c = bitLen m
  · have hm : HasCode bitLen n m := ⟨by omega, by omega⟩
    have h16 : bitLen m ≤ 16 := hcom.le m hm.1
    rw [if_pos hlen, hcnt, hlen, if_pos rfl]
    -- the next code starts where this one ends
    have hnext : lengthStart bitLen n (bitLen m) +
        (count bitLen m (bitLen m) + 1) * 2 ^ (codeBit - bitLen m) =
          codeStart bitLen n m + 2 ^ (codeBit - bitLen m) := by
      rw [Nat.add_mul, Nat.one_mul, ← Nat.add_assoc]
      rfl
    have hlt : codeStart bitLen n m + 2 ^ (codeBit - bitLen m) < 2 ^ 16 := by
      have hrank : count bitLen m (bitLen m) + 1 ≤ count bitLen c (bitLen c) := by
        have hone : count bitLen (m + 1) (bitLen m) = count bitLen m (bitLen m) + _ :=
          Canonical.count_succ
        rw [if_pos rfl] at hone
        have hmono : count bitLen (m + 1) (bitLen m) ≤ count bitLen c (bitLen m) :=
          Canonical.count_mono hc
        rw [hlen]
        omega
      have hmul := Nat.mul_le_mul_right (2 ^ (codeBit - bitLen m)) hrank
      have hsta := hcom.codeStart_lt ⟨hcn, hne⟩
      have hposi : codeStart bitLen n c = lengthStart bitLen n (bitLen c) +
        count bitLen c (bitLen c) * 2 ^ (codeBit - bitLen c) := rfl
      rw [hlen] at hposi hmul
      omega
    rw [hnext]
    split_ifs with hsho
    · have hpos := Nat.two_pow_pos (codeBit - tableBits)
      have hpow : 2 ^ (codeBit - bitLen m) =
          2 ^ (codeBit - tableBits) * 2 ^ (tableBits - bitLen m) := by
        rw [← Nat.pow_add]
        congr 1
        change 16 - bitLen m = 16 - tableBits + (tableBits - bitLen m)
        omega
      have hle := Nat.div_le_self (codeStart bitLen n m + 2 ^ (codeBit - bitLen m))
        (2 ^ (codeBit - tableBits))
      grind [Nat.add_mul_div_left, Nat.mod_eq_of_lt, weight, u16]
    · unfold weight u16
      grind
  · rw [if_neg hlen, hcnt, if_neg (Ne.symm hlen), Nat.add_zero]
    exact h c (by omega) hcn hne

lemma charLoop_trie (h : Trie bitLen n tableBits m avail g t) (hcom : Complete n bitLen)
    (hn : n ≤ nc) (hpos : 0 < tableBits) (hbits : tableBits ≤ 15) (hk : m + k = n)
    (hnext : Pending bitLen n tableBits m next) :
    Ends (charLoop bitLen tableBits (List.range' m k) next avail t)
      (fun status t' => status = 0 ∧ ∃ avail' g', Trie bitLen n tableBits n avail' g' t')
      (fun _ _ => False) := by
  induction k generalizing m next avail t g with
  | zero =>
    obtain rfl : m = n := hk
    exact ends_pure ⟨rfl, avail, g, h⟩
  | succ k ih =>
    rw [List.range'_succ]
    have hmn : m < n := by omega
    have h16 : bitLen m ≤ 16 := hcom.le m hmn
    refine ends_ite (fun hskip => ?_) fun hcode => ?_
    · have hzero : bitLen m = 0 := by omega
      refine ih (h.next_short hpos hmn (by omega) (fun _ _ => rfl) ?_) (by omega) (hnext.skip hzero)
      intro c hc hne hle v hlo hhi
      rcases Nat.lt_or_eq_of_le (Nat.le_of_lt_succ hc) with hc | rfl
      · exact h.short c hc hne hle v hlo hhi
      · exact absurd hzero hne
    · have hm : HasCode bitLen n m := ⟨hmn, by omega⟩
      have hsta := hnext m le_rfl hmn hm.2
      have hsta : next (bitLen m) = codeStart bitLen n m /
        if bitLen m ≤ tableBits then 2 ^ (codeBit - tableBits) else 1 := hsta
      have hsto := hnext.store hcom hbits
      rw [← hsta] at hsto
      refine ends_ite (fun hsho => ?_) fun hlong => ?_
      · rw [if_pos hsho] at hsta
        -- the entries lie within the table
        have hnex : u16 (next (bitLen m) + weight tableBits (bitLen m)) =
            codeStart bitLen n m / 2 ^ (codeBit - tableBits) + 2 ^ (tableBits - bitLen m) := by
          rw [hsta]
          exact hcom.nextCode_eq hm hsho hbits
        have hle := hcom.nextCode_le hm hsho (by omega)
        rw [hnex] at hsto ⊢
        rw [hsta]
        have hwid := Nat.two_pow_pos (tableBits - bitLen m)
        refine ends_ite (fun hbad => ?_) fun _ => ?_
        · omega
        · refine ends_bind ((fillTable_spec hle).imp fun _ t₁ h₁ => ?_)
          subst h₁
          exact ih (h.fill hpos (by omega) hm hsho) (by omega) hsto
      · rw [if_neg hlong, Nat.div_one] at hsta
        have hlong := not_le.mp hlong
        refine ends_bind (Ends.imp (hsta.symm ▸ enterLong_trie h hcom hn hpos hbits hm hlong) ?_)
        grind

end Edk2.Decompress
