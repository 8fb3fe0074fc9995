import Mathlib.Data.Set.Insert
import Edk2.Lib.Outcome
import Edk2.Decompress.Model

/-!
# Building a table of codes

`MakeTable` accepts code lengths that overlap, so a code can lead through a symbol to links that an
earlier set has left behind. Every value it stores is still a node, and the nodes that can be
reached from the table without passing a symbol are new ones whose links lead further up. When at
least one symbol has a code, every entry of the table is written.
-/

namespace Edk2.Decompress

open Outcome

variable {numOfChar avail avail' limit limit' tableBits : ℕ} {E P : Set ℕ} {t t' t'' : Tables}
  {slot : Slot} {bitLen next : ℕ → ℕ}

/-- Every link and every entry is a node or a symbol. -/
structure Small (t : Tables) : Prop where
  left : ∀ i, t.mLeft i < nodes
  right : ∀ i, t.mRight i < nodes
  table : ∀ i, t.table i < nodes

/-- The entries `E` and the nodes `P` belong to the present set: they lead to symbols or to nodes
further up. -/
structure Own (numOfChar : ℕ) (E P : Set ℕ) (avail : ℕ) (t : Tables) : Prop where
  lt : ∀ n ∈ P, n < avail
  table : ∀ i ∈ E, t.table i < numOfChar ∨ t.table i ∈ P
  left : ∀ n ∈ P, t.mLeft n < numOfChar ∨ (t.mLeft n ∈ P ∧ n < t.mLeft n)
  right : ∀ n ∈ P, t.mRight n < numOfChar ∨ (t.mRight n ∈ P ∧ n < t.mRight n)

/-- The state of the tables while a set is entered. -/
structure Grown (numOfChar : ℕ) (E : Set ℕ) (avail : ℕ) (t : Tables) : Prop where
  small : Small t
  own : ∃ P, Own numOfChar E P avail t
  avail_le : avail ≤ nodes
  le_avail : numOfChar ≤ avail

/-- Links that were changed have got values below `limit`. -/
structure Touched (limit : ℕ) (t t' : Tables) : Prop where
  left : ∀ n, t'.mLeft n = t.mLeft n ∨ t'.mLeft n < limit
  right : ∀ n, t'.mRight n = t.mRight n ∨ t'.mRight n < limit

lemma Touched.refl (limit : ℕ) (t : Tables) : Touched limit t t := ⟨fun _ => .inl rfl, fun _ => .inl rfl⟩

lemma Touched.mono (h : Touched limit t t') (hle : limit ≤ limit') : Touched limit' t t' :=
  ⟨fun n => (h.left n).imp_right fun hlt => lt_of_lt_of_le hlt hle,
    fun n => (h.right n).imp_right fun hlt => lt_of_lt_of_le hlt hle⟩

lemma Touched.trans (h : Touched limit t t') (h' : Touched limit t' t'') : Touched limit t t'' := by
  constructor
  · intro n
    rcases h'.left n with heq | hlt
    · rw [heq]
      exact h.left n
    · exact .inr hlt
  · intro n
    rcases h'.right n with heq | hlt
    · rw [heq]
      exact h.right n
    · exact .inr hlt

lemma update_lt {f : ℕ → ℕ} {i value n : ℕ} (hf : ∀ j, f j < n) (hv : value < n) :
    ∀ j, store f i value j < n := by
  grind [store_apply]

lemma Small.set (h : Small t) {value : ℕ} (hv : value < nodes) (slot : Slot) :
    Small (t.set value slot) := by
  cases slot with
  | table i => exact ⟨h.left, h.right, update_lt h.table hv⟩
  | left i => exact ⟨update_lt h.left hv, h.right, h.table⟩
  | right i => exact ⟨h.left, update_lt h.right hv, h.table⟩

lemma touched_set {value : ℕ} (hv : value < limit) (slot : Slot) :
    Touched limit t (t.set value slot) := by
  have hupd : ∀ (f : ℕ → ℕ) (i n : ℕ), store f i value n = f n ∨
      store f i value n < limit := by
    intro f i n
    rw [store_apply]
    split_ifs
    · exact .inr hv
    · exact .inl rfl
  cases slot with
  | table i => exact ⟨fun _ => .inl rfl, fun _ => .inl rfl⟩
  | left i => exact ⟨hupd t.mLeft i, fun _ => .inl rfl⟩
  | right i => exact ⟨fun _ => .inl rfl, hupd t.mRight i⟩

lemma Own.set_symbol (h : Own numOfChar E P avail t) {value : ℕ} (hv : value < numOfChar)
    (slot : Slot) : Own numOfChar E P avail (t.set value slot) := by
  cases slot with
  | table i =>
    refine ⟨h.lt, fun j hj => ?_, h.left, h.right⟩
    simp only [Tables.set, store_apply]
    split_ifs
    · exact .inl hv
    · exact h.table j hj
  | left i =>
    refine ⟨h.lt, h.table, fun n hn => ?_, h.right⟩
    simp only [Tables.set, store_apply]
    split_ifs
    · exact .inl hv
    · exact h.left n hn
  | right i =>
    refine ⟨h.lt, h.table, h.left, fun n hn => ?_⟩
    simp only [Tables.set, store_apply]
    split_ifs
    · exact .inl hv
    · exact h.right n hn

lemma Own.mono (h : Own numOfChar E P avail t) (hle : avail ≤ avail') :
    Own numOfChar E P avail' t :=
  { h with lt := fun n hn => lt_of_lt_of_le (h.lt n hn) hle }

/-- The slot belongs to the present set. -/
def Slot.Owned (E P : Set ℕ) : Slot → Prop
  | .table i => i ∈ E
  | .left n => n ∈ P
  | .right n => n ∈ P

lemma Own.insert (h : Own numOfChar E P avail t) (hl : t.mLeft avail < numOfChar)
    (hr : t.mRight avail < numOfChar) : Own numOfChar E (insert avail P) (avail + 1) t := by
  refine ⟨?_, fun i hi => (h.table i hi).imp_right (Set.mem_insert_of_mem _), ?_, ?_⟩
  · intro n hn
    rcases Set.mem_insert_iff.mp hn with rfl | hn
    · exact Nat.lt_succ_self n
    · exact Nat.lt_succ_of_lt (h.lt n hn)
  · intro n hn
    rcases Set.mem_insert_iff.mp hn with rfl | hn
    · exact .inl hl
    · exact (h.left n hn).imp_right fun h => ⟨Set.mem_insert_of_mem _ h.1, h.2⟩
  · intro n hn
    rcases Set.mem_insert_iff.mp hn with rfl | hn
    · exact .inl hr
    · exact (h.right n hn).imp_right fun h => ⟨Set.mem_insert_of_mem _ h.1, h.2⟩

lemma Own.set_node (h : Own numOfChar E P avail t) {value : ℕ} (hv : value ∈ P)
    (hslot : ∀ n, slot = .left n ∨ slot = .right n → n < value) :
    Own numOfChar E P avail (t.set value slot) := by
  cases slot with
  | table i =>
    refine ⟨h.lt, fun j hj => ?_, h.left, h.right⟩
    simp only [Tables.set, store_apply]
    split_ifs
    · exact .inr hv
    · exact h.table j hj
  | left i =>
    refine ⟨h.lt, h.table, fun n hn => ?_, h.right⟩
    simp only [Tables.set, store_apply]
    split_ifs with heq
    · exact .inr ⟨hv, heq ▸ hslot i (.inl rfl)⟩
    · exact h.left n hn
  | right i =>
    refine ⟨h.lt, h.table, h.left, fun n hn => ?_⟩
    simp only [Tables.set, store_apply]
    split_ifs with heq
    · exact .inr ⟨hv, heq ▸ hslot i (.inr rfl)⟩
    · exact h.right n hn

lemma Own.set_other (h : Own numOfChar E P avail t) {value : ℕ} (hslot : ¬ slot.Owned E P) :
    Own numOfChar E P avail (t.set value slot) := by
  cases slot with
  | table i =>
    refine ⟨h.lt, fun j hj => ?_, h.left, h.right⟩
    simp only [Tables.set, store_apply]
    rw [if_neg fun heq : j = i => hslot (heq ▸ hj)]
    exact h.table j hj
  | left i =>
    refine ⟨h.lt, h.table, fun n hn => ?_, h.right⟩
    simp only [Tables.set, store_apply]
    rw [if_neg fun heq : n = i => hslot (heq ▸ hn)]
    exact h.left n hn
  | right i =>
    refine ⟨h.lt, h.table, h.left, fun n hn => ?_⟩
    simp only [Tables.set, store_apply]
    rw [if_neg fun heq : n = i => hslot (heq ▸ hn)]
    exact h.right n hn

lemma readSlot_spec (hslot : slot.InBounds tableBits) :
    Ends (readSlot tableBits slot t) (fun value t' => t' = t ∧ value = t.get slot)
      (fun _ _ => False) :=
  ends_bind (ends_get (ends_ite (fun _ => ends_pure ⟨rfl, rfl⟩) fun hno => absurd hslot hno))

lemma writeSlot_spec {value : ℕ} (hslot : slot.InBounds tableBits) :
    Ends (writeSlot tableBits slot value t) (fun _ t' => t' = t.set value slot)
      (fun _ _ => False) :=
  ends_bind (ends_get (ends_ite (fun _ => ends_set rfl) fun hno => absurd hslot hno))

/-- The tables after up to `n` nodes were added. -/
structure Entered (numOfChar : ℕ) (E : Set ℕ) (avail n : ℕ) (t : Tables) (avail' : ℕ)
    (t' : Tables) : Prop where
  grown : Grown numOfChar E avail' t'
  le : avail ≤ avail'
  le_add : avail' ≤ avail + n
  touched : Touched avail' t t'

lemma growSlot_spec (h : Grown numOfChar E avail t) (hpos : 0 < numOfChar)
    (hslot : slot.InBounds tableBits) :
    Ends (growSlot tableBits slot avail t) (Entered numOfChar E avail 1 t) (fun _ _ => False) := by
  refine ends_bind ((readSlot_spec hslot).imp ?_)
  rintro value s ⟨rfl, -⟩
  refine ends_ite (fun hnew => ?_) fun _ =>
    ends_pure ⟨h, le_rfl, Nat.le_succ avail, Touched.refl _ _⟩
  have hnode : avail < nodes := hnew.2
  have hleft : (Slot.left avail).InBounds tableBits := hnode
  have hrig : (Slot.right avail).InBounds tableBits := hnode
  refine ends_bind ((writeSlot_spec hleft).imp fun _ t₁ h₁ => ?_)
  refine ends_bind ((writeSlot_spec hrig).imp fun _ t₂ h₂ => ?_)
  refine ends_bind ((writeSlot_spec hslot).imp fun _ t₃ h₃ => ?_)
  subst h₁ h₂ h₃
  obtain ⟨P, hown⟩ := h.own
  have hnod : 0 < nodes := Nat.lt_of_le_of_lt (Nat.zero_le _) hnode
  have hsma : Small ((s.set 0 (.left avail)).set 0 (.right avail)) :=
    (h.small.set hnod _).set hnod _
  have hcle : Own numOfChar E P avail ((s.set 0 (.left avail)).set 0 (.right avail)) :=
    (hown.set_symbol hpos _).set_symbol hpos _
  have htou : Touched (avail + 1) s ((s.set 0 (.left avail)).set 0 (.right avail)) :=
    (touched_set (Nat.succ_pos avail) _).trans (touched_set (Nat.succ_pos avail) _)
  refine ends_pure ⟨⟨hsma.set hnode _, ?_, hnode, h.le_avail.trans (Nat.le_succ avail)⟩,
    Nat.le_succ avail, le_rfl, htou.trans (touched_set (Nat.lt_succ_self avail) _)⟩
  by_cases howne : slot.Owned E P
  · -- the new node can be reached from the table
    have hl : ((s.set 0 (.left avail)).set 0 (.right avail)).mLeft avail < numOfChar := by
      simpa [Tables.set] using hpos
    have hr : ((s.set 0 (.left avail)).set 0 (.right avail)).mRight avail < numOfChar := by
      simpa [Tables.set] using hpos
    refine ⟨insert avail P, (hcle.insert hl hr).set_node (Set.mem_insert avail P) ?_⟩
    rintro n (rfl | rfl)
    · exact hown.lt n howne
    · exact hown.lt n howne
  · exact ⟨P, (hcle.set_other howne).mono (Nat.le_succ avail)⟩

lemma descend_spec {mask index3 : ℕ} (h : Small t) (hslot : slot.InBounds tableBits) :
    Ends (descend tableBits mask index3 slot t) (fun slot' t' => t' = t ∧ slot'.InBounds tableBits)
      (fun _ _ => False) := by
  refine ends_bind ((readSlot_spec hslot).imp ?_)
  rintro value _ ⟨rfl, rfl⟩
  refine ends_ite (fun hlt => ?_) fun _ => ends_pure ⟨rfl, hslot⟩
  exact ends_ite (fun _ => ends_pure ⟨rfl, hlt⟩) fun _ => ends_pure ⟨rfl, hlt⟩

lemma slotLoop_spec {mask index index3 : ℕ} (h : Grown numOfChar E avail t) (hpos : 0 < numOfChar)
    (hslot : slot.InBounds tableBits) :
    Ends (slotLoop tableBits mask index index3 slot avail t)
      (fun r t' => Entered numOfChar E avail index t r.2 t' ∧ r.1.InBounds tableBits)
      (fun _ _ => False) := by
  induction index generalizing index3 slot avail t with
  | zero => exact ends_pure ⟨⟨h, le_rfl, le_rfl, Touched.refl _ _⟩, hslot⟩
  | succ index ih =>
    refine ends_bind ((growSlot_spec h hpos hslot).imp fun avail₁ t₁ h₁ => ?_)
    refine ends_bind ((descend_spec h₁.grown.small hslot).imp ?_)
    rintro slot₁ _ ⟨rfl, hslo₁⟩
    refine (ih h₁.grown hslo₁).imp fun r t₂ h₂ => ⟨⟨h₂.1.grown, h₁.le.trans h₂.1.le, ?_, ?_⟩, h₂.2⟩
    · have := h₁.le_add
      have := h₂.1.le_add
      omega
    · exact (h₁.touched.mono h₂.1.le).trans h₂.1.touched

lemma enterLong_spec {char len code : ℕ} (h : Grown numOfChar E avail t) (hchar : char < numOfChar)
    (hbits : tableBits ≤ 16) (hcode : code < 2 ^ 16) :
    Ends (enterLong tableBits char len code avail t) (Entered numOfChar E avail (len - tableBits) t)
      (fun _ _ => False) := by
  have hslot : (Slot.table (code / 2 ^ (16 - tableBits))).InBounds tableBits := by
    refine Nat.div_lt_of_lt_mul ?_
    rwa [← Nat.pow_add, Nat.sub_add_cancel hbits]
  refine ends_bind ((slotLoop_spec h (by omega) hslot).imp fun r t₁ h₁ => ?_)
  refine ends_bind ((writeSlot_spec h₁.2).imp fun _ t₂ h₂ => ends_pure ?_)
  subst h₂
  have hgro := h₁.1.grown
  obtain ⟨P, hown⟩ := hgro.own
  have hlt : char < r.2 := lt_of_lt_of_le hchar hgro.le_avail
  exact ⟨⟨hgro.small.set (lt_of_lt_of_le hlt hgro.avail_le) _, ⟨P, hown.set_symbol hchar _⟩,
    hgro.avail_le, hgro.le_avail⟩, h₁.1.le, h₁.1.le_add, h₁.1.touched.trans (touched_set hlt _)⟩

/-! ### The loop over the characters -/

/-- The entries that the codes of the remaining characters fill. -/
def filled (bitLen : ℕ → ℕ) (tableBits : ℕ) (chars : List ℕ) (next : ℕ → ℕ) : Set ℕ :=
  {i | ∃ len, 1 ≤ len ∧ len ≤ tableBits ∧ next len ≤ i ∧
    i < next len + chars.countP (fun c => bitLen c = len) * 2 ^ (tableBits - len)}

/-- The codes of the remaining characters lie within the table. -/
def Fits (bitLen : ℕ → ℕ) (tableBits : ℕ) (chars : List ℕ) (next : ℕ → ℕ) : Prop :=
  ∀ len, 1 ≤ len → len ≤ tableBits → 0 < chars.countP (fun c => bitLen c = len) →
    next len + chars.countP (fun c => bitLen c = len) * 2 ^ (tableBits - len) ≤ 2 ^ tableBits

lemma Small.fill (h : Small t) {value lo hi : ℕ} (hv : value < nodes) :
    Small { t with table := fun i => if lo ≤ i ∧ i < hi then value else t.table i } := by
  refine ⟨h.left, h.right, fun i => ?_⟩
  simp only
  split_ifs
  · exact hv
  · exact h.table i

lemma Own.fill (h : Own numOfChar E P avail t) {value lo hi : ℕ} (hv : value < numOfChar) :
    Own numOfChar (E ∪ {i | lo ≤ i ∧ i < hi}) P avail
      { t with table := fun i => if lo ≤ i ∧ i < hi then value else t.table i } := by
  refine ⟨h.lt, fun i hi' => ?_, h.left, h.right⟩
  simp only
  split_ifs with hin
  · exact .inl hv
  · exact h.table i (hi'.resolve_right hin)

lemma Own.subset (h : Own numOfChar E P avail t) {F : Set ℕ} (hsub : ∀ i ∈ F, i ∈ E) :
    Own numOfChar F P avail t :=
  { h with table := fun i hi => h.table i (hsub i hi) }

lemma fillTable_spec {lo hi value : ℕ} (hhi : hi ≤ 2 ^ tableBits) :
    Ends (fillTable tableBits lo hi value t)
      (fun _ t' => t' = { t with table := fun i => if lo ≤ i ∧ i < hi then value else t.table i })
      (fun _ _ => False) :=
  ends_bind (ends_get (ends_ite (fun _ => ends_set rfl) fun hno => absurd (fun _ => hhi) hno))

lemma Grown.fill (h : Grown numOfChar E avail t) {value lo hi : ℕ} (hv : value < numOfChar) :
    Grown numOfChar (E ∪ {i | lo ≤ i ∧ i < hi}) avail
      { t with table := fun i => if lo ≤ i ∧ i < hi then value else t.table i } := by
  obtain ⟨P, hown⟩ := h.own
  exact ⟨h.small.fill (lt_of_lt_of_le hv (h.le_avail.trans h.avail_le)), ⟨P, hown.fill hv⟩,
    h.avail_le, h.le_avail⟩

lemma Grown.subset (h : Grown numOfChar E avail t) {F : Set ℕ} (hsub : ∀ i ∈ F, i ∈ E) :
    Grown numOfChar F avail t := by
  obtain ⟨P, hown⟩ := h.own
  exact ⟨h.small, ⟨P, hown.subset hsub⟩, h.avail_le, h.le_avail⟩

/-- What the loop comes to: if it does not find the table bad, all codes are entered. -/
structure Looped (numOfChar : ℕ) (bitLen : ℕ → ℕ) (tableBits : ℕ) (E : Set ℕ) (chars : List ℕ)
    (next : ℕ → ℕ) (avail : ℕ) (t : Tables) (status : ℕ) (t' : Tables) : Prop where
  small : Small t'
  touched : Touched (avail + chars.length * (16 - tableBits)) t t'
  good : status = 0 → (∃ avail', Grown numOfChar (E ∪ filled bitLen tableBits chars next) avail' t') ∧
    Fits bitLen tableBits chars next

lemma filled_cons_other {char : ℕ} (rest : List ℕ) (value : ℕ)
    (hoth : ∀ len, 1 ≤ len → len ≤ tableBits → bitLen char ≠ len) :
    filled bitLen tableBits (char :: rest) next ⊆
        filled bitLen tableBits rest (store next (bitLen char) value) ∧
      (Fits bitLen tableBits rest (store next (bitLen char) value) →
        Fits bitLen tableBits (char :: rest) next) := by
  have hcnt : ∀ len, 1 ≤ len → len ≤ tableBits →
      (char :: rest).countP (fun c => bitLen c = len) = rest.countP (fun c => bitLen c = len) ∧
        store next (bitLen char) value len = next len := by
    intro len hlo hhi
    have hne := hoth len hlo hhi
    exact ⟨List.countP_cons_of_neg (by simpa using hne), store_of_ne hne.symm⟩
  constructor
  · rintro i ⟨len, hlo, hhi, hle, hlt⟩
    obtain ⟨hc, hn⟩ := hcnt len hlo hhi
    rw [hc] at hlt
    exact ⟨len, hlo, hhi, by rwa [hn], by rwa [hn]⟩
  · intro hfits len hlo hhi hpos
    obtain ⟨hc, hn⟩ := hcnt len hlo hhi
    have hle := hfits len hlo hhi
    rw [hc] at hpos ⊢
    rw [hn] at hle
    exact hle hpos

lemma filled_cons_short {char nextCode : ℕ} (rest : List ℕ)
    (hnext : nextCode = next (bitLen char) + 2 ^ (tableBits - bitLen char))
    (hle : nextCode ≤ 2 ^ tableBits) :
    (∀ i ∈ filled bitLen tableBits (char :: rest) next,
        (next (bitLen char) ≤ i ∧ i < nextCode) ∨
          i ∈ filled bitLen tableBits rest (store next (bitLen char) nextCode)) ∧
      (Fits bitLen tableBits rest (store next (bitLen char) nextCode) →
        Fits bitLen tableBits (char :: rest) next) := by
  have hsame : ∀ len, bitLen char = len → (char :: rest).countP (fun c => bitLen c = len) =
      rest.countP (fun c => bitLen c = len) + 1 :=
    fun len heq => List.countP_cons_of_pos (by simpa using heq)
  have hdiff : ∀ len, bitLen char ≠ len → (char :: rest).countP (fun c => bitLen c = len) =
      rest.countP (fun c => bitLen c = len) :=
    fun len hne => List.countP_cons_of_neg (by simpa using hne)
  constructor
  · rintro i ⟨len, hlo, hhi, hge, hlt⟩
    by_cases hlen : bitLen char = len
    · rw [hsame len hlen, Nat.succ_mul] at hlt
      by_cases hi : i < nextCode
      · exact .inl ⟨hlen ▸ hge, hi⟩
      · refine .inr ⟨len, hlo, hhi, ?_, ?_⟩
        · rw [hlen, store_self]
          exact not_lt.mp hi
        · rw [hlen, store_self]
          rw [hlen] at hnext
          omega
    · rw [hdiff len hlen] at hlt
      refine .inr ⟨len, hlo, hhi, ?_, ?_⟩
      · rwa [store_of_ne (Ne.symm hlen)]
      · rwa [store_of_ne (Ne.symm hlen)]
  · intro hfits len hlo hhi hpos
    have hfit := hfits len hlo hhi
    grind [store_self, Nat.succ_mul, store_of_ne]

lemma charLoop_spec (chars : List ℕ) (h : Grown numOfChar E avail t)
    (hcha : ∀ c ∈ chars, c < numOfChar) (hlens : ∀ c ∈ chars, bitLen c ≤ 16)
    (hbits : tableBits ≤ 16) (hnext : ∀ len, next len < 2 ^ 16) :
    Ends (charLoop bitLen tableBits chars next avail t)
      (Looped numOfChar bitLen tableBits E chars next avail t) (fun _ _ => False) := by
  induction chars generalizing E next avail t with
  | nil =>
    refine ends_pure ⟨h.small, Touched.refl _ _, fun _ => ⟨⟨avail, h.subset ?_⟩, ?_⟩⟩
    · rintro i (hi | ⟨len, -, -, hlo, hhi⟩)
      · exact hi
      · simp at hhi
        omega
    · intro len _ _ hpos
      simp at hpos
  | cons char rest ih =>
    have hchar := hcha char List.mem_cons_self
    have hlen := hlens char List.mem_cons_self
    have hrest := fun c hc => hcha c (List.mem_cons_of_mem char hc)
    have hlen' := fun c hc => hlens c (List.mem_cons_of_mem char hc)
    have hnex : ∀ len, store next (bitLen char)
        (u16 (next (bitLen char) + weight tableBits (bitLen char))) len < 2 ^ 16 := by
      intro len
      rw [store_apply]
      split_ifs
      · exact Nat.mod_lt _ (by decide)
      · exact hnext len
    refine ends_ite (fun hskip => ?_) fun hcode => ends_ite (fun hsho => ?_) fun hlong => ?_
    · -- the symbol has no code
      have hzero : bitLen char = 0 := by omega
      have hoth : ∀ len, 1 ≤ len → len ≤ tableBits → bitLen char ≠ len := by omega
      obtain ⟨hsub, hfits⟩ := filled_cons_other rest (next (bitLen char)) hoth
      rw [store_eq_self] at hsub hfits
      refine (ih h hrest hlen' hnext).imp fun status t₁ h₁ => ⟨h₁.small, h₁.touched.mono ?_, ?_⟩
      · rw [List.length_cons, Nat.succ_mul]
        omega
      · intro hok
        obtain ⟨⟨avail', hgro⟩, hf⟩ := h₁.good hok
        exact ⟨⟨avail', hgro.subset fun i hi => hi.imp_right (hsub ·)⟩, hfits hf⟩
    · refine ends_ite (fun _ => ends_pure ⟨h.small, Touched.refl _ _, fun hbad => ?_⟩) fun hgood => ?_
      · cases hbad
      · -- the entries up to the next code are filled
        have hwei : weight tableBits (bitLen char) = 2 ^ (tableBits - bitLen char) := by
          rw [weight, if_neg (by omega), if_pos hsho]
        have hpow : 2 ^ (tableBits - bitLen char) < 2 ^ 16 :=
          Nat.pow_lt_pow_right (by decide) (by omega)
        have hlt := hnext (bitLen char)
        simp only [not_or, ge_iff_le, not_le, gt_iff_lt, not_lt, hwei] at hgood
        have hcode : u16 (next (bitLen char) + weight tableBits (bitLen char)) =
            next (bitLen char) + 2 ^ (tableBits - bitLen char) := by
          rw [hwei]
          simp only [u16] at hgood ⊢
          omega
        rw [hwei] at hcode
        obtain ⟨hsub, hfits⟩ := filled_cons_short rest hcode hgood.2
        rw [hwei] at hnex
        rw [hwei]
        refine ends_bind ((fillTable_spec hgood.2).imp fun _ t₁ h₁ => ?_)
        subst h₁
        refine (ih (h.fill hchar) hrest hlen' hnex).imp
          fun status t₂ h₂ => ⟨h₂.small, ?_, fun hok => ?_⟩
        · refine Touched.mono ⟨h₂.touched.left, h₂.touched.right⟩ ?_
          rw [List.length_cons, Nat.succ_mul]
          omega
        · obtain ⟨⟨avail', hgro⟩, hf⟩ := h₂.good hok
          refine ⟨⟨avail', hgro.subset fun i hi => ?_⟩, hfits hf⟩
          grind
    · -- the code leads to a slot below the table
      have hoth : ∀ len, 1 ≤ len → len ≤ tableBits → bitLen char ≠ len := by omega
      refine ends_bind ((enterLong_spec h hchar hbits (hnext (bitLen char))).imp fun avail₁ t₁ h₁ => ?_)
      obtain ⟨hsub, hfits⟩ := filled_cons_other rest
        (u16 (next (bitLen char) + weight tableBits (bitLen char))) hoth
      have hadd := h₁.le_add
      refine (ih h₁.grown hrest hlen' hnex).imp fun status t₂ h₂ => ⟨h₂.small, ?_, fun hok => ?_⟩
      · have hsum : avail₁ + rest.length * (16 - tableBits) ≤
            avail + (char :: rest).length * (16 - tableBits) := by
          rw [List.length_cons, Nat.succ_mul]
          omega
        exact (h₁.touched.mono (by omega)).trans (h₂.touched.mono hsum)
      · obtain ⟨⟨avail', hgro⟩, hf⟩ := h₂.good hok
        exact ⟨⟨avail', hgro.subset fun i hi => hi.imp_right (hsub ·)⟩, hfits hf⟩

/-! ### The codes cover the table -/

/-- Ranges that follow each other modulo `n`, none of which reaches beyond `n`, cover what lies
below the last one; if they leave out anything, they have not come round to the start. -/
lemma cover_of_fits {first number width : ℕ → ℕ} {n m : ℕ} (hzero : first 1 = 0)
    (hlt : ∀ l, first l < n) (hwid : ∀ l, 0 < width l)
    (hnext : ∀ l, 1 ≤ l → l ≤ m → first (l + 1) = (first l + number l * width l) % n)
    (hfits : ∀ l, 1 ≤ l → l ≤ m → 0 < number l → first l + number l * width l ≤ n) :
    (∀ i < first (m + 1), ∃ l, 1 ≤ l ∧ l ≤ m ∧ first l ≤ i ∧ i < first l + number l * width l) ∧
      ((∀ i < n, ∃ l, 1 ≤ l ∧ l ≤ m ∧ first l ≤ i ∧ i < first l + number l * width l) ∨
        (first (m + 1) = 0 → ∀ l, 1 ≤ l → l ≤ m → number l = 0)) := by
  induction m with
  | zero =>
    grind
  | succ m ih =>
    obtain ⟨ih₁, ih₂⟩ := ih (fun l hlo hhi => hnext l hlo (by omega))
      fun l hlo hhi => hfits l hlo (by omega)
    have hlast := hnext (m + 1) (by omega) le_rfl
    have hbou := hfits (m + 1) (by omega) le_rfl
    have hw := hwid (m + 1)
    have hup : ∀ i, (∃ l, 1 ≤ l ∧ l ≤ m ∧ first l ≤ i ∧ i < first l + number l * width l) →
        ∃ l, 1 ≤ l ∧ l ≤ m + 1 ∧ first l ≤ i ∧ i < first l + number l * width l :=
      fun i ⟨l, hlo, hhi, hin⟩ => ⟨l, hlo, by omega, hin⟩
    have hbel : ∀ i < first (m + 1) + number (m + 1) * width (m + 1),
        ∃ l, 1 ≤ l ∧ l ≤ m + 1 ∧ first l ≤ i ∧ i < first l + number l * width l := by
      intro i hi
      by_cases hold : i < first (m + 1)
      · exact hup i (ih₁ i hold)
      · exact ⟨m + 1, by omega, le_rfl, not_lt.mp hold, hi⟩
    by_cases hnone : number (m + 1) = 0
    · rw [hnone, Nat.zero_mul, Nat.add_zero (first (m + 1)), Nat.mod_eq_of_lt (hlt (m + 1))] at hlast
      rw [hlast]
      refine ⟨fun i hi => hup i (ih₁ i hi), ih₂.imp (fun hall i hi => hup i (hall i hi)) ?_⟩
      grind
    · have hle := hbou (Nat.pos_of_ne_zero hnone)
      have hpos : 0 < number (m + 1) * width (m + 1) := Nat.mul_pos (Nat.pos_of_ne_zero hnone) hw
      rcases Nat.lt_or_ge (first (m + 1) + number (m + 1) * width (m + 1)) n with hin | hout
      · rw [Nat.mod_eq_of_lt hin] at hlast
        rw [hlast]
        grind
      · -- the ranges have come round
        have heq : first (m + 1) + number (m + 1) * width (m + 1) = n := Nat.le_antisymm hle hout
        rw [heq, Nat.mod_self] at hlast
        refine ⟨fun i hi => ?_, .inl fun i hi => hbel i (by omega)⟩
        rw [hlast] at hi
        omega

lemma start_lt (bitLen : ℕ → ℕ) (numOfChar index : ℕ) : start bitLen numOfChar index < 2 ^ 16 := by
  match index with
  | 0 => exact Nat.two_pow_pos 16
  | 1 => exact Nat.two_pow_pos 16
  | index + 2 => exact Nat.mod_lt _ (by decide)

lemma start_succ {index : ℕ} (hind : 1 ≤ index) :
    start bitLen numOfChar (index + 1) =
      (start bitLen numOfChar index + count bitLen numOfChar index * 2 ^ (16 - index)) % 2 ^ 16 := by
  obtain ⟨k, rfl⟩ : ∃ k, index = k + 1 := ⟨index - 1, by omega⟩
  rfl

lemma start_dvd (bitLen : ℕ → ℕ) (numOfChar : ℕ) (hbits : tableBits ≤ 16) {index : ℕ} (hlo : 1 ≤ index) (hhi : index ≤ tableBits + 1) :
    2 ^ (16 - tableBits) ∣ start bitLen numOfChar index := by
  induction index, hlo using Nat.le_induction with
  | base => exact Nat.dvd_zero _
  | succ index hlo ih =>
    rw [start_succ hlo, Nat.dvd_mod_iff (Nat.pow_dvd_pow 2 (Nat.sub_le _ _))]
    refine Nat.dvd_add (ih (by omega)) (Nat.dvd_mul_left_of_dvd (Nat.pow_dvd_pow 2 (by omega)) _)

lemma entry_succ (hbits : tableBits ≤ 16) {index : ℕ} (hlo : 1 ≤ index) (hhi : index ≤ tableBits) :
    start bitLen numOfChar (index + 1) / 2 ^ (16 - tableBits) =
      (start bitLen numOfChar index / 2 ^ (16 - tableBits) +
        count bitLen numOfChar index * 2 ^ (tableBits - index)) % 2 ^ tableBits := by
  obtain ⟨k, hk⟩ := start_dvd bitLen numOfChar hbits hlo (by omega)
  have hpos : 0 < 2 ^ (16 - tableBits) := Nat.two_pow_pos _
  have hunit : 2 ^ (16 - index) = 2 ^ (16 - tableBits) * 2 ^ (tableBits - index) := by
    rw [← Nat.pow_add]
    congr 1
    omega
  have hall : 2 ^ 16 = 2 ^ (16 - tableBits) * 2 ^ tableBits := by
    rw [← Nat.pow_add, Nat.sub_add_cancel hbits]
  simp [start_succ hlo, hk, hunit, Nat.mul_left_comm, ← Nat.mul_add, hall, Nat.mul_mod_mul_left,
    Nat.mul_div_cancel_left _ hpos]

lemma count_long_eq_zero (hbits : tableBits ≤ 16) (hpos : 0 < numOfChar)
    (hchar : numOfChar ≤ 2 ^ tableBits) (hfst : start bitLen numOfChar (tableBits + 1) = 0)
    (hlast : start bitLen numOfChar 17 = 0) :
    ∀ len, tableBits < len → len ≤ 16 → count bitLen numOfChar len = 0 := by
  have hcnt : ∀ len, count bitLen numOfChar len ≤ numOfChar := by
    intro len
    simpa [count] using List.countP_le_length (p := fun i => bitLen i = len) (l := List.range numOfChar)
  have hspa : numOfChar * 2 ^ (16 - tableBits) ≤ 2 ^ 16 := by
    calc numOfChar * 2 ^ (16 - tableBits) ≤ 2 ^ tableBits * 2 ^ (16 - tableBits) :=
          Nat.mul_le_mul_right _ hchar
      _ = 2 ^ 16 := by rw [← Nat.pow_add, Nat.add_sub_cancel' hbits]
  have hpred : ∀ k, 17 - (k + 1) = 16 - k := by omega
  have hunit : ∀ len ≤ 16, 2 ^ (17 - len) = 2 * 2 ^ (16 - len) := by
    intro len hle
    rw [← Nat.pow_succ']
    congr 1
    omega
  -- the long codes do not come round the space
  have hstep : ∀ len, tableBits + 1 ≤ len → len ≤ 16 →
      start bitLen numOfChar len + numOfChar * 2 ^ (17 - len) ≤ numOfChar * 2 ^ (16 - tableBits) →
      start bitLen numOfChar (len + 1) =
        start bitLen numOfChar len + count bitLen numOfChar len * 2 ^ (16 - len) := by
    intro len hlo hhi hroom
    have hle := Nat.mul_le_mul_right (2 ^ (16 - len)) (hcnt len)
    have hone : 0 < numOfChar * 2 ^ (16 - len) := Nat.mul_pos hpos (Nat.two_pow_pos _)
    rw [hunit len hhi, Nat.mul_left_comm] at hroom
    rw [start_succ (by omega), Nat.mod_eq_of_lt (by omega)]
  have hroom : ∀ len, tableBits + 1 ≤ len → len ≤ 17 →
      start bitLen numOfChar len + numOfChar * 2 ^ (17 - len) ≤ numOfChar * 2 ^ (16 - tableBits) := by
    intro len hlo
    induction len, hlo using Nat.le_induction with
    | base =>
      intro _
      rw [hfst, Nat.zero_add, hpred]
    | succ len hlo ih =>
      intro hhi
      have hle := Nat.mul_le_mul_right (2 ^ (16 - len)) (hcnt len)
      have hold := ih (by omega)
      rw [hstep len hlo (by omega) hold, hpred]
      rw [hunit len (by omega), Nat.mul_left_comm] at hold
      omega
  have hzero : ∀ k, k ≤ 16 - tableBits → start bitLen numOfChar (17 - k) = 0 := by
    intro k
    induction k with
    | zero => exact fun _ => hlast
    | succ k ih =>
      intro hk
      have hnext := hstep (17 - (k + 1)) (by omega) (by omega) (hroom _ (by omega) (by omega))
      grind
  intro len hlo hhi
  have hnext := hstep len hlo hhi (hroom len hlo (by omega))
  have hback : len + 1 = 17 - (16 - len) := by omega
  grind [Nat.mul_eq_zero.mp]

/-- If a symbol has a code, the codes up to the width of the table and the cleared entries are the
whole table. -/
lemma cover_table (hbits : tableBits ≤ 16) (hpos : 0 < numOfChar) (hchar : numOfChar ≤ 2 ^ tableBits)
    (hlens : ∀ i < numOfChar, bitLen i ≤ 16) (hlast : start bitLen numOfChar 17 = 0)
    (hcode : hasCode numOfChar bitLen = true)
    (hfits : Fits bitLen tableBits (List.range numOfChar) (scaledStart bitLen numOfChar tableBits)) :
    ∀ i < 2 ^ tableBits,
      i ∈ filled bitLen tableBits (List.range numOfChar) (scaledStart bitLen numOfChar tableBits) ∨
        (start bitLen numOfChar (tableBits + 1) / 2 ^ (16 - tableBits) ≠ 0 ∧
          start bitLen numOfChar (tableBits + 1) / 2 ^ (16 - tableBits) ≤ i) := by
  have hsca : ∀ len, 1 ≤ len → len ≤ tableBits → scaledStart bitLen numOfChar tableBits len =
      start bitLen numOfChar len / 2 ^ (16 - tableBits) := fun len hlo hhi => if_pos ⟨hlo, hhi⟩
  have hlt : ∀ len, start bitLen numOfChar len / 2 ^ (16 - tableBits) < 2 ^ tableBits := by
    intro len
    refine Nat.div_lt_of_lt_mul ?_
    rw [← Nat.pow_add, Nat.sub_add_cancel hbits]
    exact start_lt bitLen numOfChar len
  have hzero : start bitLen numOfChar 1 / 2 ^ (16 - tableBits) = 0 := Nat.zero_div _
  obtain ⟨hbel, hall⟩ := cover_of_fits hzero hlt (fun len => Nat.two_pow_pos (tableBits - len))
    (fun len hlo hhi => entry_succ hbits hlo hhi) (fun len hlo hhi hpos => by
      have := hfits len hlo hhi hpos
      rwa [hsca len hlo hhi] at this)
  have hin : ∀ i, (∃ len, 1 ≤ len ∧ len ≤ tableBits ∧
      start bitLen numOfChar len / 2 ^ (16 - tableBits) ≤ i ∧
      i < start bitLen numOfChar len / 2 ^ (16 - tableBits) +
        count bitLen numOfChar len * 2 ^ (tableBits - len)) →
      i ∈ filled bitLen tableBits (List.range numOfChar) (scaledStart bitLen numOfChar tableBits) := by
    rintro i ⟨len, hlo, hhi, hge, hlt⟩
    refine ⟨len, hlo, hhi, ?_, ?_⟩
    · rwa [hsca len hlo hhi]
    · rwa [hsca len hlo hhi]
  intro i hi
  by_cases hind : start bitLen numOfChar (tableBits + 1) / 2 ^ (16 - tableBits) = 0
  · rcases hall with hall | hnone
    · exact .inl (hin i (hall i hi))
    · -- there would be no code at all
      exfalso
      obtain ⟨c, hc, hne⟩ := List.any_eq_true.mp hcode
      rw [List.mem_range] at hc
      have hfst : start bitLen numOfChar (tableBits + 1) = 0 := by
        obtain ⟨k, hk⟩ := start_dvd bitLen numOfChar hbits (Nat.le_add_left 1 tableBits) le_rfl
        rw [hk, Nat.mul_div_cancel_left _ (Nat.two_pow_pos _)] at hind
        rw [hk, hind, Nat.mul_zero]
      have hlong := count_long_eq_zero hbits hpos hchar hfst hlast
      have hcnt : 0 < count bitLen numOfChar (bitLen c) :=
        List.countP_pos_iff.mpr ⟨c, List.mem_range.mpr hc, by simp⟩
      grind
  grind

/-- What `MakeTable` leaves. -/
structure Made (numOfChar : ℕ) (bitLen : ℕ → ℕ) (tableBits : ℕ) (t : Tables) (status : ℕ)
    (t' : Tables) : Prop where
  small : Small t'
  touched : Touched (numOfChar + numOfChar * (16 - tableBits)) t t'
  own : status = 0 → hasCode numOfChar bitLen = true →
    ∃ avail, Grown numOfChar {i | i < 2 ^ tableBits} avail t'

lemma Grown.of_small (h : Small t) (hle : numOfChar ≤ nodes) : Grown numOfChar ∅ numOfChar t :=
  ⟨h, ⟨∅, ⟨fun _ hn => absurd hn (Set.notMem_empty _), fun _ hi => absurd hi (Set.notMem_empty _),
    fun _ hn => absurd hn (Set.notMem_empty _), fun _ hn => absurd hn (Set.notMem_empty _)⟩⟩, hle,
    le_rfl⟩

lemma makeTable_spec {size : ℕ} (h : Small t) (hpos : 0 < numOfChar) (hle : numOfChar ≤ nodes)
    (hsize : numOfChar ≤ size) (hbits : tableBits ≤ 16) (hchar : numOfChar ≤ 2 ^ tableBits) :
    Ends (makeTable numOfChar bitLen size tableBits t) (Made numOfChar bitLen tableBits t)
      (fun _ _ => False) := by
  have hbad : Made numOfChar bitLen tableBits t badTable t :=
    ⟨h, Touched.refl _ _, fun hzero => by cases hzero⟩
  unfold makeTable
  refine ends_ite (fun hlt => absurd hsize (not_le.mpr hlt)) fun _ => ?_
  refine ends_ite (fun _ => ends_pure hbad) fun hany => ?_
  refine ends_ite (fun _ => ends_pure hbad) fun hlast => ?_
  have hlens : ∀ i < numOfChar, bitLen i ≤ 16 := by
    grind
  have hnext : ∀ len, scaledStart bitLen numOfChar tableBits len < 2 ^ 16 := by
    intro len
    rw [scaledStart]
    split_ifs
    · exact lt_of_le_of_lt (Nat.div_le_self _ _) (start_lt bitLen numOfChar len)
    · exact start_lt bitLen numOfChar len
  -- the entries that are cleared
  have hcle : Ends (clearLong bitLen numOfChar tableBits t)
      (fun _ t' => Grown numOfChar {i | i < 2 ^ tableBits ∧
          start bitLen numOfChar (tableBits + 1) / 2 ^ (16 - tableBits) ≠ 0 ∧
          start bitLen numOfChar (tableBits + 1) / 2 ^ (16 - tableBits) ≤ i} numOfChar t' ∧
        t'.mLeft = t.mLeft ∧ t'.mRight = t.mRight)
      (fun _ _ => False) := by
    have hsta := Grown.of_small h hle
    refine ends_ite (fun hin => ?_) fun hout => ?_
    · refine (fillTable_spec le_rfl).imp fun _ t₁ h₁ => ?_
      subst h₁
      exact ⟨(hsta.fill hpos).subset fun i hi => .inr ⟨hi.2.2, hi.1⟩, rfl, rfl⟩
    · refine ends_pure ⟨hsta.subset fun i hi => ?_, rfl, rfl⟩
      exact absurd ⟨hi.2.1, lt_of_le_of_lt hi.2.2 hi.1⟩ hout
  refine ends_bind (hcle.imp fun _ t₁ h₁ => ?_)
  obtain ⟨hgro, hl, hr⟩ := h₁
  refine (charLoop_spec (List.range numOfChar) hgro (fun c hc => List.mem_range.mp hc)
    (fun c hc => hlens c (List.mem_range.mp hc)) hbits hnext).imp fun status t₂ h₂ => ?_
  refine ⟨h₂.small, ?_, fun hzero hcode => ?_⟩
  · have htou := h₂.touched
    rw [List.length_range] at htou
    exact ⟨hl ▸ htou.left, hr ▸ htou.right⟩
  · obtain ⟨⟨avail, hgro₂⟩, hfits⟩ := h₂.good hzero
    refine ⟨avail, hgro₂.subset fun i hi => ?_⟩
    rcases cover_table hbits hpos hchar hlens (not_not.mp hlast) hcode hfits i hi with hin | hin
    · exact .inr hin
    · exact .inl ⟨hi, hin⟩

end Edk2.Decompress
