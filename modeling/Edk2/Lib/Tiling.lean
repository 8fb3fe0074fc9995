import Mathlib.Algebra.Ring.Int.Defs
import Mathlib.Algebra.Ring.Nat
import Mathlib.Order.Interval.Finset.Nat

/-!
# Tilings by blocks

Blocks are half-open intervals of natural numbers. A set of blocks tiles a set of regions when the
blocks are apart from each other, each lies in a region, and every point of a region lies in a
block. Replacing a block by blocks that tile it keeps a tiling, and so does adding or removing a
region with its blocks.
-/

/-- A type whose values occupy half-open intervals of `ℕ`. -/
class Extent (ι : Type*) where
  start : ι → ℕ
  stop : ι → ℕ

namespace Extent

variable {ι ρ : Type*} [Extent ι] [Extent ρ] {B N : Set ι} {R : Set ρ} {b c : ι} {r : ρ}
  {lo mid hi p : ℕ}

/-- The two intervals have no point in common. -/
def Apart (b : ι) (r : ρ) : Prop := stop b ≤ start r ∨ stop r ≤ start b

/-- The blocks `N` partition the interval from `lo` to `hi`. -/
structure Tiles (N : Set ι) (lo hi : ℕ) : Prop where
  pos : ∀ b ∈ N, start b < stop b
  apart : ∀ b ∈ N, ∀ c ∈ N, b ≠ c → Apart b c
  inside : ∀ b ∈ N, lo ≤ start b ∧ stop b ≤ hi
  covered : ∀ p, lo ≤ p → p < hi → ∃ b ∈ N, start b ≤ p ∧ p < stop b

/-- The blocks `B` partition the regions `R`. -/
structure Tiling (B : Set ι) (R : Set ρ) : Prop where
  pos : ∀ b ∈ B, start b < stop b
  apart : ∀ b ∈ B, ∀ c ∈ B, b ≠ c → Apart b c
  inside : ∀ b ∈ B, ∃ r ∈ R, start r ≤ start b ∧ stop b ≤ stop r
  covered : ∀ r ∈ R, ∀ p, start r ≤ p → p < stop r → ∃ b ∈ B, start b ≤ p ∧ p < stop b
  regions : ∀ r ∈ R, ∀ r' ∈ R, r ≠ r' → Apart r r'

lemma Apart.symm (h : Apart b c) : Apart c b := Or.symm h

lemma tiles_singleton (hb : start b < stop b) : Tiles {b} (start b) (stop b) where
  pos := by rintro _ rfl; exact hb
  apart := by rintro _ rfl _ rfl hne; exact absurd rfl hne
  inside := by rintro _ rfl; exact ⟨le_rfl, le_rfl⟩
  covered p h₁ h₂ := ⟨b, rfl, h₁, h₂⟩

lemma tiles_union {N' : Set ι} (hlo : lo ≤ mid) (hhi : mid ≤ hi) (h : Tiles N lo mid)
    (h' : Tiles N' mid hi) : Tiles (N ∪ N') lo hi where
  pos := by
    rintro b (hb | hb)
    · exact h.pos b hb
    · exact h'.pos b hb
  apart := by
    rintro b (hb | hb) c (hc | hc) hne
    · exact h.apart b hb c hc hne
    · exact .inl ((h.inside b hb).2.trans (h'.inside c hc).1)
    · exact .inr ((h.inside c hc).2.trans (h'.inside b hb).1)
    · exact h'.apart b hb c hc hne
  inside := by
    rintro b (hb | hb)
    · exact ⟨(h.inside b hb).1, (h.inside b hb).2.trans hhi⟩
    · exact ⟨hlo.trans (h'.inside b hb).1, (h'.inside b hb).2⟩
  covered p h₁ h₂ := by
    by_cases hp : p < mid
    · obtain ⟨b, hb, hcov⟩ := h.covered p h₁ hp
      exact ⟨b, .inl hb, hcov⟩
    · obtain ⟨b, hb, hcov⟩ := h'.covered p (not_lt.mp hp) h₂
      exact ⟨b, .inr hb, hcov⟩

lemma Tiling.eq_of_covers (h : Tiling B R) (hb : b ∈ B) (hc : c ∈ B) (hpb : start b ≤ p)
    (hpb' : p < stop b) (hpc : start c ≤ p) (hpc' : p < stop c) : b = c := by
  by_contra hne
  rcases h.apart b hb c hc hne with hle | hle <;> omega

lemma Tiling.eq_of_start (h : Tiling B R) (hb : b ∈ B) (hc : c ∈ B)
    (heq : start b = start c) : b = c :=
  h.eq_of_covers hb hc le_rfl (h.pos b hb) heq.ge (heq ▸ h.pos c hc)

lemma Tiling.region_eq (h : Tiling B R) (hb : b ∈ B) {r' : ρ} (hr : r ∈ R) (hr' : r' ∈ R)
    (hin : start r ≤ start b ∧ stop b ≤ stop r) (hin' : start r' ≤ start b ∧ stop b ≤ stop r') :
    r = r' := by
  by_contra hne
  have := h.pos b hb
  rcases h.regions r hr r' hr' hne with hle | hle <;> omega

/-- A block that has a point in a region lies in it. -/
lemma Tiling.inside_of_point (h : Tiling B R) (hb : b ∈ B) (hr : r ∈ R) (hp : start r ≤ p)
    (hp' : p < stop r) (hpb : start b ≤ p) (hpb' : p < stop b) :
    start r ≤ start b ∧ stop b ≤ stop r := by
  obtain ⟨r', hr', hin⟩ := h.inside b hb
  have heq : r = r' := by
    by_contra hne
    rcases h.regions r hr r' hr' hne with hle | hle <;> omega
  exact heq ▸ hin

/-- Where a region starts, or where a block in it ends, the next block starts. -/
lemma Tiling.exists_start (h : Tiling B R) (hr : r ∈ R) (hp : start r ≤ p) (hp' : p < stop r)
    (hedge : p = start r ∨ ∃ b ∈ B, stop b = p) :
    ∃ b ∈ B, start b = p ∧ stop b ≤ stop r := by
  obtain ⟨c, hc, hcp, hcp'⟩ := h.covered r hr p hp hp'
  have hin := h.inside_of_point hc hr hp hp' hcp hcp'
  refine ⟨c, hc, ?_, hin.2⟩
  rcases hedge with rfl | ⟨b, hb, rfl⟩
  · exact le_antisymm hcp hin.1
  · by_contra hne
    have hpos := h.pos b hb
    have hbc : b ≠ c := by
      rintro rfl
      omega
    rcases h.apart b hb c hc hbc with hle | hle <;> omega

/-! ### Changing a tiling -/

/-- A block is replaced by blocks that tile it. -/
lemma Tiling.replace (h : Tiling B R) (hb : b ∈ B) (hN : Tiles N (start b) (stop b)) :
    Tiling ((B \ {b}) ∪ N) R where
  pos := by
    rintro c (hc | hc)
    · exact h.pos c hc.1
    · exact hN.pos c hc
  apart := by
    -- what is apart from the block is apart from everything in it
    have hmix : ∀ c ∈ B \ {b}, ∀ n ∈ N, Apart c n := by
      rintro c ⟨hc, hcb⟩ n hn
      have := hN.inside n hn
      rcases h.apart c hc b hb hcb with hle | hle
      · exact .inl (hle.trans this.1)
      · exact .inr (this.2.trans hle)
    rintro c (hc | hc) d (hd | hd) hne
    · exact h.apart c hc.1 d hd.1 hne
    · exact hmix c hc d hd
    · exact (hmix d hd c hc).symm
    · exact hN.apart c hc d hd hne
  inside := by
    rintro c (hc | hc)
    · exact h.inside c hc.1
    · obtain ⟨r, hr, hle⟩ := h.inside b hb
      have := hN.inside c hc
      exact ⟨r, hr, hle.1.trans this.1, this.2.trans hle.2⟩
  covered r hr p hp hp' := by
    obtain ⟨c, hc, hcov⟩ := h.covered r hr p hp hp'
    by_cases hcb : c = b
    · subst hcb
      obtain ⟨n, hn, hcov'⟩ := hN.covered p hcov.1 hcov.2
      exact ⟨n, .inr hn, hcov'⟩
    · exact ⟨c, .inl ⟨hc, hcb⟩, hcov⟩
  regions := h.regions

/-- A region is added with blocks that tile it. -/
lemma Tiling.insert (h : Tiling B R) (hN : Tiles N (start r) (stop r))
    (hr : ∀ r' ∈ R, Apart r r') : Tiling (B ∪ N) (insert r R) where
  pos := by
    rintro c (hc | hc)
    · exact h.pos c hc
    · exact hN.pos c hc
  apart := by
    have hmix : ∀ c ∈ B, ∀ n ∈ N, Apart c n := by
      intro c hc n hn
      have := hN.inside n hn
      obtain ⟨r', hr', hin⟩ := h.inside c hc
      rcases hr r' hr' with hle | hle
      · exact .inr (this.2.trans (hle.trans hin.1))
      · exact .inl (hin.2.trans (hle.trans this.1))
    rintro c (hc | hc) d (hd | hd) hne
    · exact h.apart c hc d hd hne
    · exact hmix c hc d hd
    · exact (hmix d hd c hc).symm
    · exact hN.apart c hc d hd hne
  inside := by
    rintro c (hc | hc)
    · obtain ⟨r', hr', hin⟩ := h.inside c hc
      exact ⟨r', .inr hr', hin⟩
    · exact ⟨r, .inl rfl, hN.inside c hc⟩
  covered := by
    rintro r' (rfl | hr') p hp hp'
    · obtain ⟨n, hn, hcov⟩ := hN.covered p hp hp'
      exact ⟨n, .inr hn, hcov⟩
    · obtain ⟨c, hc, hcov⟩ := h.covered r' hr' p hp hp'
      exact ⟨c, .inl hc, hcov⟩
  regions := by
    rintro r' (rfl | hr') r'' (rfl | hr'') hne
    · exact absurd rfl hne
    · exact hr r'' hr''
    · exact (hr r' hr').symm
    · exact h.regions r' hr' r'' hr'' hne

/-- A region is removed with the blocks in it. -/
lemma Tiling.remove (h : Tiling B R) (hr : r ∈ R) :
    Tiling {b | b ∈ B ∧ ¬ (start r ≤ start b ∧ stop b ≤ stop r)} (R \ {r}) where
  pos b hb := h.pos b hb.1
  apart b hb c hc := h.apart b hb.1 c hc.1
  inside b hb := by
    obtain ⟨r', hr', hin⟩ := h.inside b hb.1
    refine ⟨r', ⟨hr', ?_⟩, hin⟩
    rintro rfl
    exact hb.2 hin
  covered r' hr' p hp hp' := by
    obtain ⟨b, hb, hcov⟩ := h.covered r' hr'.1 p hp hp'
    refine ⟨b, ⟨hb, fun hin => hr'.2 ?_⟩, hcov⟩
    exact h.region_eq hb hr'.1 hr (h.inside_of_point hb hr'.1 hp hp' hcov.1 hcov.2) hin
  regions r' hr' r'' hr'' := h.regions r' hr'.1 r'' hr''.1

/-- The blocks of the list `l`, each counted once, partition the regions of the list `R`. -/
structure TilingList (l : List ι) (R : List ρ) : Prop where
  apart : l.Pairwise Apart
  tiling : Tiling {b | b ∈ l} {r | r ∈ R}

variable {l l' : List ι} {R' : List ρ}

lemma Apart.not_mem (h : Apart b r) (hp : start b ≤ p) (hp' : p < stop b) :
    ¬ (start r ≤ p ∧ p < stop r) := by
  rintro ⟨hr, hr'⟩
  rcases h with hle | hle <;> omega

/-- Intervals without a common point are apart. -/
lemma apart_of_disjoint (hb : start b < stop b) (hr : start r < stop r)
    (h : ∀ p, start b ≤ p → p < stop b → ¬ (start r ≤ p ∧ p < stop r)) : Apart b r := by
  by_cases hle : start b ≤ start r
  · have := h (start r) hle
    unfold Apart
    omega
  · have := h (start b) le_rfl hb
    unfold Apart
    omega

lemma tilingList_nil : TilingList ([] : List ι) ([] : List ρ) :=
  ⟨.nil, by simp, by simp, by simp, by simp, by simp⟩

lemma TilingList.perm (h : TilingList l R') (hl : l.Perm l') : TilingList l' R' := by
  have hset : {b | b ∈ l} = {b | b ∈ l'} := Set.ext fun b => hl.mem_iff
  exact ⟨(hl.pairwise_iff Apart.symm).mp h.apart, hset ▸ h.tiling⟩

/-- A block is replaced by its two parts. -/
lemma TilingList.split {d : ι} (h : TilingList (b :: l) R') (hlo : start c = start b)
    (hmid : stop c = start d) (hhi : stop d = stop b) (hc : start c < stop c)
    (hd : start d < stop d) : TilingList (c :: d :: l) R' := by
  obtain ⟨hb, hl⟩ := List.pairwise_cons.mp h.apart
  have hpos := h.tiling.pos b List.mem_cons_self
  have hcl : ∀ x ∈ l, Apart c x ∧ Apart d x := by
    intro x hx
    rcases hb x hx with hle | hle
    · exact ⟨.inl (by omega), .inl (by omega)⟩
    · exact ⟨.inr (by omega), .inr (by omega)⟩
  refine ⟨.cons ?_ (.cons (fun x hx => (hcl x hx).2) hl), ?_⟩
  · intro x hx
    rcases List.mem_cons.mp hx with rfl | hx
    · exact .inl hmid.le
    · exact (hcl x hx).1
  · have hnot : b ∉ l := fun hmem => by
      have := hb b hmem
      rcases this with hle | hle <;> omega
    have hN : Tiles ({c} ∪ {d}) (start b) (stop b) := by
      rw [← hlo, ← hhi]
      exact tiles_union hc.le (hmid.trans_le hd.le) (tiles_singleton hc) (hmid ▸ tiles_singleton hd)
    have hset : {x | x ∈ c :: d :: l} = ({x | x ∈ b :: l} \ {b}) ∪ ({c} ∪ {d}) := by
      ext x
      grind
    exact hset ▸ h.tiling.replace List.mem_cons_self hN

/-- A region is added as a block of its own. -/
lemma TilingList.cons (h : TilingList l R') (hlo : start b = start r) (hhi : stop b = stop r)
    (hb : start b < stop b) (hr : ∀ r' ∈ R', Apart r r') : TilingList (b :: l) (r :: R') := by
  have hN : Tiles {b} (start r) (stop r) := hlo ▸ hhi ▸ tiles_singleton hb
  have ht := h.tiling.insert hN hr
  refine ⟨.cons (fun x hx => ?_) h.apart, ?_⟩
  · obtain ⟨r', hr', hin⟩ := h.tiling.inside x hx
    rcases hr r' hr' with hle | hle
    · exact .inl (by omega)
    · exact .inr (by omega)
  · have hset : {x | x ∈ b :: l} = {x | x ∈ l} ∪ {b} := by
      ext x
      simp
    have hset' : {x | x ∈ r :: R'} = insert r {x | x ∈ R'} := by
      ext x
      simp
    rw [hset, hset']
    exact ht

/-- Blocks that are apart do not take more room than there is. -/
lemma sum_length_le (lo hi : ℕ) (l : List ι) (hpw : l.Pairwise Apart)
    (hin : ∀ b ∈ l, lo ≤ start b ∧ start b ≤ stop b ∧ stop b ≤ hi) :
    (l.map fun b => stop b - start b).sum ≤ hi - lo := by
  -- the points of the blocks form a set of that many elements
  suffices hset : ∃ F : Finset ℕ, F.card = (l.map fun b => stop b - start b).sum ∧
      F ⊆ Finset.Ico lo hi ∧ ∀ p ∈ F, ∃ b ∈ l, start b ≤ p ∧ p < stop b by
    obtain ⟨F, hcard, hsub, -⟩ := hset
    rw [← hcard, ← Nat.card_Ico lo hi]
    exact Finset.card_le_card hsub
  induction l with
  | nil => exact ⟨∅, rfl, by simp, by simp⟩
  | cons b l ih =>
    obtain ⟨hb, hpw⟩ := List.pairwise_cons.mp hpw
    obtain ⟨F, hcard, hsub, hF⟩ := ih hpw fun c hc => hin c (List.mem_cons_of_mem _ hc)
    have hbin := hin b List.mem_cons_self
    have hdisj : Disjoint (Finset.Ico (start b) (stop b)) F := by
      rw [Finset.disjoint_left]
      intro p hp hpF
      obtain ⟨c, hc, hcp⟩ := hF p hpF
      have := Finset.mem_Ico.mp hp
      rcases hb c hc with hle | hle <;> omega
    refine ⟨Finset.Ico (start b) (stop b) ∪ F, ?_, ?_, ?_⟩
    · rw [Finset.card_union_of_disjoint hdisj, hcard, Nat.card_Ico, List.map_cons, List.sum_cons]
    · grind
    grind

end Extent

/-!
## Sorted lists of blocks

Blocks in a list are sorted when each is nonempty and ends where or before the next one starts.
Some of the blocks may be mergeable; then a sorted list is merged when no mergeable block starts
where another one ends. A list is walked with the blocks passed so far kept in reverse order, so
the neighbours of the block in focus stand at the heads of two lists.
-/

namespace Extent

variable {ι : Type*} [Extent ι] {M P : ι → Prop} {l l' before rest new : List ι} {b c x : ι}
  {p lo hi : ℕ}

/-- The block `b` lies in front of `c`, with a gap between them if both are mergeable. -/
def Precedes (M : ι → Prop) (b c : ι) : Prop :=
  stop b ≤ start c ∧ (M b → M c → stop b ≠ start c)

/-- The blocks are nonempty and each lies in front of those behind it. -/
structure Sorted (M : ι → Prop) (l : List ι) : Prop where
  pos : ∀ b ∈ l, start b < stop b
  pairwise : l.Pairwise (Precedes M)

/-- Some block of the kind `P` contains the point. -/
def CoveredBy (P : ι → Prop) (l : List ι) (p : ℕ) : Prop :=
  ∃ b ∈ l, P b ∧ start b ≤ p ∧ p < stop b

lemma Precedes.of_lt (h : stop b < start c) : Precedes M b c := ⟨h.le, fun _ _ => h.ne⟩

/-- Blocks to either side of a nonempty one do not touch. -/
lemma Precedes.trans (h : Precedes M b x) (hx : start x < stop x) (h' : Precedes M x c) :
    Precedes M b c :=
  .of_lt (lt_of_le_of_lt h.1 (lt_of_lt_of_le hx h'.1))

/-- A block that ends at the same place stands to those behind it in the same way. -/
lemma Precedes.congr_left (h : Precedes M b x) (hstop : stop c = stop b) (hM : M c → M b) :
    Precedes M c x :=
  ⟨hstop ▸ h.1, fun hc hx => hstop ▸ h.2 (hM hc) hx⟩

lemma Precedes.congr_right (h : Precedes M b x) (hsta : start c = start x) (hM : M c → M x) :
    Precedes M b c :=
  ⟨hsta ▸ h.1, fun hb hc => hsta ▸ h.2 hb (hM hc)⟩

/-! ### Sorted lists -/

lemma sorted_nil : Sorted M ([] : List ι) := ⟨by simp, .nil⟩

lemma sorted_append : Sorted M (l ++ l') ↔
    Sorted M l ∧ Sorted M l' ∧ ∀ b ∈ l, ∀ c ∈ l', Precedes M b c := by
  constructor
  · rintro ⟨hpos, hpw⟩
    obtain ⟨h, h', hlt⟩ := List.pairwise_append.mp hpw
    exact ⟨⟨fun b hb => hpos b (List.mem_append_left _ hb), h⟩,
      ⟨fun b hb => hpos b (List.mem_append_right _ hb), h'⟩, hlt⟩
  · rintro ⟨⟨hpos, h⟩, ⟨hpos', h'⟩, hlt⟩
    refine ⟨fun b hb => ?_, List.pairwise_append.mpr ⟨h, h', hlt⟩⟩
    grind

lemma sorted_cons : Sorted M (x :: l) ↔
    start x < stop x ∧ (∀ c ∈ l, Precedes M x c) ∧ Sorted M l := by
  constructor
  · rintro ⟨hpos, hpw⟩
    obtain ⟨h, hl⟩ := List.pairwise_cons.mp hpw
    exact ⟨hpos x List.mem_cons_self, h, fun b hb => hpos b (List.mem_cons_of_mem _ hb), hl⟩
  · rintro ⟨hx, h, hpos, hl⟩
    refine ⟨fun b hb => ?_, List.pairwise_cons.mpr ⟨h, hl⟩⟩
    grind

lemma sorted_singleton : Sorted M [x] ↔ start x < stop x := by
  simp [sorted_cons, sorted_nil]

/-- The last block passed stands behind all others that were passed. -/
lemma sorted_reverse_cons : Sorted M (x :: before).reverse ↔
    start x < stop x ∧ (∀ b ∈ before, Precedes M b x) ∧ Sorted M before.reverse := by
  grind [List.reverse_cons, sorted_append, sorted_singleton, List.mem_singleton.mp]

/-- The focus splits a sorted list. -/
lemma sorted_focus : Sorted M (before.reverse ++ x :: rest) ↔
    Sorted M (x :: before).reverse ∧ Sorted M (x :: rest) := by
  rw [sorted_append, sorted_reverse_cons, sorted_cons]
  constructor
  · grind
  · rintro ⟨⟨hx, h, hb⟩, -, hr, hrest⟩
    refine ⟨hb, ⟨hx, hr, hrest⟩, fun b hb' c hc => ?_⟩
    have hbx := h b (List.mem_reverse.mp hb')
    rcases List.mem_cons.mp hc with rfl | hc
    · exact hbx
    · exact hbx.trans hx (hr c hc)

lemma Sorted.append_left (h : Sorted M (l ++ l')) : Sorted M l := (sorted_append.mp h).1

lemma Sorted.append_right (h : Sorted M (l ++ l')) : Sorted M l' := (sorted_append.mp h).2.1

/-- A block is replaced by blocks that lie in it. -/
lemma Sorted.replace (h : Sorted M (l ++ x :: l')) (hnew : Sorted M new)
    (hin : ∀ b ∈ new, start x ≤ start b ∧ stop b ≤ stop x ∧ (M b → M x)) :
    Sorted M (l ++ new ++ l') := by
  obtain ⟨hl, hxl, hlt⟩ := sorted_append.mp h
  obtain ⟨hx, hxr, hl'⟩ := sorted_cons.mp hxl
  rw [sorted_append, sorted_append]
  refine ⟨⟨hl, hnew, fun b hb c hc => ?_⟩, hl', fun b hb c hc => ?_⟩
  · obtain ⟨hle, -, hM⟩ := hin c hc
    obtain ⟨hbx, htou⟩ := hlt b hb x List.mem_cons_self
    refine ⟨hbx.trans hle, fun hMb hMc heq => htou hMb (hM hMc) ?_⟩
    omega
  · rcases List.mem_append.mp hb with hb | hb
    · exact hlt b hb c (List.mem_cons_of_mem _ hc)
    · obtain ⟨-, hle, hM⟩ := hin b hb
      obtain ⟨hxc, htou⟩ := hxr c hc
      refine ⟨hle.trans hxc, fun hMb hMc heq => htou (hM hMb) hMc ?_⟩
      omega

/-- Two blocks of a sorted list are the same or apart. -/
lemma Sorted.eq_or_apart (h : Sorted M l) (hb : b ∈ l) (hc : c ∈ l) : b = c ∨ Apart b c := by
  refine List.Pairwise.forall_of_forall_of_flip (R := fun b c => b = c ∨ Apart b c)
    (fun _ _ => .inl rfl) (h.pairwise.imp fun h => .inr (.inl h.1)) ?_ hb hc
  exact h.pairwise.imp fun h => .inr (.inr h.1)

/-- In a sorted list a point lies in one block at most. -/
lemma Sorted.eq_of_covers (h : Sorted M l) (hb : b ∈ l) (hc : c ∈ l) (hpb : start b ≤ p)
    (hpb' : p < stop b) (hpc : start c ≤ p) (hpc' : p < stop c) : b = c := by
  rcases h.eq_or_apart hb hc with heq | hle | hle
  · exact heq
  · omega
  · omega

/-- Mergeable blocks do not touch. -/
lemma Sorted.not_touch (h : Sorted M l) (hb : b ∈ l) (hc : c ∈ l) (hMb : M b) (hMc : M c) :
    stop b ≠ start c := by
  have hpos := h.pos b hb
  have hpos' := h.pos c hc
  refine List.Pairwise.forall_of_forall_of_flip
    (R := fun b c => start b < stop b → start c < stop c → M b → M c → stop b ≠ start c)
    (fun _ _ _ _ _ _ => by omega) (h.pairwise.imp fun h _ _ => h.2) ?_ hb hc hpos hpos' hMb hMc
  refine h.pairwise.imp fun hbc hb hc _ _ heq => ?_
  have := hbc.1
  omega

@[simp] lemma coveredBy_nil : ¬ CoveredBy P ([] : List ι) p := by simp [CoveredBy]

@[simp] lemma coveredBy_cons :
    CoveredBy P (x :: l) p ↔ P x ∧ start x ≤ p ∧ p < stop x ∨ CoveredBy P l p := by
  simp [CoveredBy]

@[simp] lemma coveredBy_append : CoveredBy P (l ++ l') p ↔ CoveredBy P l p ∨ CoveredBy P l' p := by
  simp [CoveredBy, or_and_right, exists_or]

@[simp] lemma coveredBy_reverse : CoveredBy P l.reverse p ↔ CoveredBy P l p := by
  simp [CoveredBy]

/-- An interval of points that mergeable blocks cover lies in one of them. -/
lemma Sorted.exists_block (h : Sorted M l) (hle : lo ≤ hi)
    (hcov : ∀ p, lo ≤ p → p ≤ hi → CoveredBy M l p) :
    ∃ b ∈ l, M b ∧ start b ≤ lo ∧ hi < stop b := by
  obtain ⟨b, hb, hM, hlo, hlt⟩ := hcov lo le_rfl hle
  refine ⟨b, hb, hM, hlo, ?_⟩
  by_contra hstop
  -- the block that covers the end of this one would touch it
  obtain ⟨c, hc, hMc, hcp, hcp'⟩ := hcov (stop b) hlt.le (Nat.not_lt.mp hstop)
  have hne := h.not_touch hb hc hM hMc
  rcases h.eq_or_apart hb hc with rfl | hap | hap
  · omega
  · omega
  · omega

/-- The points of a block are taken out of a sorted list with it. -/
lemma Sorted.coveredBy_replace (h : Sorted M (l ++ x :: l')) :
    CoveredBy P (l ++ new ++ l') p ↔
      CoveredBy P (l ++ x :: l') p ∧ ¬ (start x ≤ p ∧ p < stop x) ∨ CoveredBy P new p := by
  obtain ⟨-, hxl, hlt⟩ := sorted_append.mp h
  obtain ⟨-, hxr, -⟩ := sorted_cons.mp hxl
  have hl : CoveredBy P l p → ¬ (start x ≤ p ∧ p < stop x) := by
    rintro ⟨b, hb, -, hbp⟩ hxp
    have := (hlt b hb x List.mem_cons_self).1
    omega
  have hl' : CoveredBy P l' p → ¬ (start x ≤ p ∧ p < stop x) := by
    rintro ⟨c, hc, -, hcp⟩ hxp
    have := (hxr c hc).1
    omega
  simp only [coveredBy_append, coveredBy_cons]
  tauto

/-- A sorted list covers a point in front of all its blocks by none of them. -/
lemma not_coveredBy_of_lt (h : ∀ b ∈ l, lo ≤ start b) (hp : p < lo) : ¬ CoveredBy P l p := by
  rintro ⟨b, hb, -, hle, -⟩
  have := h b hb
  omega

lemma not_coveredBy_of_ge (h : ∀ b ∈ l, stop b ≤ hi) (hp : hi ≤ p) : ¬ CoveredBy P l p := by
  rintro ⟨b, hb, -, -, hlt⟩
  have := h b hb
  omega

end Extent
