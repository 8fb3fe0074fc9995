import Edk2.SmmPage.Model
import Edk2.Lib.Tiling

/-!
# The list of free pages

Taking pages from a list of free pages and giving them back keeps the list sorted and merged, and
changes the free pages by just these pages. The sums do not wrap around when the request is for
at least one page and ends below the top of the address space.
-/

namespace Edk2.SmmPage

open Pool (assertThat)
open Extent

variable {l l' before after : List FreePageList} {pages : FreePageList}
  {numberOfPages maxAddress address memory a : ℕ}

instance : Extent FreePageList := ⟨fun p => p.start, fun p => p.start + 4096 * p.numberOfPages⟩

lemma start_freePageList (p : FreePageList) : start p = p.start := rfl

lemma stop_freePageList (p : FreePageList) : stop p = p.start + 4096 * p.numberOfPages := rfl

/-- The run of pages starts at a page other than the first and ends below the top. -/
structure FreePageList.Valid (p : FreePageList) : Prop where
  aligned : p.start % 4096 = 0
  pos : 0 < p.start
  lt_top : p.start + 4096 * p.numberOfPages < 2 ^ 64

/-- A list of free pages: sorted, apart and merged. -/
structure FreeList (l : List FreePageList) : Prop where
  sorted : Sorted (fun _ => True) l
  valid : ∀ p ∈ l, p.Valid

/-- The address lies in a free page. -/
def IsFree (l : List FreePageList) (a : ℕ) : Prop := CoveredBy (fun _ => True) l a

/-- The address lies in the given pages. -/
def InPages (memory numberOfPages a : ℕ) : Prop :=
  memory ≤ a ∧ a < memory + 4096 * numberOfPages

lemma freeList_nil : FreeList [] := ⟨sorted_nil, by simp⟩

lemma FreeList.pages_pos (h : FreeList l) {p : FreePageList} (hp : p ∈ l) :
    0 < p.numberOfPages := by
  have := h.sorted.pos p hp
  rw [start_freePageList, stop_freePageList] at this
  omega

lemma truncateToPages_eq (a : ℕ) : truncateToPages a = a / 4096 := rfl

lemma efiPagesToSize_of_lt {n : ℕ} (h : 4096 * n < 2 ^ 64) : efiPagesToSize n = 4096 * n := by
  unfold efiPagesToSize
  rw [Nat.mul_comm]
  exact u64_of_lt h

lemma add_efiPagesToSize {m n : ℕ} (h : m + 4096 * n < 2 ^ 64) :
    u64 (m + efiPagesToSize n) = m + 4096 * n := by
  rw [efiPagesToSize_of_lt (lt_of_le_of_lt (Nat.le_add_left _ m) h)]
  exact u64_of_lt h

lemma sub64_succ {m n : ℕ} (hn : 0 < n) (h : n ≤ m + 1) (hm : m < 2 ^ 64) :
    sub64 (u64 (m + 1)) n = m + 1 - n := by
  unfold sub64 u64
  omega

/-! ### Taking pages -/

/-- The list `l'` is left when pages are taken from the free pages `l`. -/
structure Taken (l l' : List FreePageList) (memory numberOfPages : ℕ) : Prop where
  freeList : FreeList l'
  isFree_iff : ∀ a, IsFree l' a ↔ IsFree l a ∧ ¬ InPages memory numberOfPages a
  wasFree : ∀ a, InPages memory numberOfPages a → IsFree l a
  aligned : memory % 4096 = 0
  pos : 0 < memory
  lt_top : memory + 4096 * numberOfPages < 2 ^ 64

/-- What lies below and above the pages that are cut out of a node. -/
def cutNode (pages : FreePageList) (bottom top : ℕ) : List FreePageList :=
  (if bottom > 0 then [⟨pages.start, bottom⟩] else []) ++
    (if top < pages.numberOfPages then
      [⟨pages.start + 4096 * top, pages.numberOfPages - top⟩]
    else [])

lemma internalAllocPagesOnOneNode_eq (hp : pages.Valid)
    (hle : numberOfPages ≤ pages.numberOfPages)
    (hmax : pages.start + 4096 * numberOfPages ≤ maxAddress + 1) (hlt : maxAddress < 2 ^ 64) :
    ∃ top, top = min ((maxAddress + 1 - pages.start) / 4096) pages.numberOfPages ∧
      numberOfPages ≤ top ∧
      internalAllocPagesOnOneNode pages numberOfPages maxAddress =
        (cutNode pages (top - numberOfPages) top, pages.start + 4096 * (top - numberOfPages)) := by
  obtain ⟨-, hpos, htop⟩ := hp
  have hsub : sub64 (u64 (maxAddress + 1)) pages.start = maxAddress + 1 - pages.start :=
    sub64_succ hpos (by omega) hlt
  refine ⟨_, rfl, by omega, ?_⟩
  unfold internalAllocPagesOnOneNode cutNode
  simp only [hsub, truncateToPages_eq]
  generalize htop' : min ((maxAddress + 1 - pages.start) / 4096) pages.numberOfPages = top
  have hn : numberOfPages ≤ top := by omega
  have htn : top ≤ pages.numberOfPages := by omega
  have hbot : sub64 top numberOfPages = top - numberOfPages := sub64_of_le hn (by omega)
  have habo : sub64 pages.numberOfPages top = pages.numberOfPages - top :=
    sub64_of_le htn (by omega)
  have hlt₁ : pages.start + 4096 * top < 2 ^ 64 := by omega
  have hlt₂ : pages.start + 4096 * (top - numberOfPages) < 2 ^ 64 := by omega
  rw [hbot, habo, add_efiPagesToSize hlt₁, add_efiPagesToSize hlt₂]

lemma mem_cutNode {p : FreePageList} {bottom top : ℕ} : p ∈ cutNode pages bottom top ↔
    (0 < bottom ∧ p = ⟨pages.start, bottom⟩) ∨ (top < pages.numberOfPages ∧
      p = ⟨pages.start + 4096 * top, pages.numberOfPages - top⟩) := by
  unfold cutNode
  split_ifs with h₁ h₂ h₂ <;> simp [h₁, h₂]

lemma sorted_cutNode {bottom top : ℕ} (hlt : bottom < top) :
    Sorted (fun _ => True) (cutNode pages bottom top) := by
  constructor
  · intro p hp
    rw [start_freePageList, stop_freePageList]
    rcases mem_cutNode.mp hp with ⟨h, rfl⟩ | ⟨h, rfl⟩
    · dsimp only
      omega
    · dsimp only
      omega
  · have hgap : Precedes (fun _ => True) (⟨pages.start, bottom⟩ : FreePageList)
        ⟨pages.start + 4096 * top, pages.numberOfPages - top⟩ := by
      refine .of_lt ?_
      rw [start_freePageList, stop_freePageList]
      dsimp only
      omega
    unfold cutNode
    split_ifs <;> simp [hgap]

lemma taken_of_cutNode {bottom top : ℕ} (h : FreeList (before.reverse ++ pages :: after))
    (hlt : bottom < top) (htop : top ≤ pages.numberOfPages) :
    Taken (before.reverse ++ pages :: after)
      (before.reverse ++ cutNode pages bottom top ++ after)
      (pages.start + 4096 * bottom) (top - bottom) := by
  have hmem : pages ∈ before.reverse ++ pages :: after := by simp
  obtain ⟨hali, hpos, hstop⟩ := h.valid pages hmem
  have hin : ∀ p ∈ cutNode pages bottom top,
      start pages ≤ start p ∧ stop p ≤ stop pages ∧ p.start % 4096 = 0 := by
    intro p hp
    simp only [start_freePageList, stop_freePageList]
    rcases mem_cutNode.mp hp with ⟨-, rfl⟩ | ⟨-, rfl⟩
    · dsimp only
      exact ⟨le_rfl, by omega, hali⟩
    · dsimp only
      exact ⟨by omega, by omega, by omega⟩
  have hcutN : Sorted (fun _ => True) (cutNode pages bottom top) := sorted_cutNode hlt
  have hsor := h.sorted.replace hcutN fun p hp => ⟨(hin p hp).1, (hin p hp).2.1, id⟩
  refine ⟨⟨hsor, fun p hp => ?_⟩, fun a => ?_, fun a ha => ?_, by omega, by omega, by omega⟩
  · rw [List.append_assoc] at hp
    rcases List.mem_append.mp hp with hb | hp
    · exact h.valid p (by simp [List.mem_reverse.mp hb])
    · rcases List.mem_append.mp hp with hc | ha
      · obtain ⟨h₁, h₂, h₃⟩ := hin p hc
        simp only [start_freePageList, stop_freePageList] at h₁ h₂
        exact ⟨h₃, by omega, by omega⟩
      · exact h.valid p (by simp [ha])
  · have hcut : CoveredBy (fun _ => True) (cutNode pages bottom top) a ↔
        (start pages ≤ a ∧ a < stop pages) ∧
          ¬ InPages (pages.start + 4096 * bottom) (top - bottom) a := by
      simp only [CoveredBy, mem_cutNode, start_freePageList, stop_freePageList, InPages]
      constructor
      · grind
      · rintro ⟨hin, hout⟩
        by_cases hlow : a < pages.start + 4096 * bottom
        · exact ⟨_, .inl ⟨by omega, rfl⟩, trivial, hin.1, hlow⟩
        · have hge : pages.start + 4096 * top ≤ a := by omega
          exact ⟨_, .inr ⟨by omega, rfl⟩, trivial, hge, by dsimp only; omega⟩
    have hin : InPages (pages.start + 4096 * bottom) (top - bottom) a →
        start pages ≤ a ∧ a < stop pages := by
      simp only [InPages, start_freePageList, stop_freePageList]
      omega
    have hpag : start pages ≤ a ∧ a < stop pages →
        CoveredBy (fun _ => True) (before.reverse ++ pages :: after) a :=
      fun ha => ⟨pages, hmem, trivial, ha⟩
    unfold IsFree
    rw [h.sorted.coveredBy_replace, hcut]
    tauto
  · refine ⟨pages, hmem, trivial, ?_⟩
    simp only [InPages, start_freePageList, stop_freePageList] at ha ⊢
    omega

lemma taken_of_oneNode (h : FreeList (before.reverse ++ pages :: after)) (hn : 0 < numberOfPages)
    (hle : numberOfPages ≤ pages.numberOfPages)
    (hmax : pages.start + 4096 * numberOfPages ≤ maxAddress + 1) (hlt : maxAddress < 2 ^ 64) :
    ∃ nodes memory, internalAllocPagesOnOneNode pages numberOfPages maxAddress = (nodes, memory) ∧
      memory = pages.start +
        4096 * (min ((maxAddress + 1 - pages.start) / 4096) pages.numberOfPages - numberOfPages) ∧
      Taken (before.reverse ++ pages :: after) (before.reverse ++ nodes ++ after) memory
        numberOfPages := by
  have hp := h.valid pages (by simp)
  obtain ⟨top, htop, hntop, heq⟩ := internalAllocPagesOnOneNode_eq hp hle hmax hlt
  have hlt : top - numberOfPages < top := by omega
  have htak := taken_of_cutNode h hlt (by omega)
  rw [show top - (top - numberOfPages) = numberOfPages by omega] at htak
  exact ⟨_, _, heq, by rw [htop], htak⟩

lemma Taken.ne_sentinel (h : Taken l l' memory numberOfPages) : memory ≠ 2 ^ 64 - 1 := by
  have := h.aligned
  omega

lemma allocMaxAddressLoop_spec (hn : 0 < numberOfPages) (hmax : maxAddress < 2 ^ 64)
    (before after : List FreePageList) (h : FreeList (before.reverse ++ after)) :
    allocMaxAddressLoop numberOfPages maxAddress before after =
        (before.reverse ++ after, 2 ^ 64 - 1) ∨
      ∃ l' memory, allocMaxAddressLoop numberOfPages maxAddress before after = (l', memory) ∧
        Taken (before.reverse ++ after) l' memory numberOfPages := by
  induction before generalizing after with
  | nil => exact .inl rfl
  | cons pages before ih =>
    have hfoc : (pages :: before).reverse ++ after = before.reverse ++ pages :: after := by simp
    rw [hfoc] at h ⊢
    unfold allocMaxAddressLoop
    split_ifs with hfit
    · have hp := (h.valid pages (by simp)).lt_top
      have hend : pages.start + 4096 * numberOfPages < 2 ^ 64 := by omega
      have hone : 1 ≤ pages.start + 4096 * numberOfPages := by omega
      rw [add_efiPagesToSize hend, sub64_of_le hone hend] at hfit
      obtain ⟨hle, hlast⟩ := hfit
      obtain ⟨nodes, memory, heq, -, htak⟩ := taken_of_oneNode h hn hle (by omega) hmax
      rw [heq]
      exact .inr ⟨_, _, rfl, htak⟩
    · exact ih (pages :: after) h

lemma internalAllocMaxAddress_spec (h : FreeList l) (hn : 0 < numberOfPages)
    (hmax : maxAddress < 2 ^ 64) :
    internalAllocMaxAddress l numberOfPages maxAddress = (l, 2 ^ 64 - 1) ∨
      ∃ l' memory, internalAllocMaxAddress l numberOfPages maxAddress = (l', memory) ∧
        Taken l l' memory numberOfPages := by
  have hspec := allocMaxAddressLoop_spec hn hmax l.reverse []
  simp only [List.reverse_reverse, List.append_nil] at hspec
  exact hspec h

lemma allocAddressLoop_spec (hn : 0 < numberOfPages) (hali : address % 4096 = 0)
    (hend : address + 4096 * numberOfPages < 2 ^ 64) (before after : List FreePageList)
    (h : FreeList (before.reverse ++ after)) :
    allocAddressLoop numberOfPages address (address + 4096 * numberOfPages) before after =
        (before.reverse ++ after, 2 ^ 64 - 1 - address) ∨
      ∃ l', allocAddressLoop numberOfPages address (address + 4096 * numberOfPages) before after =
          (l', address) ∧
        Taken (before.reverse ++ after) l' address numberOfPages := by
  induction before generalizing after with
  | nil => exact .inl rfl
  | cons pages before ih =>
    have hfoc : (pages :: before).reverse ++ after = before.reverse ++ pages :: after := by simp
    rw [hfoc] at h ⊢
    obtain ⟨hpa, -, hp⟩ := h.valid pages (by simp)
    unfold allocAddressLoop
    rw [add_efiPagesToSize hp]
    split_ifs with hsta hsho
    · exact .inl rfl
    · have hmax : pages.start + 4096 * numberOfPages ≤ address + 4096 * numberOfPages + 1 := by
        omega
      obtain ⟨nodes, memory, heq, hmem, htak⟩ :=
        taken_of_oneNode h hn (by omega) hmax hend
      -- the node ends at or behind the pages, so they are cut out where they were asked for
      have hadd : memory = address := by omega
      subst hadd
      rw [heq]
      exact .inr ⟨_, rfl, htak⟩
    · exact ih (pages :: after) h

lemma internalAllocAddress_spec (h : FreeList l) (hn : 0 < numberOfPages)
    (hend : address + 4096 * numberOfPages < 2 ^ 64) :
    (∃ memory, memory ≠ address ∧ internalAllocAddress l numberOfPages address = (l, memory)) ∨
      ∃ l', internalAllocAddress l numberOfPages address = (l', address) ∧
        Taken l l' address numberOfPages := by
  have hne : 2 ^ 64 - 1 - address ≠ address := by omega
  unfold internalAllocAddress
  rw [add_efiPagesToSize hend]
  by_cases hali : address % 4096 = 0
  · rw [if_neg (by simpa using hali)]
    have hspec := allocAddressLoop_spec hn hali hend l.reverse []
    simp only [List.reverse_reverse, List.append_nil] at hspec
    rcases hspec h with heq | ⟨l', heq, htak⟩
    · exact .inl ⟨_, hne, heq⟩
    · exact .inr ⟨l', heq, htak⟩
  · rw [if_pos (by simpa using hali)]
    exact .inl ⟨_, hne, rfl⟩

/-! ### Giving pages back -/

/-- The list `l'` is left when pages are added to the free pages `l`. -/
structure Given (l l' : List FreePageList) (memory numberOfPages : ℕ) : Prop where
  freeList : FreeList l'
  isFree_iff : ∀ a, IsFree l' a ↔ IsFree l a ∨ InPages memory numberOfPages a
  notFree : ∀ a, InPages memory numberOfPages a → ¬ IsFree l a

lemma internalMergeNodes_eq {first next : FreePageList} (hf : first.Valid) (hn : next.Valid)
    (hle : stop first ≤ start next) :
    internalMergeNodes first next = .ok (if stop first = start next then
      ([], ⟨first.start, first.numberOfPages + next.numberOfPages⟩) else ([first], next)) := by
  obtain ⟨hfa, hfp, hft⟩ := hf
  obtain ⟨hna, hnp, hnt⟩ := hn
  rw [start_freePageList, stop_freePageList] at hle ⊢
  have hsub : sub64 next.start first.start = next.start - first.start :=
    sub64_of_le (by omega) (by omega)
  have hsum : u64 (first.numberOfPages + next.numberOfPages) =
      first.numberOfPages + next.numberOfPages := u64_of_lt (by omega)
  have hass : (next.start - first.start) / 4096 ≥ first.numberOfPages := by omega
  have hiff : (next.start - first.start) / 4096 = first.numberOfPages ↔
      first.start + 4096 * first.numberOfPages = next.start := by omega
  unfold internalMergeNodes assertThat
  rw [hsub, truncateToPages_eq, hsum]
  simp only [hass, hiff, decide_true, if_true]
  rfl

lemma valid_merge {first next : FreePageList} (hf : first.Valid) (hn : next.Valid)
    (htou : stop first = start next) :
    FreePageList.Valid ⟨first.start, first.numberOfPages + next.numberOfPages⟩ ∧
      stop (⟨first.start, first.numberOfPages + next.numberOfPages⟩ : FreePageList) =
        stop next := by
  have hnt := hn.lt_top
  rw [start_freePageList, stop_freePageList] at htou
  have hstop : stop (⟨first.start, first.numberOfPages + next.numberOfPages⟩ : FreePageList) =
      stop next := by
    rw [stop_freePageList, stop_freePageList]
    dsimp only
    omega
  refine ⟨⟨hf.aligned, hf.pos, ?_⟩, hstop⟩
  rw [stop_freePageList, stop_freePageList] at hstop
  dsimp only at hstop ⊢
  omega

lemma mergeBefore_spec (hp : pages.Valid) (hpos : 0 < pages.numberOfPages)
    (h : FreeList before.reverse) (hle : ∀ b ∈ before, stop b ≤ start pages) :
    ∃ front merged, mergeBefore pages before = .ok (front, merged) ∧
      FreeList (front ++ [merged]) ∧ stop merged = stop pages ∧
      ∀ a, IsFree (front ++ [merged]) a ↔
        IsFree before.reverse a ∨ start pages ≤ a ∧ a < stop pages := by
  have hpos' : start pages < stop pages := by
    rw [start_freePageList, stop_freePageList]
    omega
  cases before with
  | nil =>
    refine ⟨[], pages, rfl, ⟨sorted_singleton.mpr hpos', by simpa using hp⟩, rfl, fun a => ?_⟩
    simp [IsFree]
  | cons previous before =>
    have hpv := h.valid previous (by simp)
    have hprev := hle previous List.mem_cons_self
    obtain ⟨hpp, hpb, hsb⟩ := sorted_reverse_cons.mp h.sorted
    have heq : mergeBefore pages (previous :: before) = .ok (if stop previous = start pages then
        (before.reverse, ⟨previous.start, previous.numberOfPages + pages.numberOfPages⟩)
        else (before.reverse ++ [previous], pages)) := by
      simp only [mergeBefore, internalMergeNodes_eq hpv hp hprev]
      split_ifs
      · simp [bind, Except.bind, pure, Except.pure]
      · simp [bind, Except.bind, pure, Except.pure]
    rw [heq]
    by_cases htou : stop previous = start pages
    · rw [if_pos htou]
      obtain ⟨hval, hstop⟩ := valid_merge hpv hp htou
      have hsta : start (⟨previous.start, previous.numberOfPages + pages.numberOfPages⟩ :
        FreePageList) = start previous := rfl
      refine ⟨_, _, rfl, ⟨?_, fun p hp => ?_⟩, hstop, fun a => ?_⟩
      · rw [← List.reverse_cons, sorted_reverse_cons]
        exact ⟨by omega, fun b hb => (hpb b hb).congr_right hsta id, hsb⟩
      · rcases List.mem_append.mp hp with hp | hp
        · exact h.valid p (by simp [List.mem_reverse.mp hp])
        · exact List.mem_singleton.mp hp ▸ hval
      · grind [IsFree, coveredBy_append, coveredBy_reverse, coveredBy_cons, coveredBy_nil]
    · rw [if_neg htou]
      refine ⟨_, _, rfl, ⟨?_, fun p hp' => ?_⟩, rfl, fun a => ?_⟩
      · rw [← List.reverse_cons, ← List.reverse_cons, sorted_reverse_cons]
        have hlast : Precedes (fun _ => True) previous pages := ⟨hprev, fun _ _ => htou⟩
        refine ⟨hpos', fun b hb => ?_, h.sorted⟩
        rcases List.mem_cons.mp hb with rfl | hb
        · exact hlast
        · exact (hpb b hb).trans hpp hlast
      · rcases List.mem_append.mp hp' with hp' | hp'
        · exact h.valid p (by simpa using hp')
        · exact List.mem_singleton.mp hp' ▸ hp
      · simp [IsFree, or_assoc]

lemma mergeAfter_spec (hp : pages.Valid) (hpos : start pages < stop pages)
    (h : FreeList after) (hle : ∀ c ∈ after, stop pages ≤ start c) :
    ∃ nodes, mergeAfter pages after = .ok nodes ∧ FreeList nodes ∧
      (∀ c ∈ nodes, start c = start pages ∨ stop pages ≤ start c) ∧
      ∀ a, IsFree nodes a ↔ (start pages ≤ a ∧ a < stop pages) ∨ IsFree after a := by
  cases after with
  | nil =>
    refine ⟨[pages], rfl, ⟨sorted_singleton.mpr hpos, by simpa using hp⟩, by simp, fun a => ?_⟩
    simp [IsFree]
  | cons next after =>
    have hnv := h.valid next List.mem_cons_self
    have hnext := hle next List.mem_cons_self
    obtain ⟨hnn, hnc, hsa⟩ := sorted_cons.mp h.sorted
    have heq : mergeAfter pages (next :: after) = .ok (if stop pages = start next then
        ⟨pages.start, pages.numberOfPages + next.numberOfPages⟩ :: after
        else pages :: next :: after) := by
      simp only [mergeAfter, internalMergeNodes_eq hp hnv hnext]
      split_ifs
      · rfl
      · rfl
    rw [heq]
    by_cases htou : stop pages = start next
    · rw [if_pos htou]
      obtain ⟨hval, hstop⟩ := valid_merge hp hnv htou
      have hsta : start (⟨pages.start, pages.numberOfPages + next.numberOfPages⟩ :
        FreePageList) = start pages := rfl
      refine ⟨_, rfl, ⟨?_, fun p hp => ?_⟩, fun c hc => ?_, fun a => ?_⟩
      · rw [sorted_cons]
        exact ⟨by omega, fun c hc => (hnc c hc).congr_left hstop id, hsa⟩
      · rcases List.mem_cons.mp hp with rfl | hp
        · exact hval
        · exact h.valid p (List.mem_cons_of_mem _ hp)
      · grind
      · grind [IsFree, coveredBy_cons]
    · rw [if_neg htou]
      refine ⟨_, rfl, ⟨?_, fun p hp' => ?_⟩, fun c hc => ?_, fun a => ?_⟩
      · rw [sorted_cons]
        have hfst : Precedes (fun _ => True) pages next := ⟨hnext, fun _ _ => htou⟩
        refine ⟨hpos, fun c hc => ?_, h.sorted⟩
        rcases List.mem_cons.mp hc with rfl | hc
        · exact hfst
        · exact hfst.trans hnn (hnc c hc)
      · rcases List.mem_cons.mp hp' with rfl | hp'
        · exact hp
        · exact h.valid p hp'
      · grind
      · simp [IsFree]

lemma FreeList.append_left (h : FreeList (l ++ l')) : FreeList l :=
  ⟨h.sorted.append_left, fun p hp => h.valid p (List.mem_append_left _ hp)⟩

lemma FreeList.append_right (h : FreeList (l ++ l')) : FreeList l' :=
  ⟨h.sorted.append_right, fun p hp => h.valid p (List.mem_append_right _ hp)⟩

lemma given_of_merge (h : FreeList (before.reverse ++ after)) (hn : 0 < numberOfPages)
    (hp : FreePageList.Valid ⟨memory, numberOfPages⟩)
    (hbef : ∀ b ∈ before, stop b ≤ memory)
    (haft : ∀ c ∈ after, memory + 4096 * numberOfPages ≤ start c) :
    ∃ front merged nodes, mergeBefore ⟨memory, numberOfPages⟩ before = .ok (front, merged) ∧
      mergeAfter merged after = .ok nodes ∧
      Given (before.reverse ++ after) (front ++ nodes) memory numberOfPages := by
  obtain ⟨front, merged, hfro, hfl, hstop, hfree⟩ :=
    mergeBefore_spec hp hn h.append_left hbef
  have hmv := hfl.valid merged (by simp)
  obtain ⟨hsf, hsm, hfm⟩ := sorted_append.mp hfl.sorted
  have hmpos := sorted_singleton.mp hsm
  obtain ⟨nodes, hnod, hnl, hnst, hnfr⟩ :=
    mergeAfter_spec hmv hmpos h.append_right fun c hc => hstop ▸ haft c hc
  refine ⟨front, merged, nodes, hfro, hnod, ⟨?_, fun p hp => ?_⟩, fun a => ?_, fun a ha hfre' => ?_⟩
  · refine sorted_append.mpr ⟨hsf, hnl.sorted, fun b hb c hc => ?_⟩
    have hbm := hfm b hb merged (List.mem_singleton_self _)
    rcases hnst c hc with heq | hle
    · exact hbm.congr_right heq fun _ => trivial
    · exact .of_lt (lt_of_le_of_lt hbm.1 (lt_of_lt_of_le hmpos hle))
  · rcases List.mem_append.mp hp with hp | hp
    · exact hfl.valid p (List.mem_append_left _ hp)
    · exact hnl.valid p hp
  · grind [IsFree, coveredBy_append, coveredBy_cons, coveredBy_nil, InPages, start_freePageList,
      stop_freePageList]
  · obtain ⟨b, hb, -, hba⟩ := hfre'
    rcases List.mem_append.mp hb with hb | hb
    · have := hbef b (List.mem_reverse.mp hb)
      unfold InPages at ha
      omega
    · have := haft b hb
      unfold InPages at ha
      omega

end Edk2.SmmPage
