import Edk2.Gcd.Map

/-!
# Rewriting a range of a tiled GCD map

The split and rewrite loop cuts the covered run at both ends of the range, rewrites the clipped
entries in order, and the cleanup joins equal neighbours. Over the addresses the effect is that
of rewriting the fields of the covered entries inside the range and nothing else.
-/

namespace Edk2.Gcd

open Segment

/-- What remains of an entry below an address. -/
def below (b : ℕ) (e : GcdMapEntry) : List GcdMapEntry :=
  if e.baseAddress < b then [{ e with endAddress := b - 1 }] else []

/-- What remains of an entry above an address. -/
def above (lim : ℕ) (e : GcdMapEntry) : List GcdMapEntry :=
  if lim < e.endAddress then [{ e with baseAddress := lim + 1 }] else []

/-- The part of an entry inside the range. -/
def clip (b lim : ℕ) (e : GcdMapEntry) : GcdMapEntry :=
  { e with baseAddress := max b e.baseAddress, endAddress := min lim e.endAddress }

/-- Rewrite entries in order, threading `Attributes`. -/
def updateRun (u : Update) : BitVec 64 → List GcdMapEntry → List GcdMapEntry
  | _, [] => []
  | w, e :: l =>
    { e with toGcdFields := (u w e.toGcdFields).2 } ::
      updateRun u (u w e.toGcdFields).1 l

/-- The value of `Attributes` when the entry that contains `a` is rewritten. -/
def attributesAt (u : Update) : BitVec 64 → List GcdMapEntry → ℕ → BitVec 64
  | w, [], _ => w
  | w, e :: l, a =>
    if Contains e a then w
    else attributesAt u (u w e.toGcdFields).1 l a

variable {u : Update} {s t m b n lim : ℕ} {w : BitVec 64}
  {e : GcdMapEntry} {l map pre mid post : List GcdMapEntry} {p : PadEntries}

lemma coreInsertGcdMapEntry_ok (hlen : 0 < n) (hwrap : b + n ≤ 2 ^ 64)
    (hend : e.endAddress < 2 ^ 64)
    (hbot : e.baseAddress < b → p.bottomEntry = false)
    (htop : b + n - 1 < e.endAddress → p.topEntry = false) :
    ∃ p', (b + n - 1 ≥ e.endAddress → p'.topEntry = p.topEntry) ∧
      coreInsertGcdMapEntry b n p e =
        .ok { bottom := below b e, entry := clip b (b + n - 1) e,
              top := above (b + n - 1) e, pads := p' } := by
  have hran : rangeEnd b n = b + n - 1 := u64_of_lt (by omega)
  unfold coreInsertGcdMapEntry insertBottom
  by_cases h₁ : e.baseAddress < b <;> by_cases h₂ : b + n - 1 < e.endAddress
  · grind [u64_of_lt, Except.bind, insertTop, below, above, clip, Nat.max_eq_left, Nat.min_eq_left]
  · grind [Except.bind, insertTop, below, above, clip, Nat.max_eq_left, Nat.min_eq_right]
  · grind [u64_of_lt, Except.bind, insertTop, below, above, clip, Nat.max_eq_right, Nat.min_eq_left]
  · refine ⟨p, fun _ => rfl, ?_⟩
    have h₁' : b ≤ e.baseAddress := by omega
    have h₂' : e.endAddress ≤ b + n - 1 := by omega
    simp [Except.bind, insertTop, h₁, h₂, hran, below, above, clip, Nat.max_eq_right h₁',
      Nat.min_eq_right h₂']

lemma updateLoop_inside (hlen : 0 < n) (hwrap : b + n ≤ 2 ^ 64) (ht : t ≤ 2 ^ 64)
    (h : Tiles s l t) (hs : b ≤ s) (hne : l ≠ [])
    (hlast : ∀ f ∈ l.getLast?, Contains f (b + n - 1)) {k : ℕ} (hfuel : l.length ≤ k)
    (hpads : p.topEntry = false) :
    updateLoop u b n k p w l =
      .ok { bottom := [], run := updateRun u w (l.map (clip b (b + n - 1))),
            top := l.getLast?.elim [] (above (b + n - 1)) } := by
  induction l generalizing s k p w with
  | nil => exact absurd rfl hne
  | cons e l ih =>
    obtain ⟨hlo, hle, h⟩ := h
    simp only [lo_entry, hi_entry] at hlo hle h
    have hlt := h.le
    obtain ⟨k, rfl⟩ := Nat.exists_eq_add_one_of_ne_zero (n := k) (by
      simp only [List.length_cons] at hfuel
      omega)
    have hbel : below b e = [] := by simp [below]; omega
    cases l with
    | nil =>
      have hlim := hlast e (by simp)
      rw [contains_iff] at hlim
      obtain ⟨p', -, hins⟩ := coreInsertGcdMapEntry_ok (p := p) (e := e) hlen hwrap
        (by simp only [tiles_nil] at h; omega) (by omega) (fun _ => hpads)
      simp [updateLoop, hins, hbel, Except.bind, updateRun]
    | cons f l =>
      -- the end of the range lies in a later entry, so this one is not cut above
      have hlim : e.endAddress < b + n - 1 := by
        obtain ⟨g, hg⟩ := Option.isSome_iff_exists.mp (List.getLast?_isSome.mpr
          (List.cons_ne_nil f l))
        have hgl := h.bounds g (List.mem_of_getLast? hg)
        have hcg := hlast g (by rw [List.getLast?_cons_cons]; exact hg)
        simp only [contains_iff, lo_entry] at hcg hgl
        omega
      have habo : above (b + n - 1) e = [] := by simp [above]; omega
      have hft := h.2.2.le
      have hfe := h.2.1
      obtain ⟨p', hp, hins⟩ := coreInsertGcdMapEntry_ok (p := p) (e := e) hlen hwrap
        (by omega) (by omega) (fun _ => hpads)
      have hrec := ih (w := (u w (clip b (b + n - 1) e).toGcdFields).1)
        (p := p') (k := k) h (by omega) (List.cons_ne_nil f l)
        (by rwa [List.getLast?_cons_cons] at hlast)
        (by simp only [List.length_cons] at hfuel ⊢; omega) ((hp (by omega)).trans hpads)
      simp only [updateLoop, hins, Except.bind, habo, hbel, List.nil_append, hrec]
      simp [updateRun, List.getLast?_cons_cons]

lemma updateLoop_covered (hlen : 0 < n) (hwrap : b + n ≤ 2 ^ 64) (ht : t ≤ 2 ^ 64)
    (h : Tiles s mid t) (hne : mid ≠ []) (hfst : ∀ f ∈ mid.head?, Contains f b)
    (hlast : ∀ f ∈ mid.getLast?, Contains f (b + n - 1)) :
    updateLoop u b n (mid.length + 1) {} w mid =
      .ok { bottom := mid.head?.elim [] (below b)
            run := updateRun u w (mid.map (clip b (b + n - 1)))
            top := mid.getLast?.elim [] (above (b + n - 1)) } := by
  cases mid with
  | nil => exact absurd rfl hne
  | cons e l =>
    have hb := hfst e (by simp)
    obtain ⟨hlo, hle, h⟩ := h
    simp only [lo_entry, hi_entry, contains_iff] at hlo hle h hb
    have hlt := h.le
    cases l with
    | nil =>
      have hlim := hlast e (by simp)
      rw [contains_iff] at hlim
      obtain ⟨p', -, hins⟩ := coreInsertGcdMapEntry_ok (p := {}) (e := e) hlen hwrap
        (by simp only [tiles_nil] at h; omega) (fun _ => rfl) (fun _ => rfl)
      simp [updateLoop, hins, Except.bind, updateRun]
    | cons f l =>
      have hlim : e.endAddress < b + n - 1 := by
        obtain ⟨g, hg⟩ := Option.isSome_iff_exists.mp (List.getLast?_isSome.mpr
          (List.cons_ne_nil f l))
        have hgl := h.bounds g (List.mem_of_getLast? hg)
        have hcg := hlast g (by rw [List.getLast?_cons_cons]; exact hg)
        simp only [contains_iff, lo_entry] at hcg hgl
        omega
      have habo : above (b + n - 1) e = [] := by simp [above]; omega
      have hft := h.2.2.le
      have hfe := h.2.1
      obtain ⟨p', hp, hins⟩ := coreInsertGcdMapEntry_ok (p := {}) (e := e) hlen hwrap
        (by omega) (fun _ => rfl) (fun _ => rfl)
      have hrec := updateLoop_inside (u := u)
        (w := (u w (clip b (b + n - 1) e).toGcdFields).1)
        (p := p') (k := (f :: l).length + 1) hlen hwrap ht h (by omega)
        (List.cons_ne_nil f l) (by rwa [List.getLast?_cons_cons] at hlast) (by omega) (hp (by omega))
      grind [updateLoop, Except.bind, List.length_cons, updateRun, List.getLast?_cons_cons]

lemma tiles_clip_aux (hb : b ≤ s) (hs : s ≤ lim) (ht : lim < t) (h : Tiles s l t)
    (hlast : ∀ f ∈ l.getLast?, Contains f lim) : Tiles s (l.map (clip b lim)) (lim + 1) := by
  induction l generalizing s with
  | nil =>
    simp only [tiles_nil] at h
    omega
  | cons e l ih =>
    obtain ⟨hlo, hle, h⟩ := h
    simp only [lo_entry, hi_entry] at hlo hle h
    simp only [List.map_cons, tiles_cons, lo_entry, hi_entry, clip]
    cases l with
    | nil =>
      grind [contains_iff, tiles_nil]
    | cons f l =>
      have hfl : ∀ g ∈ (f :: l).getLast?, Contains g lim := by
        rwa [List.getLast?_cons_cons] at hlast
      have hlim : e.endAddress < lim := by
        obtain ⟨g, hg⟩ := Option.isSome_iff_exists.mp (List.getLast?_isSome.mpr
          (List.cons_ne_nil f l))
        have hgl := h.bounds g (List.mem_of_getLast? hg)
        have hcg := hfl g hg
        simp only [contains_iff, lo_entry] at hcg hgl
        omega
      grind

lemma tiles_clip (h : Tiles s mid t) (hbl : b ≤ lim) (ht : lim < t) (hne : mid ≠ [])
    (hfst : ∀ f ∈ mid.head?, Contains f b) (hlast : ∀ f ∈ mid.getLast?, Contains f lim) :
    Tiles b (mid.map (clip b lim)) (lim + 1) := by
  cases mid with
  | nil => exact absurd rfl hne
  | cons e l =>
    have hb := hfst e (by simp)
    -- clipping below the base does not see the part of the first entry that is cut off
    have h' : Tiles b ({ e with baseAddress := b } :: l) t := by
      obtain ⟨-, -, h⟩ := h
      exact ⟨rfl, hb.2, h⟩
    have hcl := tiles_clip_aux (le_refl b) hbl ht h' (by
      cases l with
      | nil =>
        have := hlast e (by simp)
        intro f hf
        simp only [List.getLast?_singleton, Option.mem_some_iff] at hf
        subst hf
        exact ⟨hbl, this.2⟩
      | cons f l => rwa [List.getLast?_cons_cons] at hlast ⊢)
    grind [contains_iff, clip, Nat.max_eq_left]

@[simp] lemma clip_toGcdFields (e : GcdMapEntry) : (clip b lim e).toGcdFields = e.toGcdFields := rfl

lemma contains_clip {a : ℕ} (hb : b ≤ a) (hl : a ≤ lim) :
    Contains (clip b lim e) a ↔ Contains e a := by
  simp only [contains_iff, clip]
  omega

lemma tiles_updateRun : Tiles s (updateRun u w l) t ↔ Tiles s l t := by
  induction l generalizing s w with
  | nil => rfl
  | cons e l ih => simp only [updateRun, tiles_cons, lo_entry, hi_entry, ih]

lemma labelAt_updateRun (a : ℕ) :
    labelAt (updateRun u w l) a = (labelAt l a).map fun f => (u (attributesAt u w l a) f).2 := by
  induction l generalizing w with
  | nil => rfl
  | cons e l ih =>
    rw [updateRun, labelAt_cons, labelAt_cons, attributesAt]
    by_cases h : Contains e a
    · have h' : Contains { e with toGcdFields := (u w e.toGcdFields).2 } a := h
      rw [if_pos h, if_pos h', if_pos h]
      rfl
    · have h' : ¬ Contains { e with toGcdFields := (u w e.toGcdFields).2 } a := h
      rw [if_neg h, if_neg h', if_neg h, ih]

lemma labelAt_clip {a : ℕ} (hb : b ≤ a) (hl : a ≤ lim) :
    labelAt (l.map (clip b lim)) a = labelAt l a := by
  induction l with
  | nil => rfl
  | cons e l ih =>
    simp only [List.map_cons, labelAt_cons, contains_clip hb hl, label_entry, clip_toGcdFields, ih]

lemma attributesAt_clip {a : ℕ} (hb : b ≤ a) (hl : a ≤ lim) :
    attributesAt u w (l.map (clip b lim)) a = attributesAt u w l a := by
  induction l generalizing w with
  | nil => rfl
  | cons e l ih =>
    simp only [List.map_cons, attributesAt, contains_clip hb hl, clip_toGcdFields, ih]

lemma mergeBackward_pos {d : GcdMapEntry} {before : List GcdMapEntry}
    (h : e.toGcdFields = d.toGcdFields) :
    mergeBackward (d :: before) e = (before, { e with baseAddress := d.baseAddress }) := if_pos h

lemma mergeBackward_neg {d : GcdMapEntry} {before : List GcdMapEntry}
    (h : e.toGcdFields ≠ d.toGcdFields) :
    mergeBackward (d :: before) e = (d :: before, e) := if_neg h

lemma mergeForward_pos {d : GcdMapEntry} {after : List GcdMapEntry}
    (h : e.toGcdFields = d.toGcdFields) :
    mergeForward e (d :: after) = { e with endAddress := d.endAddress } :: after := if_pos h

lemma mergeForward_neg {d : GcdMapEntry} {after : List GcdMapEntry}
    (h : e.toGcdFields ≠ d.toGcdFields) :
    mergeForward e (d :: after) = e :: d :: after := if_neg h

lemma coalesced_concat {f : GcdMapEntry} (h : Coalesced (l ++ [e]))
    (hf : f.toGcdFields = e.toGcdFields) : Coalesced (l ++ [f]) := by
  unfold Coalesced at h ⊢
  rw [List.isChain_append] at h ⊢
  refine ⟨h.1, List.isChain_singleton _, fun x hx y hy => ?_⟩
  simp only [List.head?_cons, Option.mem_some_iff] at hy
  subst hy
  have := h.2.2 x hx e (by simp)
  simpa [hf] using this

lemma coalesced_cons {f : GcdMapEntry} (h : Coalesced (e :: l))
    (hf : f.toGcdFields = e.toGcdFields) : Coalesced (f :: l) := by
  unfold Coalesced at h ⊢
  cases l with
  | nil => exact List.isChain_singleton _
  | cons g l =>
    rw [List.isChain_cons_cons] at h ⊢
    exact ⟨by simpa [hf] using h.1, h.2⟩

/-- A backward merge keeps the tiling and its labels and leaves the list up to the entry
coalesced. -/
lemma mergeBackward_spec {before : List GcdMapEntry} (h : Tiles s (before.reverse ++ [e]) t)
    (hc : Coalesced before.reverse) :
    Tiles s ((mergeBackward before e).1.reverse ++ [(mergeBackward before e).2]) t ∧
      Coalesced ((mergeBackward before e).1.reverse ++ [(mergeBackward before e).2]) ∧
      ∀ a, labelAt ((mergeBackward before e).1.reverse ++ [(mergeBackward before e).2]) a =
        labelAt (before.reverse ++ [e]) a := by
  cases before with
  | nil => exact ⟨h, List.isChain_singleton _, fun _ => rfl⟩
  | cons d before =>
    simp only [List.reverse_cons, List.append_assoc, List.cons_append, List.nil_append] at h hc ⊢
    by_cases hd : e.toGcdFields = d.toGcdFields
    · rw [mergeBackward_pos hd]
      obtain ⟨m, hm, hde⟩ := tiles_append.mp h
      refine ⟨hm.append (hde.join rfl rfl), coalesced_concat hc hd, fun a => ?_⟩
      rw [labelAt_append, labelAt_append]
      exact congrArg _ (hde.labelAt_join (g := { e with baseAddress := d.baseAddress })
        rfl rfl hd rfl a)
    · rw [mergeBackward_neg hd]
      rw [List.reverse_cons, List.append_assoc, List.cons_append, List.nil_append]
      refine ⟨h, ?_, fun _ => rfl⟩
      rw [show before.reverse ++ [d, e] = (before.reverse ++ [d]) ++ [e] by simp]
      unfold Coalesced at hc ⊢
      rw [List.isChain_append]
      refine ⟨hc, List.isChain_singleton _, fun x hx y hy => ?_⟩
      simp only [List.getLast?_append, List.getLast?_singleton, Option.some_or,
        Option.mem_some_iff, List.head?_cons] at hx hy
      subst hx hy
      exact fun heq => hd heq.symm

lemma mergeForward_spec {after : List GcdMapEntry} (h : Tiles s (l ++ e :: after) t)
    (hl : Coalesced (l ++ [e])) (ha : Coalesced after) :
    Tiles s (l ++ mergeForward e after) t ∧ Coalesced (l ++ mergeForward e after) ∧
      ∀ a, labelAt (l ++ mergeForward e after) a = labelAt (l ++ e :: after) a := by
  cases after with
  | nil => exact ⟨h, hl, fun _ => rfl⟩
  | cons d after =>
    by_cases hd : e.toGcdFields = d.toGcdFields
    · rw [mergeForward_pos hd]
      obtain ⟨m, hm, hed⟩ := tiles_append.mp h
      refine ⟨hm.append (hed.join rfl rfl), ?_, fun a => ?_⟩
      · have hl' := coalesced_concat (f := { e with endAddress := d.endAddress }) hl rfl
        have ha' := coalesced_cons (f := { e with endAddress := d.endAddress }) ha hd
        exact List.isChain_split.mpr ⟨hl', ha'⟩
      · rw [labelAt_append, labelAt_append]
        exact congrArg _ (hed.labelAt_join (g := { e with endAddress := d.endAddress })
          rfl rfl rfl hd a)
    · rw [mergeForward_neg hd]
      refine ⟨h, ?_, fun _ => rfl⟩
      unfold Coalesced at hl ha ⊢
      exact List.isChain_split.mpr ⟨hl, List.isChain_cons_cons.mpr ⟨hd, ha⟩⟩

lemma cleanupLoop_spec {before after : List GcdMapEntry} (hne : l ≠ [])
    (h : Tiles s (before.reverse ++ l ++ after) t) (hb : Coalesced before.reverse)
    (ha : Coalesced after) :
    Tiles s (cleanupLoop before l after) t ∧ Coalesced (cleanupLoop before l after) ∧
      ∀ a, labelAt (cleanupLoop before l after) a = labelAt (before.reverse ++ l ++ after) a := by
  induction l generalizing before with
  | nil => exact absurd rfl hne
  | cons e l ih =>
    rw [show before.reverse ++ e :: l ++ after = (before.reverse ++ [e]) ++ (l ++ after) by simp]
      at h ⊢
    obtain ⟨m, hbe, hrest⟩ := tiles_append.mp h
    obtain ⟨ht, hc, hlab⟩ := mergeBackward_spec hbe hb
    have hlab' : ∀ l' a, labelAt ((mergeBackward before e).1.reverse ++
        [(mergeBackward before e).2] ++ l') a = labelAt (before.reverse ++ [e] ++ l') a := by
      intro l' a
      rw [labelAt_append, hlab, ← labelAt_append]
    cases l with
    | nil =>
      simp only [cleanupLoop, List.nil_append] at hrest ⊢
      have htile := ht.append hrest
      rw [List.append_assoc, List.cons_append, List.nil_append] at htile
      obtain ⟨h₁, h₂, h₃⟩ := mergeForward_spec htile hc ha
      grind
    | cons f l =>
      simp only [cleanupLoop]
      have hrev : ((mergeBackward before e).2 :: (mergeBackward before e).1).reverse =
          (mergeBackward before e).1.reverse ++ [(mergeBackward before e).2] := by simp
      have hres' := ht.append hrest
      grind

lemma below_spec (h : Tiles s mid t) (hfst : ∀ f ∈ mid.head?, Contains f b) (hne : mid ≠ []) :
    Tiles s (mid.head?.elim [] (below b)) b ∧
      ∀ a, s ≤ a → a < b → labelAt (mid.head?.elim [] (below b)) a = labelAt mid a := by
  cases mid with
  | nil => exact absurd rfl hne
  | cons e l =>
    have hb := hfst e (by simp)
    have hlo := h.1
    simp only [contains_iff, lo_entry] at hb hlo
    simp only [List.head?_cons, Option.elim_some, below]
    by_cases he : e.baseAddress < b
    · rw [if_pos he]
      refine ⟨⟨hlo, ?_, ?_⟩, fun a ha hab => ?_⟩
      · simp only [hi_entry]
        omega
      · simp only [hi_entry, tiles_nil]
        omega
      · rw [labelAt_cons, if_pos, labelAt_cons, if_pos]
        · rfl
        · rw [contains_iff]
          omega
        · rw [contains_iff]
          simp only
          omega
    grind [tiles_nil]

lemma above_spec (h : Tiles s mid t) (hlast : ∀ f ∈ mid.getLast?, Contains f lim)
    (hne : mid ≠ []) :
    Tiles (lim + 1) (mid.getLast?.elim [] (above lim)) t ∧
      ∀ a, lim < a → a < t → labelAt (mid.getLast?.elim [] (above lim)) a = labelAt mid a := by
  obtain ⟨l, f, rfl⟩ : ∃ l f, mid = l ++ [f] := ⟨_, _, (List.dropLast_append_getLast hne).symm⟩
  have hf := hlast f (by simp)
  obtain ⟨m, -, hlo, hle, hend⟩ := tiles_append.mp h
  simp only [contains_iff, lo_entry, hi_entry, tiles_nil] at hf hlo hle hend
  simp only [List.getLast?_append, List.getLast?_singleton, Option.some_or, Option.elim_some, above]
  by_cases hlt : lim < f.endAddress
  · rw [if_pos hlt]
    refine ⟨⟨rfl, by simp only [hi_entry]; omega, by simpa using hend⟩, fun a ha hat => ?_⟩
    rw [h.labelAt_eq (e := f) (by simp) (by rw [contains_iff]; omega), labelAt_cons, if_pos]
    · rfl
    · rw [contains_iff]
      simp only
      omega
  grind [tiles_nil]

lemma coalesced_below (hc : Coalesced (pre ++ mid ++ post)) :
    Coalesced (pre ++ mid.head?.elim [] (below b)) := by
  have hpm : Coalesced (pre ++ mid) := List.IsChain.left_of_append hc
  cases mid with
  | nil => simpa using hpm
  | cons e l =>
    have hpe : Coalesced (pre ++ [e]) := by
      rw [show pre ++ e :: l = (pre ++ [e]) ++ l by simp] at hpm
      exact List.IsChain.left_of_append hpm
    simp only [List.head?_cons, Option.elim_some, below]
    split_ifs
    · exact coalesced_concat hpe rfl
    · rw [List.append_nil]
      exact List.IsChain.left_of_append hpe

lemma coalesced_above (hc : Coalesced (pre ++ mid ++ post)) :
    Coalesced (mid.getLast?.elim [] (above lim) ++ post) := by
  rcases List.eq_nil_or_concat mid with rfl | ⟨l, f, rfl⟩
  · exact List.IsChain.right_of_append hc
  · have hfp : Coalesced (f :: post) := by
      rw [show pre ++ (l.concat f) ++ post = (pre ++ l) ++ (f :: post) by simp] at hc
      exact List.IsChain.right_of_append hc
    simp only [List.concat_eq_append, List.getLast?_append, List.getLast?_singleton,
      Option.some_or, Option.elim_some, above]
    split_ifs
    · exact coalesced_cons hfp rfl
    · exact List.IsChain.tail hfp

/-- Rewriting a covered range succeeds, keeps the map a coalesced tiling, and changes the fields
exactly at the addresses of the range. -/
theorem rewriteRange_spec (hlen : 0 < n) (hwrap : b + n ≤ 2 ^ 64) (ht : t ≤ 2 ^ 64)
    (h : Tiles 0 map t) (hc : Coalesced map) (hcov : Covers b n map pre mid post) :
    ∃ map', rewriteRange u w b n pre.length (pre.length + mid.length - 1) map = .ok map' ∧
      Tiles 0 map' t ∧ Coalesced map' ∧
      ∀ a, labelAt map' a =
        if b ≤ a ∧ a < b + n then
          (labelAt map a).map fun f => (u (attributesAt u w mid a) f).2
        else labelAt map a := by
  obtain ⟨rfl, hne, hfst, hlast⟩ := hcov
  have hlim : rangeEnd b n = b + n - 1 := u64_of_lt (by omega)
  rw [hlim] at hlast
  obtain ⟨q, hpm, hpost⟩ := tiles_append.mp h
  obtain ⟨p, hpre, hmid⟩ := tiles_append.mp hpm
  have hqt := hpost.le
  have hlq : b + n - 1 < q := by
    obtain ⟨f, hf⟩ := Option.isSome_iff_exists.mp (List.getLast?_isSome.mpr hne)
    have hfb := hmid.bounds f (List.mem_of_getLast? hf)
    have hfc := hlast f hf
    simp only [contains_iff, hi_entry] at hfc hfb
    omega
  have hpb : p ≤ b := by
    obtain ⟨f, hf⟩ := Option.isSome_iff_exists.mp (List.isSome_head?.mpr hne)
    have hfb := hmid.bounds f (List.mem_of_mem_head? hf)
    have hfc := hfst f hf
    simp only [contains_iff, lo_entry] at hfc hfb
    omega
  have hloop := updateLoop_covered (u := u) (w := w) hlen hwrap (by omega : q ≤ 2 ^ 64) hmid hne
    hfst hlast
  obtain ⟨hbt, hbl⟩ := below_spec hmid hfst hne
  obtain ⟨hat, hal⟩ := above_spec hmid hlast hne
  set bot := mid.head?.elim [] (below b)
  set top := mid.getLast?.elim [] (above (b + n - 1))
  set run := updateRun u w (mid.map (clip b (b + n - 1))) with hrund
  have hrun : Tiles b run (b + n - 1 + 1) :=
    tiles_updateRun.mpr (tiles_clip hmid (by omega) hlq hne hfst hlast)
  have hrunn : run ≠ [] := by
    obtain ⟨e, l, rfl⟩ := List.exists_cons_of_ne_nil hne
    simp [hrund, updateRun]
  have hpreb := hpre.append hbt
  have htile : Tiles 0 ((pre ++ bot).reverse.reverse ++ run ++ (top ++ post)) t := by
    rw [List.reverse_reverse]
    exact (hpreb.append hrun).append (hat.append hpost)
  obtain ⟨h₁, h₂, h₃⟩ := cleanupLoop_spec hrunn htile
    (by rw [List.reverse_reverse]; exact coalesced_below hc) (coalesced_above hc)
  refine ⟨_, ?_, h₁, h₂, fun a => ?_⟩
  · grind [rewriteRange, slice_append, Except.bind, coreCleanupGcdMapEntry]
  -- the label of an address, by the part of the map it lies in
  rw [h₃, List.reverse_reverse]
  by_cases hr : b ≤ a ∧ a < b + n
  · rw [if_pos hr, List.append_assoc, hpreb.labelAt_append_right hr.1,
      hrun.labelAt_append_left hr.1 (by omega), labelAt_updateRun,
      labelAt_clip hr.1 (by omega), attributesAt_clip hr.1 (by omega), List.append_assoc,
      hpre.labelAt_append_right (by omega), hmid.labelAt_append_left (by omega) (by omega)]
  · rw [if_neg hr]
    rcases Nat.lt_or_ge a b with hab | hab
    · rw [List.append_assoc, hpreb.labelAt_append_left (Nat.zero_le _) hab, List.append_assoc]
      rcases Nat.lt_or_ge a p with hap | hap
      · simp [hpre.labelAt_append_left (Nat.zero_le _) hap]
      simp [hpre.labelAt_append_right hap, hbl a hap hab, hmid.labelAt_append_left hap (by omega)]
    · rw [(hpreb.append hrun).labelAt_append_right (by omega)]
      rcases Nat.lt_or_ge a q with haq | haq
      · rw [hat.labelAt_append_left (by omega) haq, hal a (by omega) haq,
          hpm.labelAt_append_left (Nat.zero_le _) haq, hpre.labelAt_append_right (by omega)]
      · rw [hat.labelAt_append_right haq, hpm.labelAt_append_right haq]

end Edk2.Gcd
