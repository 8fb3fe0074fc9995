import Edk2.Base64.Model

/-!
# What the decoder does

The decoder stores the bytes of a text exactly if the destination is as large as they are: in a
larger one the size is left as it was given, the bytes of the padding are stored as well, and blanks
behind the text let the loop read on behind the source.
-/

namespace Edk2.Base64

variable {body s t source : List UInt8} {c : UInt8} {n k pad value : ℕ}

/-- The text without white space. -/
def solid (s : List UInt8) : List UInt8 := s.filter fun c => !isBlank c

/-- Whole quanta of the alphabet, with at most two `'='` and only at the end. -/
def WellFormed (s : List UInt8) : Prop :=
  ∃ body pad, solid s = body ++ List.replicate pad padding ∧ pad ≤ 2 ∧
    (∀ c ∈ body, c ∈ encodingTable) ∧ 4 ∣ (solid s).length

/-- Three bytes for every four values of six bits. -/
def bytesOf : List ℕ → List UInt8
  | a :: b :: c :: d :: values =>
    let value := ((a * 64 + b) * 64 + c) * 64 + d
    UInt8.ofNat (value / 2 ^ 16) :: UInt8.ofNat (value / 2 ^ 8) :: UInt8.ofNat value ::
      bytesOf values
  | _ => []

/-- The bytes that a text stands for. -/
def decoded (s : List UInt8) : List UInt8 :=
  (bytesOf ((solid s).map decodingValue)).take
    ((solid s).length / 4 * 3 - (solid s).count padding)

set_option maxRecDepth 8000 in
lemma decodingValue_blank : isBlank c = true → decodingValue c = badV := by
  revert c
  apply forall_byte
  decide

set_option maxRecDepth 8000 in
lemma decodingValue_lt : decodingValue c ≠ badV → decodingValue c < 64 := by
  revert c
  apply forall_byte
  decide

set_option maxRecDepth 8000 in
lemma encodingChar_decodingValue :
    decodingValue c ≠ badV → c ≠ padding → encodingChar (decodingValue c) = c := by
  revert c
  apply forall_byte
  decide

lemma encodingChar_mem (h : n < 64) : encodingChar n ∈ encodingTable := by
  revert n
  decide

lemma mem_encodingTable : c ∈ encodingTable ↔ decodingValue c ≠ badV ∧ c ≠ padding := by
  constructor
  · have hall : encodingTable.all (fun c => decide (decodingValue c ≠ badV ∧ c ≠ padding)) := by
      decide
    exact fun hmem => of_decide_eq_true (List.all_eq_true.mp hall c hmem)
  · rintro ⟨hval, hpad⟩
    exact encodingChar_decodingValue hval hpad ▸ encodingChar_mem (decodingValue_lt hval)

lemma decodingValue_padding : decodingValue padding = 0 := rfl

lemma padding_not_mem : padding ∉ encodingTable := by decide

lemma solid_cons_blank (h : isBlank c = true) : solid (c :: s) = solid s := by simp [solid, h]

lemma solid_cons (h : isBlank c = false) : solid (c :: s) = c :: solid s := by simp [solid, h]

lemma foldlM_countChar_solid (st : ℕ × ℤ) :
    s.foldlM countChar st = (solid s).foldlM countChar st := by
  induction s generalizing st with
  | nil => rfl
  | cons c s ih =>
    cases hc : isBlank c with
    | true =>
      have hval := decodingValue_blank hc
      have hpad : c ≠ padding := by
        rintro rfl
        cases hc
      rw [solid_cons_blank hc, ← ih, List.foldlM_cons]
      simp [countChar, hpad, hval, hc]
    | false =>
      rw [solid_cons hc, List.foldlM_cons, List.foldlM_cons]
      exact congrArg _ (funext ih)

/-- What is counted behind `k` paddings. -/
lemma foldlM_countChar {r : ℕ × ℤ} (ht : ∀ c ∈ t, isBlank c = false) :
    t.foldlM countChar (n, -(k : ℤ)) = some r ↔ ∃ body pad, t = body ++ List.replicate pad padding ∧
      (∀ c ∈ body, c ∈ encodingTable) ∧ (k ≠ 0 → body = []) ∧ (k + pad ≤ 2 ∨ pad = 0) ∧
      r = (n + t.length, -((k + pad : ℕ) : ℤ)) := by
  induction t generalizing n k with
  | nil =>
    simp only [List.foldlM_nil, pure, Option.some.injEq, List.length_nil, Nat.add_zero]
    constructor
    · rintro rfl
      exact ⟨[], 0, rfl, by simp, by simp, .inr rfl, rfl⟩
    · rintro ⟨body, pad, heq, -, -, -, rfl⟩
      have hpad := congrArg List.length heq
      simp only [List.length_nil, List.length_append, List.length_replicate] at hpad
      simp [show pad = 0 by omega]
  | cons c t ih =>
    have hrest := fun d hd => ht d (List.mem_cons_of_mem c hd)
    have hbl := ht c List.mem_cons_self
    rw [List.foldlM_cons]
    by_cases hpad : c = padding
    · subst hpad
      -- no character of the alphabet may follow
      have hbody : ∀ {body pad}, padding :: t = body ++ List.replicate pad padding →
          (∀ c ∈ body, c ∈ encodingTable) → body = [] ∧ ∃ p, pad = p + 1 ∧
            t = List.replicate p padding := by
        intro body pad heq hmem
        cases body with
        | nil =>
          cases pad with
          | zero => cases heq
          | succ p => exact ⟨rfl, p, rfl, (List.cons.inj heq).2⟩
        | cons d body =>
          obtain ⟨rfl, -⟩ := List.cons.inj heq
          exact absurd (hmem _ List.mem_cons_self) padding_not_mem
      simp only [countChar, if_true]
      split_ifs with hlow
      · refine iff_of_false (by simp) ?_
        rintro ⟨body, pad, heq, hmem, -, hle, -⟩
        obtain ⟨-, p, rfl, -⟩ := hbody heq hmem
        omega
      · rw [show (-(k : ℤ) - 1) = -((k + 1 : ℕ) : ℤ) by omega]
        refine (ih hrest).trans ?_
        constructor
        · rintro ⟨body, pad, rfl, hmem, hnil, hle, rfl⟩
          rw [hnil (by omega)]
          refine ⟨[], pad + 1, rfl, by simp, by simp, .inl (by omega), ?_⟩
          simp only [List.nil_append, List.length_cons, List.length_replicate]
          exact Prod.ext (by omega) (by omega)
        · rintro ⟨body, pad, heq, hmem, -, hle, rfl⟩
          obtain ⟨rfl, p, rfl, rfl⟩ := hbody heq hmem
          refine ⟨[], p, rfl, by simp, by simp, by omega, ?_⟩
          simp only [List.length_cons]
          exact Prod.ext (by omega) (by omega)
    · by_cases hbad : decodingValue c = badV
      · have hnone : countChar (n, -(k : ℤ)) c = none := by simp [countChar, hpad, hbad, hbl]
        rw [hnone]
        refine iff_of_false (by simp) ?_
        rintro ⟨body, pad, heq, hmem, -⟩
        cases body with
        | nil =>
          have hc : c ∈ List.replicate pad padding := by
            rw [List.nil_append] at heq
            exact heq ▸ List.mem_cons_self
          exact hpad (List.eq_of_mem_replicate hc)
        | cons d body =>
          obtain ⟨rfl, -⟩ := List.cons.inj heq
          exact (mem_encodingTable.mp (hmem _ List.mem_cons_self)).1 hbad
      · have hmem : c ∈ encodingTable := mem_encodingTable.mpr ⟨hbad, hpad⟩
        simp only [countChar, if_neg hpad, ne_eq, Ne.symm hbad, not_false_eq_true, if_true]
        split_ifs with hneg
        · refine iff_of_false (by simp) ?_
          rintro ⟨body, pad, heq, -, hnil, -⟩
          rw [hnil (by omega), List.nil_append] at heq
          exact hpad (List.eq_of_mem_replicate (heq ▸ List.mem_cons_self))
        · obtain rfl : k = 0 := by omega
          refine (ih hrest).trans ?_
          constructor
          · rintro ⟨body, pad, rfl, hbody, -, hle, rfl⟩
            refine ⟨c :: body, pad, rfl, ?_, by simp, hle, ?_⟩
            · simpa using ⟨hmem, hbody⟩
            · simp only [List.length_cons]
              exact Prod.ext (by omega) rfl
          · rintro ⟨body, pad, heq, hbody, -, hle, rfl⟩
            cases body with
            | nil =>
              rw [List.nil_append] at heq
              exact absurd (List.eq_of_mem_replicate (heq ▸ List.mem_cons_self)) hpad
            | cons d body =>
              obtain ⟨rfl, rfl⟩ := List.cons.inj heq
              refine ⟨body, pad, rfl, fun e he => hbody e (List.mem_cons_of_mem _ he), by simp,
                hle, ?_⟩
              simp only [List.length_cons]
              exact Prod.ext (by omega) rfl

lemma isBlank_of_mem_solid (h : c ∈ solid s) : isBlank c = false := by
  simpa using (List.mem_filter.mp h).2

lemma count_padding (hbody : ∀ c ∈ body, c ∈ encodingTable) :
    (body ++ List.replicate pad padding).count padding = pad := by
  rw [List.count_append, List.count_replicate_self, List.count_eq_zero_of_not_mem, Nat.zero_add]
  exact fun h => padding_not_mem (hbody _ h)

/-- The first loop accepts a text exactly if only the number of its characters may be wrong. -/
lemma count_text {r : ℕ × ℤ} : s.foldlM countChar (0, 0) = some r ↔
    (∃ body pad, solid s = body ++ List.replicate pad padding ∧ pad ≤ 2 ∧
      ∀ c ∈ body, c ∈ encodingTable) ∧
    r = ((solid s).length, -((solid s).count padding : ℤ)) := by
  rw [foldlM_countChar_solid]
  refine (foldlM_countChar (k := 0) fun c => isBlank_of_mem_solid).trans ?_
  constructor
  · rintro ⟨body, pad, heq, hbody, -, hle, rfl⟩
    refine ⟨⟨body, pad, heq, by omega, hbody⟩, ?_⟩
    rw [heq, count_padding hbody, Nat.zero_add, Nat.zero_add]
  · rintro ⟨⟨body, pad, heq, hle, hbody⟩, rfl⟩
    refine ⟨body, pad, heq, hbody, by simp, .inl (by omega), ?_⟩
    rw [heq, count_padding hbody, Nat.zero_add, Nat.zero_add]

lemma readChar_solid (hs : solid source = c :: t) (hval : decodingValue c ≠ badV) :
    ∃ source', readChar source = some (decodingValue c, source') ∧ solid source' = t ∧
      source'.length < source.length := by
  induction source with
  | nil => cases hs
  | cons d source ih =>
    cases hd : isBlank d with
    | true =>
      rw [solid_cons_blank hd] at hs
      obtain ⟨source', hrun, hs', hlen⟩ := ih hs
      refine ⟨source', ?_, hs', Nat.lt_succ_of_lt hlen⟩
      rw [readChar, if_pos (decodingValue_blank hd), hrun]
    | false =>
      rw [solid_cons hd] at hs
      obtain ⟨rfl, rfl⟩ := List.cons.inj hs
      exact ⟨source, by rw [readChar, if_neg hval], rfl, Nat.lt_succ_self _⟩

/-- The value of characters that are read behind `value`. -/
def valueOf (value : ℕ) (t : List UInt8) : ℕ :=
  t.foldl (fun v c => v * 64 + decodingValue c) value

lemma readValue_solid {q : List UInt8} (hs : solid source = q ++ t)
    (hval : ∀ c ∈ q, decodingValue c ≠ badV) :
    ∃ source', readValue q.length value source = some (valueOf value q, source') ∧
      solid source' = t ∧ source'.length + q.length ≤ source.length := by
  induction q generalizing source value with
  | nil => exact ⟨source, rfl, hs, Nat.le_refl _⟩
  | cons c q ih =>
    have hc := hval c List.mem_cons_self
    obtain ⟨source₁, hrun₁, hs₁, hlen₁⟩ := readChar_solid hs hc
    obtain ⟨source₂, hrun₂, hs₂, hlen₂⟩ :=
      @ih source₁ ((value <<< 6) ||| decodingValue c) hs₁
        fun d hd => hval d (List.mem_cons_of_mem c hd)
    refine ⟨source₂, ?_, hs₂, ?_⟩
    · have hor : (value <<< 6) ||| decodingValue c = value * 64 + decodingValue c := by
        rw [← Nat.shiftLeft_add_eq_or_of_lt (decodingValue_lt hc), Nat.shiftLeft_eq]
      rw [List.length_cons, readValue, hrun₁]
      dsimp only
      rw [hrun₂, hor]
      rfl
    · rw [List.length_cons]
      omega

/-- Where the destination ends with the last byte of the text, the loop stores all of it. -/
lemma decodeLoop_exact {size fuel index q : ℕ} (hs : solid source = t)
    (hval : ∀ c ∈ t, decodingValue c ≠ badV) (hlen : t.length = 4 * q) (hpad : pad ≤ 2)
    (hnil : q = 0 → pad = 0) (hsize : size + pad = index + 3 * q) (hfuel : source.length < fuel) :
    decodeLoop size fuel source index =
      .ok ((bytesOf (t.map decodingValue)).take (3 * q - pad)) := by
  induction q generalizing source t fuel index with
  | zero =>
    obtain rfl := List.eq_nil_of_length_eq_zero hlen
    obtain ⟨fuel, rfl⟩ := Nat.exists_eq_add_of_lt hfuel
    rw [decodeLoop, if_neg (by have := hnil rfl; omega)]
    simp [bytesOf]
  | succ q ih =>
    obtain ⟨c₁, c₂, c₃, c₄, t, rfl⟩ : ∃ c₁ c₂ c₃ c₄ t', t = c₁ :: c₂ :: c₃ :: c₄ :: t' := by
      rcases t with _ | ⟨c₁, _ | ⟨c₂, _ | ⟨c₃, _ | ⟨c₄, t⟩⟩⟩⟩ <;>
        simp only [List.length_cons, List.length_nil] at hlen <;> try omega
      exact ⟨c₁, c₂, c₃, c₄, t, rfl⟩
    obtain ⟨source', hrun, hs', hlt⟩ :=
      @readValue_solid t source 0 [c₁, c₂, c₃, c₄] hs fun c hc =>
        hval c (List.mem_append_left t hc)
    simp only [List.length_cons, List.length_nil, Nat.zero_add] at hlen hrun hlt
    have hne : source ≠ [] := by
      rintro rfl
      cases hs
    obtain ⟨fuel, rfl⟩ : ∃ f, fuel = f + 1 := ⟨fuel - 1, by omega⟩
    rw [decodeLoop, if_pos ⟨hne, by omega⟩, hrun]
    dsimp only
    have hval' : ∀ c ∈ t, decodingValue c ≠ badV := fun c hc => hval c (by simp [hc])
    have hbytes : (bytesOf ((c₁ :: c₂ :: c₃ :: c₄ :: t).map decodingValue)) =
        UInt8.ofNat (valueOf 0 [c₁, c₂, c₃, c₄] >>> 16) ::
          UInt8.ofNat (valueOf 0 [c₁, c₂, c₃, c₄] >>> 8) ::
          UInt8.ofNat (valueOf 0 [c₁, c₂, c₃, c₄]) :: bytesOf (t.map decodingValue) := by
      simp [bytesOf, valueOf, Nat.shiftRight_eq_div_pow]
    rw [hbytes]
    rcases Nat.eq_zero_or_pos q with rfl | hq
    · -- the last quantum
      obtain rfl := List.eq_nil_of_length_eq_zero (by omega : t.length = 0)
      have hend : decodeLoop size fuel source' (index + 3) = .ok [] := by
        obtain ⟨fuel, rfl⟩ : ∃ f, fuel = f + 1 := ⟨fuel - 1, by omega⟩
        rw [decodeLoop, if_neg (by omega)]
      rw [hend]
      obtain rfl | rfl | rfl : pad = 0 ∨ pad = 1 ∨ pad = 2 := by omega
      · simp [Except.map, bytesOf, show index + 1 < size by omega, show index + 2 < size by omega]
      · simp [Except.map, bytesOf, show index + 1 < size by omega, show ¬ index + 2 < size by omega]
      · simp [Except.map, bytesOf, show ¬ index + 1 < size by omega,
          show ¬ index + 2 < size by omega]
    · rw [ih hs' hval' (by omega) (fun h => by omega) (by omega) (by omega),
        if_pos (by omega), if_pos (by omega),
        show 3 * (q + 1) - pad = (3 * q - pad) + 1 + 1 + 1 by omega]
      rfl

end Edk2.Base64
