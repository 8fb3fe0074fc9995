import Edk2.Base64.Decode

/-!
# When the codec is right

A call of the decoder is right exactly if the text is not well formed, is empty, or the destination
is not larger than its bytes; what has been encoded is decoded exactly into a destination of its
length.
-/

namespace Edk2.Base64

variable {s D values : List UInt8} {maxAddress source text destination size textSize : ℕ}
  {place : Option ℕ}

/-- A call of the decoder reads nothing behind the source, stores nothing behind the destination,
and accepts well-formed text only. With room its bytes are stored and counted, else they are
counted. -/
def DecodesRight (s : List UInt8) (destination : Option ℕ) (size : ℕ)
    (call : Except Halt Outcome) : Prop :=
  ∃ r, call = .ok r ∧ r.stored.length ≤ size ∧
    (¬ WellFormed s → r.status = .invalidParameter) ∧
    (WellFormed s → (destination = none ∨ size < (decoded s).length) →
      r.status = .bufferTooSmall ∧ r.destinationSize = some (decoded s).length) ∧
    (WellFormed s → ¬ (destination = none ∨ size < (decoded s).length) →
      r.status = .success ∧ r.stored = decoded s ∧ r.destinationSize = some (decoded s).length)

/-- The text of `D` is decoded to `D`. -/
def RoundTrips (maxAddress source : ℕ) (D : List UInt8) (text textSize destination size : ℕ) :
    Prop :=
  ∃ e r, base64Encode maxAddress (some (source, D)) (some text) (some textSize) = .ok e ∧
    e.status = .success ∧
    base64Decode maxAddress (some (text, e.stored.dropLast)) (some destination) (some size) =
      .ok r ∧
    r.status = .success ∧ r.stored = D ∧ r.destinationSize = some D.length

lemma length_bytesOf {values : List ℕ} {q : ℕ} (h : values.length = 4 * q) :
    (bytesOf values).length = 3 * q := by
  induction q generalizing values with
  | zero => simp [List.eq_nil_of_length_eq_zero h, bytesOf]
  | succ q ih =>
    rcases values with _ | ⟨a, _ | ⟨b, _ | ⟨c, _ | ⟨d, values⟩⟩⟩⟩ <;>
      simp only [List.length_cons, List.length_nil] at h <;> try omega
    simp only [bytesOf, List.length_cons, ih (by omega : values.length = 4 * q)]
    omega

/-- The numbers of characters and paddings in a well-formed text. -/
lemma WellFormed.counts (h : WellFormed s) : ∃ q pad, (solid s).length = 4 * q ∧
    (solid s).count padding = pad ∧ pad ≤ 2 ∧ (q = 0 → pad = 0) ∧
    (∀ c ∈ solid s, decodingValue c ≠ badV) ∧ (decoded s).length = 3 * q - pad ∧
    s.foldlM countChar (0, 0) = some (4 * q, -(pad : ℤ)) := by
  obtain ⟨body, pad, heq, hpad, hbody, q, hq⟩ := h
  have hcount : (solid s).count padding = pad := by rw [heq, count_padding hbody]
  refine ⟨q, pad, hq, hcount, hpad, ?_, ?_, ?_, ?_⟩
  · rintro rfl
    rw [← hcount, List.eq_nil_of_length_eq_zero hq]
    rfl
  · intro c hc
    rw [heq, List.mem_append] at hc
    rcases hc with hc | hc
    · exact (mem_encodingTable.mp (hbody c hc)).1
    · rw [List.eq_of_mem_replicate hc]
      decide
  · have hlen : ((solid s).map decodingValue).length = 4 * q := by rw [List.length_map, hq]
    rw [decoded, List.length_take, length_bytesOf hlen, hq, hcount]
    omega
  · rw [count_text]
    exact ⟨⟨body, pad, heq, hpad, hbody⟩, by rw [hq, hcount]⟩

lemma base64Decode_not_wellFormed (hcall : tooLong maxAddress (source, s) place size = false)
    (h : ¬ WellFormed s) : base64Decode maxAddress (some (source, s)) place (some size) =
      .ok ⟨.invalidParameter, some size, []⟩ := by
  simp only [base64Decode, hcall, Bool.false_eq_true, if_false]
  cases hrun : s.foldlM countChar (0, 0) with
  | none => rfl
  | some r =>
    obtain ⟨⟨body, pad, heq, hpad, hbody⟩, rfl⟩ := count_text.mp hrun
    dsimp only
    rw [if_pos fun hdvd => h ⟨body, pad, heq, hpad, hbody, Nat.dvd_of_mod_eq_zero hdvd⟩]

/-- A text with characters is decoded by the second loop. -/
lemma base64Decode_wellFormed (hcall : tooLong maxAddress (source, s) place size = false)
    (h : WellFormed s) :
    base64Decode maxAddress (some (source, s)) place (some size) =
      if place = none ∨ size < (decoded s).length then
        .ok ⟨.bufferTooSmall, some (decoded s).length, []⟩
      else if solid s = [] then .ok ⟨.success, some 0, []⟩
      else (decodeLoop size (s.length + 1) s 0).map fun stored => ⟨.success, some size, stored⟩ := by
  obtain ⟨q, pad, hq, -, hpad, hnil, -, hlen, hrun⟩ := h.counts
  have hsum : -(pad : ℤ) + ((4 * q / 4 * 3 : ℕ) : ℤ) = ((decoded s).length : ℤ) := by
    rw [hlen]
    omega
  have hempty : solid s = [] ↔ 4 * q = 0 := by rw [← hq, List.length_eq_zero_iff]
  simp only [base64Decode, hcall, Bool.false_eq_true, if_false, hrun, hsum, Int.toNat_natCast,
    Nat.mul_mod_right, ne_eq, not_true, hempty, show ¬ ((decoded s).length : ℤ) < 0 by omega]

lemma base64Decode_exact (hcall : tooLong maxAddress (source, s) place (decoded s).length = false)
    (h : WellFormed s) (hplace : place ≠ none) :
    base64Decode maxAddress (some (source, s)) place (some (decoded s).length) =
      .ok ⟨.success, some (decoded s).length, decoded s⟩ := by
  obtain ⟨q, pad, hq, hcount, hpad, hnil, hval, hlen, -⟩ := h.counts
  rw [base64Decode_wellFormed hcall h, if_neg (by simp [hplace])]
  split_ifs with hempty
  · have hnone : decoded s = [] := by simp [decoded, hempty, bytesOf]
    rw [hnone]
    rfl
  · rw [decodeLoop_exact rfl hval hq hpad hnil (by rw [hlen]; omega) (Nat.lt_succ_self _)]
    rw [decoded, hq, hcount, Nat.mul_div_cancel_left q (by decide), Nat.mul_comm q 3]
    rfl

/-- In a larger destination the size stays as it was given. -/
lemma base64Decode_larger {r : Outcome}
    (hcall : tooLong maxAddress (source, s) place size = false) (h : WellFormed s)
    (hplace : place ≠ none) (hne : solid s ≠ []) (hsize : (decoded s).length ≤ size)
    (hrun : base64Decode maxAddress (some (source, s)) place (some size) = .ok r) :
    r.destinationSize = some size := by
  rw [base64Decode_wellFormed hcall h, if_neg (by simp [hplace, hsize]), if_neg hne] at hrun
  cases hloop : decodeLoop size (s.length + 1) s 0 with
  | error e =>
    rw [hloop] at hrun
    cases hrun
  | ok stored =>
    rw [hloop] at hrun
    cases hrun
    rfl

lemma decodesRight_iff (hcall : tooLong maxAddress (source, s) place size = false) :
    DecodesRight s place size (base64Decode maxAddress (some (source, s)) place (some size)) ↔
      ¬ WellFormed s ∨ solid s = [] ∨ place = none ∨ size ≤ (decoded s).length := by
  by_cases h : WellFormed s
  swap
  · refine iff_of_true ⟨_, base64Decode_not_wellFormed hcall h, ?_⟩ (.inl h)
    simp [h]
  by_cases hroom : place = none ∨ size < (decoded s).length
  · refine iff_of_true ⟨⟨.bufferTooSmall, some (decoded s).length, []⟩, ?_, ?_⟩ ?_
    · rw [base64Decode_wellFormed hcall h, if_pos hroom]
    · simp [h, hroom]
    · exact .inr (.inr (hroom.imp_right Nat.le_of_lt))
  obtain ⟨hplace, hsize⟩ := not_or.mp hroom
  by_cases hempty : solid s = []
  · have hnone : decoded s = [] := by simp [decoded, hempty, bytesOf]
    refine iff_of_true ⟨⟨.success, some 0, []⟩, ?_, ?_⟩ (.inr (.inl hempty))
    · rw [base64Decode_wellFormed hcall h, if_neg hroom, if_pos hempty]
    · simp [h, hnone, hplace]
  constructor
  · rintro ⟨r, hrun, -, -, -, hsuccess⟩
    have heq := (hsuccess h hroom).2.2.symm.trans
      (base64Decode_larger hcall h hplace hempty (not_lt.mp hsize) hrun)
    exact .inr (.inr (.inr (Nat.le_of_eq (Option.some.inj heq.symm))))
  · rintro (hno | hno | hno | hle)
    · exact absurd h hno
    · exact absurd hno hempty
    · exact absurd hno hplace
    · obtain rfl : size = (decoded s).length := by omega
      refine ⟨_, base64Decode_exact hcall h hplace, Nat.le_refl _, fun hno => absurd h hno,
        fun _ hno => absurd hno hroom, fun _ _ => ⟨rfl, rfl, rfl⟩⟩

/-! ### Encoding -/

lemma decodingValue_encodingChar : ∀ n < 64, decodingValue (encodingChar n) = n := by decide

lemma bytesOf_quantum (a b c : UInt8) (values : List ℕ) :
    bytesOf (a.toNat / 4 :: (a.toNat % 4 * 16 + b.toNat / 16) ::
      (b.toNat % 16 * 4 + c.toNat / 64) :: c.toNat % 64 :: values) =
        a :: b :: c :: bytesOf values := by
  have ha := a.toNat_lt
  have hb := b.toNat_lt
  have hc := c.toNat_lt
  have hbyte : ∀ (n : ℕ) (d : UInt8), n % 256 = d.toNat → UInt8.ofNat n = d := by
    intro n d h
    apply UInt8.toNat_inj.mp
    rw [UInt8.toNat_ofNat', h]
  rw [bytesOf, hbyte _ a (by omega), hbyte _ b (by omega), hbyte _ c (by omega)]

set_option maxRecDepth 4000 in
/-- The masks of the encoder. -/
lemma masks : ∀ n < 256, (n &&& 0xfc) >>> 2 = n / 4 ∧ (n &&& 0x03) <<< 4 = n % 4 * 16 ∧
    (n &&& 0xf0) >>> 4 = n / 16 ∧ (n &&& 0x0f) <<< 2 = n % 16 * 4 ∧ (n &&& 0xc0) >>> 6 = n / 64 ∧
    n &&& 0x3f = n % 64 := by decide

/-- The text of `D` is whole quanta, which stand for `D` and for what fills the last one. -/
lemma encodeText_spec (D : List UInt8) : ∃ body pad, pad ≤ 2 ∧
    encodeText D = body ++ List.replicate pad padding ∧ (∀ c ∈ body, c ∈ encodingTable) ∧
    (encodeText D).length = (D.length + 2) / 3 * 4 ∧ (D.length + 2) / 3 * 3 = D.length + pad ∧
    bytesOf ((encodeText D).map decodingValue) = D ++ List.replicate pad 0 := by
  induction D using encodeText.induct with
  | case1 a b c D ih =>
    obtain ⟨body, pad, hpad, heq, hbody, hlen, hsum, hbytes⟩ := ih
    obtain ⟨ha₂, ha₄, -, -, -, -⟩ := masks _ a.toNat_lt
    obtain ⟨-, -, hb₄, hb₂, -, -⟩ := masks _ b.toNat_lt
    obtain ⟨-, -, -, -, hc₆, hc₀⟩ := masks _ c.toNat_lt
    have ha := a.toNat_lt
    have hb := b.toNat_lt
    have hc := c.toNat_lt
    simp only [encodeText, ha₂, ha₄, hb₄, hb₂, hc₆, hc₀]
    refine ⟨_ :: _ :: _ :: _ :: body, pad, hpad, by rw [heq]; rfl, ?_, ?_, ?_, ?_⟩
    · simp only [List.forall_mem_cons]
      exact ⟨encodingChar_mem (by omega), encodingChar_mem (by omega),
        encodingChar_mem (by omega), encodingChar_mem (by omega), hbody⟩
    · simp only [List.length_cons, hlen]
      omega
    · simp only [List.length_cons]
      omega
    · simp only [List.map_cons]
      rw [decodingValue_encodingChar _ (by omega), decodingValue_encodingChar _ (by omega),
        decodingValue_encodingChar _ (by omega), decodingValue_encodingChar _ (by omega),
        bytesOf_quantum, hbytes]
      rfl
  | case2 a b =>
    obtain ⟨ha₂, ha₄, -, -, -, -⟩ := masks _ a.toNat_lt
    obtain ⟨-, -, hb₄, hb₂, -, -⟩ := masks _ b.toNat_lt
    have ha := a.toNat_lt
    have hb := b.toNat_lt
    have hquantum := bytesOf_quantum a b 0 []
    simp only [encodeText, ha₂, ha₄, hb₄, hb₂]
    refine ⟨[_, _, _], 1, by decide, rfl, ?_, by simp, by simp, ?_⟩
    · simp only [List.forall_mem_cons]
      exact ⟨encodingChar_mem (by omega), encodingChar_mem (by omega),
        encodingChar_mem (by omega), by simp⟩
    · simp only [List.map_cons, List.map_nil, decodingValue_padding]
      rw [decodingValue_encodingChar _ (by omega), decodingValue_encodingChar _ (by omega),
        decodingValue_encodingChar _ (by omega)]
      exact hquantum
  | case3 a =>
    obtain ⟨ha₂, ha₄, -, -, -, -⟩ := masks _ a.toNat_lt
    have ha := a.toNat_lt
    have hquantum := bytesOf_quantum a 0 0 []
    simp only [encodeText, ha₂, ha₄]
    refine ⟨[_, _], 2, by decide, rfl, ?_, by simp, by simp, ?_⟩
    · simp only [List.forall_mem_cons]
      exact ⟨encodingChar_mem (by omega), encodingChar_mem (by omega), by simp⟩
    · simp only [List.map_cons, List.map_nil, decodingValue_padding]
      rw [decodingValue_encodingChar _ (by omega), decodingValue_encodingChar _ (by omega)]
      exact hquantum
  | case4 => exact ⟨[], 0, by decide, rfl, by simp, rfl, rfl, rfl⟩

lemma decoded_encodeText (D : List UInt8) : WellFormed (encodeText D) ∧
    decoded (encodeText D) = D ∧ (solid (encodeText D) = [] ↔ D = []) ∧
    (encodeText D).length = (D.length + 2) / 3 * 4 := by
  obtain ⟨body, pad, hpad, heq, hbody, hlen, hsum, hbytes⟩ := encodeText_spec D
  have hsolid : solid (encodeText D) = encodeText D := by
    refine List.filter_eq_self.mpr fun c hc => ?_
    rw [heq, List.mem_append] at hc
    rcases hc with hc | hc
    · rw [Bool.not_eq_true']
      exact Bool.eq_false_iff.mpr fun hblank =>
        (mem_encodingTable.mp (hbody c hc)).1 (decodingValue_blank hblank)
    · rw [List.eq_of_mem_replicate hc]
      rfl
  refine ⟨⟨body, pad, hsolid.trans heq, hpad, hbody, ?_⟩, ?_, ?_, hlen⟩
  · rw [hsolid, hlen]
    exact Nat.dvd_mul_left _ _
  · have hcount : (encodeText D).count padding = pad := by rw [heq, count_padding hbody]
    rw [decoded, hsolid, hbytes, hcount, hlen, Nat.mul_div_cancel _ (by decide), hsum,
      Nat.add_sub_cancel, List.take_left]
  · rw [hsolid, ← List.length_eq_zero_iff, hlen, ← List.length_eq_zero_iff]
    omega

lemma base64Encode_success (hcall : tooLong maxAddress (source, D) (some text) textSize = false)
    (htext : (D.length + 2) / 3 * 4 + 1 ≤ textSize) :
    ∃ e, base64Encode maxAddress (some (source, D)) (some text) (some textSize) = .ok e ∧
      e.status = .success ∧ e.stored.dropLast = encodeText D := by
  cases D with
  | nil =>
    refine ⟨⟨.success, some 1, [0]⟩, ?_, rfl, rfl⟩
    simp [base64Encode, show ¬ textSize < 1 by simp at htext; omega]
  | cons a D =>
    refine ⟨⟨.success, some textSize, encodeText (a :: D) ++ [0]⟩, ?_, rfl, List.dropLast_concat⟩
    simpa [base64Encode, hcall] using htext

/-- The decoder is right about a text exactly if it is not well formed, is empty, or the destination
is not larger than its bytes; so data come back exactly if they are empty or the destination has
their length. -/
theorem base64_right_iff (hcall : tooLong maxAddress (source, s) place size = false)
    {source' size' : ℕ} (hencode : tooLong maxAddress (source', D) (some text) textSize = false)
    (htext : (D.length + 2) / 3 * 4 + 1 ≤ textSize)
    (hdestination : size' < maxAddress - destination) (hroom : D.length ≤ size') :
    (DecodesRight s place size (base64Decode maxAddress (some (source, s)) place (some size)) ↔
      ¬ WellFormed s ∨ solid s = [] ∨ place = none ∨ size ≤ (decoded s).length) ∧
    (RoundTrips maxAddress source' D text textSize destination size' ↔
      D = [] ∨ size' = D.length) := by
  refine ⟨decodesRight_iff hcall, ?_⟩
  obtain ⟨hwf, hdecoded, hempty, hlen⟩ := decoded_encodeText D
  obtain ⟨e, hrun, hst, htxt⟩ := base64Encode_success hencode htext
  have hcall' : tooLong maxAddress (text, encodeText D) (some destination) size' = false := by
    simp only [tooLong, Bool.or_eq_false_iff, decide_eq_false_iff_not, not_le,
      Option.getD_some] at hencode ⊢
    exact ⟨by omega, hdestination⟩
  have hright := decodesRight_iff hcall'
  rw [hdecoded, hempty] at hright
  have hno : ¬ (some destination = none ∨ size' < D.length) := by simp [hroom]
  constructor
  · rintro ⟨e', r, hrun', -, hdec, -, -, hsize⟩
    cases hrun.symm.trans hrun'
    rw [htxt] at hdec
    by_cases hD : D = []
    · exact .inl hD
    · have hlarger := base64Decode_larger hcall' hwf (by simp) (mt hempty.mp hD)
        (by rwa [hdecoded]) hdec
      exact .inr (Option.some.inj (hlarger.symm.trans hsize))
  · intro hD
    have hok := hright.mpr (.inr (hD.imp_right fun h => .inr (Nat.le_of_eq h)))
    obtain ⟨r, hdec, -, -, -, hsuccess⟩ := hok
    rw [hdecoded] at hsuccess
    exact ⟨e, r, hrun, hst, by rw [htxt, hdec], hsuccess hwf hno⟩

/-- Four bytes and a destination of their length. -/
theorem roundTrips_four :
    DecodesRight [84, 87, 70, 117, 10] (some 12288) 3
        (base64Decode (2 ^ 64 - 1) (some (4096, [84, 87, 70, 117, 10])) (some 12288) (some 3)) ∧
      RoundTrips (2 ^ 64 - 1) 4096 [77, 97, 110, 77] 8192 9 12288 4 := by
  have h := @base64_right_iff [84, 87, 70, 117, 10] [77, 97, 110, 77] (2 ^ 64 - 1) 4096 8192 12288
    3 9 (some 12288) (by decide) 4096 4 (by decide) (by decide) (by decide) (by decide)
  exact ⟨h.1.mpr (.inr (.inr (.inr (by decide)))), h.2.mpr (.inr rfl)⟩

/-- One byte and a destination of three: two bytes of the padding are stored, and the size says
that there are three. -/
theorem not_roundTrips_larger :
    base64Decode (2 ^ 64 - 1) (some (8192, encodeText [77])) (some 12288) (some 3) =
        .ok ⟨.success, some 3, [77, 0, 0]⟩ ∧
      ¬ RoundTrips (2 ^ 64 - 1) 4096 [77] 8192 5 12288 3 := by
  have hrun : base64Decode (2 ^ 64 - 1) (some (8192, encodeText [77])) (some 12288) (some 3) =
      .ok ⟨.success, some 3, [77, 0, 0]⟩ := by rfl
  refine ⟨hrun, ?_⟩
  rintro ⟨e, r, henc, -, hdec, -, hstored, -⟩
  cases henc
  have heq := hrun.symm.trans hdec
  cases heq
  cases hstored

end Edk2.Base64
