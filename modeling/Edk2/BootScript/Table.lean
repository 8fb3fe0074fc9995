import Edk2.BootScript.Model

/-!
# The records of the table

The table is a header and records behind it, each with its length in its third byte. The loops of
the library go from record to record.
-/

namespace Edk2.BootScript

open Bytes LockBox

variable {m : ℕ → Byte} {base a stop position fuel last n : ℕ} {valid before : Bool}
  {records : List (List Byte)} {r : List Byte} {e : Entry} {label : AsciiString}

/-- A record: its third byte is its length. -/
structure WellFormed (r : List Byte) : Prop where
  length : r[2]? = some (UInt8.ofNat r.length)
  lt : r.length < 256
  le : 7 ≤ r.length
  opCode : r.take 2 ≠ [0xFF, 0x00]
  /-- Labels are strings. -/
  label : r.take 2 = [0xFE, 0x00] → ∃ label : AsciiString, r.drop 7 = label.chars ++ [0]

lemma length_bytes : e.bytes.length = e.size := by
  simp [Entry.bytes, Entry.size]
  omega

lemma opCodeAt_eq_iff {n : ℕ} (hn : n < 256) :
    opCodeAt m a = n ↔ bytesAt m a 2 = [UInt8.ofNat n, 0x00] := by
  have hbyt : bytesAt m a 2 = [m a, m (a + 1)] := rfl
  have h₀ := (m a).toNat_lt
  have h₁ := (m (a + 1)).toNat_lt
  rw [hbyt]
  unfold opCodeAt
  constructor
  · intro h
    have hlow : m a = UInt8.ofNat n := by
      apply UInt8.toNat_inj.mp
      rw [UInt8.toNat_ofNat']
      omega
    have hhigh : m (a + 1) = 0 := by
      apply UInt8.toNat_inj.mp
      rw [UInt8.toNat_zero]
      omega
    rw [hlow, hhigh]
  · intro h
    simp only [List.cons.injEq, and_true] at h
    rw [h.1, h.2, UInt8.toNat_ofNat', UInt8.toNat_zero]
    omega

lemma bytesAt_flatten_cons :
    bytesAt m a (r :: records).flatten.length = (r :: records).flatten ↔
      bytesAt m a r.length = r ∧
        bytesAt m (a + r.length) records.flatten.length = records.flatten := by
  rw [List.flatten_cons]
  exact bytesAt_eq_append

lemma lengthAt_of_wellFormed (hr : WellFormed r) (hm : bytesAt m a r.length = r) :
    lengthAt m a = r.length := by
  have hlt := hr.lt
  have hle := hr.le
  have h := hr.length
  rw [← hm, getElem?_bytesAt, if_pos (by omega), length_bytesAt, Option.some.injEq] at h
  unfold lengthAt
  rw [h, UInt8.toNat_ofNat']
  omega

lemma take_of_bytesAt (hr : WellFormed r) (hm : bytesAt m a r.length = r) :
    bytesAt m a 2 = r.take 2 := by
  have hle := hr.le
  conv_rhs => rw [← hm]
  rw [take_bytesAt (by omega)]

lemma lengthAt_header (h : bytesAt m a 3 = [0xAA, 0x00, 0x0D]) : lengthAt m a = headerSize := by
  have hbyte := congrArg (·[2]?) h
  rw [getElem?_bytesAt] at hbyte
  have hval : m (a + 2) = 0x0D := by simpa using hbyte
  unfold lengthAt
  rw [hval]
  rfl

lemma opCodeAt_header (h : bytesAt m a 3 = [0xAA, 0x00, 0x0D]) : opCodeAt m a = 0xAA := by
  rw [opCodeAt_eq_iff (by decide)]
  have htake := congrArg (List.take 2) h
  rwa [take_bytesAt (by decide)] at htake

/-- The index of the record at a position; the first one is at `a`. -/
def recordIndex : List (List Byte) → ℕ → ℕ → Option ℕ
  | [], _, _ => none
  | r :: records, a, position =>
    if position = a then some 0 else (recordIndex records (a + r.length) position).map (· + 1)

lemma recordIndex_eq_some {i : ℕ} (h : recordIndex records a position = some i) :
    i < records.length ∧ position = a + (records.take i).flatten.length := by
  induction records generalizing a i with
  | nil => cases h
  | cons r records ih =>
    unfold recordIndex at h
    split_ifs at h with hpos
    · grind
    · obtain ⟨j, hj, rfl⟩ := Option.map_eq_some_iff.mp h
      grind

/-- The last record is moved before or behind the one at a position. -/
def moveLast (records : List (List Byte)) (base : ℕ) (before : Bool) (position : ℕ) :
    List (List Byte) :=
  match records.getLast? with
  | none => []
  | some r =>
    if position = 0 then if before then r :: records.dropLast else records
    else
      match recordIndex records (base + headerSize) position with
      | none => records
      | some i =>
        let k := if before then i else i + 1
        records.dropLast.take k ++ r :: records.dropLast.drop k

lemma findLastOpcode_eq (hwf : ∀ r ∈ records, WellFormed r)
    (hm : bytesAt m a records.flatten.length = records.flatten)
    (hstop : stop = a + records.flatten.length) (hfuel : records.flatten.length ≤ fuel) :
    findLastOpcode m position stop fuel a last valid =
      some (if records = [] then last else a + records.dropLast.flatten.length,
        valid || (position ≠ 0 && (recordIndex records a position).isSome)) := by
  induction records generalizing a fuel last valid with
  | nil =>
    have hnot : ¬a < stop := by
      rw [hstop]
      simp
    cases fuel <;> simp [findLastOpcode, hnot, recordIndex]
  | cons r records ih =>
    have hr := hwf r List.mem_cons_self
    have hle := hr.le
    obtain ⟨hfst, hrest⟩ := bytesAt_flatten_cons.mp hm
    rw [List.flatten_cons, List.length_append] at hstop hfuel
    obtain ⟨fuel, rfl⟩ : ∃ k, fuel = k + 1 := ⟨fuel - 1, by omega⟩
    have hlt : a < stop := by omega
    have hopC : opCodeAt m a ≠ 0xFF := by
      intro h
      rw [opCodeAt_eq_iff (by decide), take_of_bytesAt hr hfst] at h
      exact hr.opCode h
    rw [findLastOpcode, if_pos hlt, lengthAt_of_wellFormed hr hfst, if_pos hopC,
      ih (fun r' hr' => hwf r' (List.mem_cons_of_mem _ hr')) hrest (by omega) (by omega)]
    congr 2
    · cases records with
      | nil => simp
      | cons r' records =>
        simp [reduceCtorEq, List.dropLast_cons_cons, List.flatten_cons, List.length_append]
        omega
    grind [recordIndex]

/-- There is a record of the label. -/
def HasLabel (records : List (List Byte)) (label : AsciiString) : Prop :=
  ∃ r ∈ records, r.take 2 = [0xFE, 0x00] ∧ r.drop 7 = label.chars ++ [0]

instance : Decidable (HasLabel records label) :=
  inferInstanceAs (Decidable (∃ r ∈ records, _ ∧ _))

lemma AsciiString.eq_of_append {x y : AsciiString} {rest : List Byte}
    (h : x.chars ++ [0] <+: y.chars ++ [0] ++ rest) : x.chars = y.chars := by
  obtain ⟨xs, hx⟩ := x
  obtain ⟨ys, hy⟩ := y
  dsimp only at h ⊢
  induction xs generalizing ys with
  | nil =>
    cases ys with
    | nil => rfl
    | cons y ys =>
      grind
  | cons x xs ih =>
    cases ys with
    | nil =>
      grind
    | cons y ys =>
      grind

lemma compare_label (hr : WellFormed r) (hm : bytesAt m a r.length = r) :
    (opCodeAt m a = 0xFE ∧ bytesAt m (a + 7) (label.chars.length + 1) = label.chars ++ [0]) ↔
      r.take 2 = [0xFE, 0x00] ∧ r.drop 7 = label.chars ++ [0] := by
  have hle := hr.le
  rw [opCodeAt_eq_iff (by decide), take_of_bytesAt hr hm]
  refine and_congr_right fun hopC => ?_
  obtain ⟨label', hlab'⟩ := hr.label hopC
  have hdrop : bytesAt m (a + 7) (label'.chars.length + 1) = label'.chars ++ [0] := by
    grind [List.length_drop, List.length_append, List.length_singleton, drop_bytesAt]
  rw [hlab']
  constructor
  · intro h
    -- the longer of the two strings starts with the shorter one
    have hsta : label.chars ++ [0] <+: label'.chars ++ [0] ++
        bytesAt m (a + 7 + (label'.chars.length + 1)) (label.chars.length + 1) := by
      have hspl : bytesAt m (a + 7) (label.chars.length + 1 + (label'.chars.length + 1)) =
        bytesAt m (a + 7) (label.chars.length + 1) ++ _ := bytesAt_add
      rw [← hdrop, ← bytesAt_add, ← h, Nat.add_comm (label'.chars.length + 1), hspl]
      exact List.prefix_append ..
    rw [AsciiString.eq_of_append hsta]
  · intro h
    have hcha := List.append_cancel_right h
    rw [← hcha, hdrop]

lemma findLabel_eq (hwf : ∀ r ∈ records, WellFormed r)
    (hm : bytesAt m a records.flatten.length = records.flatten)
    (hstop : stop = a + records.flatten.length) (hfuel : records.flatten.length ≤ fuel) :
    ∃ found, findLabel m label stop fuel a = some found ∧
      (found.isSome ↔ HasLabel records label) := by
  induction records generalizing a fuel with
  | nil =>
    have hnot : ¬a < stop := by
      rw [hstop]
      simp
    refine ⟨none, ?_, ?_⟩
    · cases fuel <;> simp [findLabel, hnot]
    · simp [HasLabel]
  | cons r records ih =>
    have hr := hwf r List.mem_cons_self
    have hle := hr.le
    obtain ⟨hfst, hrest⟩ := bytesAt_flatten_cons.mp hm
    rw [List.flatten_cons, List.length_append] at hstop hfuel
    obtain ⟨fuel, rfl⟩ : ∃ k, fuel = k + 1 := ⟨fuel - 1, by omega⟩
    have hlt : a < stop := by omega
    rw [findLabel, if_pos hlt]
    by_cases hlab : opCodeAt m a = 0xFE ∧
        bytesAt m (a + 7) (label.chars.length + 1) = label.chars ++ [0]
    · rw [if_pos hlab]
      exact ⟨some a, rfl, iff_of_true rfl ⟨r, List.mem_cons_self, (compare_label hr hfst).mp hlab⟩⟩
    · rw [if_neg hlab, lengthAt_of_wellFormed hr hfst]
      obtain ⟨found, hfnd, hiff⟩ := ih (fun r' hr' => hwf r' (List.mem_cons_of_mem _ hr')) hrest
        (by omega) (show records.flatten.length ≤ fuel by omega)
      grind [compare_label, HasLabel]

end Edk2.BootScript
