import Edk2.Decompress.Decode

/-!
# Runs of the decompressor

The decoder comes to its end, with all accesses in bounds, exactly if every walk that starts in a
table without codes of its own comes to a symbol. The bytes written are those below `mOutBuf`, and
a run without a bad table has written them all.
-/

namespace Edk2.Decompress

open Outcome

variable {short : Prop} {s s' : Scratch} {n fuel charC : ℕ} {out : Output} {source : List UInt8}
  {destination : ℕ → ℕ} {version : Version}

/-- The bytes below `mOutBuf` are written, the others are as they were. -/
structure Filled (destination : ℕ → ℕ) (s : Scratch) (out : Output) : Prop where
  written : ∀ i, i ∈ out.written ↔ i < s.mOutBuf
  other : ∀ i, s.mOutBuf ≤ i → out.mDstBase i = destination i

lemma Filled.congr (h : Filled destination s out) (hs : s'.mOutBuf = s.mOutBuf) :
    Filled destination s' out :=
  ⟨hs ▸ h.written, hs ▸ h.other⟩

lemma Filled.put {value : ℕ} (h : Filled destination s out) (hs : s'.mOutBuf = s.mOutBuf + 1) :
    Filled destination s' ⟨store out.mDstBase s.mOutBuf value, s.mOutBuf :: out.written⟩ := by
  refine ⟨fun i => ?_, fun i hi => ?_⟩
  · rw [List.mem_cons, h.written, hs]
    omega
  · rw [hs] at hi
    simp only
    rw [store_of_ne (by omega)]
    exact h.other i (by omega)

lemma Ready.setOut (outBuf flag : ℕ) (h : Ready short s) :
    Ready short { s with mOutBuf := outBuf, mBadTableFlag := flag } :=
  ⟨⟨⟨h.good.bits.mBitBuf, h.good.bits.mBitCount, h.good.bits.mSubBitBuf, h.good.bits.source⟩,
    h.good.left, h.good.right, h.good.mPTTable, h.good.mCTable, h.good.stale⟩, h.ownC, h.ownPT,
    h.mPBit⟩

lemma putByte_spec {value : ℕ} {E : Failure → Scratch → Prop} (hlt : s.mOutBuf < s.mOrigSize) :
    Ends (putByte out value s)
      (fun out' s' => s' = { s with mOutBuf := s.mOutBuf + 1 } ∧
        out' = ⟨store out.mDstBase s.mOutBuf value, s.mOutBuf :: out.written⟩) E :=
  ends_bind (ends_get (ends_ite (fun _ => ends_bind (ends_set (ends_pure ⟨rfl, rfl⟩)))
    fun hout => absurd hlt hout))

lemma copyByte_spec {dataIdx : ℕ} {E : Failure → Scratch → Prop} (hidx : dataIdx < s.mOrigSize)
    (hlt : s.mOutBuf < s.mOrigSize) :
    Ends (copyByte dataIdx out s)
      (fun out' s' => s' = { s with mOutBuf := s.mOutBuf + 1 } ∧
        out' = ⟨store out.mDstBase s.mOutBuf (out.mDstBase dataIdx), s.mOutBuf :: out.written⟩)
      E := by
  refine ends_bind (ends_bind (ends_get (ends_ite (fun _ => ends_pure ?_) fun hout => ?_)))
  · exact putByte_spec hlt
  · exact absurd hidx hout

/-- What the processing of a code leaves. -/
structure Stepped (short : Prop) (s : Scratch) (out : Output) (done : Bool) (out' : Output)
    (s' : Scratch) : Prop where
  good : Good short s'
  orig : s'.mOrigSize = s.mOrigSize
  le : s'.mOutBuf ≤ s'.mOrigSize
  ready : done = false → Ready short s'
  more : done = false → s.mOutBuf < s'.mOutBuf
  full : done = true → s'.mBadTableFlag = 0 → s'.mOrigSize ≤ s'.mOutBuf
  filled : ∀ destination, Filled destination s out → Filled destination s' out'

/-- What a copy leaves: it is done early only if the output is full or the position is bad. -/
structure Copied (short : Prop) (s : Scratch) (out : Output) (n : ℕ) (done : Bool) (out' : Output)
    (s' : Scratch) : Prop where
  ready : Ready short s'
  orig : s'.mOrigSize = s.mOrigSize
  le : s'.mOutBuf ≤ s'.mOrigSize
  more : done = false → s'.mOutBuf = s.mOutBuf + n
  full : done = true → s'.mBadTableFlag = 0 → s'.mOrigSize ≤ s'.mOutBuf
  filled : ∀ destination, Filled destination s out → Filled destination s' out'

lemma copyLoop_spec {dataIdx : ℕ} {E : Failure → Scratch → Prop} (h : Ready short s)
    (hle : s.mOutBuf ≤ s.mOrigSize) :
    Ends (copyLoop n dataIdx out s) (fun r s' => Copied short s out n r.1 r.2 s') E := by
  induction n generalizing s dataIdx out with
  | zero => exact ends_pure ⟨h, rfl, hle, fun _ => rfl, fun htrue => (nomatch htrue), fun _ => id⟩
  | succ n ih =>
    refine ends_bind (ends_get (ends_ite (fun hfull => ?_) fun hroom => ends_ite (fun _ => ?_)
      fun hidx => ?_))
    · exact ends_pure ⟨h, rfl, hle, fun hfal => (nomatch hfal), fun _ _ => hfull, fun _ => id⟩
    · refine ends_bind (ends_set (ends_pure ⟨h.setOut s.mOutBuf badTable, rfl, hle,
        fun hfal => (nomatch hfal), fun _ hzero => (nomatch hzero), fun _ hf => hf.congr rfl⟩))
    · refine ends_bind ((copyByte_spec (not_le.mp hidx) (not_le.mp hroom)).imp ?_)
      rintro out₁ _ ⟨rfl, rfl⟩
      refine (ih (h.setOut (s.mOutBuf + 1) s.mBadTableFlag) (not_le.mp hroom)).imp fun r s₂ h₂ => ?_
      refine ⟨h₂.ready, h₂.orig, h₂.le, fun hfal => ?_, h₂.full, fun d hf => h₂.filled d (hf.put rfl)⟩
      rw [h₂.more hfal]
      simp only
      omega

lemma putChar_spec (h : Ready short s) (hle : s.mOutBuf ≤ s.mOrigSize) :
    Ends (putChar charC out s) (fun r s' => Stepped short s out r.1 r.2 s') (Fails short) := by
  refine ends_bind (ends_get (ends_ite (fun hfull => ?_) fun hroom => ?_))
  · exact ends_pure ⟨h.good, rfl, hle, fun _ => h, fun hfal => (nomatch hfal), fun _ _ => hfull,
      fun _ => id⟩
  · refine ends_bind ((putByte_spec (not_le.mp hroom)).imp ?_)
    rintro out₁ _ ⟨rfl, rfl⟩
    have hrea := h.setOut (s.mOutBuf + 1) s.mBadTableFlag
    exact ends_pure ⟨hrea.good, rfl, not_le.mp hroom, fun _ => hrea, fun _ => Nat.lt_succ_self _,
      fun htrue => (nomatch htrue), fun _ hf => hf.put rfl⟩

lemma putString_spec (h : Ready short s) (hle : s.mOutBuf ≤ s.mOrigSize) (hchar : 256 ≤ charC) :
    Ends (putString charC out s) (fun r s' => Stepped short s out r.1 r.2 s') (Fails short) := by
  refine ends_bind (ends_get (ends_bind ((decodeP_spec h).imp fun pos s₁ h₁ => ?_)))
  obtain ⟨hrea, hasi, -⟩ := h₁
  have hk := hasi.keeps
  have hle₁ : s₁.mOutBuf ≤ s₁.mOrigSize := by
    rw [hk.mOutBuf, hk.mOrigSize]
    exact hle
  refine ends_bind ((copyLoop_spec hrea hle₁).imp fun r s₂ h₂ => ends_bind (ends_get ?_))
  refine ends_pure ⟨h₂.ready.good, h₂.orig.trans hk.mOrigSize, h₂.le, fun _ => h₂.ready, ?_, ?_, ?_⟩
  · intro hfal
    rw [Bool.or_eq_false_iff] at hfal
    rw [h₂.more hfal.1, hk.mOutBuf]
    simp only [threshold]
    omega
  · intro htrue hzero
    rcases Bool.or_eq_true_iff.mp htrue with hdone | hdone
    · exact h₂.full hdone hzero
    · exact of_decide_eq_true hdone
  · exact fun d hf => h₂.filled d (hf.congr hk.mOutBuf)

lemma process_spec (h : Good short s) (hrea : s.mBadTableFlag = 0 → Ready short s)
    (hle : s.mOutBuf ≤ s.mOrigSize) :
    Ends (process charC out s) (fun r s' => Stepped short s out r.1 r.2 s') (Fails short) := by
  refine ends_bind (ends_get (ends_ite (fun hbad => ?_) fun hok => ?_))
  · exact ends_pure ⟨h, rfl, hle, fun hfal => (nomatch hfal), fun hfal => (nomatch hfal),
      fun _ hzero => absurd hzero hbad, fun _ => id⟩
  · have hr := hrea (not_not.mp hok)
    exact ends_ite (fun _ => putChar_spec hr hle) fun hchar => putString_spec hr hle (not_lt.mp hchar)

/-- What a run of the decoder leaves. -/
structure Finished (short : Prop) (s : Scratch) (out : Output) (out' : Output) (s' : Scratch) :
    Prop where
  good : Good short s'
  orig : s'.mOrigSize = s.mOrigSize
  full : s'.mBadTableFlag = 0 → s'.mOutBuf = s'.mOrigSize
  filled : ∀ destination, Filled destination s out → Filled destination s' out'

lemma decodeLoop_spec (h : Ready short s) (hle : s.mOutBuf ≤ s.mOrigSize)
    (hfuel : s.mOrigSize < s.mOutBuf + fuel) :
    Ends (decodeLoop fuel out s) (Finished short s out) (Fails short) := by
  induction fuel generalizing s out with
  | zero => omega
  | succ fuel ih =>
    refine ends_bind ((decodeC_spec h).imp fun charC s₁ h₁ => ?_)
    have hk := h₁.keeps
    have hle₁ : s₁.mOutBuf ≤ s₁.mOrigSize := by
      rw [hk.mOutBuf, hk.mOrigSize]
      exact hle
    refine ends_bind ((process_spec h₁.good h₁.ready hle₁).imp ?_)
    rintro ⟨done, out₂⟩ s₂ h₂
    have horig := h₂.orig.trans hk.mOrigSize
    have hfil : ∀ d, Filled d s out → Filled d s₂ out₂ :=
      fun d hf => h₂.filled d (hf.congr hk.mOutBuf)
    cases done with
    | true =>
      refine ends_pure ⟨h₂.good, horig, fun hzero => ?_, hfil⟩
      exact le_antisymm h₂.le (h₂.full rfl hzero)
    | false =>
      have hmore := h₂.more rfl
      rw [hk.mOutBuf] at hmore
      refine (ih (h₂.ready rfl) h₂.le (by omega)).imp fun _ s₃ h₃ => ?_
      exact ⟨h₃.good, h₃.orig.trans horig, h₃.full, fun d hf => h₃.filled d (hfil d hf)⟩

lemma readUnaligned32_lt (source : List UInt8) (offset : ℕ) : readUnaligned32 source offset < 2 ^ 32 := by
  have hbyte : ∀ i, (source.getD i 0).toNat < 2 ^ 8 := fun i => UInt8.toNat_lt _
  grind [readUnaligned32]

lemma compSize_le (h : (uefiDecompressGetInfo source).isSome = true) :
    readUnaligned32 source 0 ≤ ((source.drop 8).take (readUnaligned32 source 0)).length := by
  have hlt := readUnaligned32_lt source 0
  by_cases hsho : source.length < 8
  · rw [uefiDecompressGetInfo, if_pos hsho] at h
    cases h
  by_cases hsize : source.length < u32 (readUnaligned32 source 0 + 8) ∨
      u32 (readUnaligned32 source 0 + 8) < 8
  · rw [uefiDecompressGetInfo, if_neg hsho, if_pos hsize] at h
    cases h
  · rw [List.length_take, List.length_drop]
    simp only [u32] at hsize
    omega

lemma ready_preparedScratch (version : Version) (hsou : ¬ short → readUnaligned32 source 0 ≤
    ((source.drop 8).take (readUnaligned32 source 0)).length) :
    Ready short (preparedScratch source version) := by
  have hzero : Small ⟨fun _ => 0, fun _ => 0, fun _ => 0⟩ :=
    ⟨fun _ => Nat.succ_pos _, fun _ => Nat.succ_pos _, fun _ => Nat.succ_pos _⟩
  refine ⟨⟨⟨Nat.two_pow_pos 32, Nat.zero_le _, Nat.two_pow_pos 8, ?_⟩, hzero.left, hzero.right,
    hzero.table, hzero.table, ?_⟩, fun _ => ⟨nc, ?_⟩, fun _ => ⟨maxNp, ?_⟩, ?_⟩
  · intro hlong
    exact (Nat.zero_add _).trans_le (hsou hlong)
  · intro w hw
    cases hw
  · exact grown_single hzero (by decide) (fun _ => rfl) (by decide)
  · exact grown_single hzero (by decide) (fun _ => rfl) (by decide)
  · cases version with
    | uefi => exact Nat.le_succ 4
    | tiano => exact le_rfl

lemma decompressSource_spec (destination : ℕ → ℕ) (version : Version) (s : Scratch)
    (hsou : ¬ short → readUnaligned32 source 0 ≤
      ((source.drop 8).take (readUnaligned32 source 0)).length) :
    Ends (decompressSource source destination version s)
      (fun r s' => Good short s' ∧ (r.1 = .success → s'.mOutBuf = readUnaligned32 source 4) ∧
        Filled destination s' r.2) (Fails short) := by
  have hrea := ready_preparedScratch version hsou
  refine ends_bind (ends_set (ends_bind ((fillBuf_good bitBufSiz hrea.good).imp fun _ s₁ h₁ => ?_)))
  have hk := h₁.2.keeps
  have hle : s₁.mOutBuf ≤ s₁.mOrigSize := by
    rw [hk.mOutBuf]
    exact Nat.zero_le _
  have hemp : Filled destination s₁ ⟨destination, []⟩ := by
    refine ⟨fun i => ?_, fun _ _ => rfl⟩
    rw [hk.mOutBuf]
    exact ⟨fun hi => (nomatch hi), fun hi => absurd hi (Nat.not_lt_zero i)⟩
  refine ends_bind (ends_bind (ends_get ?_))
  refine (decodeLoop_spec (hrea.aside h₁.1 h₁.2) hle (by omega)).imp fun out s₂ h₂ => ?_
  refine ends_bind (ends_get (ends_pure ⟨h₂.good, fun hok => ?_, h₂.filled destination hemp⟩))
  have hzero : s₂.mBadTableFlag = 0 := by
    by_contra hne
    rw [if_pos hne] at hok
    cases hok
  exact (h₂.full hzero).trans (h₂.orig.trans hk.mOrigSize)

lemma uefiTianoDecompress_spec (destination : ℕ → ℕ) (version : Version) (s : Scratch)
    (h : (uefiDecompressGetInfo source).isSome = true) :
    Ends (uefiTianoDecompress source destination version s)
      (fun _ s' => ∀ w ∈ s'.stale, w.Reaches) (Fails False) := by
  refine ends_bind (ends_modify (ends_ite (fun _ => ends_pure ?_) fun _ => ?_))
  · intro w hw
    cases hw
  · exact (decompressSource_spec destination version _ fun _ => compSize_le h).imp
      fun _ _ h₁ => h₁.1.stale

/-- A source of three blocks. The Position Sets of the first two have codes that overlap, which
leaves the link of node 20 on itself; the Extra Set of the third one consists of the symbol 20,
which does not exist. -/
def cyclicSource : List UInt8 :=
  [ 38, 0, 0, 0, 3, 0, 0, 0,
    0, 1, 0, 0, 0, 11, 36, 156, 187, 188, 0, 0, 0, 72, 251, 224, 0, 16, 0, 0,
    0, 194, 73, 203, 187, 192, 0, 0, 4, 143, 223, 191, 126, 0, 1, 5, 0, 32 ]

def HangsHere {α : Type} : EStateM.Result Failure Scratch α → Bool
  | .error .hang _ => true
  | _ => false

end Edk2.Decompress

/-!
## The output of the decompressor

Two runs on the same source go side by side, whatever the buffers held before: only bytes that were
written before are copied. A distance that leads ahead of the output wraps around to an index of at
least `2 ^ 32 - 2 ^ 30`, which is outside of every output of at most `2 ^ 31` bytes.
-/

namespace Edk2.Decompress

open Outcome

variable {short : Prop} {s s' : Scratch} {n charC dataIdx : ℕ} {out out' : Output}
  {source : List UInt8} {version : Version}

/-- The bytes written so far are the same. -/
def Agree (out out' : Output) (s : Scratch) : Prop :=
  ∀ i < s.mOutBuf, out'.mDstBase i = out.mDstBase i

/-- The same answer, and outputs that agree. -/
def SameStep (r r' : Bool × Output) (s : Scratch) : Prop := r'.1 = r.1 ∧ Agree r.2 r'.2 s

lemma Agree.congr (h : Agree out out' s) (hs : s'.mOutBuf = s.mOutBuf) : Agree out out' s' := by
  unfold Agree
  rw [hs]
  exact h

lemma Agree.put {value value' : ℕ} {l l' : List ℕ} (h : Agree out out' s) (hv : value' = value)
    (hs : s'.mOutBuf = s.mOutBuf + 1) :
    Agree ⟨store out.mDstBase s.mOutBuf value, l⟩ ⟨store out'.mDstBase s.mOutBuf value', l'⟩ s' := by
  intro i hi
  simp only [store_apply, hv]
  split_ifs with heq
  · rfl
  · exact h i (by omega)

lemma putByte_twin {value value' : ℕ} (h : Agree out out' s) (hv : value' = value)
    (hlt : s.mOutBuf < s.mOrigSize) : Twin Agree (putByte out value s) (putByte out' value' s) := by
  refine twin_get (twin_ite (fun _ => ?_) fun hout => absurd hlt hout)
  exact twin_set (twin_pure (h.put hv rfl))

lemma copyByte_twin (h : Agree out out' s) (hidx : dataIdx < s.mOutBuf)
    (hlt : s.mOutBuf < s.mOrigSize) :
    Twin Agree (copyByte dataIdx out s) (copyByte dataIdx out' s) := by
  have hread : Twin (fun b b' s' => b' = b ∧ s' = s) (readByte out dataIdx s)
      (readByte out' dataIdx s) := by
    refine twin_get (twin_ite (fun _ => twin_pure ⟨h dataIdx hidx, rfl⟩) fun hout => ?_)
    exact absurd (lt_trans hidx hlt) hout
  have hends : Ends (readByte out dataIdx s) (fun _ _ => True) (fun _ _ => False) :=
    ends_bind (ends_get (ends_ite (fun _ => ends_pure trivial)
      fun hout => absurd (lt_trans hidx hlt) hout))
  refine hread.bind hends ?_
  rintro b b' _ ⟨hb, rfl⟩ -
  exact putByte_twin h hb hlt

lemma copyLoop_twin (hrea : Ready short s) (h : Agree out out' s) (hle : s.mOutBuf ≤ s.mOrigSize)
    (horig : s.mOrigSize ≤ 2 ^ 31) (hidx : dataIdx < s.mOutBuf ∨ s.mOrigSize ≤ dataIdx) :
    Twin SameStep (copyLoop n dataIdx out s) (copyLoop n dataIdx out' s) := by
  induction n generalizing s dataIdx out out' with
  | zero => exact twin_pure ⟨rfl, h⟩
  | succ n ih =>
    refine twin_get (twin_ite (fun _ => twin_pure ⟨rfl, h⟩) fun hroom => twin_ite (fun _ => ?_)
      fun hin => ?_)
    · exact twin_set (twin_pure ⟨rfl, h.congr rfl⟩)
    · have hlt := hidx.resolve_right hin
      have hwrap : u32 (dataIdx + 1) = dataIdx + 1 := Nat.mod_eq_of_lt (by omega)
      refine (copyByte_twin h hlt (not_le.mp hroom)).bind
        (copyByte_spec (E := fun _ _ => False) (not_le.mp hin) (not_le.mp hroom)) ?_
      rintro out₁ out₁' s₁ h₁ ⟨rfl, -⟩
      refine ih (hrea.setOut (s.mOutBuf + 1) s.mBadTableFlag) h₁ (not_le.mp hroom) horig ?_
      rw [hwrap]
      exact .inl (Nat.succ_lt_succ hlt)

lemma putString_twin (hrea : Ready short s) (h : Agree out out' s) (hle : s.mOutBuf ≤ s.mOrigSize)
    (horig : s.mOrigSize ≤ 2 ^ 31) :
    Twin SameStep (putString charC out s) (putString charC out' s) := by
  refine twin_get (twin_bind (decodeP_spec hrea) fun pos s₁ h₁ => ?_)
  obtain ⟨hrea₁, hasi, hpos⟩ := h₁
  have hk := hasi.keeps
  have hle₁ : s₁.mOutBuf ≤ s₁.mOrigSize := by
    rw [hk.mOutBuf, hk.mOrigSize]
    exact hle
  have hori₁ : s₁.mOrigSize ≤ 2 ^ 31 := hk.mOrigSize ▸ horig
  -- a position ahead of the output wraps around
  have hidx : u32 (s.mOutBuf + 2 ^ 33 - pos - 1) < s₁.mOutBuf ∨
      s₁.mOrigSize ≤ u32 (s.mOutBuf + 2 ^ 33 - pos - 1) := by
    rw [hk.mOutBuf, hk.mOrigSize]
    simp only [u32]
    omega
  refine (copyLoop_twin hrea₁ (h.congr hk.mOutBuf) hle₁ hori₁ hidx).bind
    (copyLoop_spec (E := fun _ _ => False) hrea₁ hle₁) ?_
  rintro ⟨done, out₂⟩ ⟨done', out₂'⟩ s₂ ⟨hdone, hagr⟩ -
  simp only at hdone hagr
  rw [hdone]
  exact twin_get (twin_pure ⟨rfl, hagr⟩)

lemma putChar_twin (h : Agree out out' s) :
    Twin SameStep (putChar charC out s) (putChar charC out' s) := by
  refine twin_get (twin_ite (fun _ => twin_pure ⟨rfl, h⟩) fun hroom => ?_)
  refine (putByte_twin h rfl (not_le.mp hroom)).bind
    (putByte_spec (E := fun _ _ => False) (not_le.mp hroom)) ?_
  rintro out₁ out₁' s₁ h₁ -
  exact twin_pure ⟨rfl, h₁⟩

lemma process_twin (hrea : s.mBadTableFlag = 0 → Ready short s) (h : Agree out out' s)
    (hle : s.mOutBuf ≤ s.mOrigSize) (horig : s.mOrigSize ≤ 2 ^ 31) :
    Twin SameStep (process charC out s) (process charC out' s) := by
  refine twin_get (twin_ite (fun _ => twin_pure ⟨rfl, h⟩) fun hok => ?_)
  exact twin_ite (fun _ => putChar_twin h)
    fun _ => putString_twin (hrea (not_not.mp hok)) h hle horig

lemma decodeLoop_twin (fuel : ℕ) (hrea : Ready short s) (h : Agree out out' s)
    (hle : s.mOutBuf ≤ s.mOrigSize) (horig : s.mOrigSize ≤ 2 ^ 31) :
    Twin Agree (decodeLoop fuel out s) (decodeLoop fuel out' s) := by
  induction fuel generalizing s out out' with
  | zero => exact twin_throw
  | succ fuel ih =>
    refine twin_bind (decodeC_spec hrea) fun charC s₁ h₁ => ?_
    have hk := h₁.keeps
    have hle₁ : s₁.mOutBuf ≤ s₁.mOrigSize := by
      rw [hk.mOutBuf, hk.mOrigSize]
      exact hle
    have hori₁ : s₁.mOrigSize ≤ 2 ^ 31 := hk.mOrigSize ▸ horig
    refine (process_twin h₁.ready (h.congr hk.mOutBuf) hle₁ hori₁).bind
      (process_spec h₁.good h₁.ready hle₁) ?_
    rintro ⟨done, out₂⟩ ⟨done', out₂'⟩ s₂ ⟨hdone, hagr⟩ h₂
    simp only at hdone hagr h₂
    subst hdone
    cases done' with
    | true => exact twin_pure hagr
    | false => exact ih (h₂.ready rfl) hagr h₂.le (h₂.orig ▸ hori₁)

lemma decompressSource_twin (destination destination' : ℕ → ℕ) (scratch : Scratch)
    (horig : readUnaligned32 source 4 ≤ 2 ^ 31) :
    Twin (fun r r' s => r'.1 = r.1 ∧ Agree r.2 r'.2 s)
      (decompressSource source destination version scratch)
      (decompressSource source destination' version scratch) := by
  have hrea : Ready True (preparedScratch source version) :=
    ready_preparedScratch version fun hlong => absurd trivial hlong
  refine twin_set (twin_bind (fillBuf_good bitBufSiz hrea.good) fun _ s₁ h₁ => ?_)
  have hk := h₁.2.keeps
  have hzero : s₁.mOutBuf = 0 := hk.mOutBuf
  have hle : s₁.mOutBuf ≤ s₁.mOrigSize := hzero ▸ Nat.zero_le _
  have hrea₁ := hrea.aside h₁.1 h₁.2
  have hori₁ : s₁.mOrigSize ≤ 2 ^ 31 := hk.mOrigSize ▸ horig
  have hagr : Agree ⟨destination, []⟩ ⟨destination', []⟩ s₁ := by
    intro i hi
    rw [hzero] at hi
    exact absurd hi (Nat.not_lt_zero i)
  have hloop := decodeLoop_twin (s₁.mOrigSize + 1) hrea₁ hagr hle hori₁
  refine Twin.bind (twin_get hloop) (ends_bind (ends_get (decodeLoop_spec hrea₁ hle (by omega)))) ?_
  rintro out₂ out₂' s₂ h₂ -
  exact twin_get (twin_pure ⟨rfl, h₂⟩)

lemma decompressSource_scratch (source : List UInt8) (destination : ℕ → ℕ) (version : Version)
    (scratch scratch' : Scratch) :
    decompressSource source destination version scratch' =
      decompressSource source destination version scratch :=
  set_bind _ _ _ _

lemma uefiTianoDecompress_empty (destination : ℕ → ℕ) (version : Version) (scratch : Scratch)
    (hzero : readUnaligned32 source 4 = 0) :
    uefiTianoDecompress source destination version scratch =
      .ok (.success, ⟨destination, []⟩) { scratch with stale := [] } := by
  rw [uefiTianoDecompress, modify_bind, if_pos hzero]
  rfl

lemma uefiTianoDecompress_source (destination : ℕ → ℕ) (version : Version) (scratch : Scratch)
    (hzero : readUnaligned32 source 4 ≠ 0) :
    uefiTianoDecompress source destination version scratch =
      decompressSource source destination version scratch := by
  rw [uefiTianoDecompress, modify_bind, if_neg hzero, decompressSource_scratch]

/-- A run that succeeds has written all bytes of the output and no other ones, and what it has
written does not depend on what the buffers held before. -/
theorem decompress_success_output (source : List UInt8) (destination : ℕ → ℕ) (version : Version)
    (scratch s : Scratch) (out : Output) (horig : readUnaligned32 source 4 ≤ 2 ^ 31)
    (hrun : uefiTianoDecompress source destination version scratch = .ok (.success, out) s) :
    (∀ i, i ∈ out.written ↔ i < readUnaligned32 source 4) ∧
      (∀ i, readUnaligned32 source 4 ≤ i → out.mDstBase i = destination i) ∧
      ∀ destination' scratch', ∃ out' s',
        uefiTianoDecompress source destination' version scratch' = .ok (.success, out') s' ∧
          ∀ i < readUnaligned32 source 4, out'.mDstBase i = out.mDstBase i := by
  by_cases hzero : readUnaligned32 source 4 = 0
  · rw [uefiTianoDecompress_empty _ _ _ hzero] at hrun
    cases hrun
    rw [hzero]
    refine ⟨fun i => ⟨fun hi => (nomatch hi), fun hi => absurd hi (Nat.not_lt_zero i)⟩,
      fun _ _ => rfl, fun destination' scratch' => ?_⟩
    exact ⟨_, _, uefiTianoDecompress_empty _ _ _ hzero, fun i hi => absurd hi (Nat.not_lt_zero i)⟩
  · rw [uefiTianoDecompress_source _ _ _ hzero] at hrun
    have hsource : ¬ True → readUnaligned32 source 0 ≤
        ((source.drop 8).take (readUnaligned32 source 0)).length := fun hlong => absurd trivial hlong
    obtain ⟨-, hfull, hfilled⟩ :=
      (decompressSource_spec destination version scratch hsource).of_ok hrun
    have hout := hfull rfl
    refine ⟨hout ▸ hfilled.written, hout ▸ hfilled.other, fun destination' scratch' => ?_⟩
    obtain ⟨⟨status, out'⟩, hrun', hstatus, hagree⟩ :=
      (decompressSource_twin destination destination' scratch horig).of_ok hrun
    simp only at hstatus hagree
    subst hstatus
    refine ⟨out', s, ?_, hout ▸ hagree⟩
    rw [uefiTianoDecompress_source _ _ _ hzero, decompressSource_scratch _ _ _ scratch, hrun']

def SucceedsHere : EStateM.Result Failure Scratch (EfiStatus × Output) → Bool
  | .ok (.success, _) _ => true
  | _ => false

/-- One byte from a source without compressed data. -/
theorem decompress_success_zeros :
    ∃ out s, uefiTianoDecompress [0, 0, 0, 0, 1, 0, 0, 0] (fun _ => 7) .uefi clearedScratch =
        .ok (.success, out) s ∧
      (∀ i, i ∈ out.written ↔ i < 1) ∧ (∀ i, 1 ≤ i → out.mDstBase i = 7) ∧
        ∀ destination' scratch', ∃ out' s',
          uefiTianoDecompress [0, 0, 0, 0, 1, 0, 0, 0] destination' .uefi scratch' =
            .ok (.success, out') s' ∧ ∀ i < 1, out'.mDstBase i = out.mDstBase i := by
  have hhere : SucceedsHere (uefiTianoDecompress [0, 0, 0, 0, 1, 0, 0, 0] (fun _ => 7) .uefi
      clearedScratch) = true := by
    decide +kernel
  rcases hrun : uefiTianoDecompress [0, 0, 0, 0, 1, 0, 0, 0] (fun _ => 7) .uefi clearedScratch with
    ⟨⟨_ | _, out⟩, s⟩ | ⟨f, s⟩
  case ok.success => exact ⟨out, s, rfl, decompress_success_output _ _ _ _ s out (by decide) hrun⟩
  all_goals
    rw [hrun] at hhere
    cases hhere

end Edk2.Decompress
