import Edk2.SerializeVariables.Model

/-!
# Round trips

What is added to an instance is read back from its bytes, in the same order. The sizes of names and
data are written with 32 bits but the data are copied as a whole, so that data of 4 GiB or more are
not read back.
-/

namespace Edk2.SerializeVariables

open Bytes

variable {σ : Type} {p p' q q' : Pool} {i i' : SvInstance} {content data : List Byte}

/-- A string without the `NUL` behind it. -/
structure Name where
  chars : List UInt16
  noNul : 0 ∉ chars

/-- The characters as bytes. -/
def charBytes (chars : List UInt16) : List Byte := chars.flatMap fun c => field 2 c.toNat

def Name.bytes (name : Name) : List Byte := charBytes name.chars ++ [0, 0]

lemma strSize_charBytes {chars : List UInt16} (h : 0 ∉ chars) :
    strSize (charBytes chars ++ [0, 0]) = some (charBytes chars ++ [0, 0]).length := by
  induction chars with
  | nil => rfl
  | cons c chars ih =>
    rw [List.mem_cons, not_or] at h
    have hc : ¬(UInt8.ofNat c.toNat = 0 ∧ UInt8.ofNat (c.toNat / 256) = 0) := by
      rintro ⟨hlow, hhigh⟩
      have hlt := c.toNat_lt
      have hlow' := congrArg UInt8.toNat hlow
      have hhig' := congrArg UInt8.toNat hhigh
      rw [UInt8.toNat_ofNat', UInt8.toNat_zero] at hlow' hhig'
      refine h.1 (UInt16.toNat_inj.mp ?_)
      rw [UInt16.toNat_zero]
      omega
    have hcons : charBytes (c :: chars) ++ [0, 0] = UInt8.ofNat c.toNat ::
        UInt8.ofNat (c.toNat / 256) :: (charBytes chars ++ [0, 0]) := rfl
    rw [hcons, strSize, if_neg hc, ih h.2]
    rfl

lemma Name.strSize_bytes (name : Name) : strSize name.bytes = some name.bytes.length :=
  strSize_charBytes name.noNul

lemma Name.length_pos (name : Name) : 0 < name.bytes.length := by
  simp [Name.bytes]

/-- A variable of a caller; it fits in memory. -/
structure Variable where
  name : Name
  guid : Guid
  attributes : UInt32
  data : List Byte
  fits : name.bytes.length + data.length < 2 ^ 60

/-- The sizes fit in 32 bits. -/
def Variable.Small (v : Variable) : Prop :=
  v.name.bytes.length < 2 ^ 32 ∧ v.data.length < 2 ^ 32

/-- What is appended for a variable. -/
def Variable.encode (v : Variable) : List Byte :=
  field 4 (u32 v.name.bytes.length) ++ (v.name.bytes.take (u32 v.name.bytes.length) ++
    (v.guid.bytes ++ (field 4 v.attributes.toNat ++ (field 4 (u32 v.data.length) ++ v.data))))

def SvInstance.add (p : Pool) (i : SvInstance) (v : Variable) :
    Option (EfiStatus × SvInstance × Pool) :=
  serializeVariablesAddVariable p i v.name.bytes v.guid v.attributes v.data

lemma u32_le (n : ℕ) : u32 n ≤ n := Nat.mod_le _ _

lemma Variable.length_encode (v : Variable) :
    v.encode.length = 28 + u32 v.name.bytes.length + v.data.length := by
  have hle := u32_le v.name.bytes.length
  have hguid := v.guid.length_bytes
  simp only [Variable.encode, List.length_append, length_field, List.length_take]
  omega

/-- The instance holds a string of bytes. -/
structure Holds (i : SvInstance) (content : List Byte) : Prop where
  serialized : i.serialized = content
  dataSize : i.dataSize = content.length
  le : i.dataSize ≤ i.bufferSize
  bufferPtr : i.bufferSize ≠ 0 → i.bufferPtr.isSome

lemma holds_fresh : Holds .fresh [] := ⟨rfl, rfl, le_rfl, fun h => absurd rfl h⟩

lemma Holds.append (data : List Byte) (h : Holds i content) (hbuf : i.bufferPtr.isSome)
    (hroom : content.length + data.length ≤ i.bufferSize) (hlt : i.bufferSize < 2 ^ 64) :
    ∃ i', appendToBuffer i data = some i' ∧ Holds i' (content ++ data) ∧
      i'.bufferSize = i.bufferSize ∧ i'.bufferPtr.isSome := by
  obtain ⟨buffer, hptr⟩ := Option.isSome_iff_exists.mp hbuf
  have hsize := h.dataSize
  have hu64 : u64 (i.dataSize + data.length) = i.dataSize + data.length := u64_of_lt (by omega)
  have hser := h.serialized
  unfold SvInstance.serialized at hser
  rw [hptr] at hser
  dsimp only at hser
  unfold appendToBuffer
  dsimp only
  rw [hu64, if_pos (by omega), hptr]
  refine ⟨_, rfl, ⟨?_, ?_, ?_, fun _ => rfl⟩, rfl, rfl⟩
  · show bytesAt (writeBytes buffer i.dataSize data) 0 (i.dataSize + data.length) = content ++ data
    rw [bytesAt_add, bytesAt_writeBytes_of_apart (Or.inl (by omega)), hser, Nat.zero_add,
      bytesAt_writeBytes_self]
  · simp [List.length_append, hsize]
  · show i.dataSize + data.length ≤ i.bufferSize
    omega

lemma Holds.ensure (p : Pool) (size : ℕ) (h : Holds i content) (hpos : 0 < size)
    (hlt : content.length + size < 2 ^ 63) :
    (ensureExtraBufferSpace p i size = (.outOfResources, i, p.next) ∧
      p 0 (2 * (content.length + size)) = none) ∨
      ∃ i', (ensureExtraBufferSpace p i size = (.success, i', p) ∨
          ensureExtraBufferSpace p i size = (.success, i', p.next)) ∧ Holds i' content ∧
        i'.bufferPtr.isSome ∧ content.length + size ≤ i'.bufferSize ∧
        (i'.bufferSize = i.bufferSize ∨ i'.bufferSize = 2 * (content.length + size) ∧
          (p 0 (2 * (content.length + size))).isSome) := by
  have hsize := h.dataSize
  have hu64 : u64 (i.dataSize + size) = content.length + size := by
    rw [hsize]
    exact u64_of_lt (by omega)
  have hdou : u64 (2 * (content.length + size)) = 2 * (content.length + size) :=
    u64_of_lt (by omega)
  unfold ensureExtraBufferSpace
  dsimp only
  rw [hu64, hdou]
  by_cases hroom : content.length + size ≤ i.bufferSize
  · rw [if_pos hroom]
    exact Or.inr ⟨i, Or.inl rfl, h, h.bufferPtr (by omega), hroom, Or.inl rfl⟩
  · rw [if_neg hroom]
    cases hans : p 0 (2 * (content.length + size)) with
    | none => exact Or.inl ⟨rfl, rfl⟩
    | some newBuffer =>
      refine Or.inr ⟨_, Or.inr rfl, ⟨?_, hsize, ?_, fun _ => rfl⟩, rfl, ?_, Or.inr ⟨rfl, rfl⟩⟩
      · have hser := h.serialized
        unfold SvInstance.serialized at hser ⊢
        cases hptr : i.bufferPtr with
        | none =>
          simp [hptr, ← hser, List.length_nil, hsize]
        | some buffer =>
          rw [hptr] at hser
          dsimp only at hser ⊢
          have hself : bytesAt (writeBytes newBuffer 0 (bytesAt buffer 0 i.dataSize)) 0
              (bytesAt buffer 0 i.dataSize).length = bytesAt buffer 0 i.dataSize :=
            bytesAt_writeBytes_self
          rw [length_bytesAt] at hself
          rw [hself, hser]
      · show i.dataSize ≤ 2 * (content.length + size)
        omega
      · show content.length + size ≤ 2 * (content.length + size)
        omega

lemma Holds.add (p : Pool) (v : Variable) (h : Holds i content)
    (hlt : content.length + v.encode.length < 2 ^ 62) (hbuf : i.bufferSize < 2 ^ 63) :
    (i.add p v = some (.outOfResources, i, p.next) ∧
      p 0 (2 * (content ++ v.encode).length) = none) ∨
      ∃ i', (i.add p v = some (.success, i', p) ∨ i.add p v = some (.success, i', p.next)) ∧
        Holds i' (content ++ v.encode) ∧
        (i'.bufferSize = i.bufferSize ∨ i'.bufferSize = 2 * (content ++ v.encode).length ∧
          (p 0 (2 * (content ++ v.encode).length)).isSome) := by
  have henc := v.length_encode
  have hle := u32_le v.name.bytes.length
  have hguid := v.guid.length_bytes
  have hser : u64 (4 + u32 v.name.bytes.length + 16 + 4 + 4 + v.data.length) =
      v.encode.length := by
    rw [henc, u64_of_lt (by omega)]
    omega
  unfold SvInstance.add serializeVariablesAddVariable
  rw [v.name.strSize_bytes, List.length_append]
  dsimp only [Option.bind_eq_bind, Option.bind_some]
  rw [hser]
  rcases h.ensure p v.encode.length (by omega) (by omega) with
    ⟨hens, hnone⟩ | ⟨i₁, hens, hhol, hptr, hroom, hgro⟩
  · rw [hens]
    exact Or.inl ⟨rfl, hnone⟩
  · refine Or.inr ?_
    have hlt₁ : i₁.bufferSize < 2 ^ 64 := by omega
    obtain ⟨i₂, hi₂, h₂, hs₂, hp₂⟩ := hhol.append (field 4 (u32 v.name.bytes.length)) hptr
      (by rw [length_field]; omega) hlt₁
    obtain ⟨i₃, hi₃, h₃, hs₃, hp₃⟩ := h₂.append (v.name.bytes.take (u32 v.name.bytes.length)) hp₂
      (by rw [List.length_append, length_field, List.length_take, hs₂]; omega) (by omega)
    obtain ⟨i₄, hi₄, h₄, hs₄, hp₄⟩ := h₃.append v.guid.bytes hp₃
      (by rw [List.length_append, List.length_append, length_field, List.length_take, hs₃]; omega)
      (by omega)
    obtain ⟨i₅, hi₅, h₅, hs₅, hp₅⟩ := h₄.append (field 4 v.attributes.toNat) hp₄
      (by simp only [List.length_append, length_field, List.length_take, hs₄]; omega) (by omega)
    obtain ⟨i₆, hi₆, h₆, hs₆, hp₆⟩ := h₅.append (field 4 (u32 v.data.length)) hp₅
      (by simp only [List.length_append, length_field, List.length_take, hs₅]; omega) (by omega)
    obtain ⟨i₇, hi₇, h₇, hs₇, hp₇⟩ := h₆.append v.data hp₆
      (by simp only [List.length_append, length_field, List.length_take, hs₆]; omega) (by omega)
    have hall : content ++ field 4 (u32 v.name.bytes.length) ++
        v.name.bytes.take (u32 v.name.bytes.length) ++ v.guid.bytes ++
        field 4 v.attributes.toNat ++ field 4 (u32 v.data.length) ++ v.data =
        content ++ v.encode := by simp [Variable.encode]
    rw [hall] at h₇
    have hsize : i₇.bufferSize = i₁.bufferSize := by omega
    refine ⟨i₇, ?_, h₇, by rwa [hsize]⟩
    rcases hens with hens | hens
    · simp [hens, hi₂, hi₃, hi₄, hi₅, hi₆, hi₇, EfiStatus.isError]
    · simp [hens, hi₂, hi₃, hi₄, hi₅, hi₆, hi₇, EfiStatus.isError]

lemma Variable.encode_of_small {v : Variable} (h : v.Small) :
    v.encode = field 4 v.name.bytes.length ++ (v.name.bytes ++ (v.guid.bytes ++
      (field 4 v.attributes.toNat ++ (field 4 v.data.length ++ v.data)))) := by
  unfold Variable.encode
  rw [u32_of_lt h.1, u32_of_lt h.2, List.take_length]

lemma unpack_encode {v : Variable} {buffer : ℕ → Byte} {maxSize : ℕ} (hsma : v.Small)
    (hbuf : bytesAt buffer 0 v.encode.length = v.encode) (hmax : v.encode.length ≤ maxSize) :
    unpackVariableFromBuffer buffer maxSize =
      .ok ⟨v.name.bytes, v.guid, v.attributes, v.data, v.encode.length⟩ := by
  have hlen := v.length_encode
  rw [u32_of_lt hsma.1] at hlen
  rw [Variable.encode_of_small hsma] at hbuf
  obtain ⟨hnam, hbuf⟩ := bytesAt_eq_append.mp hbuf
  obtain ⟨hname, hbuf⟩ := bytesAt_eq_append.mp hbuf
  obtain ⟨hguid, hbuf⟩ := bytesAt_eq_append.mp hbuf
  obtain ⟨hatt, hbuf⟩ := bytesAt_eq_append.mp hbuf
  obtain ⟨hdat, hdata⟩ := bytesAt_eq_append.mp hbuf
  simp only [length_field, v.guid.length_bytes, Nat.zero_add] at hnam hname hguid
  simp only [length_field, v.guid.length_bytes, Nat.zero_add] at hatt hdat hdata
  have hnameV : fieldValue (bytesAt buffer 0 4) = v.name.bytes.length := by
    rw [hnam, fieldValue_field]
    exact Nat.mod_eq_of_lt hsma.1
  have hdataV : fieldValue (bytesAt buffer (4 + v.name.bytes.length + 20) 4) =
      v.data.length := by
    rw [show 4 + v.name.bytes.length + 20 = 4 + v.name.bytes.length + 16 + 4 by omega, hdat,
      fieldValue_field]
    exact Nat.mod_eq_of_lt hsma.2
  have hattr : UInt32.ofNat
      (fieldValue (bytesAt buffer (4 + v.name.bytes.length + 16) 4)) = v.attributes := by
    rw [hatt, fieldValue_field]
    apply UInt32.toNat_inj.mp
    have hlt := v.attributes.toNat_lt
    rw [UInt32.toNat_ofNat']
    omega
  unfold unpackVariableFromBuffer
  dsimp only
  rw [hnameV, hdataV, if_neg (by omega), if_neg (by omega), if_neg (by omega),
    if_neg (by omega), if_neg (by omega), if_neg (by omega)]
  congr 1
  rw [Unpacked.mk.injEq]
  refine ⟨hname, ?_, hattr, ?_, by omega⟩
  · exact Guid.ext hguid
  · rw [show 4 + v.name.bytes.length + 24 = 4 + v.name.bytes.length + 16 + 4 + 4 by omega, hdata]

/-- There is always memory. -/
def Pool.Answers (p : Pool) : Prop := ∀ n size, (p n size).isSome

lemma Pool.Answers.next (h : p.Answers) : p.next.Answers := fun n size => h (n + 1) size

/-- The callback is called for each variable, until it fails. -/
def callAll (callback : Callback σ) : List Variable → σ → Pool → Option (EfiStatus × σ × Pool)
  | [], context, p => some (.success, context, p)
  | v :: vs, context, p => do
    let (status, context, p) ←
      callback context p.next v.name.bytes v.guid v.attributes v.data
    if status.isError then
      some (if vs = [] then .success else .invalidParameter, context, p)
    else callAll callback vs context p

/-- The bytes of variables, one behind the other. -/
def encodeAll (vs : List Variable) : List Byte := (vs.map Variable.encode).flatten

lemma encodeAll_eq_nil {vs : List Variable} : (encodeAll vs).length = 0 ↔ vs = [] := by
  cases vs with
  | nil => exact iff_of_true rfl rfl
  | cons v vs =>
    have hlen := v.length_encode
    simp only [encodeAll, List.map_cons, List.flatten_cons, List.length_append]
    refine iff_of_false (by omega) (by simp)

lemma iterateLoop_eq {callback : Callback σ} {vs : List Variable} {buffer : ℕ → Byte}
    {total maxSize fuel : ℕ} {aligned : Option (List Byte)} {context : σ}
    (hcal : ∀ {context p name guid attributes data status context' p'}, p.Answers →
      callback context p name guid attributes data = some (status, context', p') → p'.Answers)
    (hsma : ∀ v ∈ vs, v.Small)
    (hbuf : bytesAt buffer total (encodeAll vs).length = encodeAll vs)
    (hmax : maxSize = total + (encodeAll vs).length) (hfuel : vs.length < fuel)
    (hp : p.Answers) :
    iterateLoop callback buffer maxSize fuel total aligned context p =
      callAll callback vs context p := by
  induction vs generalizing total fuel aligned context p with
  | nil =>
    obtain ⟨fuel, rfl⟩ : ∃ k, fuel = k + 1 := ⟨fuel - 1, by simp at hfuel; omega⟩
    have hemp : maxSize = total := hmax
    unfold iterateLoop callAll iterateDone
    rw [hemp, if_neg (lt_irrefl _), if_neg (not_not.mpr rfl)]
  | cons v vs ih =>
    have hv := hsma v List.mem_cons_self
    have hcons : encodeAll (v :: vs) = v.encode ++ encodeAll vs := rfl
    have hlen := v.length_encode
    rw [hcons] at hbuf hmax
    rw [List.length_append] at hmax
    obtain ⟨hfst, hrest⟩ := bytesAt_eq_append.mp hbuf
    obtain ⟨fuel, rfl⟩ : ∃ k, fuel = k + 1 := ⟨fuel - 1, by simp at hfuel; omega⟩
    have hshi : bytesAt (fun a => buffer (total + a)) 0 v.encode.length = v.encode := by
      rw [← hfst]
      unfold bytesAt
      simp
    obtain ⟨answer, hans⟩ := Option.isSome_iff_exists.mp (hp 0 v.name.bytes.length)
    unfold iterateLoop callAll
    rw [if_pos (by omega), unpack_encode hv hshi (by omega)]
    dsimp only
    rw [if_pos v.name.length_pos, hans]
    dsimp only [Option.map_some]
    cases hcall : callback context p.next v.name.bytes v.guid v.attributes v.data with
    | none => rfl
    | some result =>
      obtain ⟨status, context', p'⟩ := result
      dsimp only [Option.bind_eq_bind, Option.bind_some]
      cases hst : status.isError with
      | true =>
        grind [encodeAll_eq_nil, iterateDone]
      | false =>
        rw [if_neg Bool.false_ne_true, if_neg Bool.false_ne_true]
        refine ih (fun w hw => hsma w (List.mem_cons_of_mem _ hw)) hrest (by omega) ?_
          (hcal hp.next hcall)
        rw [List.length_cons] at hfuel
        omega

lemma length_encodeAll_le {vs : List Variable} : vs.length ≤ (encodeAll vs).length := by
  induction vs with
  | nil => exact le_rfl
  | cons v vs ih =>
    have hlen := v.length_encode
    have hcons : encodeAll (v :: vs) = v.encode ++ encodeAll vs := rfl
    rw [hcons, List.length_append, List.length_cons]
    omega

lemma callAll_setInInstance (vs : List Variable) (h : Holds i content) (hp : p.Answers)
    (hlt : (content ++ encodeAll vs).length < 2 ^ 60) (hbuf : i.bufferSize < 2 ^ 62) :
    ∃ i' p', callAll iterateVariablesCallbackSetInInstance vs i p = some (.success, i', p') ∧
      Holds i' (content ++ encodeAll vs) ∧ p'.Answers := by
  induction vs generalizing i content p with
  | nil =>
    refine ⟨i, p, rfl, ?_, hp⟩
    rw [encodeAll, List.map_nil, List.flatten_nil, List.append_nil]
    exact h
  | cons v vs ih =>
    have hcons : encodeAll (v :: vs) = v.encode ++ encodeAll vs := rfl
    rw [hcons, ← List.append_assoc] at hlt ⊢
    have hlt' := hlt
    rw [List.length_append, List.length_append] at hlt'
    unfold callAll iterateVariablesCallbackSetInInstance
    rcases h.add p.next v (by omega) (by omega) with
      ⟨-, hnone⟩ | ⟨i₁, hadd, hhol, hsize⟩
    · have hsome := hp.next 0 (2 * (content ++ v.encode).length)
      rw [hnone] at hsome
      cases hsome
    · have hbuf₁ : i₁.bufferSize < 2 ^ 62 := by
        rcases hsize with hsize | ⟨hsize, -⟩
        · omega
        · rw [hsize, List.length_append]
          omega
      rcases hadd with hadd | hadd
      · change serializeVariablesAddVariable _ _ _ _ _ _ = _ at hadd
        rw [hadd]
        exact ih hhol hp.next hlt hbuf₁
      · change serializeVariablesAddVariable _ _ _ _ _ _ = _ at hadd
        rw [hadd]
        exact ih hhol hp.next.next hlt hbuf₁

lemma Pool.Answers.ensure {size : ℕ} (h : p.Answers) :
    (ensureExtraBufferSpace p i size).2.2.Answers := by
  unfold ensureExtraBufferSpace
  dsimp only
  split_ifs
  · exact h
  · cases p 0 (u64 (2 * u64 (i.dataSize + size))) <;> exact h.next

lemma Pool.Answers.addVariable {name : List Byte} {guid : Guid} {attributes : UInt32}
    {status : EfiStatus} (h : p.Answers)
    (hadd : serializeVariablesAddVariable p i name guid attributes data = some (status, i', p')) :
    p'.Answers := by
  obtain ⟨nameSize, -, hadd⟩ := Option.bind_eq_some_iff.mp hadd
  dsimp only at hadd
  split_ifs at hadd
  · cases hadd
    exact h.ensure
  · obtain ⟨i₁, -, hadd⟩ := Option.bind_eq_some_iff.mp hadd
    obtain ⟨i₂, -, hadd⟩ := Option.bind_eq_some_iff.mp hadd
    obtain ⟨i₃, -, hadd⟩ := Option.bind_eq_some_iff.mp hadd
    obtain ⟨i₄, -, hadd⟩ := Option.bind_eq_some_iff.mp hadd
    obtain ⟨i₅, -, hadd⟩ := Option.bind_eq_some_iff.mp hadd
    obtain ⟨i₆, -, hadd⟩ := Option.bind_eq_some_iff.mp hadd
    cases hadd
    exact h.ensure

lemma newInstance_of_small {vs : List Variable} {buffer : ℕ → Byte} (hsma : ∀ v ∈ vs, v.Small)
    (hlt : (encodeAll vs).length < 2 ^ 60)
    (hbuf : bytesAt buffer 0 (encodeAll vs).length = encodeAll vs) (hq : q.Answers) :
    ∃ i q', serializeVariablesNewInstanceFromBuffer q buffer (encodeAll vs).length =
      some (.success, some i, q') ∧ Holds i (encodeAll vs) ∧ q'.Answers := by
  have hfuel : vs.length < (encodeAll vs).length + 1 := Nat.lt_succ_of_le length_encodeAll_le
  obtain ⟨answer, hans⟩ := Option.isSome_iff_exists.mp (hq 0 32)
  have hnop : ∀ (ws : List Variable) {q : Pool}, q.Answers → ∃ q',
      callAll iterateVariablesCallbackNop ws () q = some (.success, (), q') ∧ q'.Answers := by
    intro ws
    induction ws with
    | nil => exact fun {q} hq => ⟨q, rfl, hq⟩
    | cons w ws ih => exact fun hq => ih hq.next
  obtain ⟨q₁, hche, hq₁⟩ := hnop vs hq.next
  obtain ⟨i, q₂, hset, hhol, hq₂⟩ :=
    callAll_setInInstance vs holds_fresh hq₁ (by rwa [List.nil_append]) (by decide)
  have hloop : iterateLoop iterateVariablesCallbackSetInInstance buffer (encodeAll vs).length
      ((encodeAll vs).length + 1) 0 none .fresh q₁ =
      callAll iterateVariablesCallbackSetInInstance vs .fresh q₁ :=
    iterateLoop_eq (fun hp hcall => hp.addVariable hcall) hsma hbuf (Nat.zero_add _).symm hfuel hq₁
  refine ⟨i, q₂, ?_, hhol, hq₂⟩
  unfold serializeVariablesNewInstanceFromBuffer serializeVariablesNewInstance
    iterateVariablesInBuffer
  rw [hans]
  dsimp only
  rw [iterateLoop_eq (fun hp hcall => by cases hcall; exact hp) hsma hbuf (Nat.zero_add _).symm
    hfuel hq.next, hche]
  dsimp only [Option.bind_eq_bind, Option.bind_some]
  rw [if_neg (by decide), hloop, hset]
  rfl

/-! ### What the callback sees -/

/-- The arguments of a callback. -/
structure Call where
  name : List Byte
  guid : Guid
  attributes : UInt32
  data : List Byte

def Variable.call (v : Variable) : Call := ⟨v.name.bytes, v.guid, v.attributes, v.data⟩

/-- The callback that keeps its arguments. -/
def record : Callback (List Call) := fun calls p name guid attributes data =>
  some (.success, calls ++ [⟨name, guid, attributes, data⟩], p)

lemma callAll_record {vs : List Variable} {calls : List Call} (hp : p.Answers) :
    ∃ p', callAll record vs calls p = some (.success, calls ++ vs.map Variable.call, p') := by
  induction vs generalizing calls p with
  | nil =>
    refine ⟨p, ?_⟩
    rw [List.map_nil, List.append_nil]
    rfl
  | cons v vs ih =>
    obtain ⟨p', hcal⟩ : ∃ p', callAll record vs (calls ++ [v.call]) p.next =
      some (.success, calls ++ [v.call] ++ vs.map Variable.call, p') := ih hp.next
    refine ⟨p', ?_⟩
    rw [List.map_cons, List.append_cons]
    exact hcal

/-- The sizes of what a callback gets have 32 bits. -/
def Call.Small (c : Call) : Prop := c.name.length < 2 ^ 32 ∧ c.data.length < 2 ^ 32

lemma unpack_small {buffer : ℕ → Byte} {maxSize : ℕ} {u : Unpacked}
    (h : unpackVariableFromBuffer buffer maxSize = .ok u) :
    u.name.length < 2 ^ 32 ∧ u.data.length < 2 ^ 32 := by
  have hval : ∀ offset, fieldValue (bytesAt buffer offset 4) < 2 ^ 32 := by
    intro offset
    have hlt := fieldValue_lt (bytesAt buffer offset 4)
    rwa [length_bytesAt] at hlt
  unfold unpackVariableFromBuffer at h
  dsimp only at h
  split_ifs at h
  cases h
  constructor
  · rw [length_bytesAt]
    exact hval _
  · rw [length_bytesAt]
    exact hval _

lemma iterateLoop_small {buffer : ℕ → Byte} {maxSize fuel total : ℕ}
    {aligned : Option (List Byte)} {calls calls' : List Call} {status : EfiStatus}
    (hali : ∀ name, aligned = some name → name.length < 2 ^ 32)
    (hcal : ∀ c ∈ calls, c.Small)
    (hloop : iterateLoop record buffer maxSize fuel total aligned calls p =
      some (status, calls', p')) : ∀ c ∈ calls', c.Small := by
  induction fuel generalizing total aligned calls p with
  | zero => cases hloop
  | succ fuel ih =>
    unfold iterateLoop at hloop
    split_ifs at hloop with hmore
    · cases hunp : unpackVariableFromBuffer (fun a => buffer (total + a)) (maxSize - total) with
      | error refusal =>
        rw [hunp] at hloop
        cases hloop
        exact hcal
      | ok u =>
        obtain ⟨hname, hdata⟩ := unpack_small hunp
        rw [hunp] at hloop
        dsimp only at hloop
        obtain ⟨⟨aligned₁, p₁⟩, hpair⟩ : ∃ r, r = (if 0 < u.name.length then
          ((p 0 u.name.length).map fun _ => u.name, p.next) else (aligned, p)) := ⟨_, rfl⟩
        rw [← hpair] at hloop
        dsimp only at hloop
        cases aligned₁ with
        | none =>
          cases hloop
          exact hcal
        | some name =>
          have hlt : name.length < 2 ^ 32 := by
            split_ifs at hpair with hpos
            · obtain ⟨hsome, -⟩ := Prod.mk.inj hpair
              obtain ⟨answer, -, rfl⟩ := Option.map_eq_some_iff.mp hsome.symm
              exact hname
            · grind
          refine ih (fun name' heq => ?_) (fun c hc => ?_) hloop
          · obtain rfl := Option.some.inj heq
            exact hlt
          · rcases List.mem_append.mp hc with hold | hnew
            · exact hcal c hold
            · obtain rfl := List.mem_singleton.mp hnew
              exact ⟨hlt, hdata⟩
    · cases hloop
      exact hcal

/-- There is less memory than 2 ^ 60 bytes. -/
def Pool.Limited (p : Pool) : Prop := ∀ n size, 2 ^ 60 ≤ size → p n size = none

/-- The instances that callers can make, and the variables that were added. -/
inductive Reaches : SvInstance → List Variable → Prop
  | fresh : Reaches .fresh []
  | added {i i' : SvInstance} {vs : List Variable} {v : Variable} {p p' : Pool}
      (h : Reaches i vs) (hp : p.Limited) (hadd : i.add p v = some (.success, i', p')) :
      Reaches i' (vs ++ [v])
  | failed {i i' : SvInstance} {vs : List Variable} {v : Variable} {p p' : Pool}
      {status : EfiStatus} (h : Reaches i vs) (hp : p.Limited)
      (hadd : i.add p v = some (status, i', p')) (hstatus : status.isError = true) : Reaches i' vs

lemma Holds.add_limited {v : Variable} (h : Holds i content) (hbuf : i.bufferSize < 2 ^ 60)
    (hp : p.Limited) :
    i.add p v = some (.outOfResources, i, p.next) ∨
      ∃ i' p', i.add p v = some (.success, i', p') ∧ Holds i' (content ++ v.encode) ∧
        i'.bufferSize < 2 ^ 60 := by
  have hle := h.le
  have hsize := h.dataSize
  have henc := v.length_encode
  have hname := u32_le v.name.bytes.length
  have hfits := v.fits
  rcases h.add p v (by omega) (by omega) with ⟨hadd, -⟩ | ⟨i', hadd, hhol, hgro⟩
  · exact Or.inl hadd
  · have hlt : i'.bufferSize < 2 ^ 60 := by
      rcases hgro with hsame | ⟨hnew, hsome⟩
      · omega
      · by_contra hge
        rw [hp 0 _ (by omega)] at hsome
        cases hsome
    rcases hadd with hadd | hadd
    · exact Or.inr ⟨_, _, hadd, hhol, hlt⟩
    · exact Or.inr ⟨_, _, hadd, hhol, hlt⟩

lemma Reaches.holds {vs : List Variable} (h : Reaches i vs) :
    Holds i (encodeAll vs) ∧ i.bufferSize < 2 ^ 60 := by
  induction h with
  | fresh => exact ⟨holds_fresh, by decide⟩
  | @added i i' vs v p p' _ hp hadd ih =>
    rcases ih.1.add_limited (v := v) ih.2 hp with hfail | ⟨i₁, p₁, hsuc, hhol, hlt⟩
    · rw [hfail] at hadd
      cases hadd
    · grind [encodeAll]
  | @failed i i' vs v p p' status _ hp hadd hst ih =>
    rcases ih.1.add_limited (v := v) ih.2 hp with hfail | ⟨i₁, p₁, hsuc, -⟩
    · rw [hfail] at hadd
      cases hadd
      exact ih
    · rw [hsuc] at hadd
      cases hadd
      cases hst

/-! ### Results -/

/-- The variables are read back from the bytes of the instance, and serialized again. -/
def RoundTrips (i : SvInstance) (vs : List Variable) (q : Pool) : Prop :=
  ∃ bytes, serializeVariablesToBuffer i i.dataSize = (.success, i.dataSize, bytes) ∧
    ∀ buffer, bytesAt buffer 0 i.dataSize = bytes → ∃ new q',
      serializeVariablesNewInstanceFromBuffer q buffer i.dataSize = some (.success, some new, q') ∧
      (∃ q'', serializeVariablesIterateInstanceVariables new record [] q' =
        some (.success, vs.map Variable.call, q'')) ∧
      serializeVariablesToBuffer new new.dataSize = (.success, i.dataSize, bytes)

structure Correct (i : SvInstance) (vs : List Variable) (q : Pool) : Prop where
  /-- The `ASSERT` of `AppendToBuffer` does not fire. -/
  capacity : ∀ p v, p.Limited → (i.add p v).isSome
  failure : ∀ p v status i' p', p.Limited → i.add p v = some (status, i', p') →
    status.isError = true → i'.serialized = i.serialized
  roundTrips : RoundTrips i vs q

lemma RoundTrips.small {vs : List Variable} (h : RoundTrips i vs q)
    (hsome : ∃ buffer, bytesAt buffer 0 i.dataSize = (serializeVariablesToBuffer i i.dataSize).2.2) :
    ∀ v ∈ vs, v.Small := by
  obtain ⟨bytes, hto, hfrom⟩ := h
  obtain ⟨buffer, hbuf⟩ := hsome
  rw [hto] at hbuf
  obtain ⟨new, q', -, ⟨q'', hcal⟩, -⟩ := hfrom buffer hbuf
  have hsma : ∀ c ∈ vs.map Variable.call, c.Small := by
    unfold serializeVariablesIterateInstanceVariables at hcal
    cases hptr : new.bufferPtr with
    | none =>
      grind
    | some newBuffer =>
      rw [hptr] at hcal
      dsimp only at hcal
      split_ifs at hcal with hemp
      · exact iterateLoop_small (fun name hname => by cases hname) (fun c hc => by cases hc) hcal
      · grind
  exact fun v hv => hsma v.call (List.mem_map_of_mem hv)

lemma Reaches.roundTrips {vs : List Variable} (h : Reaches i vs) (hq : q.Answers)
    (hsma : ∀ v ∈ vs, v.Small) : RoundTrips i vs q := by
  obtain ⟨hhol, hlt⟩ := h.holds
  have hle := hhol.le
  have hsize := hhol.dataSize
  have hto : ∀ {j : SvInstance}, Holds j (encodeAll vs) →
      serializeVariablesToBuffer j j.dataSize = (.success, i.dataSize, encodeAll vs) := by
    intro j hj
    unfold serializeVariablesToBuffer
    rw [if_neg (lt_irrefl _), hj.serialized, hj.dataSize, hsize]
  refine ⟨encodeAll vs, hto hhol, fun buffer hbuf => ?_⟩
  rw [hsize] at hbuf
  obtain ⟨new, q', hnew, hhol', hq'⟩ := newInstance_of_small hsma (by omega) hbuf hq
  refine ⟨new, q', by rw [hsize]; exact hnew, ?_, hto hhol'⟩
  unfold serializeVariablesIterateInstanceVariables
  have hsiz' := hhol'.dataSize
  have hser := hhol'.serialized
  unfold SvInstance.serialized at hser
  obtain ⟨q'', hcal⟩ : ∃ q'', callAll record vs [] q' =
    some (.success, vs.map Variable.call, q'') := callAll_record hq'
  cases hptr : new.bufferPtr with
  | none =>
    grind [encodeAll_eq_nil, List.length_nil]
  | some newBuffer =>
    rw [hptr] at hser
    dsimp only at hser ⊢
    split_ifs with hemp
    · rw [hsiz'] at hser
      refine ⟨q'', ?_⟩
      unfold iterateVariablesInBuffer
      rw [hsiz', iterateLoop_eq (fun hp hcall => by cases hcall; exact hp) hsma hser
        (Nat.zero_add _).symm (Nat.lt_succ_of_le length_encodeAll_le) hq', hcal]
    · grind [encodeAll_eq_nil]

lemma exists_buffer (i : SvInstance) (h : Holds i content) :
    ∃ buffer, bytesAt buffer 0 i.dataSize = (serializeVariablesToBuffer i i.dataSize).2.2 := by
  refine ⟨writeBytes (fun _ => 0) 0 content, ?_⟩
  unfold serializeVariablesToBuffer
  rw [if_neg (lt_irrefl _), h.serialized, h.dataSize, bytesAt_writeBytes_self]

/-- Variables are read back exactly if their sizes have 32 bits. -/
theorem correct_iff_small {vs : List Variable} (h : Reaches i vs) (hq : q.Answers) :
    Correct i vs q ↔ ∀ v ∈ vs, v.name.bytes.length < 2 ^ 32 ∧ v.data.length < 2 ^ 32 := by
  obtain ⟨hholds, hlt⟩ := h.holds
  constructor
  · intro hcorrect
    exact hcorrect.roundTrips.small (exists_buffer i hholds)
  · intro hsmall
    refine ⟨fun p v hp => ?_, fun p v status i' p' hp hadd hstatus => ?_, h.roundTrips hq hsmall⟩
    · rcases hholds.add_limited (v := v) hlt hp with hfail | ⟨i₁, p₁, hsuccess, -⟩
      · rw [hfail]
        rfl
      · rw [hsuccess]
        rfl
    · rcases hholds.add_limited (v := v) hlt hp with hfail | ⟨i₁, p₁, hsuccess, -⟩
      · rw [hfail] at hadd
        cases hadd
        rfl
      · rw [hsuccess] at hadd
        cases hadd
        cases hstatus

/-- There is memory, but less than 2 ^ 60 bytes. -/
def smallPool : Pool := fun _ size => if size < 2 ^ 60 then some fun _ => 0 else none

/-- The variable `A` of a GUID of zeros. -/
def variableA (data : List Byte) (h : data.length < 2 ^ 59) : Variable where
  name := ⟨[65], by decide⟩
  guid := ⟨List.replicate 16 0, rfl⟩
  attributes := 7
  data := data
  fits := by
    have hname : (Name.bytes ⟨[65], by decide⟩).length = 4 := rfl
    rw [hname]
    omega

lemma reaches_variableA (data : List Byte) (h : data.length < 2 ^ 58) :
    ∃ i, Reaches i [variableA data (by omega)] := by
  have hp : smallPool.Limited := fun n size hge => if_neg (by omega)
  have hlen := (variableA data (by omega)).length_encode
  have hname : u32 (variableA data (by omega)).name.bytes.length = 4 := rfl
  have hdata : (variableA data (by omega)).data = data := rfl
  rw [hname, hdata] at hlen
  rcases holds_fresh.add smallPool (variableA data (by omega))
    (by rw [List.length_nil]; omega) (by decide) with ⟨-, hnone⟩ | ⟨i, hadd, -⟩
  · rw [List.nil_append] at hnone
    have hsome : smallPool 0 (2 * (variableA data (by omega)).encode.length) =
      some fun _ => 0 := if_pos (by omega)
    rw [hsome] at hnone
    cases hnone
  · rcases hadd with hadd | hadd
    · exact ⟨i, Reaches.fresh.added hp hadd⟩
    · exact ⟨i, Reaches.fresh.added hp hadd⟩

/-- A variable with two bytes of data is read back. -/
theorem correct_iff_small_variableA :
    ∃ i, Reaches i [variableA [1, 2] (by decide)] ∧
      Correct i [variableA [1, 2] (by decide)] fun _ _ => some fun _ => 0 := by
  obtain ⟨i, hi⟩ := reaches_variableA [1, 2] (by decide)
  refine ⟨i, hi, (correct_iff_small hi fun n size => rfl).mpr fun v hv => ?_⟩
  obtain rfl := List.mem_singleton.mp hv
  exact ⟨by decide, by decide⟩

/-- Data of 4 GiB are not read back. -/
theorem not_correct_longData :
    ¬∀ i vs q, Reaches i vs → q.Answers → Correct i vs q := by
  intro h
  obtain ⟨i, hi⟩ := reaches_variableA (List.replicate (2 ^ 32) 0)
    (by rw [List.length_replicate]; decide)
  have hcorrect := h i _ (fun _ _ => some fun _ => 0) hi fun n size => rfl
  have hsmall := hcorrect.roundTrips.small (exists_buffer i hi.holds.1) _ (List.mem_singleton_self _)
  have hlt : (List.replicate (2 ^ 32) (0 : Byte)).length < 2 ^ 32 := hsmall.2
  rw [List.length_replicate] at hlt
  exact lt_irrefl _ hlt

end Edk2.SerializeVariables
