import Edk2.Auth.CertDbFormat

/-!
# Signature lists as lists of signatures

`encodeLists` is the layout of signature lists one after the other. Where such a list stands in the
memory, the fields, the number of signatures and the signatures that are read are its own.
-/

namespace Edk2.Auth

open Variable (Bytes word readBytes)

/-- An `EFI_SIGNATURE_LIST` that holds together: the signatures are of one size that is not zero,
and all sizes fit their fields. -/
structure SignatureList where
  type : List UInt8
  header : List UInt8
  size : ℕ
  signatures : List (List UInt8)
  length_type : type.length = guidSize
  size_pos : 0 < size
  size_lt : size < 2 ^ 32
  length_signature : ∀ signature ∈ signatures, signature.length = size
  total_lt : signatureListHeader + header.length + signatures.length * size < 2 ^ 32

namespace SignatureList

/-- `SignatureListSize`. -/
def total (list : SignatureList) : ℕ :=
  signatureListHeader + list.header.length + list.signatures.length * list.size

/-- The bytes of a list. -/
def bytes (list : SignatureList) : List UInt8 :=
  list.type ++ le32 list.total ++ le32 list.header.length ++ le32 list.size ++ list.header ++
    list.signatures.flatten

lemma length_flatten {size : ℕ} {signatures : List (List UInt8)}
    (h : ∀ signature ∈ signatures, signature.length = size) :
    signatures.flatten.length = signatures.length * size := by
  induction signatures with
  | nil => simp
  | cons signature signatures ih =>
    grind

lemma length_bytes (list : SignatureList) : list.bytes.length = list.total := by
  have htype : list.type.length = 16 := list.length_type
  unfold bytes total signatureListHeader
  simp only [List.length_append, length_le32, length_flatten list.length_signature, htype]

/-- What is read where a list stands. -/
structure Stands (data : Bytes) (offset : ℕ) (list : SignatureList) : Prop where
  type : signatureType data offset = list.type
  listSize : signatureListSize data offset = list.total
  headerSize : signatureHeaderSize data offset = list.header.length
  size : signatureSize data offset = list.size
  header : readBytes data (offset + 20) (8 + list.header.length) =
    le32 list.header.length ++ le32 list.size ++ list.header
  signatures : (List.range list.signatures.length).map (fun i =>
    readBytes data (offset + signatureListHeader + list.header.length + i * list.size) list.size) =
      list.signatures

lemma readBytes_flatten (beyond : Bytes) (front back : List UInt8) {size : ℕ}
    {signatures : List (List UInt8)} (h : ∀ signature ∈ signatures, signature.length = size) :
    (List.range signatures.length).map (fun i =>
      readBytes (pointer beyond (front ++ signatures.flatten ++ back)) (front.length + i * size)
        size) = signatures := by
  induction signatures generalizing front with
  | nil => rfl
  | cons signature signatures ih =>
    rw [List.forall_mem_cons] at h
    rw [List.length_cons, List.range_succ_eq_map, List.map_cons, List.map_map]
    congr 1
    · have hread := readBytes_pointer beyond front signature (signatures.flatten ++ back)
      rw [h.1] at hread
      rw [Nat.zero_mul, Nat.add_zero, List.flatten_cons]
      simpa [List.append_assoc] using hread
    · have hrest := ih (front ++ signature) h.2
      refine Eq.trans (List.map_congr_left fun i _ => ?_) hrest
      rw [Function.comp_apply, List.length_append, h.1, List.flatten_cons, Nat.succ_mul,
        Nat.add_assoc, Nat.add_comm size]
      simp only [List.append_assoc]

lemma stands_pointer (beyond : Bytes) (front back : List UInt8) (list : SignatureList) :
    Stands (pointer beyond (front ++ list.bytes ++ back)) front.length list := by
  have htype : list.type.length = 16 := list.length_type
  have htot : list.total < 2 ^ 32 := list.total_lt
  have hhdr : list.header.length < 2 ^ 32 := by
    unfold total at htot
    omega
  -- each field stands between what comes before it and what comes after it
  constructor
  · grind [bytes, signatureType, List.append_assoc, readBytes_pointer]
  · grind [bytes, signatureListSize, List.append_assoc, word_pointer]
  · have h := word_pointer beyond (front ++ list.type ++ le32 list.total)
      (le32 list.size ++ list.header ++ list.signatures.flatten ++ back) hhdr
    simpa [bytes, signatureHeaderSize, htype, List.append_assoc, Nat.add_assoc] using h
  · have h := word_pointer beyond
      (front ++ list.type ++ le32 list.total ++ le32 list.header.length)
      (list.header ++ list.signatures.flatten ++ back) list.size_lt
    simpa [bytes, signatureSize, htype, List.append_assoc, Nat.add_assoc] using h
  · grind [List.length_append, length_le32, bytes, List.append_assoc, Nat.add_assoc,
      readBytes_pointer]
  · have h := readBytes_flatten beyond (front ++ list.type ++ le32 list.total ++
      le32 list.header.length ++ le32 list.size ++ list.header) back list.length_signature
    simp only [List.length_append, length_le32, htype] at h
    simpa [bytes, signatureListHeader, List.append_assoc, Nat.add_assoc] using h

section Counting

variable {data : Bytes} {offset : ℕ} {list : SignatureList}

lemma Stands.signaturesSize (h : Stands data offset list) :
    Auth.signaturesSize data offset = list.signatures.length * list.size := by
  have htot := list.total_lt
  unfold Auth.signaturesSize
  rw [h.listSize, h.headerSize]
  unfold total signatureListHeader at *
  have hsig : sub64 (28 + list.header.length + list.signatures.length * list.size) 28 =
      list.header.length + list.signatures.length * list.size := by
    rw [sub64_of_le (by omega) (by omega)]
    omega
  rw [hsig, sub64_of_le (by omega) (by omega), Nat.add_sub_cancel_left]

lemma Stands.signatureCount (h : Stands data offset list) :
    Auth.signatureCount data offset = .ok list.signatures.length := by
  have hpos := list.size_pos
  unfold Auth.signatureCount
  rw [h.size, if_neg (Nat.ne_of_gt hpos), h.signaturesSize, Nat.mul_div_cancel _ hpos]

lemma Stands.firstSignature (h : Stands data offset list) :
    Auth.firstSignature data offset = offset + signatureListHeader + list.header.length := by
  unfold Auth.firstSignature
  rw [h.headerSize]

end Counting

end SignatureList

/-- The bytes of the lists one after the other. -/
def encodeLists (lists : List SignatureList) : List UInt8 := lists.flatMap SignatureList.bytes

lemma encodeLists_cons (list : SignatureList) (lists : List SignatureList) :
    encodeLists (list :: lists) = list.bytes ++ encodeLists lists := rfl

lemma length_le_encodeLists (lists : List SignatureList) :
    lists.length ≤ (encodeLists lists).length := by
  induction lists with
  | nil => exact le_rfl
  | cons list lists ih =>
    have hlen := list.length_bytes
    rw [encodeLists_cons, List.length_append, List.length_cons]
    unfold SignatureList.total signatureListHeader at hlen
    omega

lemma stands_first (beyond : Bytes) (front : List UInt8) (list : SignatureList)
    (lists : List SignatureList) :
    SignatureList.Stands (pointer beyond (front ++ encodeLists (list :: lists))) front.length
      list := by
  rw [encodeLists_cons, ← List.append_assoc]
  exact SignatureList.stands_pointer beyond front (encodeLists lists) list

end Edk2.Auth
