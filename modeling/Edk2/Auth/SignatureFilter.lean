import Edk2.Auth.SignatureFormat
import Edk2.Lib.Halting

/-!
# The filter for signatures that a variable has

On signature lists that hold together `FilterSignatureList` keeps, list by list and in their order,
the signatures that no list of the variable has under the same type, and drops the lists that are
left without signatures.
-/

namespace Edk2.Auth

open Halting SignatureList
open Variable (Bytes readBytes)

variable {lists old new : List SignatureList} {list : SignatureList} {type signature : List UInt8}

local instance lawfulBEq_bytes : LawfulBEq (List UInt8) := inferInstance

/-- Some list of this type has the signature. -/
def known (lists : List SignatureList) (type signature : List UInt8) : Bool :=
  lists.any fun list => list.type = type ∧ signature ∈ list.signatures

/-- A list with the signatures that pass. -/
def SignatureList.keep (list : SignatureList) (p : List UInt8 → Bool) : SignatureList where
  type := list.type
  header := list.header
  size := list.size
  signatures := list.signatures.filter p
  length_type := list.length_type
  size_pos := list.size_pos
  size_lt := list.size_lt
  length_signature signature h := list.length_signature signature (List.mem_filter.mp h).1
  total_lt := by
    have hle := Nat.mul_le_mul_right list.size (List.length_filter_le p list.signatures)
    have htotal := list.total_lt
    omega

/-- What is left of the lists. -/
def filterLists (old new : List SignatureList) : List SignatureList :=
  (new.map fun list => list.keep fun signature => !known old list.type signature).filter
    fun list => list.signatures ≠ []

lemma filterLists_cons :
    filterLists old (list :: new) =
      if (list.keep fun signature => !known old list.type signature).signatures = [] then
        filterLists old new
      else (list.keep fun signature => !known old list.type signature) :: filterLists old new := by
  simp [List.map_cons, List.filter_cons, filterLists]

/-- The signatures of the lists, each with the type and the header of its list. -/
def signatureEntries (lists : List SignatureList) : List (List UInt8 × List UInt8 × List UInt8) :=
  lists.flatMap fun list => list.signatures.map fun signature =>
    (list.type, list.header, signature)

lemma hasSignature_iff {data : Bytes} {offset : ℕ} (h : Stands data offset list) :
    hasSignature data (Auth.firstSignature data offset) (Auth.signatureSize data offset)
      list.signatures.length signature = decide (signature ∈ list.signatures) := by
  have hread := h.signatures
  unfold hasSignature
  rw [h.firstSignature, h.size, Bool.eq_iff_iff, List.any_eq_true, decide_eq_true_iff]
  conv_rhs => rw [← hread, List.mem_map]
  simp only [decide_eq_true_eq]

lemma isNewCert_eq (beyond : Bytes) (front : List UInt8) (lists : List SignatureList) {fuel : ℕ}
    (hfuel : lists.length < fuel) :
    isNewCert (pointer beyond (front ++ encodeLists lists)) type signature fuel front.length
      (encodeLists lists).length = .ok (!known lists type signature) := by
  induction lists generalizing front fuel with
  | nil =>
    cases fuel with
    | zero => omega
    | succ fuel => rfl
  | cons list lists ih =>
    cases fuel with
    | zero => omega
    | succ fuel =>
      have hsta := stands_first beyond front list lists
      have hlen : (encodeLists (list :: lists)).length =
          list.total + (encodeLists lists).length := by
        rw [encodeLists_cons, List.length_append, list.length_bytes]
      have hpos : 0 < list.total := by
        unfold SignatureList.total signatureListHeader
        omega
      have hrest := ih (front ++ list.bytes) (Nat.lt_of_succ_lt_succ hfuel)
      rw [List.append_assoc, ← encodeLists_cons, List.length_append, list.length_bytes] at hrest
      rw [isNewCert, hsta.listSize, hlen, if_pos (by omega)]
      dsimp only
      rw [Nat.add_sub_cancel_left, hrest, hsta.signatureCount, ok_bind,
        hasSignature_iff hsta, hsta.type, hsta.size]
      by_cases hmat : list.type = type ∧ list.size = signature.length
      · rw [if_pos hmat]
        by_cases hmem : signature ∈ list.signatures
        · have hkno : known (list :: lists) type signature = true := by
            unfold known
            grind
          rw [decide_eq_true hmem, if_pos rfl, hkno]
          rfl
        · have hkno : known (list :: lists) type signature = known lists type signature := by
            unfold known
            rw [List.any_cons, decide_eq_false fun h => hmem h.2, Bool.false_or]
          rw [decide_eq_false hmem, if_neg (by decide), hkno]
      · have hkno : known (list :: lists) type signature = known lists type signature := by
          unfold known
          rw [List.any_cons, decide_eq_false, Bool.false_or]
          exact fun h => hmat ⟨h.1, (list.length_signature signature h.2).symm⟩
        rw [if_neg hmat, hkno]

lemma filterM_ok {α : Type} {p : α → Bool} {f : α → Except Halt Bool} (hf : ∀ a, f a = .ok (p a))
    (as : List α) : as.filterM f = .ok (as.filter p) := by
  have haux : ∀ acc, List.filterAuxM f as acc = .ok ((as.filter p).reverse ++ acc) := by
    induction as with
    | nil => exact fun acc => rfl
    | cons a as ih =>
      grind [List.filterAuxM, ok_bind]
  unfold List.filterM
  rw [haux, ok_bind, List.append_nil, List.reverse_reverse]
  rfl

lemma keptList_eq {data : Bytes} {offset : ℕ} (h : Stands data offset list)
    (p : List UInt8 → Bool) :
    keptList data offset (list.signatures.filter p) =
      if (list.keep p).signatures = [] then [] else (list.keep p).bytes := by
  unfold keptList SignatureList.keep
  dsimp only
  split_ifs with hnone
  · rfl
  · have htype : readBytes data offset 16 = list.type := h.type
    have hback : signatureListHeader + list.header.length - 20 = 8 + list.header.length := by
      unfold signatureListHeader
      omega
    simp [htype, h.headerSize, h.size, hback, h.header, List.append_assoc, SignatureList.bytes,
      SignatureList.total]

lemma filterLoop_eq (beyond : Bytes) (old : List SignatureList) (front : List UInt8)
    (new : List SignatureList) {fuel : ℕ} (hfuel : new.length < fuel) :
    filterLoop (pointer beyond (encodeLists old)) (encodeLists old).length
      (pointer beyond (front ++ encodeLists new)) fuel front.length (encodeLists new).length =
      .ok (encodeLists (filterLists old new)) := by
  induction new generalizing front fuel with
  | nil =>
    cases fuel with
    | zero => omega
    | succ fuel => rfl
  | cons list new ih =>
    cases fuel with
    | zero => omega
    | succ fuel =>
      have hsta := stands_first beyond front list new
      have hlen : (encodeLists (list :: new)).length = list.total + (encodeLists new).length := by
        rw [encodeLists_cons, List.length_append, list.length_bytes]
      have hpos : 0 < list.total := by
        unfold SignatureList.total signatureListHeader
        omega
      have hrest := ih (front ++ list.bytes) (Nat.lt_of_succ_lt_succ hfuel)
      rw [List.append_assoc, ← encodeLists_cons, List.length_append, list.length_bytes] at hrest
      have hnew : ∀ signature, isNewCert (pointer beyond (encodeLists old)) list.type signature
          ((encodeLists old).length + 1) 0 (encodeLists old).length =
          .ok (!known old list.type signature) :=
        fun signature => isNewCert_eq beyond [] old (Nat.lt_succ_of_le (length_le_encodeLists old))
      rw [filterLoop, hsta.listSize, hlen, if_pos (by omega), hsta.signatureCount, ok_bind]
      dsimp only
      rw [hsta.firstSignature, hsta.size, hsta.signatures, hsta.type,
        filterM_ok hnew, ok_bind, Nat.add_sub_cancel_left, hrest, ok_bind, keptList_eq hsta,
        filterLists_cons]
      split_ifs <;> rfl

lemma signatureEntries_cons : signatureEntries (list :: lists) =
    (list.signatures.map fun signature => (list.type, list.header, signature)) ++
      signatureEntries lists :=
  rfl

lemma signatureEntries_filterLists (old new : List SignatureList) :
    signatureEntries (filterLists old new) =
      (signatureEntries new).filter fun entry => !known old entry.1 entry.2.2 := by
  induction new with
  | nil => rfl
  | cons list new ih =>
    have hkeep : ((list.keep fun signature => !known old list.type signature).signatures.map
        fun signature => (list.type, list.header, signature)) =
        (list.signatures.map fun signature => (list.type, list.header, signature)).filter
          fun entry => !known old entry.1 entry.2.2 := by
      rw [List.filter_map]
      rfl
    rw [filterLists_cons, signatureEntries_cons, List.filter_append, ← ih, ← hkeep]
    split_ifs with hnone
    · rw [hnone]
      rfl
    · rfl

lemma known_iff : known lists type signature = true ↔
    ∃ entry ∈ signatureEntries lists, entry.1 = type ∧ entry.2.2 = signature := by
  unfold known signatureEntries
  rw [List.any_eq_true]
  simp only [decide_eq_true_eq, List.mem_flatMap, List.mem_map]
  grind

lemma encodeLists_append (lists lists' : List SignatureList) :
    encodeLists (lists ++ lists') = encodeLists lists ++ encodeLists lists' :=
  List.flatMap_append

/-- From signature lists that hold together the filter makes signature lists that hold together.
They have exactly the signatures that the variable does not have, with their types and headers and
in their order, so that appending them adds nothing that is there and loses nothing that is not. -/
theorem filterSignatureList_eq (config : Config) (answers : Answers) (old new : List SignatureList)
    (hscratch : (encodeLists new).length ≤ config.scratchBufferSize) :
    ∃ kept : List SignatureList,
      filterSignatureList config answers (encodeLists old) (encodeLists new) =
        .ok (encodeLists kept) ∧
      signatureEntries kept = (signatureEntries new).filter (fun entry =>
        ¬ ∃ entry' ∈ signatureEntries old, entry'.1 = entry.1 ∧ entry'.2.2 = entry.2.2) ∧
      encodeLists old ++ encodeLists kept = encodeLists (old ++ kept) ∧
      ∀ entry ∈ signatureEntries new, ∃ entry' ∈ signatureEntries (old ++ kept),
        entry'.1 = entry.1 ∧ entry'.2.2 = entry.2.2 := by
  have hknown : ∀ entry : List UInt8 × List UInt8 × List UInt8,
      (!known old entry.1 entry.2.2) = decide (¬ ∃ entry' ∈ signatureEntries old,
        entry'.1 = entry.1 ∧ entry'.2.2 = entry.2.2) := by
    intro entry
    rw [Bool.eq_iff_iff, decide_eq_true_iff, ← known_iff, Bool.not_eq_true', Bool.not_eq_true]
  have hkept : signatureEntries (filterLists old new) =
      (signatureEntries new).filter (fun entry => ¬ ∃ entry' ∈ signatureEntries old,
        entry'.1 = entry.1 ∧ entry'.2.2 = entry.2.2) := by
    rw [signatureEntries_filterLists]
    exact List.filter_congr fun entry _ => hknown entry
  refine ⟨filterLists old new, ?_, hkept, (encodeLists_append old _).symm, fun entry hentry => ?_⟩
  · unfold filterSignatureList
    split_ifs with hempty hsmall
    · cases new with
      | nil => rfl
      | cons list new =>
        have hlength := congrArg List.length hempty
        rw [encodeLists_cons, List.length_append, list.length_bytes, List.length_nil] at hlength
        unfold SignatureList.total signatureListHeader at hlength
        omega
    · omega
    · exact filterLoop_eq answers.beyond old [] new (Nat.lt_succ_of_le (length_le_encodeLists new))
  · have happend : signatureEntries (old ++ filterLists old new) =
        signatureEntries old ++ signatureEntries (filterLists old new) :=
      List.flatMap_append
    rw [happend]
    by_cases hold : ∃ entry' ∈ signatureEntries old, entry'.1 = entry.1 ∧ entry'.2.2 = entry.2.2
    · obtain ⟨entry', hmem, heq⟩ := hold
      exact ⟨entry', List.mem_append_left _ hmem, heq⟩
    grind

/-- A list with signatures of one byte. -/
def shortList (signatures : List UInt8) (h : signatures.length < 2 ^ 31) : SignatureList where
  type := List.replicate 16 0
  header := []
  size := 1
  signatures := signatures.map fun signature => [signature]
  length_type := rfl
  size_pos := Nat.one_pos
  size_lt := by decide
  length_signature := by simp
  total_lt := by
    rw [List.length_map, List.length_nil]
    unfold signatureListHeader
    omega

/-- Of two new signatures one is known already. -/
theorem filterSignatureList_two : ∃ kept : List SignatureList,
    filterSignatureList sampleConfig sampleAnswers (encodeLists [shortList [1] (by decide)])
        (encodeLists [shortList [1, 2] (by decide)]) = .ok (encodeLists kept) ∧
      signatureEntries kept = [(List.replicate 16 0, [], [2])] := by
  obtain ⟨kept, hrun, hkept, -⟩ := filterSignatureList_eq sampleConfig sampleAnswers
    [shortList [1] (by decide)] [shortList [1, 2] (by decide)] (by decide)
  exact ⟨kept, hrun, hkept.trans (by decide)⟩

end Edk2.Auth
