import Edk2.Auth.SignatureCheck

/-!
# What the check of signature lists accepts

The lists that have passed are the layout of signature lists when none of them is smaller than its
headers. The check is sound exactly when it is safe in each list it comes to, and when what it
accepts has lists of such sizes.
-/

namespace Edk2.Auth

open Halting
open Variable (Bytes word readBytes)

variable {answers : Answers} {data : List UInt8} {key : Key} {p : ℕ} {offsets : List ℕ}

/-- The list is of a type in the table, with the sizes of the type. -/
def Prescribed (list : SignatureList) : Prop :=
  ∃ item ∈ mSupportSigItem, list.type = item.sigType.bytes ∧
    (item.sigHeaderSize = anySize ∨ list.header.length = item.sigHeaderSize) ∧
    (item.sigDataSize = anySize ∨ list.size = guidSize + item.sigDataSize)

/-- The number of signatures of all lists. -/
def allSignatures (lists : List SignatureList) : ℕ :=
  (lists.map fun list => list.signatures.length).sum

/-- What the check promises of the data it accepts. -/
def AcceptsLists (key : Key) (data : List UInt8) : Prop :=
  ∃ lists, data = encodeLists lists ∧ (∀ list ∈ lists, Prescribed list) ∧
    (key = pk → allSignatures lists ≤ 1)

/-- The check returns, and what it accepts is a layout of signature lists. -/
def CheckOk (answers : Answers) (key : Key) (data : List UInt8) : Prop :=
  ∃ status, checkSignatureListReads answers data key = .ok status ∧
    (status = .success → holdsSignatures key = true → AcceptsLists key data)

/-- The headers of the list at `p` fit in its size. -/
def Fits (answers : Answers) (data : List UInt8) (p : ℕ) : Prop :=
  signatureListHeader + signatureHeaderSize (pointer answers.beyond data) p ≤
    signatureListSize (pointer answers.beyond data) p

/-- The check is safe in each list it comes to, and where it has gone over all the data, the headers
of each list fit in its size and the number of signatures has not wrapped. -/
structure Checkable (answers : Answers) (key : Key) (data : List UInt8) : Prop where
  safe : ∀ offsets p, Passed answers data offsets p → p < data.length → Safe answers data p
  fits : ∀ offsets, Passed answers data offsets data.length →
    (key = pk → u32 (signatureTotal answers data offsets) ≤ 1) →
      (∀ p ∈ offsets, Fits answers data p) ∧ (key = pk → signatureTotal answers data offsets ≤ 1)

/-! ### A list that is read back -/

lemma readBytes_flatMap (bytes : Bytes) (offset size n : ℕ) :
    ((List.range n).map fun i => readBytes bytes (offset + i * size) size).flatten =
      readBytes bytes offset (n * size) := by
  induction n with
  | zero =>
    rw [Nat.zero_mul]
    rfl
  | succ n ih =>
    rw [List.range_succ, List.map_append, List.flatten_append, ih, Nat.succ_mul,
      Variable.readBytes_add]
    simp

lemma readBytes_pointer_take (h : p + n ≤ data.length) :
    readBytes (pointer answers.beyond data) p n = (data.drop p).take n := by
  have hread := readBytes_pointer answers.beyond (data.take p) ((data.drop p).take n)
    ((data.drop p).drop n)
  grind [List.append_assoc, List.take_append_drop, List.length_take, List.length_drop,
    Nat.min_eq_left]

lemma readBytes_list (bytes : Bytes) (p header size : ℕ) :
    readBytes bytes p (signatureListHeader + header + size) =
      signatureType bytes p ++ le32 (signatureListSize bytes p) ++
        le32 (signatureHeaderSize bytes p) ++ le32 (signatureSize bytes p) ++
        readBytes bytes (p + signatureListHeader) header ++
        readBytes bytes (p + signatureListHeader + header) size := by
  unfold signatureListSize signatureHeaderSize signatureSize
  rw [le32_word, le32_word, le32_word]
  change readBytes bytes p (16 + 4 + 4 + 4 + header + size) = _
  rw [Nat.add_assoc p signatureListHeader header]
  simp only [Variable.readBytes_add]
  rfl

lemma Passes.exists_list (h : Passes answers data p) (hfits : Fits answers data p) :
    ∃ list : SignatureList, Prescribed list ∧
      list.signatures.length = signatureNumber answers data p ∧
      list.bytes = readBytes (pointer answers.beyond data) p
        (signatureListSize (pointer answers.beyond data) p) := by
  obtain ⟨item, hmem, htype, hhdr, hsize, -⟩ := checkSignatureItem_true h.item
  have hlist_lt := word_lt (pointer answers.beyond data) (p + 16)
  have hsize_lt := word_lt (pointer answers.beyond data) (p + 24)
  have hsig : signaturesSize (pointer answers.beyond data) p =
      signatureListSize (pointer answers.beyond data) p - signatureListHeader -
        signatureHeaderSize (pointer answers.beyond data) p := by
    unfold signaturesSize
    change word _ (p + 16) 4 < 2 ^ 32 at hlist_lt
    unfold Fits at hfits
    change signatureListSize _ p < 2 ^ 32 at hlist_lt
    rw [sub64_of_le (m := signatureListSize _ p) (by omega) (by omega),
      sub64_of_le (by omega) (by omega)]
  have hnum : signatureNumber answers data p *
      signatureSize (pointer answers.beyond data) p =
        signaturesSize (pointer answers.beyond data) p :=
    Nat.div_mul_cancel (Nat.dvd_of_mod_eq_zero h.whole)
  have htot : signatureListHeader + signatureHeaderSize (pointer answers.beyond data) p +
      signatureNumber answers data p * signatureSize (pointer answers.beyond data) p =
        signatureListSize (pointer answers.beyond data) p := by
    unfold Fits at hfits
    rw [hnum, hsig]
    omega
  let list : SignatureList :=
    { type := signatureType (pointer answers.beyond data) p
      header := readBytes (pointer answers.beyond data) (p + signatureListHeader)
        (signatureHeaderSize (pointer answers.beyond data) p)
      size := signatureSize (pointer answers.beyond data) p
      signatures := (List.range (signatureNumber answers data p)).map fun i =>
        readBytes (pointer answers.beyond data) (firstSignature (pointer answers.beyond data) p +
          i * signatureSize (pointer answers.beyond data) p)
          (signatureSize (pointer answers.beyond data) p)
      length_type := Variable.length_readBytes _ _ _
      size_pos := Nat.pos_of_ne_zero h.size
      size_lt := hsize_lt
      length_signature := by
        simp
      total_lt := by
        rw [Variable.length_readBytes, List.length_map, List.length_range, htot]
        exact hlist_lt }
  refine ⟨list, ⟨item, hmem, htype, .inr ?_, hsize⟩, ?_, ?_⟩
  · exact (Variable.length_readBytes _ _ _).trans hhdr
  · exact (List.length_map _).trans List.length_range
  · -- the fields, one behind the other
    have htot' : list.total = signatureListSize (pointer answers.beyond data) p := by
      change signatureListHeader + (readBytes _ _ _).length + (List.map _ _).length * _ = _
      rw [Variable.length_readBytes, List.length_map, List.length_range]
      exact htot
    have hhead : list.header.length = signatureHeaderSize (pointer answers.beyond data) p :=
      Variable.length_readBytes _ _ _
    have hfla : list.signatures.flatten = readBytes (pointer answers.beyond data)
        (firstSignature (pointer answers.beyond data) p)
        (signatureNumber answers data p * signatureSize (pointer answers.beyond data) p) :=
      readBytes_flatMap _ _ _ _
    rw [← htot, readBytes_list]
    unfold SignatureList.bytes
    rw [htot', hhead, hfla]
    rfl

lemma Passed.encodeLists (h : Passed answers data offsets p)
    (hfits : ∀ p ∈ offsets, Fits answers data p) :
    ∃ lists, data.take p = encodeLists lists ∧ (∀ list ∈ lists, Prescribed list) ∧
      allSignatures lists = signatureTotal answers data offsets := by
  induction h with
  | start => exact ⟨[], rfl, nofun, rfl⟩
  | @next offsets p h hp hpass ih =>
    obtain ⟨lists, htake, hpre, htot⟩ := ih fun q hq => hfits q (List.mem_append_left _ hq)
    obtain ⟨list, hlist, hcnt, hbyt⟩ :=
      hpass.exists_list (hfits p (List.mem_append_right _ List.mem_cons_self))
    refine ⟨lists ++ [list], ?_, ?_, ?_⟩
    · have hsize := hpass.listSize
      rw [List.take_add, htake, ← readBytes_pointer_take (by omega), ← hbyt]
      simp [Auth.encodeLists]
    · intro l hl
      rcases List.mem_append.mp hl with hl | hl
      · exact hpre l hl
      · exact List.mem_singleton.mp hl ▸ hlist
    · rw [signatureTotal_append, ← htot, ← hcnt]
      simp [allSignatures]

lemma Passed.along {lists : List SignatureList} (h : Passed answers data offsets p)
    (hdata : data = Auth.encodeLists lists) :
    ∃ done rest, lists = done ++ rest ∧ p = (Auth.encodeLists done).length ∧
      (∀ p ∈ offsets, Fits answers data p) ∧
      signatureTotal answers data offsets = allSignatures done := by
  induction h with
  | start => exact ⟨[], lists, rfl, rfl, nofun, rfl⟩
  | @next offsets p h hp hpass ih =>
    obtain ⟨done, rest, hlis, hoff, hfits, htot⟩ := ih
    cases rest with
    | nil =>
      rw [List.append_nil] at hlis
      rw [hoff, hdata, hlis] at hp
      exact absurd hp (Nat.lt_irrefl _)
    | cons list rest =>
      have hsta : SignatureList.Stands (pointer answers.beyond data) p list := by
        have hfst := stands_first answers.beyond (Auth.encodeLists done) list rest
        rwa [← hoff, Auth.encodeLists, Auth.encodeLists, ← List.flatMap_append, ← hlis,
          ← Auth.encodeLists, ← hdata] at hfst
      have hfit : Fits answers data p := by
        unfold Fits
        rw [hsta.listSize, hsta.headerSize]
        exact Nat.le_add_right _ _
      refine ⟨done ++ [list], rest, by rw [hlis, List.append_assoc]; rfl, ?_, ?_, ?_⟩
      · rw [hsta.listSize, hoff, ← list.length_bytes]
        simp [Auth.encodeLists]
      · intro q hq
        rcases List.mem_append.mp hq with hq | hq
        · exact hfits q hq
        · exact List.mem_singleton.mp hq ▸ hfit
      · have hnum : signatureNumber answers data p = list.signatures.length := by
          unfold signatureNumber
          rw [hsta.signaturesSize, hsta.size, Nat.mul_div_cancel _ list.size_pos]
        rw [signatureTotal_append, htot, hnum]
        simp [allSignatures]

lemma Passed.all {lists : List SignatureList} (h : Passed answers data offsets data.length)
    (hdata : data = Auth.encodeLists lists) :
    (∀ p ∈ offsets, Fits answers data p) ∧
      signatureTotal answers data offsets = allSignatures lists := by
  obtain ⟨done, rest, hlis, hoff, hfits, htot⟩ := h.along hdata
  have hlen := congrArg List.length hdata
  rw [hlis, Auth.encodeLists, List.flatMap_append, List.length_append, hoff,
    ← Auth.encodeLists] at hlen
  have hrest : rest = [] := by
    have hle := length_le_encodeLists rest
    change (Auth.encodeLists done).length =
      (Auth.encodeLists done).length + (Auth.encodeLists rest).length at hlen
    exact List.eq_nil_of_length_eq_zero (by omega)
  rw [hlis, hrest, List.append_nil]
  exact ⟨hfits, htot⟩

lemma checkSignatureListReads_success (hkey : holdsSignatures key = true)
    (h : Passed answers data offsets data.length)
    (hcnt : key = pk → u32 (signatureTotal answers data offsets) ≤ 1)
    {status : EfiStatus} (hrun : checkSignatureListReads answers data key = .ok status) :
    status = .success := by
  unfold checkSignatureListReads at hrun
  rw [hkey] at hrun
  by_cases hnil : data = []
  · rw [if_pos hnil] at hrun
    exact (Except.ok.inj hrun).symm
  rw [if_neg hnil, Bool.not_true, if_neg Bool.false_ne_true] at hrun
  obtain ⟨result, hloop, hrest⟩ := bind_eq_ok.mp hrun
  obtain ⟨hle, hend⟩ := h.runs hloop
  -- the loop has come to the end of the data
  have hres : result = some (data.length, u32 (signatureTotal answers data offsets)) := by
    cases hfuel : data.length + 1 - offsets.length with
    | zero =>
      rw [hfuel] at hend
      cases hend
    | succ n =>
      rw [hfuel, checkReadsLoop, if_neg (by omega)] at hend
      exact (Except.ok.inj hend).symm
  rw [hres] at hrest
  dsimp only at hrest
  rw [if_neg (not_not.mpr rfl), if_neg fun hpk => absurd (hcnt hpk.1) (by omega)] at hrest
  exact (Except.ok.inj hrest).symm

lemma checkSignatureListReads_passed (hkey : holdsSignatures key = true)
    (hsafe : ∀ offsets p, Passed answers data offsets p → p < data.length → Safe answers data p) :
    ∃ status, checkSignatureListReads answers data key = .ok status ∧ (status = .success →
      ∃ offsets, Passed answers data offsets data.length ∧
        (key = pk → u32 (signatureTotal answers data offsets) ≤ 1)) := by
  unfold checkSignatureListReads
  by_cases hnil : data = []
  · rw [if_pos hnil]
    subst hnil
    exact ⟨_, rfl, fun _ => ⟨[], .start, fun _ => Nat.zero_le 1⟩⟩
  rw [if_neg hnil, hkey, Bool.not_true, if_neg Bool.false_ne_true]
  obtain ⟨result, hloop, hres⟩ :=
    checkReadsLoop_returns hsafe .start (Nat.lt_succ_self data.length)
  change checkReadsLoop answers data (data.length + 1) 0 data.length 0 = _ at hloop
  rw [hloop, ok_bind]
  rcases hres with rfl | ⟨offsets, p, hpas, rfl⟩
  · exact ⟨_, rfl, nofun⟩
  dsimp only
  by_cases hp : p ≠ data.length
  · rw [if_pos hp]
    exact ⟨_, rfl, nofun⟩
  rw [if_neg hp]
  by_cases hpk : key = pk ∧ 1 < u32 (signatureTotal answers data offsets)
  · rw [if_pos hpk]
    exact ⟨_, rfl, nofun⟩
  · rw [if_neg hpk]
    rw [not_not] at hp
    subst hp
    exact ⟨_, rfl, fun _ => ⟨offsets, hpas, fun h => Nat.not_lt.mp fun hlt => hpk ⟨h, hlt⟩⟩⟩

lemma checkReadsLoop_of_returns (hkey : holdsSignatures key = true) {status : EfiStatus}
    (hrun : checkSignatureListReads answers data key = .ok status) :
    ∃ result, checkReadsLoop answers data (data.length + 1) 0 data.length 0 = .ok result := by
  unfold checkSignatureListReads at hrun
  by_cases hnil : data = []
  · subst hnil
    exact ⟨_, rfl⟩
  · rw [if_neg hnil, hkey, Bool.not_true, if_neg Bool.false_ne_true] at hrun
    obtain ⟨result, hloop, -⟩ := bind_eq_ok.mp hrun
    exact ⟨result, hloop⟩

/-- The check reads the data only, does not divide by zero, returns, and accepts layouts of
signature lists only, exactly when it is safe in each list it comes to and the lists that it goes
over fit their sizes. -/
theorem checkSignatureListReads_iff (answers : Answers) (key : Key) (data : List UInt8) :
    CheckOk answers key data ↔ (holdsSignatures key = true → Checkable answers key data) := by
  constructor
  · rintro ⟨status, hrun, hlists⟩ hkey
    have hloop := checkReadsLoop_of_returns hkey hrun
    refine ⟨checkReadsLoop_iff.mp hloop, fun offsets hpassed hcount => ?_⟩
    have hsuccess := checkSignatureListReads_success hkey hpassed hcount hrun
    obtain ⟨lists, hdata, -, hpk⟩ := hlists hsuccess hkey
    obtain ⟨hfits, htotal⟩ := hpassed.all hdata
    exact ⟨hfits, fun h => htotal ▸ hpk h⟩
  · intro hcheckable
    by_cases hkey : holdsSignatures key = true
    · obtain ⟨hsafe, hfits⟩ := hcheckable hkey
      obtain ⟨status, hrun, hpassed⟩ := checkSignatureListReads_passed hkey hsafe
      refine ⟨status, hrun, fun hsuccess _ => ?_⟩
      obtain ⟨offsets, hpassed, hcount⟩ := hpassed hsuccess
      obtain ⟨hall, hpk⟩ := hfits offsets hpassed hcount
      obtain ⟨lists, htake, hprescribed, htotal⟩ := hpassed.encodeLists hall
      rw [List.take_length] at htake
      exact ⟨lists, htake, hprescribed, fun h => htotal ▸ hpk h⟩
    · refine ⟨.success, ?_, fun _ h => absurd h hkey⟩
      unfold checkSignatureListReads
      by_cases hnil : data = []
      · rw [if_pos hnil]
      · rw [if_neg hnil, if_pos (by simpa using hkey)]

/-- A payload of one byte: the size of its list is read behind it. -/
theorem not_checkOk_oneByte :
    ¬ ∀ (answers : Answers) (key : Key) (data : List UInt8), CheckOk answers key data := by
  intro h
  obtain ⟨status, hrun, -⟩ := h sampleAnswers pk [1]
  have hloop : checkReadsLoop sampleAnswers [1] ([1] : List UInt8).length.succ 0
      ([1] : List UInt8).length 0 = .error .fault := by
    rw [checkReadsLoop, if_pos (by decide), readsTo_fault (by decide)]
    rfl
  have hkey : holdsSignatures pk = true := by decide
  unfold checkSignatureListReads at hrun
  rw [if_neg (List.cons_ne_nil _ _), hkey, Bool.not_true, if_neg Bool.false_ne_true] at hrun
  obtain ⟨result, hloop', -⟩ := bind_eq_ok.mp hrun
  cases hloop.symm.trans hloop'

end Edk2.Auth
