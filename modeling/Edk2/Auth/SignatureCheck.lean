import Edk2.Auth.SignatureFormat
import Edk2.Lib.Halting

/-!
# What the check of signature lists reads

`CheckSignatureListFormat` with the reads of list fields that fall behind the payload as faults, in
the order in which the fields are read. The function for RSA keys is an oracle: what it reads itself
does not count.
-/

namespace Edk2.Auth

open Halting
open Variable (Bytes word readBytes)

variable (answers : Answers) (data : List UInt8)

/-- A read of fields up to the offset `stop`. -/
def readsTo (stop : ℕ) : Except Halt Unit :=
  if stop ≤ data.length then .ok () else .error .fault

section List

variable (list : ℕ)

/-- The certificate of a list of certificates must hold an RSA key. -/
def checkCertificateReads : Except Halt Bool :=
  if signatureType (pointer answers.beyond data) list = gEfiCertX509Guid.bytes then
    if answers.rsaNew then do
      readsTo data (list + 28)
      return checkCertificate answers (pointer answers.beyond data) list
    else .ok false
  else .ok true

/-- The checks of one list but for the number of its signatures. -/
def checkItemReads : Except Halt Bool := do
  let bytes := pointer answers.beyond data
  readsTo data (list + 16)
  match mSupportSigItem.find? fun item => signatureType bytes list = item.sigType.bytes with
  | none => return false
  | some item =>
    let sizeMatches ←
      if item.sigDataSize = anySize then .ok true
      else (fun _ => decide (sub64 (signatureSize bytes list) guidSize = item.sigDataSize)) <$>
        readsTo data (list + 28)
    if !sizeMatches then return false
    else
      let headerMatches ←
        if item.sigHeaderSize = anySize then .ok true
        else (fun _ => decide (signatureHeaderSize bytes list = item.sigHeaderSize)) <$>
          readsTo data (list + 24)
      if !headerMatches then return false
      else checkCertificateReads answers data list

end List

/-- The loop of `CheckSignatureListFormat`. -/
def checkReadsLoop : ℕ → ℕ → ℕ → ℕ → Except Halt (Option (ℕ × ℕ))
  | 0, _, _, _ => .error .loop
  | fuel + 1, list, sigDataSize, sigCount =>
    let bytes := pointer answers.beyond data
    if 0 < sigDataSize then do
      readsTo data (list + 20)
      if signatureListSize bytes list ≤ sigDataSize then
        if !(← checkItemReads answers data list) then return none
        else
          readsTo data (list + 28)
          let count ← signatureCount bytes list
          if signaturesSize bytes list % signatureSize bytes list ≠ 0 then return none
          else
            checkReadsLoop fuel (list + signatureListSize bytes list)
              (sigDataSize - signatureListSize bytes list) (u32 (sigCount + count))
      else return some (list, sigCount)
    else .ok (some (list, sigCount))

/-- `CheckSignatureListFormat`. -/
def checkSignatureListReads (key : Key) : Except Halt EfiStatus :=
  if data = [] then .ok .success
  else if !holdsSignatures key then .ok .success
  else do
    match ← checkReadsLoop answers data (data.length + 1) 0 data.length 0 with
    | none => return .invalidParameter
    | some (list, sigCount) =>
      if list ≠ data.length then return .invalidParameter
      else if key = pk ∧ 1 < sigCount then return .invalidParameter
      else return .success

end Edk2.Auth

/-!
## When the check of signature lists is sound

The check reads the size of a list, and the other fields, before it knows that the list has so many
bytes left. It takes the wrapped difference when a list is smaller than its own header, so that such
a list can pass, and a list of size zero that passes is checked for ever.
-/

namespace Edk2.Auth

open Halting
open Variable (Bytes word readBytes)

variable {answers : Answers} {data : List UInt8} {key : Key} {p fuel sigCount : ℕ}
  {lists : List ℕ} {result : Option (ℕ × ℕ)}

/-- The type of the list is in the table. -/
def Supported (answers : Answers) (data : List UInt8) (p : ℕ) : Prop :=
  ∃ item ∈ mSupportSigItem, signatureType (pointer answers.beyond data) p = item.sigType.bytes

/-- The fields that the checks of a list come to lie in the payload: all of them, but for lists of
certificates that are refused before the size of the signatures is read. -/
def FieldsRead (answers : Answers) (data : List UInt8) (p : ℕ) : Prop :=
  p + 28 ≤ data.length ∨
    signatureType (pointer answers.beyond data) p = gEfiCertX509Guid.bytes ∧ p + 24 ≤ data.length ∧
      (signatureHeaderSize (pointer answers.beyond data) p ≠ 0 ∨ answers.rsaNew = false)

lemma item_spec : ∀ item ∈ mSupportSigItem, item.sigHeaderSize = 0 ∧ item.sigDataSize < 2 ^ 32 ∧
    (item.sigDataSize = anySize ↔ item.sigType.bytes = gEfiCertX509Guid.bytes) := by
  decide

lemma readsTo_ok {stop : ℕ} (h : stop ≤ data.length) : readsTo data stop = .ok () := if_pos h

lemma readsTo_fault {stop : ℕ} (h : ¬ stop ≤ data.length) : readsTo data stop = .error .fault :=
  if_neg h

lemma not_any : (0 : ℕ) ≠ anySize := by decide

variable (answers) in
lemma checkCertificateReads_spec
    (hX509 : signatureType (pointer answers.beyond data) p = gEfiCertX509Guid.bytes) :
    (¬ (p + 28 ≤ data.length ∨ answers.rsaNew = false) ∧
        checkCertificateReads answers data p = .error .fault) ∨
      (p + 28 ≤ data.length ∨ answers.rsaNew = false) ∧
        checkCertificateReads answers data p =
          .ok (checkCertificate answers (pointer answers.beyond data) p) := by
  unfold checkCertificateReads checkCertificate
  rw [if_pos hX509, if_pos hX509]
  cases hrsa : answers.rsaNew with
  | false => exact .inr ⟨.inr rfl, rfl⟩
  | true =>
    rw [if_pos rfl]
    by_cases h : p + 28 ≤ data.length
    · rw [readsTo_ok h, ok_bind]
      exact .inr ⟨.inl h, rfl⟩
    · rw [readsTo_fault h]
      exact .inl ⟨fun hor => hor.elim h nofun, rfl⟩

variable (answers) in
lemma checkItemReads_spec (hsize : p + 20 ≤ data.length) :
    (Supported answers data p ∧ ¬ FieldsRead answers data p) ∧
        checkItemReads answers data p = .error .fault ∨
      (Supported answers data p → FieldsRead answers data p) ∧
        checkItemReads answers data p =
          .ok (checkSignatureItem answers (pointer answers.beyond data) p) := by
  unfold checkItemReads checkSignatureItem
  dsimp only
  rw [readsTo_ok (by omega), ok_bind]
  cases hfind : mSupportSigItem.find? fun item =>
      signatureType (pointer answers.beyond data) p = item.sigType.bytes with
  | none =>
    refine .inr ⟨?_, rfl⟩
    rintro ⟨item, hmem, htype⟩
    grind
  | some item =>
    have htype : signatureType (pointer answers.beyond data) p = item.sigType.bytes := by
      simpa using List.find?_some hfind
    have hmem := List.mem_of_find?_eq_some hfind
    obtain ⟨hhdr, -, hany⟩ := item_spec item hmem
    have hsup : Supported answers data p := ⟨item, hmem, htype⟩
    have hhea : item.sigHeaderSize ≠ anySize := by
      rw [hhdr]
      exact not_any
    dsimp only
    by_cases hany' : item.sigDataSize = anySize
    · -- a list of certificates, whose signatures are of any size
      have hX509 := hany.mp hany'
      rw [← htype] at hX509
      rw [if_pos hany', ok_bind, Bool.not_true, if_neg Bool.false_ne_true, if_neg hhea]
      by_cases h₂₄ : p + 24 ≤ data.length
      · rw [readsTo_ok h₂₄]
        by_cases hzero : signatureHeaderSize (pointer answers.beyond data) p = item.sigHeaderSize
        · have hmap : ((fun _ => true) <$> Except.ok () : Except Halt Bool) = .ok true := rfl
          rw [decide_eq_true hany', decide_eq_false hhea, decide_eq_true hzero, hmap, ok_bind,
            Bool.not_true, if_neg Bool.false_ne_true, Bool.true_or, Bool.or_true, Bool.true_and,
            Bool.true_and]
          obtain ⟨hread, hfau⟩ | ⟨hread, hok⟩ :=
            checkCertificateReads_spec answers hX509
          · refine .inl ⟨⟨hsup, ?_⟩, hfau⟩
            rintro (h | ⟨-, -, h | h⟩)
            · exact hread (.inl h)
            · exact h (hzero.trans hhdr)
            · exact hread (.inr h)
          · refine .inr ⟨fun _ => ?_, hok⟩
            exact hread.imp id fun h => ⟨hX509, h₂₄, .inr h⟩
        · refine .inr ⟨fun _ => .inr ⟨hX509, h₂₄, .inl (hhdr ▸ hzero)⟩, ?_⟩
          rw [decide_eq_true hany', decide_eq_false hhea, decide_eq_false hzero]
          rfl
      · rw [readsTo_fault h₂₄]
        refine .inl ⟨⟨hsup, ?_⟩, rfl⟩
        rintro (h | ⟨-, h, -⟩) <;> omega
    · have hX509 : signatureType (pointer answers.beyond data) p ≠ gEfiCertX509Guid.bytes := by
        rw [htype]
        exact fun h => hany' (hany.mpr h)
      rw [if_neg hany', if_neg hhea]
      by_cases h₂₈ : p + 28 ≤ data.length
      · refine .inr ⟨fun _ => .inl h₂₈, ?_⟩
        rw [readsTo_ok h₂₈, readsTo_ok (by omega)]
        unfold checkCertificateReads checkCertificate
        rw [if_neg hX509, if_neg hX509]
        rw [decide_eq_false hany', decide_eq_false hhea]
        cases decide (sub64 (signatureSize (pointer answers.beyond data) p) guidSize =
            item.sigDataSize) <;>
          cases decide (signatureHeaderSize (pointer answers.beyond data) p =
            item.sigHeaderSize) <;>
          rfl
      · rw [readsTo_fault h₂₈]
        exact .inl ⟨⟨hsup, fun h => h.elim h₂₈ fun h => hX509 h.1⟩, rfl⟩

section Item

variable (answers data p)

/-- The list at `p` is accepted, so that the check goes on behind it. -/
structure Passes : Prop where
  listSize : signatureListSize (pointer answers.beyond data) p ≤ data.length - p
  item : checkSignatureItem answers (pointer answers.beyond data) p = true
  size : signatureSize (pointer answers.beyond data) p ≠ 0
  whole : signaturesSize (pointer answers.beyond data) p %
    signatureSize (pointer answers.beyond data) p = 0

/-- The check of the list at `p` reads the payload only and does not divide by zero. -/
structure ReadsOk : Prop where
  listSize : p + 20 ≤ data.length
  fields : signatureListSize (pointer answers.beyond data) p ≤ data.length - p →
    Supported answers data p → FieldsRead answers data p
  size : signatureListSize (pointer answers.beyond data) p ≤ data.length - p →
    checkSignatureItem answers (pointer answers.beyond data) p = true →
      signatureSize (pointer answers.beyond data) p ≠ 0

/-- The number of signatures of the list at `p`, as it is computed. -/
def signatureNumber : ℕ :=
  signaturesSize (pointer answers.beyond data) p / signatureSize (pointer answers.beyond data) p

end Item

lemma checkSignatureItem_true
    (h : checkSignatureItem answers (pointer answers.beyond data) p = true) :
    ∃ item ∈ mSupportSigItem,
      signatureType (pointer answers.beyond data) p = item.sigType.bytes ∧
      signatureHeaderSize (pointer answers.beyond data) p = item.sigHeaderSize ∧
      (item.sigDataSize = anySize ∨
        signatureSize (pointer answers.beyond data) p = guidSize + item.sigDataSize) ∧
      checkCertificate answers (pointer answers.beyond data) p = true := by
  unfold checkSignatureItem at h
  cases hfind : mSupportSigItem.find? fun item =>
      signatureType (pointer answers.beyond data) p = item.sigType.bytes with
  | none =>
    rw [hfind] at h
    exact absurd h Bool.false_ne_true
  | some item =>
    rw [hfind] at h
    have htype : signatureType (pointer answers.beyond data) p = item.sigType.bytes := by
      simpa using List.find?_some hfind
    have hmem := List.mem_of_find?_eq_some hfind
    obtain ⟨hhead, hlt, -⟩ := item_spec item hmem
    have hlt32 := word_lt (pointer answers.beyond data) (p + 24)
    simp only [Bool.and_eq_true, Bool.or_eq_true, decide_eq_true_eq] at h
    obtain ⟨⟨hsize, hhdr⟩, hcert⟩ := h
    refine ⟨item, hmem, htype, ?_, hsize.imp id fun hsize => ?_, hcert⟩
    · exact hhdr.resolve_left (hhead ▸ not_any)
    · change sub64 (word _ (p + 24) 4) 16 = item.sigDataSize at hsize
      change word _ (p + 24) 4 = 16 + item.sigDataSize
      unfold sub64 u64 at hsize
      omega

lemma ReadsOk.header_le (h : ReadsOk answers data p)
    (hsize : signatureListSize (pointer answers.beyond data) p ≤ data.length - p)
    (hitem : checkSignatureItem answers (pointer answers.beyond data) p = true) :
    p + 28 ≤ data.length := by
  obtain ⟨item, hmem, htype, hhdr, -, hcert⟩ := checkSignatureItem_true hitem
  refine (h.fields hsize ⟨item, hmem, htype⟩).elim id fun ⟨hX509, _, hnot⟩ => ?_
  exfalso
  rcases hnot with hnot | hnot
  · exact hnot (hhdr.trans (item_spec item hmem).1)
  · unfold checkCertificate at hcert
    grind

section Step

variable (hp : p < data.length)

include hp

lemma checkReadsLoop_fault (h : ¬ ReadsOk answers data p) :
    checkReadsLoop answers data (fuel + 1) p (data.length - p) sigCount = .error .fault := by
  unfold checkReadsLoop
  dsimp only
  rw [if_pos (by omega)]
  by_cases h₂₀ : p + 20 ≤ data.length
  · rw [readsTo_ok h₂₀, ok_bind]
    by_cases hsize : signatureListSize (pointer answers.beyond data) p ≤ data.length - p
    · rw [if_pos hsize]
      obtain ⟨-, hfau⟩ | ⟨hfie, hok⟩ := checkItemReads_spec answers h₂₀
      · rw [hfau]
        rfl
      · rw [hok, ok_bind]
        -- the fields are read, so that the division is what fails
        have hzero : checkSignatureItem answers (pointer answers.beyond data) p = true ∧
            signatureSize (pointer answers.beyond data) p = 0 := by
          by_contra hno
          exact h ⟨h₂₀, fun _ => hfie, fun _ hitem hzero => hno ⟨hitem, hzero⟩⟩
        rw [hzero.1, Bool.not_true, if_neg Bool.false_ne_true]
        unfold signatureCount
        rw [if_pos hzero.2]
        by_cases h₂₈ : p + 28 ≤ data.length
        · rw [readsTo_ok h₂₈]
          rfl
        · rw [readsTo_fault h₂₈]
          rfl
    · exact absurd ⟨h₂₀, fun hs => absurd hs hsize, fun hs => absurd hs hsize⟩ h
  · rw [readsTo_fault h₂₀]
    rfl

lemma checkReadsLoop_passes (h : ReadsOk answers data p) (hpass : Passes answers data p) :
    checkReadsLoop answers data (fuel + 1) p (data.length - p) sigCount =
      checkReadsLoop answers data fuel (p + signatureListSize (pointer answers.beyond data) p)
        (data.length - (p + signatureListSize (pointer answers.beyond data) p))
        (u32 (sigCount + signatureNumber answers data p)) := by
  rw [checkReadsLoop]
  rw [if_pos (by omega), readsTo_ok h.listSize, ok_bind, if_pos hpass.listSize]
  obtain ⟨⟨hsup, hfie⟩, -⟩ | ⟨-, hok⟩ :=
    checkItemReads_spec answers h.listSize
  · exact absurd (h.fields hpass.listSize hsup) hfie
  · rw [hok, ok_bind, hpass.item, Bool.not_true, if_neg Bool.false_ne_true,
      readsTo_ok (h.header_le hpass.listSize hpass.item), ok_bind]
    unfold signatureCount
    rw [if_neg hpass.size, ok_bind, if_neg (not_not.mpr hpass.whole), Nat.sub_sub]
    rfl

variable (fuel sigCount) in
lemma checkReadsLoop_ends (h : ReadsOk answers data p) (hpass : ¬ Passes answers data p) :
    checkReadsLoop answers data (fuel + 1) p (data.length - p) sigCount = .ok none ∨
      checkReadsLoop answers data (fuel + 1) p (data.length - p) sigCount =
        .ok (some (p, sigCount)) := by
  rw [checkReadsLoop]
  rw [if_pos (by omega), readsTo_ok h.listSize, ok_bind]
  by_cases hsize : signatureListSize (pointer answers.beyond data) p ≤ data.length - p
  · rw [if_pos hsize]
    obtain ⟨⟨hsup, hfie⟩, -⟩ | ⟨-, hok⟩ :=
      checkItemReads_spec answers h.listSize
    · exact absurd (h.fields hsize hsup) hfie
    · rw [hok, ok_bind]
      cases hitem : checkSignatureItem answers (pointer answers.beyond data) p with
      | false => exact .inl rfl
      | true =>
        have hzero := h.size hsize hitem
        have hwho : signaturesSize (pointer answers.beyond data) p %
            signatureSize (pointer answers.beyond data) p ≠ 0 :=
          fun hwho => hpass ⟨hsize, hitem, hzero, hwho⟩
        simp [Bool.not_true, readsTo_ok (h.header_le hsize hitem), ok_bind,
          hzero, hwho, signatureCount]
  · rw [if_neg hsize]
    exact .inr rfl

end Step

lemma readsTo_eq_ok {stop : ℕ} (h : readsTo data stop = .ok ()) : stop ≤ data.length := by
  by_contra hno
  rw [readsTo_fault hno] at h
  cases h

lemma checkLoop_of_reads {sigDataSize : ℕ}
    (h : checkReadsLoop answers data fuel p sigDataSize sigCount = .ok result) :
    checkLoop answers (pointer answers.beyond data) fuel p sigDataSize sigCount = .ok result := by
  induction fuel generalizing p sigDataSize sigCount with
  | zero => cases h
  | succ fuel ih =>
    rw [checkReadsLoop] at h
    rw [checkLoop]
    by_cases hsize : 0 < sigDataSize
    · rw [if_pos hsize] at h
      obtain ⟨⟨⟩, hread, h⟩ := bind_eq_ok.mp h
      have h₂₀ := readsTo_eq_ok hread
      by_cases hlist : signatureListSize (pointer answers.beyond data) p ≤ sigDataSize
      · rw [if_pos hlist] at h
        rw [if_pos ⟨hsize, hlist⟩]
        obtain ⟨passed, hitem, h⟩ := bind_eq_ok.mp h
        obtain ⟨-, hfau⟩ | ⟨-, hok⟩ := checkItemReads_spec answers h₂₀
        · rw [hfau] at hitem
          cases hitem
        rw [hok] at hitem
        obtain rfl := Except.ok.inj hitem
        cases hche : checkSignatureItem answers (pointer answers.beyond data) p with
        | false =>
          rw [hche] at h
          exact h
        | true =>
          rw [hche, Bool.not_true, if_neg Bool.false_ne_true] at h
          rw [Bool.not_true, if_neg Bool.false_ne_true]
          obtain ⟨⟨⟩, -, h⟩ := bind_eq_ok.mp h
          obtain ⟨count, hcnt, h⟩ := bind_eq_ok.mp h
          rw [hcnt, ok_bind]
          split_ifs at h ⊢ with hwho
          · exact h
          · exact ih h
      · rw [if_neg hlist] at h
        rw [if_neg fun hboth => hlist hboth.2]
        exact h
    · rw [if_neg hsize] at h
      rw [if_neg fun hboth => hsize hboth.1]
      exact h

/-- A check that returns does what `CheckSignatureListFormat` does. -/
theorem checkSignatureListFormat_of_reads {status : EfiStatus}
    (h : checkSignatureListReads answers data key = .ok status) :
    checkSignatureListFormat answers key data = .ok status := by
  unfold checkSignatureListReads at h
  unfold checkSignatureListFormat
  split_ifs at h ⊢ with hnil hkey
  · exact h
  · exact h
  · obtain ⟨result, hloop, h⟩ := bind_eq_ok.mp h
    rw [checkLoop_of_reads hloop]
    exact h

section Runs

variable (answers data)

/-- The check goes over the lists at the offsets `lists` and comes to the offset `p`. -/
inductive Passed : List ℕ → ℕ → Prop
  | start : Passed [] 0
  | next {lists : List ℕ} {p : ℕ} : Passed lists p → p < data.length → Passes answers data p →
      Passed (lists ++ [p]) (p + signatureListSize (pointer answers.beyond data) p)

/-- The check of the list at `p` reads the payload only, does not divide by zero and goes on behind
the list. -/
structure Safe (p : ℕ) : Prop extends ReadsOk answers data p where
  moves : Passes answers data p → signatureListSize (pointer answers.beyond data) p ≠ 0

/-- The number of signatures of the lists at these offsets. -/
def signatureTotal (lists : List ℕ) : ℕ := (lists.map (signatureNumber answers data)).sum

end Runs

lemma signatureTotal_append :
    signatureTotal answers data (lists ++ [p]) =
      signatureTotal answers data lists + signatureNumber answers data p := by
  simp [signatureTotal]

lemma u32_add_u32 (m n : ℕ) : u32 (u32 m + n) = u32 (m + n) := Nat.mod_add_mod m (2 ^ 32) n

lemma Passed.le (h : Passed answers data lists p) : p ≤ data.length := by
  cases h with
  | start => exact Nat.zero_le _
  | next h hp hpass =>
    have hsize := hpass.listSize
    omega

lemma Passed.runs (h : Passed answers data lists p)
    (hrun : checkReadsLoop answers data fuel 0 data.length 0 = .ok result) :
    lists.length ≤ fuel ∧ checkReadsLoop answers data (fuel - lists.length) p (data.length - p)
      (u32 (signatureTotal answers data lists)) = .ok result := by
  induction h with
  | start => exact ⟨Nat.zero_le _, hrun⟩
  | @next lists p _ hp hpass ih =>
    obtain ⟨hle, hrest⟩ := ih
    cases hfuel : fuel - lists.length with
    | zero =>
      rw [hfuel] at hrest
      cases hrest
    | succ n =>
      rw [hfuel] at hrest
      have hrea : ReadsOk answers data p := by
        by_contra hno
        rw [checkReadsLoop_fault hp hno] at hrest
        cases hrest
      rw [checkReadsLoop_passes hp hrea hpass, u32_add_u32, ← signatureTotal_append] at hrest
      rw [List.length_append, List.length_singleton]
      have hfue' : fuel - (lists.length + 1) = n := by omega
      rw [hfue']
      exact ⟨by omega, hrest⟩

lemma Passed.again (h : Passed answers data lists p) (hp : p < data.length)
    (hpass : Passes answers data p)
    (hzero : signatureListSize (pointer answers.beyond data) p = 0) (n : ℕ) :
    ∃ lists', n ≤ lists'.length ∧ Passed answers data lists' p := by
  induction n with
  | zero => exact ⟨lists, Nat.zero_le _, h⟩
  | succ n ih =>
    obtain ⟨lists', hn, h'⟩ := ih
    have hnext := h'.next hp hpass
    rw [hzero] at hnext
    refine ⟨lists' ++ [p], ?_, hnext⟩
    rw [List.length_append, List.length_singleton]
    omega

lemma Passed.safe (h : Passed answers data lists p) (hp : p < data.length)
    (hrun : checkReadsLoop answers data fuel 0 data.length 0 = .ok result) :
    Safe answers data p := by
  have hrea : ReadsOk answers data p := by
    by_contra hno
    obtain ⟨-, hrest⟩ := h.runs hrun
    cases hfuel : fuel - lists.length with
    | zero =>
      rw [hfuel] at hrest
      cases hrest
    | succ n =>
      rw [hfuel, checkReadsLoop_fault hp hno] at hrest
      cases hrest
  refine ⟨hrea, fun hpass hzero => ?_⟩
  obtain ⟨lists', hlen, h'⟩ := h.again hp hpass hzero (fuel + 1)
  have hle := (h'.runs hrun).1
  omega

/-- Where the check is safe in each list it comes to, it returns: it refuses a list, or it stops
behind lists that have passed. -/
lemma checkReadsLoop_returns
    (hsafe : ∀ lists p, Passed answers data lists p → p < data.length → Safe answers data p)
    (h : Passed answers data lists p) (hfuel : data.length - p < fuel) :
    ∃ result, checkReadsLoop answers data fuel p (data.length - p)
        (u32 (signatureTotal answers data lists)) = .ok result ∧
      (result = none ∨ ∃ lists' p', Passed answers data lists' p' ∧
        result = some (p', u32 (signatureTotal answers data lists'))) := by
  induction fuel generalizing lists p with
  | zero => omega
  | succ fuel ih =>
    rcases Nat.eq_or_lt_of_le h.le with rfl | hp
    · refine ⟨_, ?_, .inr ⟨lists, _, h, rfl⟩⟩
      rw [checkReadsLoop, if_neg (by omega)]
    · have hs := hsafe lists p h hp
      by_cases hpass : Passes answers data p
      · rw [checkReadsLoop_passes hp hs.toReadsOk hpass, u32_add_u32, ← signatureTotal_append]
        have hmov := hs.moves hpass
        have hsize := hpass.listSize
        exact ih (h.next hp hpass) (by omega)
      · rcases checkReadsLoop_ends fuel (u32 (signatureTotal answers data lists)) hp hs.toReadsOk
          hpass with hend | hend
        · exact ⟨_, hend, .inl rfl⟩
        · exact ⟨_, hend, .inr ⟨lists, p, h, rfl⟩⟩

/-- The check returns when it is safe in each list it comes to. -/
theorem checkReadsLoop_iff :
    (∃ result, checkReadsLoop answers data (data.length + 1) 0 data.length 0 = .ok result) ↔
      ∀ lists p, Passed answers data lists p → p < data.length → Safe answers data p := by
  constructor
  · rintro ⟨result, hrun⟩ lists p h hp
    exact h.safe hp hrun
  · intro hsafe
    obtain ⟨result, hrun, -⟩ := checkReadsLoop_returns hsafe .start (Nat.lt_succ_self data.length)
    exact ⟨result, hrun⟩

end Edk2.Auth
