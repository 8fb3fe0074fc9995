import Edk2.Base

/-!
# The format of variable stores

`VariableFormat.h`: a store header, then the variables one after the other, each with its header,
its name and its data. Stores are bytes; numbers are stored with the lowest byte first.
-/

namespace Edk2.Variable

/-- Bytes by their address, or by their offset. -/
abbrev Bytes := ℕ → UInt8

/-- The number that `n` bytes stand for. -/
def word (bytes : Bytes) (offset : ℕ) : ℕ → ℕ
  | 0 => 0
  | n + 1 => (bytes offset).toNat + 2 ^ 8 * word bytes (offset + 1) n

/-- The `n` bytes from `offset` on. -/
def readBytes (bytes : Bytes) (offset n : ℕ) : List UInt8 :=
  (List.range n).map fun i => bytes (offset + i)

lemma word_congr {b b' : Bytes} {o o' : ℕ} : ∀ {n : ℕ},
    (∀ i < n, b (o + i) = b' (o' + i)) → word b o n = word b' o' n := by
  intro n
  induction n generalizing o o' with
  | zero => exact fun _ => rfl
  | succ n ih =>
    intro h
    have hrest : ∀ i < n, b (o + 1 + i) = b' (o' + 1 + i) := by
      grind
    have hfst : b o = b' o' := h 0 (Nat.succ_pos n)
    simp only [word, hfst, ih hrest]

lemma readBytes_congr {b b' : Bytes} {o o' n : ℕ} (h : ∀ i < n, b (o + i) = b' (o' + i)) :
    readBytes b o n = readBytes b' o' n := by
  apply List.map_congr_left
  intro i hi
  exact h i (List.mem_range.mp hi)

@[simp] lemma length_readBytes (b : Bytes) (o n : ℕ) : (readBytes b o n).length = n := by
  simp [readBytes]

lemma readBytes_add (b : Bytes) (o m n : ℕ) :
    readBytes b o (m + n) = readBytes b o m ++ readBytes b (o + m) n := by
  simp only [readBytes, List.range_add, List.map_append, List.map_map]
  congr 1
  apply List.map_congr_left
  intro i _
  simp only [Function.comp_apply, Nat.add_assoc]

lemma readBytes_take {b : Bytes} {o m n : ℕ} (h : m ≤ n) : readBytes b o m <+: readBytes b o n := by
  obtain ⟨k, rfl⟩ := Nat.exists_eq_add_of_le h
  rw [readBytes_add]
  exact List.prefix_append _ _

/-! ### The store header -/

/-- `gEfiVariableGuid`, `gEfiAuthenticatedVariableGuid` as numbers of sixteen bytes. -/
abbrev gEfiVariableGuid : ℕ := 0x7dfe7f7085feb69841643275ddcf3616
abbrev gEfiAuthenticatedVariableGuid : ℕ := 0x9277c34e142e80a1439a947baaf32c78

abbrev variableStoreFormatted : ℕ := 0x5a
abbrev variableStoreHealthy : ℕ := 0xfe

/-- `sizeof (VARIABLE_STORE_HEADER)`. -/
abbrev variableStoreHeaderSize : ℕ := 28

def headerAlign (value : ℕ) : ℕ := (value + 3) / 4 * 4

def getStartPointer (varStoreHeader : ℕ) : ℕ :=
  headerAlign (varStoreHeader + variableStoreHeaderSize)

def getEndPointer (mem : Bytes) (varStoreHeader : ℕ) : ℕ :=
  headerAlign (varStoreHeader + word mem (varStoreHeader + 16) 4)

/-- `VARIABLE_STORE_STATUS`. -/
inductive StoreStatus
  | efiRaw
  | efiValid
  | efiInvalid
deriving DecidableEq, Repr

def getVariableStoreStatus (mem : Bytes) (varStoreHeader : ℕ) : StoreStatus :=
  let signature := word mem varStoreHeader 16
  let size := word mem (varStoreHeader + 16) 4
  let format := word mem (varStoreHeader + 20) 1
  let state := word mem (varStoreHeader + 21) 1
  if (signature = gEfiAuthenticatedVariableGuid ∨ signature = gEfiVariableGuid) ∧
      format = variableStoreFormatted ∧ state = variableStoreHealthy then .efiValid
  else if signature = 2 ^ 128 - 1 ∧ size = 2 ^ 32 - 1 ∧ format = 0xff ∧ state = 0xff then .efiRaw
  else .efiInvalid

/-! ### Variable headers -/

abbrev variableData : ℕ := 0x55AA

/-- `VAR_ADDED` and `VAR_IN_DELETED_TRANSITION & VAR_ADDED`. -/
abbrev varAdded : ℕ := 0x3f
abbrev varInDeletedAdded : ℕ := 0x3e

def getVariableHeaderSize (authFlag : Bool) : ℕ := if authFlag then 60 else 32

/-- The fields of a header, which is given by its bytes. -/
def startId (header : Bytes) : ℕ := word header 0 2

def state (header : Bytes) : ℕ := word header 2 1

def attributes (header : Bytes) : ℕ := word header 4 4

def nameSize (header : Bytes) (authFlag : Bool) : ℕ := word header (if authFlag then 36 else 8) 4

def dataSize (header : Bytes) (authFlag : Bool) : ℕ := word header (if authFlag then 40 else 12) 4

def vendorGuid (header : Bytes) (authFlag : Bool) : ℕ :=
  word header (if authFlag then 44 else 16) 16

def isValidVariableHeader (header : Bytes) : Bool := startId header = variableData

/-- A field of the header is still erased. -/
def isErased (header : Bytes) (authFlag : Bool) : Bool :=
  state header = 2 ^ 8 - 1 ∨ dataSize header authFlag = 2 ^ 32 - 1 ∨
    nameSize header authFlag = 2 ^ 32 - 1 ∨ attributes header = 2 ^ 32 - 1

def nameSizeOfVariable (header : Bytes) (authFlag : Bool) : ℕ :=
  if isErased header authFlag then 0 else nameSize header authFlag

def dataSizeOfVariable (header : Bytes) (authFlag : Bool) : ℕ :=
  if isErased header authFlag then 0 else dataSize header authFlag

def getVariableNamePtr (ptr : ℕ) (authFlag : Bool) : ℕ :=
  ptr + getVariableHeaderSize authFlag

/-- `GetVariableDataPtr`; names and data need no padding (`GET_PAD_SIZE`). -/
def getVariableDataPtr (ptr : ℕ) (header : Bytes) (authFlag : Bool) : ℕ :=
  getVariableNamePtr ptr authFlag + nameSizeOfVariable header authFlag

/-- The end of a variable, up to the alignment of the next header. -/
def variableEnd (ptr : ℕ) (header : Bytes) (authFlag : Bool) : ℕ :=
  headerAlign (getVariableDataPtr ptr header authFlag + dataSizeOfVariable header authFlag)

/-- The variable is there: it was added, and is at most about to be deleted. -/
def isLive (header : Bytes) : Bool := state header = varAdded ∨ state header = varInDeletedAdded

/-! ### Names -/

/-- A string of `CHAR16`, given by their two bytes, with its terminator. -/
def encode (chars : List (UInt8 × UInt8)) : List UInt8 :=
  (chars ++ [(0, 0)]).flatMap fun (c : UInt8 × UInt8) => [c.1, c.2]

/-- The bytes of a string that ends at its first terminator. -/
def IsName (bytes : List UInt8) : Prop :=
  ∃ chars : List (UInt8 × UInt8), (∀ c ∈ chars, c ≠ (0, 0)) ∧ bytes = encode chars

lemma encode_cons (c : UInt8 × UInt8) (chars : List (UInt8 × UInt8)) :
    encode (c :: chars) = c.1 :: c.2 :: encode chars := rfl

lemma encode_take {chars chars' : List (UInt8 × UInt8)} (h : ∀ c ∈ chars, c ≠ (0, 0))
    (h' : ∀ c ∈ chars', c ≠ (0, 0)) (hpre : encode chars <+: encode chars') : chars = chars' := by
  induction chars generalizing chars' with
  | nil =>
    cases chars' with
    | nil => rfl
    | cons c' rest' =>
      rw [encode_cons] at hpre
      obtain ⟨h₁, hpre⟩ := List.cons_prefix_cons.mp hpre
      obtain ⟨h₂, -⟩ := List.cons_prefix_cons.mp hpre
      exact absurd (Prod.ext h₁.symm h₂.symm) (h' c' List.mem_cons_self)
  | cons c rest ih =>
    cases chars' with
    | nil =>
      rw [encode_cons] at hpre
      obtain ⟨h₁, hpre⟩ := List.cons_prefix_cons.mp hpre
      obtain ⟨h₂, -⟩ := List.cons_prefix_cons.mp hpre
      exact absurd (Prod.ext h₁ h₂) (h c List.mem_cons_self)
    | cons c' rest' =>
      grind [encode_cons, Prod.ext]

lemma IsName.eq_of_prefix {name name' : List UInt8} (h : IsName name) (h' : IsName name')
    (hpre : name <+: name') : name = name' := by
  obtain ⟨chars, hcha, rfl⟩ := h
  obtain ⟨chars', hcha', rfl⟩ := h'
  rw [encode_take hcha hcha' hpre]

lemma IsName.readBytes_iff {name stored : List UInt8} {mem : Bytes} {ptr : ℕ} (h : IsName name)
    (hs : IsName stored) (hmem : readBytes mem ptr name.length = name) :
    readBytes mem ptr stored.length = stored ↔ name = stored := by
  constructor
  · intro heq
    rcases Nat.le_total name.length stored.length with hle | hle
    · apply h.eq_of_prefix hs
      obtain ⟨k, hk⟩ := Nat.exists_eq_add_of_le hle
      rw [hk, readBytes_add, hmem] at heq
      exact ⟨_, heq⟩
    · symm
      apply hs.eq_of_prefix h
      obtain ⟨k, hk⟩ := Nat.exists_eq_add_of_le hle
      rw [hk, readBytes_add, heq] at hmem
      exact ⟨_, hmem⟩
  · intro heq
    rw [← heq]
    exact hmem

lemma IsName.word_eq_zero_iff {name : List UInt8} {mem : Bytes} {ptr : ℕ} (h : IsName name)
    (hmem : readBytes mem ptr name.length = name) : word mem ptr 2 = 0 ↔ name = encode [] := by
  obtain ⟨chars, hcha, rfl⟩ := h
  have hword : ∀ c rest, encode chars = c.1 :: c.2 :: rest →
      (word mem ptr 2 = 0 ↔ (c : UInt8 × UInt8) = (0, 0)) := by
    intro c rest hc
    rw [hc] at hmem
    have hlen : (c.1 :: c.2 :: rest).length = 2 + rest.length := Nat.add_comm _ 2
    rw [hlen, readBytes_add] at hmem
    have hspl : readBytes mem ptr 2 ++ readBytes mem (ptr + 2) rest.length = [c.1, c.2] ++ rest :=
      hmem
    obtain ⟨h₁, h₂⟩ := List.cons.inj (List.append_inj hspl (length_readBytes _ _ _)).1
    obtain ⟨h₂, -⟩ := List.cons.inj h₂
    have h₁ : mem ptr = c.1 := h₁
    simp only [word, h₁, h₂, Prod.ext_iff, ← UInt8.toNat_inj, UInt8.toNat_zero]
    omega
  cases chars with
  | nil => exact (hword (0, 0) [] rfl).trans ⟨fun _ => rfl, fun _ => rfl⟩
  | cons c rest =>
    refine (hword c (encode rest) rfl).trans ⟨fun hc => absurd hc (hcha c List.mem_cons_self), ?_⟩
    intro heq
    rw [encode_cons] at heq
    exact Prod.ext (List.cons.inj heq).1 (List.cons.inj (List.cons.inj heq).2).1

end Edk2.Variable
