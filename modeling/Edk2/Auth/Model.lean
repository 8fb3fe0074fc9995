import Edk2.Auth.Store

/-!
# The state of the authentication library

The variables, the mode of the platform and the state of the vendor keys. A call gets answers from
the libraries for cryptography, for the platform and for the checks of variables; reads behind the
end of a variable or of a request see whatever memory holds there.
-/

namespace Edk2.Auth

open Variable (Bytes word readBytes)

/-! ### GUIDs and names -/

/-- The bytes of `{ data1, data2, data3, { data4 } }`. -/
def guid (data1 data2 data3 : ℕ) (data4 : List UInt8) (h : data4.length = 8) : Guid where
  bytes := [UInt8.ofNat data1, UInt8.ofNat (data1 / 2 ^ 8), UInt8.ofNat (data1 / 2 ^ 16),
    UInt8.ofNat (data1 / 2 ^ 24), UInt8.ofNat data2, UInt8.ofNat (data2 / 2 ^ 8),
    UInt8.ofNat data3, UInt8.ofNat (data3 / 2 ^ 8)] ++ data4
  length_bytes := by simp [h]

def gEfiGlobalVariableGuid : Guid :=
  guid 0x8BE4DF61 0x93CA 0x11D2 [0xAA, 0x0D, 0x00, 0xE0, 0x98, 0x03, 0x2B, 0x8C] rfl

def gEfiImageSecurityDatabaseGuid : Guid :=
  guid 0xd719b2cb 0x3d3a 0x4596 [0xa3, 0xbc, 0xda, 0xd0, 0x0e, 0x67, 0x65, 0x6f] rfl

def gEfiSecureBootEnableDisableGuid : Guid :=
  guid 0xf0a30bc7 0xaf08 0x4556 [0x99, 0xc4, 0x00, 0x10, 0x09, 0xc9, 0x3a, 0x44] rfl

def gEfiCustomModeEnableGuid : Guid :=
  guid 0xc076ec0c 0x7028 0x4399 [0xa0, 0x72, 0x71, 0xee, 0x5c, 0x44, 0x8b, 0x9f] rfl

def gEfiVendorKeysNvGuid : Guid :=
  guid 0x9073e4e0 0x60ec 0x4b6e [0x99, 0x03, 0x4c, 0x22, 0x3c, 0x26, 0x0f, 0x3c] rfl

def gEfiCertDbGuid : Guid :=
  guid 0xd9bee56e 0x75dc 0x49d9 [0xb4, 0xd7, 0xb5, 0x34, 0x21, 0x0f, 0x63, 0x7a] rfl

def gEfiCertX509Guid : Guid :=
  guid 0xa5c059a1 0x94e4 0x4aa7 [0x87, 0xb5, 0xab, 0x15, 0x5c, 0x2b, 0xf0, 0x72] rfl

def gEfiCertPkcs7Guid : Guid :=
  guid 0x4aafd29d 0x68df 0x49ee [0x8a, 0xa9, 0x34, 0x7d, 0x37, 0x56, 0x65, 0xa7] rfl

/-- `EFI_PLATFORM_KEY_NAME`. -/
def pk : Key := ⟨ascii ['P', 'K'], gEfiGlobalVariableGuid⟩

/-- `EFI_KEY_EXCHANGE_KEY_NAME`. -/
def kek : Key := ⟨ascii ['K', 'E', 'K'], gEfiGlobalVariableGuid⟩

/-- `EFI_IMAGE_SECURITY_DATABASE`, `EFI_IMAGE_SECURITY_DATABASE1`, `EFI_IMAGE_SECURITY_DATABASE2`. -/
def imageSecurityDatabases : List Key :=
  [⟨ascii ['d', 'b'], gEfiImageSecurityDatabaseGuid⟩,
    ⟨ascii ['d', 'b', 'x'], gEfiImageSecurityDatabaseGuid⟩,
    ⟨ascii ['d', 'b', 't'], gEfiImageSecurityDatabaseGuid⟩]

/-- `EFI_SETUP_MODE_NAME`. -/
def setupModeVariable : Key :=
  ⟨ascii ['S', 'e', 't', 'u', 'p', 'M', 'o', 'd', 'e'], gEfiGlobalVariableGuid⟩

/-- `EFI_SECURE_BOOT_MODE_NAME`. -/
def secureBoot : Key :=
  ⟨ascii ['S', 'e', 'c', 'u', 'r', 'e', 'B', 'o', 'o', 't'], gEfiGlobalVariableGuid⟩

/-- `EFI_SECURE_BOOT_ENABLE_NAME`. -/
def secureBootEnable : Key :=
  ⟨ascii ['S', 'e', 'c', 'u', 'r', 'e', 'B', 'o', 'o', 't', 'E', 'n', 'a', 'b', 'l', 'e'],
    gEfiSecureBootEnableDisableGuid⟩

/-- `EFI_CUSTOM_MODE_NAME`. -/
def customMode : Key :=
  ⟨ascii ['C', 'u', 's', 't', 'o', 'm', 'M', 'o', 'd', 'e'], gEfiCustomModeEnableGuid⟩

/-- `EFI_VENDOR_KEYS_NV_VARIABLE_NAME`. -/
def vendorKeysNv : Key :=
  ⟨ascii ['V', 'e', 'n', 'd', 'o', 'r', 'K', 'e', 'y', 's', 'N', 'v'], gEfiVendorKeysNvGuid⟩

/-- `EFI_VENDOR_KEYS_VARIABLE_NAME`. -/
def vendorKeys : Key :=
  ⟨ascii ['V', 'e', 'n', 'd', 'o', 'r', 'K', 'e', 'y', 's'], gEfiGlobalVariableGuid⟩

/-- `EFI_CERT_DB_NAME`. -/
def certDb : Key := ⟨ascii ['c', 'e', 'r', 't', 'd', 'b'], gEfiCertDbGuid⟩

/-- `EFI_CERT_DB_VOLATILE_NAME`. -/
def certDbVolatile : Key := ⟨ascii ['c', 'e', 'r', 't', 'd', 'b', 'v'], gEfiCertDbGuid⟩

/-! ### Answers -/

/-- What `Pkcs7GetSigners` finds in a signature. -/
structure Signers where
  /-- The stack of certificates: their number in a byte, then each with its length. -/
  signerCerts : List UInt8
  topLevelCert : List UInt8
deriving DecidableEq

/-- A SHA-256 digest. -/
structure Digest where
  bytes : List UInt8
  length_bytes : bytes.length = 32
deriving DecidableEq

/-- What one call of `SetVariable` gets from elsewhere. -/
structure Answers where
  atRuntime : Bool
  inCustomMode : Bool
  userPhysicalPresent : Bool
  /-- `SetVariableCheckHandlerMor` and `VarCheckLibSetVariableCheck`. -/
  varCheck : EfiStatus
  /-- The status of writing to the store, by the number of the updates before. -/
  written : ℕ → EfiStatus
  /-- The memory behind a variable or a request. -/
  beyond : Bytes
  pkcs7GetSigners : List UInt8 → Option Signers
  /-- The signed data, the trusted certificate with its size, and the data. -/
  pkcs7Verify : List UInt8 → Bytes → ℕ → List UInt8 → Bool
  x509GetCommonName : List UInt8 → Option (List UInt8)
  x509GetTbsCert : List UInt8 → Option (List UInt8)
  sha256 : List UInt8 → Option Digest
  rsaNew : Bool
  rsaGetPublicKeyFromX509 : Bytes → ℕ → Bool

/-- The memory from the first byte of `data` on. -/
def pointer (beyond : Bytes) (data : List UInt8) : Bytes := fun i =>
  if h : i < data.length then data[i] else beyond (i - data.length)

/-! ### State -/

/-- `mPlatformMode`. -/
inductive PlatformMode
  | userMode
  | setupMode
deriving DecidableEq, Repr

/-- `USER_MODE` and `SETUP_MODE`. -/
def PlatformMode.toByte : PlatformMode → UInt8
  | userMode => 0
  | setupMode => 1

abbrev vendorKeysModified : UInt8 := 0

/-- The globals of the library and the variables. -/
structure Platform where
  store : Store
  platformMode : PlatformMode
  vendorKeyState : UInt8
  /-- The updates that the current call has asked for, with their status, the first one first. -/
  updates : List (Key × EfiStatus)

/-- A computation of the library. -/
abbrev Action := EStateM Halt Platform

/-- `FindVariable`: at runtime only variables with runtime access are found. -/
def lookup (answers : Answers) (store : Store) (key : Key) : Option Record :=
  (store key).filter fun record => !answers.atRuntime || record.attributes.runtimeAccess

/-- `VariableExLibFindVariable`. -/
def findVariable (answers : Answers) (key : Key) : Action (Option Record) := do
  return lookup answers (← get).store key

/-- `VariableExLibUpdateVariable`. -/
def updateVariable (config : Config) (answers : Answers) (key : Key) (data : List UInt8)
    (attributes : Attributes) (timeStamp : Option EfiTime) : Action EfiStatus := do
  let s ← get
  let (status, record) := updateRecord config answers.atRuntime (answers.written s.updates.length)
    key.name (lookup answers s.store key) data attributes timeStamp
  let store := if lookup answers s.store key = record then s.store
    else Function.update s.store key record
  set { s with store, updates := s.updates ++ [(key, status)] }
  return status

end Edk2.Auth

/-!
## Signature lists

`CheckSignatureListFormat` and `FilterSignatureList`. An `EFI_SIGNATURE_LIST` has a header of 28
bytes, the header of its signature type and signatures of one size, each with its owner before it.
Sizes are computed in `UINTN`; a list of size zero keeps a loop where it is, and a signature size of
zero makes a division fault.
-/

namespace Edk2.Auth

open Variable (Bytes word readBytes)

/-- `sizeof (EFI_SIGNATURE_LIST)`. -/
abbrev signatureListHeader : ℕ := 28

/-- `sizeof (EFI_GUID)`, also the size of the owner of a signature. -/
abbrev guidSize : ℕ := 16

section Fields

variable (bytes : Bytes) (list : ℕ)

/-- The fields of the `EFI_SIGNATURE_LIST` at the offset `list`. -/
def signatureType : List UInt8 := readBytes bytes list guidSize

def signatureListSize : ℕ := word bytes (list + 16) 4

def signatureHeaderSize : ℕ := word bytes (list + 20) 4

def signatureSize : ℕ := word bytes (list + 24) 4

/-- The size of all signatures of a list. -/
def signaturesSize : ℕ :=
  sub64 (sub64 (signatureListSize bytes list) signatureListHeader) (signatureHeaderSize bytes list)

/-- The offset of the first signature. -/
def firstSignature : ℕ := list + signatureListHeader + signatureHeaderSize bytes list

/-- The number of signatures; a size of zero makes the division fault. -/
def signatureCount : Except Halt ℕ :=
  if signatureSize bytes list = 0 then .error .fault
  else .ok (signaturesSize bytes list / signatureSize bytes list)

end Fields

/-- `EFI_SIGNATURE_ITEM`. -/
structure SignatureItem where
  sigType : Guid
  sigHeaderSize : ℕ
  sigDataSize : ℕ

/-- `(UINT32) ~0`. -/
abbrev anySize : ℕ := 2 ^ 32 - 1

def mSupportSigItem : List SignatureItem := [
  ⟨guid 0xc1c41626 0x504c 0x4092 [0xac, 0xa9, 0x41, 0xf9, 0x36, 0x93, 0x43, 0x28] rfl, 0, 32⟩,
  ⟨guid 0x3c5766e8 0x269c 0x4e34 [0xaa, 0x14, 0xed, 0x77, 0x6e, 0x85, 0xb3, 0xb6] rfl, 0, 256⟩,
  ⟨guid 0xe2b36190 0x879b 0x4a3d [0xad, 0x8d, 0xf2, 0xe7, 0xbb, 0xa3, 0x27, 0x84] rfl, 0, 256⟩,
  ⟨guid 0x826ca512 0xcf10 0x4ac9 [0xb1, 0x87, 0xbe, 0x01, 0x49, 0x66, 0x31, 0xbd] rfl, 0, 20⟩,
  ⟨guid 0x67f8444f 0x8743 0x48f1 [0xa3, 0x28, 0x1e, 0xaa, 0xb8, 0x73, 0x60, 0x80] rfl, 0, 256⟩,
  ⟨gEfiCertX509Guid, 0, anySize⟩,
  ⟨guid 0x0b6e5233 0xa65c 0x44c9 [0x94, 0x07, 0xd9, 0xab, 0x83, 0xbf, 0xc8, 0xbd] rfl, 0, 28⟩,
  ⟨guid 0xff3e5307 0x9fd0 0x48c9 [0x85, 0xf1, 0x8a, 0xd5, 0x6c, 0x70, 0x1e, 0x01] rfl, 0, 48⟩,
  ⟨guid 0x093e0fae 0xa6c4 0x4f50 [0x9f, 0x1b, 0xd4, 0x1e, 0x2b, 0x89, 0xc1, 0x9a] rfl, 0, 64⟩,
  ⟨guid 0x3bd2a492 0x96c0 0x4079 [0xb4, 0x20, 0xfc, 0xf9, 0x8e, 0xf1, 0x03, 0xed] rfl, 0, 48⟩,
  ⟨guid 0x7076876e 0x80c2 0x4ee6 [0xaa, 0xd2, 0x28, 0xb3, 0x49, 0xa6, 0x86, 0x5b] rfl, 0, 64⟩,
  ⟨guid 0x446dbf63 0x2502 0x4cda [0xbc, 0xfa, 0x24, 0x65, 0xd2, 0xb0, 0xfe, 0x9d] rfl, 0, 80⟩]

/-! ### CheckSignatureListFormat -/

/-- The certificate of a list of certificates must hold an RSA key. -/
def checkCertificate (answers : Answers) (bytes : Bytes) (list : ℕ) : Bool :=
  if signatureType bytes list = gEfiCertX509Guid.bytes then
    let certData := firstSignature bytes list + guidSize
    answers.rsaNew && answers.rsaGetPublicKeyFromX509 (fun i => bytes (certData + i))
      (sub64 (signatureSize bytes list) guidSize)
  else true

/-- The checks of one list but for the number of its signatures. -/
def checkSignatureItem (answers : Answers) (bytes : Bytes) (list : ℕ) : Bool :=
  match mSupportSigItem.find? fun item => signatureType bytes list = item.sigType.bytes with
  | none => false
  | some item =>
    (item.sigDataSize = anySize ||
        sub64 (signatureSize bytes list) guidSize = item.sigDataSize) &&
      (item.sigHeaderSize = anySize || signatureHeaderSize bytes list = item.sigHeaderSize) &&
      checkCertificate answers bytes list

/-- The loop of `CheckSignatureListFormat`: where it ends and how many signatures there were,
unless a list is malformed. -/
def checkLoop (answers : Answers) (bytes : Bytes) :
    ℕ → ℕ → ℕ → ℕ → Except Halt (Option (ℕ × ℕ))
  | 0, _, _, _ => .error .loop
  | fuel + 1, list, sigDataSize, sigCount =>
    if 0 < sigDataSize ∧ signatureListSize bytes list ≤ sigDataSize then
      if !checkSignatureItem answers bytes list then .ok none
      else do
        let count ← signatureCount bytes list
        if signaturesSize bytes list % signatureSize bytes list ≠ 0 then return none
        else
          checkLoop answers bytes fuel (list + signatureListSize bytes list)
            (sigDataSize - signatureListSize bytes list) (u32 (sigCount + count))
    else .ok (some (list, sigCount))

/-- The variables that hold signature lists. -/
def holdsSignatures (key : Key) : Bool := key = pk ∨ key = kek ∨ key ∈ imageSecurityDatabases

def checkSignatureListFormat (answers : Answers) (key : Key) (data : List UInt8) :
    Except Halt EfiStatus :=
  if data = [] then .ok .success
  else if !holdsSignatures key then .ok .success
  else do
    match ← checkLoop answers (pointer answers.beyond data) (data.length + 1) 0 data.length 0 with
    | none => return .invalidParameter
    | some (list, sigCount) =>
      if list ≠ data.length then return .invalidParameter
      else if key = pk ∧ 1 < sigCount then return .invalidParameter
      else return .success

/-! ### FilterSignatureList -/

/-- One of `count` signatures from the offset `cert` on has the bytes of `signature`. -/
def hasSignature (bytes : Bytes) (cert size count : ℕ) (signature : List UInt8) : Bool :=
  (List.range count).any fun i => readBytes bytes (cert + i * size) size = signature

/-- The loop over the lists of the variable: none of them has the signature. -/
def isNewCert (bytes : Bytes) (type signature : List UInt8) : ℕ → ℕ → ℕ → Except Halt Bool
  | 0, _, _ => .error .loop
  | fuel + 1, list, size =>
    if 0 < size ∧ signatureListSize bytes list ≤ size then do
      let next := isNewCert bytes type signature fuel (list + signatureListSize bytes list)
        (size - signatureListSize bytes list)
      if signatureType bytes list = type ∧ signatureSize bytes list = signature.length then
        let count ← signatureCount bytes list
        if hasSignature bytes (firstSignature bytes list) (signatureSize bytes list) count
          signature then return false
        else next
      else next
    else .ok true

/-- A number of four bytes. -/
def le32 (n : ℕ) : List UInt8 :=
  [UInt8.ofNat n, UInt8.ofNat (n / 2 ^ 8), UInt8.ofNat (n / 2 ^ 16), UInt8.ofNat (n / 2 ^ 24)]

/-- A list with the signatures that are kept, under the header of the list at the offset `list`. -/
def keptList (bytes : Bytes) (list : ℕ) (kept : List (List UInt8)) : List UInt8 :=
  if kept = [] then []
  else
    let headerSize := signatureListHeader + signatureHeaderSize bytes list
    readBytes bytes list 16 ++ le32 (headerSize + kept.length * signatureSize bytes list) ++
      readBytes bytes (list + 20) (headerSize - 20) ++ kept.flatten

/-- The outer loop of `FilterSignatureList`: what is written to the scratch buffer. -/
def filterLoop (old : Bytes) (oldSize : ℕ) (new : Bytes) :
    ℕ → ℕ → ℕ → Except Halt (List UInt8)
  | 0, _, _ => .error .loop
  | fuel + 1, list, size =>
    if 0 < size ∧ signatureListSize new list ≤ size then do
      let count ← signatureCount new list
      let signatures := (List.range count).map fun i =>
        readBytes new (firstSignature new list + i * signatureSize new list)
          (signatureSize new list)
      let kept ← signatures.filterM fun signature =>
        isNewCert old (signatureType new list) signature (oldSize + 1) 0 oldSize
      let rest ← filterLoop old oldSize new fuel (list + signatureListSize new list)
        (size - signatureListSize new list)
      return keptList new list kept ++ rest
    else .ok []

/-- `FilterSignatureList`: the new data without the signatures that the variable has. -/
def filterSignatureList (config : Config) (answers : Answers) (data newData : List UInt8) :
    Except Halt (List UInt8) :=
  if newData = [] then .ok newData
  else if config.scratchBufferSize < newData.length then .ok newData
  else
    filterLoop (pointer answers.beyond data) data.length (pointer answers.beyond newData)
      (newData.length + 1) 0 newData.length

end Edk2.Auth

/-!
## The database of certificates

The variables `certdb` and `certdbv` hold, for each authenticated variable that is not one of the
secure boot variables, what identifies its signer. The database is its size, followed by nodes
(`AUTH_CERT_DB_DATA`): the vendor GUID, the size of the node, the length of the name, the size of
the certificate data, the name and the data.
-/

namespace Edk2.Auth

open Variable (Bytes word readBytes)

/-- `sizeof (AUTH_CERT_DB_DATA)`. -/
abbrev nodeHeaderSize : ℕ := 28

abbrev sha256DigestSize : ℕ := 32

/-- What `FindCertsFromDb` finds. -/
structure CertPlace where
  certOffset : ℕ
  certDataSize : ℕ
  certNodeOffset : ℕ
  certNodeSize : ℕ
deriving DecidableEq, Repr

/-- The loop of `FindCertsFromDb`. Offsets are `UINT32`. -/
def findCertsLoop (key : Key) (data : Bytes) (dataSize : ℕ) :
    ℕ → ℕ → Except Halt (Except EfiStatus CertPlace)
  | 0, _ => .error .loop
  | fuel + 1, offset =>
    if offset < dataSize then
      let nodeSize := word data (offset + 16) 4
      let nameSize := word data (offset + 20) 4
      let certSize := word data (offset + 24) 4
      if readBytes data offset guidSize = key.guid.bytes then
        if nodeSize ≠ nodeHeaderSize + certSize + 2 * nameSize then
          .ok (.error .invalidParameter)
        else
          let name := u32 (offset + nodeHeaderSize)
          if nameSize = key.name.length ∧
              readBytes data name (2 * nameSize) = key.name.bytes then
            .ok (.ok {
              certOffset := u32 (name + 2 * nameSize)
              certDataSize := certSize
              certNodeOffset := offset
              certNodeSize := nodeSize })
          else
            findCertsLoop key data dataSize fuel (u32 (name + 2 * nameSize + certSize))
      else findCertsLoop key data dataSize fuel (u32 (offset + nodeSize))
    else .ok (.error .notFound)

def findCertsFromDb (answers : Answers) (key : Key) (data : List UInt8) :
    Except Halt (Except EfiStatus CertPlace) :=
  let bytes := pointer answers.beyond data
  if data.length < 4 then .ok (.error .invalidParameter)
  else if word bytes 0 4 ≠ u32 data.length then .ok (.error .invalidParameter)
  else findCertsLoop key bytes (u32 data.length) (data.length + 1) 4

/-- The database for variables with these attributes. -/
def dbName (attributes : Attributes) : Key :=
  if attributes.nonVolatile then certDb else certDbVolatile

/-- `VarAttr`: the attributes of the database. -/
def dbAttributes (attributes : Attributes) : Attributes :=
  { nonVolatile := attributes.nonVolatile
    runtimeAccess := true
    bootserviceAccess := true
    timeBasedAuthenticatedWriteAccess := true }

/-- `GetCertsFromDb`: the certificate data, as a pointer with a size. -/
def getCertsFromDb (answers : Answers) (key : Key) (attributes : Attributes) :
    Action (Except EfiStatus (Bytes × ℕ)) := do
  match ← findVariable answers (dbName attributes) with
  | none => return .error .notFound
  | some db =>
    match findCertsFromDb answers key db.data with
    | .error halt => throw halt
    | .ok (.error status) => return .error status
    | .ok (.ok place) =>
      return .ok (fun i => pointer answers.beyond db.data (place.certOffset + i),
        place.certDataSize)

/-- The database without the node at `place`. -/
def withoutNode (data : List UInt8) (place : CertPlace) : List UInt8 :=
  (le32 (data.length - place.certNodeSize) ++ (data.take place.certNodeOffset).drop 4) ++
    data.drop (place.certNodeOffset + place.certNodeSize)

def deleteCertsFromDb (config : Config) (answers : Answers) (key : Key) (attributes : Attributes) :
    Action EfiStatus := do
  match ← findVariable answers (dbName attributes) with
  | none => return .notFound
  | some db =>
    if db.data.length = 4 then return .success
    else
      match findCertsFromDb answers key db.data with
      | .error halt => throw halt
      | .ok (.error status) => return status
      | .ok (.ok place) =>
        if db.data.length < u32 (place.certNodeOffset + place.certNodeSize) then return .notFound
        else
          updateVariable config answers (dbName attributes) (withoutNode db.data place)
            (dbAttributes attributes) none

def calculatePrivAuthVarSignChainSha256Digest (answers : Answers)
    (signerCert topLevelCert : List UInt8) : Except EfiStatus Digest :=
  match answers.x509GetCommonName signerCert with
  | none => .error .aborted
  | some certCommonName =>
    match answers.x509GetTbsCert topLevelCert with
    | none => .error .aborted
    | some tbsCert =>
      match answers.sha256 (certCommonName.takeWhile (· ≠ 0) ++ tbsCert) with
      | none => .error .aborted
      | some digest => .ok digest

/-- The first certificate of the stack. -/
def firstSigner (answers : Answers) (signers : Signers) : List UInt8 :=
  let certs := pointer answers.beyond signers.signerCerts
  readBytes certs 5 (word certs 1 4)

/-- The node that `InsertCertsToDb` adds. -/
def certNode (key : Key) (cert : List UInt8) : List UInt8 :=
  key.guid.bytes ++ le32 (nodeHeaderSize + cert.length + 2 * key.name.length) ++
    le32 key.name.length ++ le32 cert.length ++ key.name.bytes ++ cert

/-- `mMaxCertDbSize`; `sizeof (EFI_CERT_DB_VOLATILE_NAME)` is 16. -/
def maxCertDbSize (config : Config) : ℕ := u32 (sub64 config.maxAuthVariableSize 16)

def insertCertsToDb (config : Config) (answers : Answers) (key : Key) (attributes : Attributes)
    (signerCert topLevelCert : List UInt8) : Action EfiStatus := do
  match ← findVariable answers (dbName attributes) with
  | none => return .notFound
  | some db =>
    match findCertsFromDb answers key db.data with
    | .error halt => throw halt
    | .ok (.ok _) => throw .assert
    | .ok (.error _) =>
      let newCertDbSize := u32 (db.data.length +
        u32 (nodeHeaderSize + sha256DigestSize + 2 * key.name.length))
      if maxCertDbSize config < newCertDbSize then return .outOfResources
      else
        match calculatePrivAuthVarSignChainSha256Digest answers signerCert topLevelCert with
        | .error status => return status
        | .ok digest =>
          updateVariable config answers (dbName attributes)
            (le32 newCertDbSize ++ db.data.drop 4 ++ certNode key digest.bytes)
            (dbAttributes attributes) none

end Edk2.Auth
