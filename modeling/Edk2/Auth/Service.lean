import Edk2.Auth.Model

/-!
# Setting authenticated variables

`AuthService.c`. The data of a time-based request starts with an `EFI_VARIABLE_AUTHENTICATION_2`
descriptor: a time stamp of 16 bytes, the header of a certificate with its length, revision and
type (8 bytes), the GUID of the type, and the signed data. The payload follows the descriptor.
-/

namespace Edk2.Auth

open Variable (Bytes word readBytes)

/-! ### The descriptor -/

/-- `OFFSET_OF (EFI_VARIABLE_AUTHENTICATION_2, AuthInfo)`. -/
abbrev offsetOfAuthInfo : ℕ := 16

/-- `OFFSET_OF (WIN_CERTIFICATE_UEFI_GUID, CertData)`. -/
abbrev offsetOfCertData : ℕ := 24

abbrev authInfoSize : ℕ := 8 + 24 + 528

section Descriptor

variable (answers : Answers) (data : List UInt8)

/-- The bytes of the request. -/
abbrev requestBytes : Bytes := pointer answers.beyond data

/-- `AuthInfo.Hdr.dwLength`. -/
def dwLength : ℕ := word (requestBytes answers data) 16 4

/-- `AuthInfo.Hdr.wCertificateType`. -/
def wCertificateType : ℕ := word (requestBytes answers data) 22 2

/-- `AuthInfo.CertType`. -/
def certType : List UInt8 := readBytes (requestBytes answers data) 24 guidSize

def timeStamp : EfiTime :=
  let bytes := requestBytes answers data
  { year := UInt16.ofNat (word bytes 0 2)
    month := bytes 2
    day := bytes 3
    hour := bytes 4
    minute := bytes 5
    second := bytes 6
    pad1 := bytes 7
    nanosecond := UInt32.ofNat (word bytes 8 4)
    timeZone := UInt16.ofNat (word bytes 12 2)
    daylight := bytes 14
    pad2 := bytes 15 }

def authInfo2Size : ℕ := offsetOfAuthInfo + dwLength answers data

/-- The signed data, which ends with the descriptor. -/
def sigData : List UInt8 :=
  (data.take (authInfo2Size answers data)).drop (offsetOfAuthInfo + offsetOfCertData)

/-- The data behind the descriptor. -/
def payload : List UInt8 := data.drop (authInfo2Size answers data)

end Descriptor

/-! ### Updates -/

def authServiceInternalUpdateVariable (config : Config) (answers : Answers) (key : Key)
    (data : List UInt8) (attributes : Attributes) : Action EfiStatus :=
  updateVariable config answers key data attributes none

def authServiceInternalUpdateVariableWithTimeStamp (config : Config) (answers : Answers)
    (key : Key) (data : List UInt8) (attributes : Attributes) (time : EfiTime) :
    Action EfiStatus := do
  match ← findVariable answers key with
  | none => updateVariable config answers key data attributes (some time)
  | some old =>
    if attributes.appendWrite ∧ (key = kek ∨ key ∈ imageSecurityDatabases) then
      match filterSignatureList config answers old.data data with
      | .error halt => throw halt
      | .ok data => updateVariable config answers key data attributes (some time)
    else updateVariable config answers key data attributes (some time)

def needPhysicallyPresent (key : Key) : Bool := key = secureBootEnable ∨ key = customMode

/-- The end of `UpdatePlatformMode`: `SecureBootEnable` exists while secure boot is enabled. -/
def updateSecureBootEnable (config : Config) (answers : Answers) (enable : Bool) :
    Action EfiStatus := do
  let found ← findVariable answers secureBootEnable
  let attributes : Attributes := { nonVolatile := true, bootserviceAccess := true }
  if enable then
    authServiceInternalUpdateVariable config answers secureBootEnable [1] attributes
  else if found = none then return .success
  else authServiceInternalUpdateVariable config answers secureBootEnable [] attributes

/-- The data of a record with its first byte written. -/
def Record.setByte (record : Record) (byte : UInt8) : Record :=
  { record with data := byte :: record.data.tail, data_ne_nil := List.cons_ne_nil _ _ }

def updatePlatformMode (config : Config) (answers : Answers) (mode : PlatformMode) :
    Action EfiStatus := do
  match ← findVariable answers setupModeVariable with
  | none => return .notFound
  | some record =>
    -- the variable is written in place
    modify fun s => { s with
      platformMode := mode
      store := Function.update s.store setupModeVariable (some (record.setByte mode.toByte)) }
    if answers.atRuntime then return .success
    else
      let found ← findVariable answers secureBoot
      let enable : Bool := found ≠ none ∧ mode = .userMode
      let status ← authServiceInternalUpdateVariable config answers secureBoot
        [if enable then 1 else 0] { runtimeAccess := true, bootserviceAccess := true }
      if status.isError then return status
      else updateSecureBootEnable config answers enable

def vendorKeyIsModified (config : Config) (answers : Answers) : Action EfiStatus := do
  if (← get).vendorKeyState = vendorKeysModified then return .success
  else
    modify fun s => { s with vendorKeyState := vendorKeysModified }
    let status ← authServiceInternalUpdateVariable config answers vendorKeysNv [vendorKeysModified]
      { nonVolatile := true, bootserviceAccess := true, timeBasedAuthenticatedWriteAccess := true }
    if status.isError then return status
    else
      authServiceInternalUpdateVariable config answers vendorKeys [vendorKeysModified]
        { runtimeAccess := true, bootserviceAccess := true }

/-! ### Verification -/

inductive AuthVarType
  | pk
  | kek
  | priv
  | payload
deriving DecidableEq, Repr

def mSha256OidValue : List UInt8 := [0x60, 0x86, 0x48, 0x01, 0x65, 0x03, 0x04, 0x02, 0x01]

/-- Long signed data must name SHA-256 as its digest algorithm. -/
def checkDigestAlgorithm (sigData : List UInt8) : Bool :=
  if 13 + mSha256OidValue.length ≤ sigData.length then
    (sigData.getD 1 0) &&& 0x82 = 0x82 ∧ (sigData.drop 13).take 9 = mSha256OidValue
  else true

/-- The data that is signed: name, GUID, attributes, time stamp and payload. -/
def serialize (answers : Answers) (key : Key) (attributes : Attributes) (data : List UInt8) :
    List UInt8 :=
  key.name.bytes ++ key.guid.bytes ++ le32 attributes.toNat ++ data.take 16 ++
    payload answers data

/-- The status for `VerifyStatus`. -/
def verified (verifyStatus : Bool) : EfiStatus :=
  if verifyStatus then .success else .securityViolation

/-- `sizeof (EFI_SIGNATURE_DATA) - 1`. -/
abbrev signatureDataHeader : ℕ := 16

/-- The first certificate of the signature list that `bytes` starts with, and its size. -/
def firstCertificate (bytes : Bytes) : Bytes × ℕ :=
  let cert := firstSignature bytes 0 + signatureDataHeader
  (fun i => bytes (cert + i), sub64 (signatureSize bytes 0) signatureDataHeader)

/-- `AuthVarTypePk`: the signer must be the platform key. -/
def verifyWithPk (answers : Answers) (sigData newData : List UInt8) : Action EfiStatus := do
  match answers.pkcs7GetSigners sigData with
  | none => return .securityViolation
  | some signers =>
    match ← findVariable answers pk with
    | none => return .securityViolation
    | some record =>
      let (cert, size) := firstCertificate (pointer answers.beyond record.data)
      let topLevelCert := signers.topLevelCert
      if topLevelCert.length ≠ size ∨ readBytes cert 0 topLevelCert.length ≠ topLevelCert then
        return .securityViolation
      else
        return verified (answers.pkcs7Verify sigData (pointer answers.beyond topLevelCert)
          topLevelCert.length newData)

/-- The loop over the key exchange keys: one of the certificates verifies the data. -/
def verifyKekLoop (answers : Answers) (sigData newData : List UInt8) (bytes : Bytes) :
    ℕ → ℕ → ℕ → Except Halt Bool
  | 0, _, _ => .error .loop
  | fuel + 1, list, size =>
    if 0 < size ∧ signatureListSize bytes list ≤ size then do
      let next := verifyKekLoop answers sigData newData bytes fuel
        (list + signatureListSize bytes list) (size - signatureListSize bytes list)
      if signatureType bytes list = gEfiCertX509Guid.bytes then
        let count ← signatureCount bytes list
        let verifies := (List.range count).any fun i =>
          let cert := firstSignature bytes list + i * signatureSize bytes list + signatureDataHeader
          answers.pkcs7Verify sigData (fun i => bytes (cert + i))
            (sub64 (signatureSize bytes list) signatureDataHeader) newData
        if verifies then return true
        else next
      else next
    else .ok false

/-- `AuthVarTypeKek`. -/
def verifyWithKek (answers : Answers) (sigData newData : List UInt8) : Action EfiStatus := do
  match ← findVariable answers kek with
  | none => return .notFound
  | some record =>
    match verifyKekLoop answers sigData newData (pointer answers.beyond record.data)
        (record.data.length + 1) 0 (u32 record.data.length) with
    | .error halt => throw halt
    | .ok verifyStatus => return verified verifyStatus

/-- The signer of an existing variable must be the one that the database has for it. -/
def checkSigner (answers : Answers) (key : Key) (attributes : Attributes) (signers : Signers) :
    Action Bool := do
  match ← getCertsFromDb answers key attributes with
  | .error _ => return false
  | .ok (certs, size) =>
    if size = sha256DigestSize then
      match calculatePrivAuthVarSignChainSha256Digest answers (firstSigner answers signers)
          signers.topLevelCert with
      | .error _ => return false
      | .ok digest => return readBytes certs 0 size = digest.bytes
    else return readBytes certs 0 size = signers.signerCerts

/-- The end of the verification for `AuthVarTypePriv`; a new variable is entered in the database. -/
def verifySigner (config : Config) (answers : Answers) (key : Key) (attributes : Attributes)
    (found : Bool) (signers : Signers) (sigData newData payload : List UInt8) :
    Action EfiStatus := do
  if !answers.pkcs7Verify sigData (pointer answers.beyond signers.topLevelCert)
      signers.topLevelCert.length newData then return .securityViolation
  else if !found ∧ payload ≠ [] then
    let status ← insertCertsToDb config answers key attributes (firstSigner answers signers)
      signers.topLevelCert
    return verified !status.isError
  else return .success

/-- `AuthVarTypePriv`. -/
def verifyPriv (config : Config) (answers : Answers) (key : Key) (attributes : Attributes)
    (found : Bool) (sigData newData payload : List UInt8) : Action EfiStatus := do
  match answers.pkcs7GetSigners sigData with
  | none => return .securityViolation
  | some signers =>
    if found then
      let known ← checkSigner answers key attributes signers
      if !known then return .securityViolation
      else verifySigner config answers key attributes found signers sigData newData payload
    else verifySigner config answers key attributes found signers sigData newData payload

/-- `AuthVarTypePayload`: the certificate is in the payload. -/
def verifyWithPayload (answers : Answers) (sigData newData payload : List UInt8) : EfiStatus :=
  let (cert, size) := firstCertificate (pointer answers.beyond payload)
  verified (answers.pkcs7Verify sigData cert size newData)

/-- The components of a time stamp that must be zero. -/
def EfiTime.isPlain (time : EfiTime) : Bool :=
  time.pad1 = 0 ∧ time.nanosecond = 0 ∧ time.timeZone = 0 ∧ time.daylight = 0 ∧ time.pad2 = 0

abbrev winCertTypeEfiGuid : ℕ := 0x0EF1

/-- The checks of `VerifyTimeBasedPayload` before the signature is looked at. -/
def checkDescriptor (config : Config) (answers : Answers) (key : Key) (data : List UInt8)
    (attributes : Attributes) (orgTimeStamp : Option EfiTime) : EfiStatus :=
  let time := timeStamp answers data
  if !time.isPlain then .securityViolation
  else if !attributes.appendWrite ∧ orgTimeStamp.any fun org => compareTimeStamp time org then
    .securityViolation
  else if wCertificateType answers data ≠ winCertTypeEfiGuid ∨
      certType answers data ≠ gEfiCertPkcs7Guid.bytes then .securityViolation
  else if attributes.timeBasedAuthenticatedWriteAccess ∧
      !checkDigestAlgorithm (sigData answers data) then .securityViolation
  else if config.scratchBufferSize < (serialize answers key attributes data).length then
    .outOfResources
  else .success

/-- The part of `VerifyTimeBasedPayload` that depends on the kind of the variable. -/
def verifySignature (config : Config) (answers : Answers) (key : Key) (attributes : Attributes)
    (found : Bool) (sigData newData payload : List UInt8) : AuthVarType → Action EfiStatus
  | .pk => verifyWithPk answers sigData newData
  | .kek => verifyWithKek answers sigData newData
  | .priv => verifyPriv config answers key attributes found sigData newData payload
  | .payload => pure (verifyWithPayload answers sigData newData payload)

/-- `VerifyTimeBasedPayload`; the payload is that of the request. -/
def verifyTimeBasedPayload (config : Config) (answers : Answers) (key : Key) (data : List UInt8)
    (attributes : Attributes) (authVarType : AuthVarType) (orgTimeStamp : Option EfiTime) :
    Action EfiStatus := do
  let status := checkDescriptor config answers key data attributes orgTimeStamp
  if status.isError then return status
  else
    let status ← verifySignature config answers key attributes orgTimeStamp.isSome
      (sigData answers data) (serialize answers key attributes data) (payload answers data)
      authVarType
    if status.isError then return status
    else
      match checkSignatureListFormat answers key (payload answers data) with
      | .error halt => throw halt
      | .ok status => return status

/-- `VerifyTimeBasedPayloadAndUpdate`: the status and `*VarDel`. -/
def verifyTimeBasedPayloadAndUpdate (config : Config) (answers : Answers) (key : Key)
    (data : List UInt8) (attributes : Attributes) (authVarType : AuthVarType) :
    Action (EfiStatus × Bool) := do
  let found ← findVariable answers key
  let status ← verifyTimeBasedPayload config answers key data attributes authVarType
    (found.map Record.timeStamp)
  if status.isError then return (status, false)
  else
    let isDel : Bool := found ≠ none ∧ payload answers data = [] ∧ !attributes.appendWrite
    let status ← authServiceInternalUpdateVariableWithTimeStamp config answers key
      (payload answers data) attributes (timeStamp answers data)
    if isDel ∧ authVarType = .priv ∧ !status.isError then
      let status ← deleteCertsFromDb config answers key attributes
      return (status, !status.isError)
    else return (status, isDel && !status.isError)

/-! ### The kinds of variables -/

/-- The update of `ProcessVarWithPk` and `ProcessVarWithKek` without a signature. -/
def updateUnverified (config : Config) (answers : Answers) (key : Key) (data : List UInt8)
    (attributes : Attributes) : Action EfiStatus := do
  match checkSignatureListFormat answers key (payload answers data) with
  | .error halt => throw halt
  | .ok status =>
    if status.isError then return status
    else
      authServiceInternalUpdateVariableWithTimeStamp config answers key (payload answers data)
        attributes (timeStamp answers data)

/-- The first part of `ProcessVarWithPk`: the status and `Del`. -/
def verifyWithMode (config : Config) (answers : Answers) (key : Key) (data : List UInt8)
    (attributes : Attributes) (isPk : Bool) : Action (EfiStatus × Bool) := do
  let mode := (← get).platformMode
  if answers.inCustomMode ∧ answers.userPhysicalPresent ∨ mode = .setupMode ∧ !isPk then
    let del : Bool := payload answers data = []
    let status ← updateUnverified config answers key data attributes
    if status.isError then return (status, del)
    else if mode ≠ .setupMode ∨ isPk then
      let status ← vendorKeyIsModified config answers
      return (status, del)
    else return (status, del)
  else if mode = .userMode then
    verifyTimeBasedPayloadAndUpdate config answers key data attributes .pk
  else verifyTimeBasedPayloadAndUpdate config answers key data attributes .payload

def processVarWithPk (config : Config) (answers : Answers) (key : Key) (data : List UInt8)
    (attributes : Attributes) (isPk : Bool) : Action EfiStatus := do
  if !attributes.nonVolatile ∨ !attributes.timeBasedAuthenticatedWriteAccess then
    return .invalidParameter
  else
    let (status, del) ← verifyWithMode config answers key data attributes isPk
    let mode := (← get).platformMode
    if status.isError ∨ !isPk then return status
    else if mode = .setupMode ∧ !del then updatePlatformMode config answers .userMode
    else if mode = .userMode ∧ del then updatePlatformMode config answers .setupMode
    else return status

def processVarWithKek (config : Config) (answers : Answers) (key : Key) (data : List UInt8)
    (attributes : Attributes) : Action EfiStatus := do
  if !attributes.nonVolatile ∨ !attributes.timeBasedAuthenticatedWriteAccess then
    return .invalidParameter
  else
    let mode := (← get).platformMode
    if mode = .userMode ∧ !(answers.inCustomMode ∧ answers.userPhysicalPresent : Bool) then
      let (status, _) ←
        verifyTimeBasedPayloadAndUpdate config answers key data attributes .kek
      return status
    else
      let status ← updateUnverified config answers key data attributes
      if status.isError then return status
      else if mode ≠ .setupMode then vendorKeyIsModified config answers
      else return status

def isDeleteAuthVariable (answers : Answers) (orgAttributes : Attributes) (data : List UInt8)
    (attributes : Attributes) : Bool :=
  if attributes = orgAttributes ∧
      (attributes.authenticatedWriteAccess ∨ attributes.timeBasedAuthenticatedWriteAccess) then
    if attributes.timeBasedAuthenticatedWriteAccess then payload answers data = []
    else data.length = authInfoSize
  else false

def processVariable (config : Config) (answers : Answers) (key : Key) (data : List UInt8)
    (attributes : Attributes) : Action EfiStatus := do
  let found ← findVariable answers key
  if answers.userPhysicalPresent ∧
      found.any fun org => isDeleteAuthVariable answers org.attributes data attributes then
    let status ← authServiceInternalUpdateVariable config answers key [] {}
    if !status.isError ∧ attributes.timeBasedAuthenticatedWriteAccess then
      deleteCertsFromDb config answers key attributes
    else return status
  else if needPhysicallyPresent key ∧ !answers.userPhysicalPresent then return .securityViolation
  else if attributes.authenticatedWriteAccess then return .unsupported
  else if attributes.timeBasedAuthenticatedWriteAccess then
    let (status, _) ←
      verifyTimeBasedPayloadAndUpdate config answers key data attributes .priv
    return status
  else if found.any fun org => org.attributes.authenticatedWriteAccess ||
      org.attributes.timeBasedAuthenticatedWriteAccess then return .writeProtected
  else authServiceInternalUpdateVariable config answers key data attributes

def authVariableLibProcessVariable (config : Config) (answers : Answers) (key : Key)
    (data : List UInt8) (attributes : Attributes) : Action EfiStatus := do
  if key = pk then processVarWithPk config answers key data attributes true
  else if key = kek then processVarWithPk config answers key data attributes false
  else if key ∈ imageSecurityDatabases then
    let status ← processVarWithPk config answers key data attributes false
    if status.isError then processVarWithKek config answers key data attributes
    else return status
  else processVariable config answers key data attributes

/-! ### SetVariable -/

/-- The checks of `VariableServiceSetVariable` on the request: its attributes and the descriptor. -/
def checkRequest (config : Config) (answers : Answers) (key : Key) (data : List UInt8)
    (attributes : Attributes) : EfiStatus :=
  if key.name = [] then .invalidParameter
  else if attributes.runtimeAccess ∧ !attributes.bootserviceAccess then
    if attributes.authenticatedWriteAccess then .unsupported else .invalidParameter
  else if !attributes.authenticatedWriteAccess ∧ !attributes.timeBasedAuthenticatedWriteAccess ∧
      attributes.hardwareErrorRecord ∧ config.hwErrStorageSize = 0 then .invalidParameter
  else if attributes.authenticatedWriteAccess ∧ attributes.timeBasedAuthenticatedWriteAccess then
    .unsupported
  else if attributes.authenticatedWriteAccess ∧ data.length ≠ authInfoSize then .unsupported
  else if attributes.timeBasedAuthenticatedWriteAccess ∧
      (data.length < offsetOfAuthInfo + offsetOfCertData ∨
        data.length - offsetOfAuthInfo < dwLength answers data ∨
        dwLength answers data < offsetOfCertData) then .securityViolation
  else .success

def payloadSize (answers : Answers) (data : List UInt8) (attributes : Attributes) : ℕ :=
  if attributes.authenticatedWriteAccess then data.length - authInfoSize
  else if attributes.timeBasedAuthenticatedWriteAccess then
    data.length - authInfo2Size answers data
  else data.length

/-- The largest variable with these attributes, with its name and its header. -/
def maxSize (config : Config) (attributes : Attributes) : ℕ :=
  if attributes.hardwareErrorRecord then config.maxHardwareErrorVariableSize
  else if attributes.authenticatedWriteAccess ∨ attributes.timeBasedAuthenticatedWriteAccess then
    config.maxAuthVariableSize
  else if attributes.nonVolatile then config.maxVariableSize
  else config.maxVolatileVariableSize

/-- The checks of `VariableServiceSetVariable` on the size. -/
def checkSize (config : Config) (answers : Answers) (key : Key) (data : List UInt8)
    (attributes : Attributes) : EfiStatus :=
  let size := payloadSize answers data attributes
  if 2 ^ 64 - 1 - size < strSize key.name then .invalidParameter
  else if sub64 (maxSize config attributes) (Variable.getVariableHeaderSize true) <
      strSize key.name + size then .invalidParameter
  else .success

/-- The checks of `VariableServiceSetVariable` on a variable that exists already. -/
def checkExisting (answers : Answers) (old : Option Record) (attributes : Attributes) :
    EfiStatus :=
  match old with
  | none => .success
  | some record =>
    if !record.attributes.runtimeAccess ∧ answers.atRuntime then .writeProtected
    else if attributes ≠ {} ∧ attributes.stored ≠ record.attributes then .invalidParameter
    else .success

/-- The first error of a list of statuses. -/
def firstError (statuses : List EfiStatus) : EfiStatus :=
  (statuses.find? EfiStatus.isError).getD .success

/-- All checks of `VariableServiceSetVariable`. -/
def checkSetVariable (config : Config) (answers : Answers) (store : Store) (key : Key)
    (data : List UInt8) (attributes : Attributes) : EfiStatus :=
  firstError [checkRequest config answers key data attributes,
    checkSize config answers key data attributes, answers.varCheck,
    checkExisting answers (store key) attributes]

def variableServiceSetVariable (config : Config) (answers : Answers) (key : Key)
    (data : List UInt8) (attributes : Attributes) : Action EfiStatus := do
  let s ← get
  let status := checkSetVariable config answers s.store key data attributes
  set { s with updates := [] }
  if status.isError then return status
  else authVariableLibProcessVariable config answers key data attributes

/-! ### A platform to try it on -/

def sampleConfig : Config where
  maxVariableSize := 0x2000
  maxAuthVariableSize := 0x2800
  maxVolatileVariableSize := 0x2000
  maxHardwareErrorVariableSize := 0x8000
  hwErrStorageSize := 0
  scratchBufferSize := 0x8100
  maxAuthVariableSize_bounds := by decide
  maxHardwareErrorVariableSize_bounds := by decide

/-- Before the operating system runs, without a user; everything works and is accepted. -/
def sampleAnswers : Answers where
  atRuntime := false
  inCustomMode := false
  userPhysicalPresent := false
  varCheck := .success
  written := fun _ => .success
  beyond := fun _ => 0
  pkcs7GetSigners := fun _ => some ⟨[1, 2, 0, 0, 0, 5, 6], [7, 8]⟩
  pkcs7Verify := fun _ _ _ _ => true
  x509GetCommonName := some
  x509GetTbsCert := some
  sha256 := fun _ => some ⟨List.replicate 32 9, rfl⟩
  rsaNew := true
  rsaGetPublicKeyFromX509 := fun _ _ => true

/-- A request of the given year with a payload and an empty signature. -/
def sampleRequest (year : UInt8) (payload : List UInt8) : List UInt8 :=
  [year, 0] ++ List.replicate 14 0 ++ [24, 0, 0, 0, 0, 2, 0xF1, 0x0E] ++ gEfiCertPkcs7Guid.bytes ++
    payload

/-- A list with one certificate. -/
def sampleCertificate : List UInt8 :=
  gEfiCertX509Guid.bytes ++ [46, 0, 0, 0, 0, 0, 0, 0, 18, 0, 0, 0] ++ List.replicate 18 3

/-- The attributes of the secure boot variables. -/
def sampleAttributes : Attributes :=
  { nonVolatile := true
    bootserviceAccess := true
    runtimeAccess := true
    timeBasedAuthenticatedWriteAccess := true }

/-- A record with some byte as its data. -/
def sampleRecord (attributes : Attributes) (h : attributes.access) (time : EfiTime)
    (byte : UInt8) : Record :=
  ⟨attributes, [byte], time, h, List.cons_ne_nil _ _⟩

/-- The platform after the initialization of the library, without keys. -/
def samplePlatform : Platform where
  store := fun key =>
    if key = setupModeVariable ∨ key = secureBoot then
      some (sampleRecord { runtimeAccess := true, bootserviceAccess := true } rfl .zero 1)
    else if key = certDb then
      some ⟨sampleAttributes, [4, 0, 0, 0], .zero, rfl, List.cons_ne_nil _ _⟩
    else none
  platformMode := .setupMode
  vendorKeyState := 1
  updates := []

end Edk2.Auth
