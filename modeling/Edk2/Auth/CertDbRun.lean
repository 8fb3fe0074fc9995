import Mathlib.Data.List.Nodup
import Edk2.Auth.CertDbFormat

/-!
# The database of certificates over a run

A call for a private variable can update both the variable and the database: a new variable is
entered in the database before it is written, and a variable is deleted before its node is. The two
stay in step as long as the second of two updates does not fail.
-/

namespace Edk2.Auth

open Outcome

variable {config : Config} {answers : Answers} {key : Key} {data : List UInt8}
  {attributes : Attributes} {s s' : Platform} {status : EfiStatus} {nodes : List Node}

/-- The non-volatile database exists and holds these nodes, at most one for a variable. -/
structure HoldsNodes (s : Platform) (nodes : List Node) : Prop where
  db : ∃ record, s.store certDb = some record ∧ record.data = encodeDb nodes ∧
    record.attributes = dbAttributes { nonVolatile := true }
  size : (encodeDb nodes).length < 2 ^ 31
  nodup : (nodes.map Node.key).Nodup

lemma dbName_nonVolatile (h : attributes.nonVolatile = true) : dbName attributes = certDb := by
  simp [dbName, h]

lemma dbAttributes_nonVolatile (h : attributes.nonVolatile = true) :
    dbAttributes attributes = dbAttributes { nonVolatile := true } := by
  simp [dbAttributes, h]

lemma lookup_certDb {record : Record} (hrec : s.store certDb = some record)
    (hatt : record.attributes = dbAttributes { nonVolatile := true }) :
    lookup answers s.store certDb = some record := by
  simp [lookup, hrec, hatt, dbAttributes]

lemma updateRecord_db (config : Config) (atRuntime : Bool) (written : EfiStatus) (name : Name)
    {record : Record}
    (hatt : record.attributes = dbAttributes { nonVolatile := true })
    (hne : record.data ≠ data) (hnil : data ≠ []) :
    (updateRecord config atRuntime written name (some record) data
        (dbAttributes { nonVolatile := true }) none).1 = written ∧
      (written = .success → ∃ record', (updateRecord config atRuntime written name (some record)
          data (dbAttributes { nonVolatile := true }) none).2 = some record' ∧
        record'.data = data ∧ record'.attributes = dbAttributes { nonVolatile := true }) := by
  unfold updateRecord
  dsimp only
  rw [if_neg (by simp [hatt, dbAttributes]), if_neg (by simp [hatt, dbAttributes]),
    dif_pos ⟨rfl, .inr hnil⟩, if_neg (fun h => hne h.1), dif_neg (by simp [dbAttributes])]
  cases hwri : written with
  | success => exact ⟨rfl, fun _ => ⟨_, rfl, rfl, rfl⟩⟩
  | _ => exact ⟨rfl, nofun⟩

lemma updateVariable_db {record : Record} (hrec : s.store certDb = some record)
    (hatt : record.attributes = dbAttributes { nonVolatile := true })
    (hne : record.data ≠ data) (hnil : data ≠ [])
    (h : updateVariable config answers certDb data (dbAttributes { nonVolatile := true }) none s =
      .ok status s') :
    status = answers.written s.updates.length ∧
      s'.updates = s.updates ++ [(certDb, status)] ∧ (∀ k ≠ certDb, s'.store k = s.store k) ∧
      (status ≠ .success → s'.store certDb = s.store certDb) ∧
      (status = .success → ∃ record', s'.store certDb = some record' ∧ record'.data = data ∧
        record'.attributes = dbAttributes { nonVolatile := true }) := by
  have hupd := updateVariable_updated h
  have hloo : lookup answers s.store certDb = some record := lookup_certDb hrec hatt
  have hsto := hupd.visible (hloo.trans hrec.symm)
  have hret := hupd.returns
  unfold update at hsto hret
  rw [hloo] at hsto hret
  obtain ⟨hst, hnew⟩ := updateRecord_db config answers.atRuntime
    (answers.written s.updates.length) certDb.name hatt hne hnil
  rw [hret] at hst
  refine ⟨hst, hupd.updates, hupd.store,
    fun hne => hupd.error (isError_iff.mpr hne), fun hsuc => ?_⟩
  grind

lemma deleteCertsFromDb_spec {node : Node} {before after : List Node}
    (hdb : HoldsNodes s (before ++ node :: after)) (hvol : attributes.nonVolatile = true)
    (hwri : answers.written s.updates.length = .success)
    (h : deleteCertsFromDb config answers node.key attributes s = .ok status s') :
    status = .success ∧ HoldsNodes s' (before ++ after) ∧ ∀ k ≠ certDb, s'.store k = s.store k := by
  obtain ⟨record, hrec, hdata, hatt⟩ := hdb.db
  have hlen := length_encodeDb (before ++ node :: after)
  have hnode := node.length_bytes
  have hsize := hdb.size
  have hnod := hdb.nodup
  rw [List.map_append, List.map_cons] at hnod
  have hoth : ∀ n ∈ before, n.key ≠ node.key := by
    grind
  simp only [nodesBytes_append, nodesBytes_cons, List.length_append] at hlen
  unfold deleteCertsFromDb at h
  rw [dbName_nonVolatile hvol, dbAttributes_nonVolatile hvol] at h
  obtain ⟨found, s₁, hfind, h⟩ := bind_eq_ok.mp h
  obtain ⟨hfnd, rfl⟩ := findVariable_eq_ok.mp hfind
  rw [lookup_certDb hrec hatt] at hfnd
  subst hfnd
  dsimp only at h
  rw [hdata, if_neg (by omega), findCertsFromDb_found answers (by omega) hoth] at h
  have hend : u32 ((node.place (4 + (nodesBytes before).length)).certNodeOffset +
      (node.place (4 + (nodesBytes before).length)).certNodeSize) =
        4 + (nodesBytes before).length + node.bytes.length :=
    u32_of_lt (by unfold Node.place; dsimp only; omega)
  dsimp only at h
  rw [hend, if_neg (by omega), withoutNode_encodeDb] at h
  have hsho : (encodeDb (before ++ after)).length < (encodeDb (before ++ node :: after)).length := by
    simp only [length_encodeDb, nodesBytes_append, nodesBytes_cons, List.length_append]
    omega
  have hnil : encodeDb (before ++ after) ≠ [] := by
    simp [encodeDb, le32]
  obtain ⟨hst, -, hsto, -, hnew⟩ := updateVariable_db hrec hatt
    (by rw [hdata]; intro heq; rw [heq] at hsho; exact absurd hsho (Nat.lt_irrefl _)) hnil h
  rw [hwri] at hst
  refine ⟨hst, ⟨hnew hst, by omega, ?_⟩, hsto⟩
  grind

lemma maxCertDbSize_lt (config : Config) : maxCertDbSize config < 2 ^ 31 := by
  obtain ⟨hge, hlt⟩ := config.maxAuthVariableSize_bounds
  unfold maxCertDbSize sub64 u64 u32
  omega

lemma insertCertsToDb_spec {signerCert topLevelCert : List UInt8} (hdb : HoldsNodes s nodes)
    (hvol : attributes.nonVolatile = true) (hnew : key ∉ nodes.map Node.key)
    (hname : 60 + 2 * key.name.length < 2 ^ 31)
    (h : insertCertsToDb config answers key attributes signerCert topLevelCert s = .ok status s') :
    (status ≠ .success ∧ ∀ k, s'.store k = s.store k) ∨
      (status = .success ∧ s'.updates.length = s.updates.length + 1 ∧
        (∀ k ≠ certDb, s'.store k = s.store k) ∧
        ∃ cert, HoldsNodes s' (nodes ++ [⟨key, cert⟩])) := by
  obtain ⟨record, hrec, hdata, hatt⟩ := hdb.db
  have hsize := hdb.size
  have hoth : ∀ node ∈ nodes, node.key ≠ key := by
    grind
  unfold insertCertsToDb at h
  rw [dbName_nonVolatile hvol, dbAttributes_nonVolatile hvol] at h
  obtain ⟨found, s₁, hfind, h⟩ := bind_eq_ok.mp h
  obtain ⟨hfnd, rfl⟩ := findVariable_eq_ok.mp hfind
  rw [lookup_certDb hrec hatt] at hfnd
  subst hfnd
  dsimp only at h
  rw [hdata, findCertsFromDb_notFound answers (by omega) hoth] at h
  have hnode : u32 (nodeHeaderSize + sha256DigestSize + 2 * List.length key.name) =
      60 + 2 * key.name.length := u32_of_lt (by unfold nodeHeaderSize sha256DigestSize; omega)
  dsimp only at h
  rw [hnode, u32_of_lt (by omega)] at h
  have hmax := maxCertDbSize_lt config
  split_ifs at h with hfits
  · obtain ⟨rfl, rfl⟩ := pure_eq_ok.mp h
    exact .inl ⟨by decide, fun _ => rfl⟩
  cases hdig : calculatePrivAuthVarSignChainSha256Digest answers signerCert topLevelCert with
  | error failed =>
    rw [hdig] at h
    obtain ⟨rfl, rfl⟩ := pure_eq_ok.mp h
    grind [calculatePrivAuthVarSignChainSha256Digest]
  | ok digest =>
    rw [hdig] at h
    dsimp only at h
    -- what is written is the layout of the longer list
    have hbyt : (Node.mk key digest.bytes).bytes.length = 60 + 2 * key.name.length := by
      have hlen := Node.length_bytes ⟨key, digest.bytes⟩
      simp [hlen, digest.length_bytes]
      omega
    have henc := encodeDb_insert nodes ⟨key, digest.bytes⟩
    rw [hbyt] at henc
    change le32 _ ++ _ ++ certNode key digest.bytes = _ at henc
    rw [henc] at h
    have hlon : (encodeDb (nodes ++ [⟨key, digest.bytes⟩])).length =
        (encodeDb nodes).length + (60 + 2 * key.name.length) := by
      simp only [length_encodeDb, nodesBytes_append, nodesBytes_cons, nodesBytes_nil,
        List.length_append, List.append_nil, hbyt]
      omega
    obtain ⟨-, hupd, hsto, herr, hsuc⟩ := updateVariable_db hrec hatt
      (by rw [hdata]; intro heq; rw [← heq] at hlon; omega) (by simp [encodeDb, le32]) h
    by_cases hok : status = .success
    · refine .inr ⟨hok, by rw [hupd]; simp, hsto, digest.bytes, hsuc hok, by omega, ?_⟩
      rw [List.map_append, List.nodup_append]
      refine ⟨hdb.nodup, by simp, ?_⟩
      grind
    grind

/-- The variable is none of the secure boot variables and none of the library's own. -/
def IsPrivate (key : Key) : Prop :=
  holdsSignatures key = false ∧ key ≠ certDb ∧ key ≠ certDbVolatile ∧ key ≠ vendorKeysNv

instance (key : Key) : Decidable (IsPrivate key) := inferInstanceAs (Decidable (_ ∧ _))

/-- A private authenticated variable that exists and is not volatile. -/
def Owned (s : Platform) (key : Key) : Prop :=
  IsPrivate key ∧ ∃ record, s.store key = some record ∧
    record.attributes.timeBasedAuthenticatedWriteAccess = true ∧
    record.attributes.nonVolatile = true

/-- The database has exactly one node for each private authenticated variable, and no other. -/
def CertDbMatches (s : Platform) : Prop :=
  ∃ nodes, HoldsNodes s nodes ∧ ∀ k, k ∈ nodes.map Node.key ↔ Owned s k

lemma HoldsNodes.of_store (h : HoldsNodes s nodes) (hsame : s'.store certDb = s.store certDb) :
    HoldsNodes s' nodes := by
  refine ⟨?_, h.size, h.nodup⟩
  rw [hsame]
  exact h.db

lemma CertDbMatches.of_store (h : CertDbMatches s) (hsame : ∀ k, s'.store k = s.store k) :
    CertDbMatches s' := by
  obtain ⟨nodes, hdb, hkeys⟩ := h
  refine ⟨nodes, hdb.of_store (hsame certDb), fun k => ?_⟩
  rw [hkeys]
  unfold Owned
  rw [hsame]

lemma CertDbMatches.replace (h : CertDbMatches s) (hown : Owned s key)
    (hsame : ∀ k ≠ key, s'.store k = s.store k) (hnew : Owned s' key) : CertDbMatches s' := by
  obtain ⟨nodes, hdb, hkeys⟩ := h
  refine ⟨nodes, hdb.of_store (hsame certDb hown.1.2.1.symm), fun k => ?_⟩
  grind [Owned]

lemma CertDbMatches.delete {s₁ : Platform} (h : CertDbMatches s) (hown : Owned s key)
    (hsame : ∀ k ≠ key, s₁.store k = s.store k) (hgone : s₁.store key = none)
    (hvol : attributes.nonVolatile = true)
    (hwri : answers.written s₁.updates.length = .success)
    (hdel : deleteCertsFromDb config answers key attributes s₁ = .ok status s') :
    status = .success ∧ CertDbMatches s' := by
  obtain ⟨nodes, hdb, hkeys⟩ := h
  obtain ⟨node, hnode, rfl⟩ := List.mem_map.mp ((hkeys key).mpr hown)
  obtain ⟨before, after, rfl⟩ := List.append_of_mem hnode
  have hdb₁ : HoldsNodes s₁ (before ++ node :: after) :=
    hdb.of_store (hsame certDb hown.1.2.1.symm)
  obtain ⟨hst, hdb', hsto⟩ := deleteCertsFromDb_spec hdb₁ hvol hwri hdel
  refine ⟨hst, before ++ after, hdb', fun k => ?_⟩
  have hnod := hdb.nodup
  rw [List.map_append, List.map_cons, List.nodup_middle, List.nodup_cons] at hnod
  have hkey := hkeys k
  simp only [List.map_append, List.map_cons, List.mem_append, List.mem_cons] at hkey hnod ⊢
  by_cases hk : k = node.key
  · subst hk
    refine ⟨fun hmem => absurd hmem hnod.1, ?_⟩
    rintro ⟨-, record, hrec, -⟩
    rw [hsto _ hown.1.2.1, hgone] at hrec
    cases hrec
  grind [IsPrivate, Owned]

lemma CertDbMatches.create {s₁ : Platform} {cert : List UInt8}
    (hkeys : ∀ k, k ∈ nodes.map Node.key ↔ Owned s k)
    (hdb : HoldsNodes s₁ (nodes ++ [⟨key, cert⟩])) (hsam₁ : ∀ k ≠ certDb, s₁.store k = s.store k)
    (hsame : ∀ k ≠ key, s'.store k = s₁.store k) (hnew : Owned s' key) : CertDbMatches s' := by
  refine ⟨nodes ++ [⟨key, cert⟩], hdb.of_store (hsame certDb hnew.1.2.1.symm), fun k => ?_⟩
  grind [List.mem_singleton, IsPrivate, Owned]

/-- A call of `SetVariable` for a private time-based authenticated variable. -/
structure PrivCall where
  answers : Answers
  key : Key
  data : List UInt8
  attributes : Attributes
  isPrivate : IsPrivate key
  nonVolatile : attributes.nonVolatile = true
  timeBased : attributes.timeBasedAuthenticatedWriteAccess = true

namespace PrivCall

variable (call : PrivCall)

def run (config : Config) : Action EfiStatus :=
  variableServiceSetVariable config call.answers call.key call.data call.attributes

/-- `Pkcs7Verify` accepts the signature of the request. -/
def Signed : Prop :=
  ∃ signers, call.answers.pkcs7GetSigners (sigData call.answers call.data) = some signers ∧
    call.answers.pkcs7Verify (sigData call.answers call.data)
      (pointer call.answers.beyond signers.topLevelCert) signers.topLevelCert.length
      (serialize call.answers call.key call.attributes call.data) = true

/-- The second update of the call does not fail: a new variable with a valid signature has access
attributes, at runtime also runtime access, and can be written; and so can the database after the
deletion of a variable. -/
def Completes (s : Platform) : Prop :=
  (s.store call.key = none → payload call.answers call.data ≠ [] → call.Signed →
    call.attributes.access = true ∧
      (call.answers.atRuntime = true → call.attributes.runtimeAccess = true) ∧
      call.answers.written 1 = .success) ∧
  (s.store call.key ≠ none → payload call.answers call.data = [] →
    call.attributes.appendWrite = false → call.answers.written 1 = .success)

end PrivCall

lemma verifyPriv_new {sigData newData payload : List UInt8} (hpay : payload ≠ [])
    (h : verifyPriv config answers key attributes false sigData newData payload s = .ok status s') :
    (status ≠ .success ∧ s' = s) ∨
      ∃ signers inserted, answers.pkcs7GetSigners sigData = some signers ∧
        answers.pkcs7Verify sigData (pointer answers.beyond signers.topLevelCert)
          signers.topLevelCert.length newData = true ∧
        insertCertsToDb config answers key attributes (firstSigner answers signers)
          signers.topLevelCert s = .ok inserted s' ∧
        (status = .success ↔ inserted = .success) := by
  unfold verifyPriv at h
  cases hsig : answers.pkcs7GetSigners sigData with
  | none =>
    rw [hsig] at h
    obtain ⟨rfl, rfl⟩ := pure_eq_ok.mp h
    exact .inl ⟨by decide, rfl⟩
  | some signers =>
    rw [hsig] at h
    dsimp only at h
    rw [if_neg Bool.false_ne_true] at h
    unfold verifySigner at h
    split_ifs at h with hver hnew
    · obtain ⟨rfl, rfl⟩ := pure_eq_ok.mp h
      exact .inl ⟨by decide, rfl⟩
    · obtain ⟨inserted, s₁, hins, h⟩ := bind_eq_ok.mp h
      obtain ⟨rfl, rfl⟩ := pure_eq_ok.mp h
      grind [verified, EfiStatus.isError]
    · exact absurd ⟨rfl, hpay⟩ hnew

lemma verifyPriv_nil {found : Bool} {sigData newData payload : List UInt8} (hpay : payload = [])
    (h : verifyPriv config answers key attributes found sigData newData payload s =
      .ok status s') : s' = s := by
  have hsign : ∀ signers s₁, verifySigner config answers key attributes found signers sigData
      newData payload s₁ = .ok status s' → s' = s₁ := by
    intro signers s₁ h
    unfold verifySigner at h
    split_ifs at h with hver hnew
    · exact (pure_eq_ok.mp h).2.symm
    · exact absurd hpay hnew.2
    · exact (pure_eq_ok.mp h).2.symm
  unfold verifyPriv at h
  cases hsig : answers.pkcs7GetSigners sigData with
  | none =>
    rw [hsig] at h
    exact (pure_eq_ok.mp h).2.symm
  | some signers =>
    rw [hsig] at h
    dsimp only at h
    split_ifs at h with hfnd
    · obtain ⟨known, s₁, hche, h⟩ := bind_eq_ok.mp h
      obtain rfl := (checkSigner_reads _ _ _ _).of_ok hche
      split_ifs at h with hkno
      · exact (pure_eq_ok.mp h).2.symm
      · exact hsign signers s h
    · exact hsign signers s h

lemma checkSignatureListFormat_private (hpri : IsPrivate key) {payload : List UInt8} :
    checkSignatureListFormat answers key payload = .ok .success := by
  simp [hpri.1, checkSignatureListFormat]

lemma verifyTimeBasedPayload_private (hpri : IsPrivate key) {org : Option EfiTime}
    (h : verifyTimeBasedPayload config answers key data attributes .priv org s = .ok status s') :
    (status ≠ .success ∧ s' = s) ∨
      verifyPriv config answers key attributes org.isSome (sigData answers data)
        (serialize answers key attributes data) (payload answers data) s = .ok status s' := by
  unfold verifyTimeBasedPayload at h
  split_ifs at h with hdes
  · obtain ⟨rfl, rfl⟩ := pure_eq_ok.mp h
    exact .inl ⟨isError_iff.mp hdes, rfl⟩
  · obtain ⟨signed, s₁, hsig, h⟩ := bind_eq_ok.mp h
    refine .inr ?_
    split_ifs at h with herr
    · obtain ⟨rfl, rfl⟩ := pure_eq_ok.mp h
      exact hsig
    · rw [checkSignatureListFormat_private hpri] at h
      obtain ⟨rfl, rfl⟩ := pure_eq_ok.mp h
      rw [not_isError_iff] at herr
      subst herr
      exact hsig

/-- What a call may rely on after the checks of `SetVariable`. -/
structure Ready (call : PrivCall) (s : Platform) : Prop where
  certDb : CertDbMatches s
  updates : s.updates = []
  visible : Visible call.answers s call.key
  stored : ∀ record, s.store call.key = some record → call.attributes.stored = record.attributes
  name : 60 + 2 * call.key.name.length < 2 ^ 31

section Ready

variable {call : PrivCall}

lemma Ready.owned (h : Ready call s) (hne : s.store call.key ≠ none) : Owned s call.key := by
  obtain ⟨record, hrec⟩ := Option.ne_none_iff_exists'.mp hne
  refine ⟨call.isPrivate, record, hrec, ?_⟩
  rw [← h.stored record hrec]
  exact ⟨call.timeBased, call.nonVolatile⟩

lemma Ready.fresh (_ : Ready call s) (hkeys : ∀ k, k ∈ nodes.map Node.key ↔ Owned s k)
    (hnone : s.store call.key = none) : call.key ∉ nodes.map Node.key := by
  rw [hkeys]
  rintro ⟨-, record, hrec, -⟩
  rw [hnone] at hrec
  cases hrec

/-- The outcome of a call: the database matches, and after an error nothing has changed. -/
def Consistent (s : Platform) (status : EfiStatus) (s' : Platform) : Prop :=
  CertDbMatches s' ∧ (status ≠ .success → ∀ k, s'.store k = s.store k)

lemma Ready.unchanged (h : Ready call s) (hsame : ∀ k, s'.store k = s.store k) :
    Consistent s status s' :=
  ⟨h.certDb.of_store hsame, fun _ => hsame⟩

lemma Ready.rejected (h : Ready call s) (hnone : s.store call.key = none) {s₁ : Platform}
    (hne : status ≠ .success)
    (hver : verifyPriv config call.answers call.key call.attributes false
      (sigData call.answers call.data)
      (serialize call.answers call.key call.attributes call.data)
      (payload call.answers call.data) s = .ok status s₁) : ∀ k, s₁.store k = s.store k := by
  by_cases hpay : payload call.answers call.data = []
  · rw [verifyPriv_nil hpay hver]
    exact fun _ => rfl
  rcases verifyPriv_new hpay hver with
    ⟨-, rfl⟩ | ⟨signers, inserted, -, -, hins, hiff⟩
  · exact fun _ => rfl
  obtain ⟨nodes, hdb, hkeys⟩ := h.certDb
  rcases insertCertsToDb_spec hdb call.nonVolatile (h.fresh hkeys hnone) h.name hins with
    ⟨-, hsame⟩ | ⟨hc, -⟩
  · exact hsame
  · exact absurd (hiff.mpr hc) hne

lemma Ready.create (h : Ready call s) (hcom : call.Completes s)
    (hnone : s.store call.key = none) {s₁ : Platform}
    (hver : verifyPriv config call.answers call.key call.attributes false
      (sigData call.answers call.data)
      (serialize call.answers call.key call.attributes call.data)
      (payload call.answers call.data) s = .ok .success s₁)
    (hupda : authServiceInternalUpdateVariableWithTimeStamp config call.answers call.key
      (payload call.answers call.data) call.attributes (timeStamp call.answers call.data) s₁ =
        .ok status s') :
    Consistent s status s' := by
  have hkey : s₁.store call.key = none := by
    obtain ⟨hfra, -⟩ := verifyPriv_frame hver
    rw [hfra.store call.key, hnone]
    rw [dbName_nonVolatile call.nonVolatile, List.mem_singleton]
    exact call.isPrivate.2.1
  obtain ⟨data', hdata, hupd⟩ := updateWithTimeStamp_updated hupda
  have hloo : lookup call.answers s₁.store call.key = none := by simp [lookup, hkey]
  obtain rfl : data' = payload call.answers call.data := by
    grind
  have hsto := hupd.visible (hloo.trans hkey.symm)
  have hret := hupd.returns
  unfold update at hsto hret
  rw [hloo] at hsto hret
  by_cases hpay : payload call.answers call.data = []
  · -- nothing to create and nothing to delete
    have hgone : s'.store call.key = none := by
      grind [updateRecord]
    obtain rfl := verifyPriv_nil hpay hver
    apply h.unchanged
    intro k
    by_cases hk : k = call.key
    · rw [hk, hgone, hnone]
    · exact hupd.store k hk
  · rcases verifyPriv_new hpay hver with
      ⟨hne, -⟩ | ⟨signers, inserted, hsig, hsign, hins, hiff⟩
    · exact absurd rfl hne
    obtain ⟨hacc, hrunt, hwri⟩ := hcom.1 hnone hpay ⟨signers, hsig, hsign⟩
    obtain ⟨nodes, hdb, hkeys⟩ := h.certDb
    rcases insertCertsToDb_spec hdb call.nonVolatile (h.fresh hkeys hnone) h.name hins with
      ⟨hne, -⟩ | ⟨-, hlen, hsam₁, cert, hdb₁⟩
    · exact absurd (hiff.mp rfl) hne
    rw [h.updates, List.length_nil] at hlen
    rw [hlen, hwri] at hsto hret
    -- the variable is written after its node
    have hcre : (updateRecord config call.answers.atRuntime .success call.key.name none
        (payload call.answers call.data) call.attributes
        (some (timeStamp call.answers call.data))).1 = .success ∧
        ∃ record, (updateRecord config call.answers.atRuntime .success call.key.name none
          (payload call.answers call.data) call.attributes
          (some (timeStamp call.answers call.data))).2 = some record ∧
          record.attributes = call.attributes.stored := by
      unfold updateRecord
      dsimp only
      rw [if_neg (fun hc => hpay hc.1), dif_neg (by simp [hpay, hacc]),
        if_neg (by
          rintro ⟨hrun, hc⟩
          simp [hrunt hrun, call.nonVolatile] at hc), if_neg (by decide)]
      exact ⟨rfl, _, rfl, rfl⟩
    obtain ⟨hsuc, record, hrec, hatt⟩ := hcre
    have hst : status = .success := hret.symm.trans hsuc
    refine ⟨CertDbMatches.create hkeys hdb₁ hsam₁ hupd.store ⟨call.isPrivate, record,
      hsto.trans hrec, ?_⟩, fun hne => absurd hst hne⟩
    rw [hatt]
    exact ⟨call.timeBased, call.nonVolatile⟩

section Updates

variable {data : List UInt8} {attributes : Attributes} {time : Option EfiTime}
  {updated : EfiStatus} {s₁ : Platform}

lemma Ready.failed (h : Ready call s)
    (hupd : Updated config call.answers call.key data attributes time s updated s₁)
    (hfai : updated ≠ .success) : Consistent s updated s₁ := by
  apply h.unchanged
  intro k
  by_cases hk : k = call.key
  · rw [hk]
    exact hupd.error (isError_iff.mpr hfai)
  · exact hupd.store k hk

lemma Ready.deleted (h : Ready call s) (hcom : call.Completes s)
    (hne : s.store call.key ≠ none) (hnil : payload call.answers call.data = [])
    (happ : call.attributes.appendWrite = false)
    (hupd : Updated config call.answers call.key data attributes time s updated s₁)
    (hgone : s₁.store call.key = none)
    (hdel : deleteCertsFromDb config call.answers call.key call.attributes s₁ =
      .ok status s') : Consistent s status s' := by
  have hlen : s₁.updates.length = 1 := by
    rw [hupd.updates, h.updates]
    rfl
  obtain ⟨hst, hmat⟩ := h.certDb.delete (h.owned hne) hupd.store hgone
    call.nonVolatile (by rw [hlen]; exact hcom.2 hne hnil happ) hdel
  exact ⟨hmat, fun hc => absurd hst hc⟩

end Updates

lemma Ready.update (h : Ready call s) (hcom : call.Completes s)
    (hne : s.store call.key ≠ none) {updated : EfiStatus} {s₁ : Platform}
    (hupda : authServiceInternalUpdateVariableWithTimeStamp config call.answers call.key
      (payload call.answers call.data) call.attributes (timeStamp call.answers call.data) s =
        .ok updated s₁) :
    (¬ (payload call.answers call.data = [] ∧ call.attributes.appendWrite = false) ∨
        updated ≠ .success → Consistent s updated s₁) ∧
      ∀ {status : EfiStatus} {s' : Platform}, payload call.answers call.data = [] →
        call.attributes.appendWrite = false → updated = .success →
        deleteCertsFromDb config call.answers call.key call.attributes s₁ = .ok status s' →
        Consistent s status s' := by
  have hown := h.owned hne
  obtain ⟨record, hrec, -⟩ := hown.2
  obtain ⟨data', hdata, hupd⟩ := updateWithTimeStamp_updated hupda
  obtain rfl : data' = payload call.answers call.data := by
    rcases hdata with rfl | ⟨-, hkey, -⟩
    · rfl
    · have hpri := call.isPrivate.1
      grind [holdsSignatures]
  have hacc : call.attributes.access = true := by
    rw [← Attributes.access_stored, h.stored record hrec]
    exact record.access
  have hsto := hupd.visible h.visible
  have hret := hupd.returns
  unfold Auth.update at hsto hret
  rw [h.visible, hrec] at hsto hret
  constructor
  · intro hkept
    by_cases hok : updated = .success
    · have hsome := updateRecord_some (hret.trans hok)
      have hsta : (updateRecord config call.answers.atRuntime
          (call.answers.written s.updates.length) call.key.name (some record)
          (payload call.answers call.data) call.attributes
          (some (timeStamp call.answers call.data))).2.isSome = true := by
        rw [hsome]
        refine ⟨hacc, ?_⟩
        have hnot := hkept.resolve_right (fun hc => hc hok)
        by_cases happ : call.attributes.appendWrite = true
        · exact .inl happ
        · exact .inr fun hnil => hnot ⟨hnil, by simpa using happ⟩
      obtain ⟨new, hnew⟩ := Option.isSome_iff_exists.mp hsta
      have hatt := updateRecord_attributes (hret.trans hok) hnew
      refine ⟨h.certDb.replace hown hupd.store ⟨call.isPrivate, new, hsto.trans hnew, ?_⟩,
        fun hc => absurd hok hc⟩
      rw [hatt]
      exact ⟨call.timeBased, call.nonVolatile⟩
    · exact h.failed hupd hok
  · intro status s' hnil happ hok hdel
    have hsome := updateRecord_some (hret.trans hok)
    refine h.deleted hcom hne hnil happ hupd ?_ hdel
    rw [hsto, ← Option.not_isSome_iff_eq_none, hsome]
    simp [hnil, happ]

lemma Ready.verify (h : Ready call s) (hcom : call.Completes s) {del : Bool}
    (hrun : verifyTimeBasedPayloadAndUpdate config call.answers call.key call.data
      call.attributes .priv s = .ok (status, del) s') : Consistent s status s' := by
  unfold verifyTimeBasedPayloadAndUpdate at hrun
  obtain ⟨found, s₁, hfind, hrun⟩ := bind_eq_ok.mp hrun
  obtain ⟨rfl, rfl⟩ := findVariable_eq_ok.mp hfind
  rw [h.visible] at hrun
  obtain ⟨verified, s₁, hver, hrun⟩ := bind_eq_ok.mp hrun
  have hpriv := verifyTimeBasedPayload_private call.isPrivate hver
  by_cases hnone : s.store call.key = none
  · rw [hnone] at hpriv hrun
    split_ifs at hrun with herr
    · obtain ⟨heq, rfl⟩ := pure_eq_ok.mp hrun
      cases heq
      apply h.unchanged
      rcases hpriv with ⟨-, rfl⟩ | hpriv
      · exact fun _ => rfl
      · exact h.rejected hnone (isError_iff.mp herr) hpriv
    · rw [not_isError_iff] at herr
      subst herr
      rcases hpriv with ⟨hc, -⟩ | hpriv
      · exact absurd rfl hc
      · obtain ⟨updated, s₂, hupd, hrun⟩ := bind_eq_ok.mp hrun
        rw [if_neg (by simp)] at hrun
        obtain ⟨heq, rfl⟩ := pure_eq_ok.mp hrun
        cases heq
        exact h.create hcom hnone hpriv hupd
  · obtain rfl : s₁ = s := by
      rcases hpriv with ⟨-, rfl⟩ | hpriv
      · rfl
      · obtain ⟨record, hrec⟩ := Option.ne_none_iff_exists'.mp hnone
        rw [hrec] at hpriv
        exact (verifyPriv_frame hpriv).2 (.inl rfl)
    split_ifs at hrun with herr
    · obtain ⟨heq, rfl⟩ := pure_eq_ok.mp hrun
      cases heq
      exact h.unchanged fun _ => rfl
    · obtain ⟨updated, s₂, hupd, hrun⟩ := bind_eq_ok.mp hrun
      split_ifs at hrun with hdel
      · obtain ⟨deleted, s₃, hdele, hrun⟩ := bind_eq_ok.mp hrun
        obtain ⟨heq, rfl⟩ := pure_eq_ok.mp hrun
        cases heq
        obtain ⟨hisD, -, hok⟩ := hdel
        simp only [ne_eq, decide_eq_true_eq, Bool.not_eq_true', EfiStatus.isError,
          bne_eq_false_iff_eq] at hisD hok
        exact (h.update hcom hnone hupd).2 hisD.2.1 hisD.2.2 hok hdele
      · obtain ⟨heq, rfl⟩ := pure_eq_ok.mp hrun
        cases heq
        refine (h.update hcom hnone hupd).1 ?_
        grind [EfiStatus.isError]

lemma Ready.deleteByUser (h : Ready call s) (hcom : call.Completes s)
    (hne : s.store call.key ≠ none) (hnil : payload call.answers call.data = [])
    (happ : call.attributes.appendWrite = false) {updated : EfiStatus} {s₁ : Platform}
    (hupda : authServiceInternalUpdateVariable config call.answers call.key [] {} s =
      .ok updated s₁) :
    (updated ≠ .success → Consistent s updated s₁) ∧
      ∀ {status : EfiStatus} {s' : Platform}, updated = .success →
        deleteCertsFromDb config call.answers call.key call.attributes s₁ = .ok status s' →
        Consistent s status s' := by
  have hown := h.owned hne
  obtain ⟨record, hrec, -⟩ := hown.2
  have hupd := updateVariable_updated hupda
  have hsto := hupd.visible h.visible
  have hret := hupd.returns
  unfold Auth.update at hsto hret
  rw [h.visible, hrec] at hsto hret
  refine ⟨h.failed hupd, fun hok hdel => ?_⟩
  have hsome := updateRecord_some (hret.trans hok)
  refine h.deleted hcom hne hnil happ hupd ?_ hdel
  rw [hsto, ← Option.not_isSome_iff_eq_none, hsome]
  simp [Attributes.access]

lemma Ready.process (h : Ready call s) (hcom : call.Completes s)
    (hrun : processVariable config call.answers call.key call.data call.attributes s =
      .ok status s') : Consistent s status s' := by
  unfold processVariable at hrun
  obtain ⟨found, s₁, hfind, hrun⟩ := bind_eq_ok.mp hrun
  obtain ⟨rfl, rfl⟩ := findVariable_eq_ok.mp hfind
  rw [h.visible] at hrun
  split_ifs at hrun with hpre hneed haw hat
  · obtain ⟨-, hdel⟩ := hpre
    obtain ⟨record, hrec, hdel⟩ := (Option.any_eq_true _ _).mp hdel
    unfold isDeleteAuthVariable at hdel
    rw [if_pos call.timeBased] at hdel
    split_ifs at hdel with hsame
    have hnil : payload call.answers call.data = [] := by simpa using hdel
    -- the attributes are those of the variable, which are stored without the append bit
    have happ : call.attributes.appendWrite = false := by
      have hsto := h.stored record hrec
      rw [← hsame.1] at hsto
      rw [← hsto]
      rfl
    have hne : s.store call.key ≠ none := by simp [hrec]
    obtain ⟨updated, s₁, hupd, hrun⟩ := bind_eq_ok.mp hrun
    obtain ⟨hfai, hdele⟩ := h.deleteByUser hcom hne hnil happ hupd
    split_ifs at hrun with hok
    · grind [EfiStatus.isError]
    · obtain ⟨rfl, rfl⟩ := pure_eq_ok.mp hrun
      apply hfai
      rintro rfl
      exact hok ⟨rfl, call.timeBased⟩
  · obtain ⟨-, rfl⟩ := pure_eq_ok.mp hrun
    exact h.unchanged fun _ => rfl
  · obtain ⟨-, rfl⟩ := pure_eq_ok.mp hrun
    exact h.unchanged fun _ => rfl
  · obtain ⟨⟨verified, del⟩, s₁, hver, hrun⟩ := bind_eq_ok.mp hrun
    obtain ⟨rfl, rfl⟩ := pure_eq_ok.mp hrun
    exact h.verify hcom hver
  all_goals exact absurd call.timeBased hat

end Ready

lemma checkSize_name (htime : attributes.timeBasedAuthenticatedWriteAccess = true)
    (h : checkSize config answers key data attributes = .success) :
    60 + 2 * key.name.length < 2 ^ 31 := by
  obtain ⟨hge, hlt⟩ := config.maxAuthVariableSize_bounds
  obtain ⟨hge', hlt'⟩ := config.maxHardwareErrorVariableSize_bounds
  have hmax : 60 ≤ maxSize config attributes ∧ maxSize config attributes < 2 ^ 31 := by
    unfold maxSize
    split_ifs with hhw hauth
    · exact ⟨hge', hlt'⟩
    · exact ⟨hge, hlt⟩
    all_goals exact absurd (.inr htime) hauth
  have hsub : sub64 (maxSize config attributes) (Variable.getVariableHeaderSize true) =
      maxSize config attributes - 60 := by
    unfold sub64 u64 Variable.getVariableHeaderSize
    rw [if_pos rfl]
    omega
  unfold checkSize at h
  rw [hsub] at h
  unfold strSize at h
  dsimp only at h
  split_ifs at h
  omega

lemma PrivCall.run_consistent {call : PrivCall} (hmat : CertDbMatches s)
    (hcom : call.Completes s) (hrun : call.run config s = .ok status s') :
    Consistent s status s' := by
  unfold PrivCall.run variableServiceSetVariable at hrun
  obtain ⟨_, _, hget, hrun⟩ := bind_eq_ok.mp hrun
  obtain ⟨rfl, rfl⟩ := get_eq_ok.mp hget
  obtain ⟨_, s₀, hset, hrun⟩ := bind_eq_ok.mp hrun
  obtain rfl := set_eq_ok.mp hset
  split_ifs at hrun with hche
  · obtain ⟨rfl, rfl⟩ := pure_eq_ok.mp hrun
    exact ⟨hmat.of_store fun _ => rfl, fun _ _ => rfl⟩
  rw [not_isError_iff] at hche
  obtain ⟨hvis, hsto⟩ := checkSetVariable_success hche
  have hsize : checkSize config call.answers call.key call.data call.attributes = .success :=
    firstError_success hche _ (by simp)
  have hrea : Ready call { s with updates := [] } := {
    certDb := hmat.of_store fun _ => rfl
    updates := rfl
    visible := hvis
    stored := fun record hrec => hsto record hrec fun hemp => by
      have := call.timeBased
      simp [hemp] at this
    name := checkSize_name call.timeBased hsize }
  have hpri := call.isPrivate.1
  simp only [holdsSignatures, decide_eq_false_iff_not, not_or] at hpri
  unfold authVariableLibProcessVariable at hrun
  rw [if_neg hpri.1, if_neg hpri.2.1, if_neg hpri.2.2] at hrun
  exact hrea.process hcom hrun

/-- The states that calls for private variables lead to. -/
inductive PrivRun (config : Config) (Allowed : Platform → PrivCall → Prop) (start : Platform) :
    Platform → Prop
  | start : PrivRun config Allowed start start
  | call {s s' : Platform} {call : PrivCall} {status : EfiStatus}
      (h : PrivRun config Allowed start s) (hallowed : Allowed s call)
      (hrun : call.run config s = .ok status s') : PrivRun config Allowed start s'

/-- As long as the second update of a call does not fail, the database has one node for each
private variable and no other, and a call that returns an error changes nothing. -/
theorem certDb_consistent (start : Platform) (hstart : CertDbMatches start) (s : Platform)
    (h : PrivRun config (fun s call => call.Completes s) start s) :
    CertDbMatches s ∧ ∀ (call : PrivCall) (status : EfiStatus) (s' : Platform), call.Completes s →
      call.run config s = .ok status s' → status ≠ .success →
        s'.store call.key = s.store call.key ∧ s'.store certDb = s.store certDb := by
  have hmatches : CertDbMatches s := by
    induction h with
    | start => exact hstart
    | call _ hallowed hrun ih => exact (PrivCall.run_consistent ih hallowed hrun).1
  refine ⟨hmatches, fun call status s' hcompletes hrun hne => ?_⟩
  have hsame := (PrivCall.run_consistent hmatches hcompletes hrun).2 hne
  exact ⟨hsame call.key, hsame certDb⟩

/-- A private variable, created or deleted. -/
def samplePrivate (written : ℕ → EfiStatus) (payload : List UInt8) (year : UInt8) : PrivCall where
  answers := { sampleAnswers with written := written }
  key := ⟨ascii ['M', 'y'], gEfiCertX509Guid⟩
  data := sampleRequest year payload
  attributes := sampleAttributes
  isPrivate := by decide
  nonVolatile := rfl
  timeBased := rfl

lemma certDbMatches_samplePlatform : CertDbMatches samplePlatform := by
  refine ⟨[], ⟨⟨_, rfl, rfl, rfl⟩, by decide, List.nodup_nil⟩, fun k => ?_⟩
  simp only [List.map_nil, List.not_mem_nil, false_iff]
  rintro ⟨⟨-, hcert, -⟩, record, hrec, htime, -⟩
  unfold samplePlatform at hrec
  dsimp only at hrec
  split_ifs at hrec
  cases hrec
  cases htime

theorem certDb_consistent_created :
    ∃ s, PrivRun sampleConfig (fun s call => call.Completes s) samplePlatform s ∧
      s.store (samplePrivate (fun _ => .success) [1] 1).key ≠ none ∧ CertDbMatches s := by
  have hreturns : returns (fun status s => status = .success &&
      s.store (samplePrivate (fun _ => .success) [1] 1).key ≠ none)
      ((samplePrivate (fun _ => .success) [1] 1).run sampleConfig samplePlatform) = true := by
    decide
  obtain ⟨status, s, hrun, htest⟩ := exists_of_returns hreturns
  simp only [ne_eq, Bool.and_eq_true, decide_eq_true_eq] at htest
  have hcompletes : (samplePrivate (fun _ => .success) [1] 1).Completes samplePlatform :=
    ⟨fun _ _ _ => ⟨rfl, fun _ => rfl, rfl⟩, fun _ _ _ => rfl⟩
  have hpriv : PrivRun sampleConfig (fun s call => call.Completes s) samplePlatform s :=
    PrivRun.start.call hcompletes hrun
  exact ⟨s, hpriv, htest.2,
    (certDb_consistent samplePlatform certDbMatches_samplePlatform s hpriv).1⟩

/-- The store has room for the database, but not for the variable after it. -/
def fullStore : ℕ → EfiStatus
  | 0 => .success
  | _ + 1 => .outOfResources

/-- The creation fails and leaves a node behind. -/
theorem certDb_leftover_node :
    ¬ ∀ (start : Platform), CertDbMatches start → ∀ s : Platform,
      PrivRun sampleConfig (fun _ _ => True) start s →
      CertDbMatches s ∧ ∀ (call : PrivCall) (status : EfiStatus) (s' : Platform),
        call.run sampleConfig s = .ok status s' → status ≠ .success →
          s'.store call.key = s.store call.key ∧ s'.store certDb = s.store certDb := by
  intro hall
  have hreturns : returns (fun status s => status = .outOfResources &&
      s.store certDb ≠ samplePlatform.store certDb)
      ((samplePrivate fullStore [1] 1).run sampleConfig samplePlatform) = true := by decide
  obtain ⟨status, s, hrun, htest⟩ := exists_of_returns hreturns
  simp only [ne_eq, Bool.and_eq_true, decide_eq_true_eq] at htest
  obtain ⟨rfl, hchanged⟩ := htest
  have hsame := (hall samplePlatform certDbMatches_samplePlatform samplePlatform .start).2 _ _ _
    hrun (by decide)
  exact hchanged hsame.2

end Edk2.Auth
