import Edk2.Lib.Outcome
import Edk2.Auth.Service

/-!
# What updates do

One lemma for each function that changes variables: which variables it leaves alone, and what it
does to the others. All that is said is about calls that return.
-/

namespace Edk2.Auth

open Outcome

variable {config : Config} {answers : Answers} {key k : Key} {data : List UInt8}
  {attributes : Attributes} {time : Option EfiTime} {s s' : Platform} {status : EfiStatus}

lemma isError_iff {status : EfiStatus} : status.isError = true ↔ status ≠ .success := by
  simp [EfiStatus.isError]

lemma not_isError_iff {status : EfiStatus} : ¬ status.isError = true ↔ status = .success := by
  simp [EfiStatus.isError]

section Record

variable {atRuntime : Bool} {written : EfiStatus} {name : Name} {old : Option Record}

lemma updateRecord_of_error
    (h : (updateRecord config atRuntime written name old data attributes time).1.isError) :
    (updateRecord config atRuntime written name old data attributes time).2 = old := by
  unfold updateRecord at h ⊢
  grind [EfiStatus.isError]

/-- A variable that exists is deleted without access attributes, or without data unless data is
appended. -/
lemma updateRecord_some {record : Record}
    (h : (updateRecord config atRuntime written name (some record) data attributes time).1 =
      .success) :
    (updateRecord config atRuntime written name (some record) data attributes time).2.isSome ↔
      attributes.access ∧ (attributes.appendWrite ∨ data ≠ []) := by
  unfold updateRecord at h ⊢
  dsimp only at h ⊢
  split_ifs at h ⊢ <;> grind [EfiStatus.isError]

lemma updateRecord_none
    (h : (updateRecord config atRuntime written name none data attributes time).1 = .success) :
    (updateRecord config atRuntime written name none data attributes time).2.isSome ↔
      data ≠ [] := by
  unfold updateRecord at h ⊢
  dsimp only at h ⊢
  split_ifs at h ⊢ <;> grind [EfiStatus.isError]

lemma updateRecord_attributes {record : Record} {t : EfiTime}
    (h : (updateRecord config atRuntime written name old data attributes (some t)).1 = .success)
    (hnew : (updateRecord config atRuntime written name old data attributes (some t)).2 =
      some record) : record.attributes = attributes.stored := by
  unfold updateRecord at h hnew
  cases old with
  | none =>
    grind
  | some old =>
    dsimp only at h hnew
    split_ifs at h hnew <;> grind [EfiStatus.isError]

end Record

/-! ### Single updates -/

lemma findVariable_eq_ok {found : Option Record} :
    findVariable answers key s = .ok found s' ↔ lookup answers s.store key = found ∧ s = s' := by
  unfold findVariable
  simp only [bind_eq_ok, get_eq_ok, pure_eq_ok]
  simp

/-- The outcome of an update in a state. -/
def update (config : Config) (answers : Answers) (s : Platform) (key : Key) (data : List UInt8)
    (attributes : Attributes) (time : Option EfiTime) : EfiStatus × Option Record :=
  updateRecord config answers.atRuntime (answers.written s.updates.length) key.name
    (lookup answers s.store key) data attributes time

/-- The variable is found if it exists. -/
def Visible (answers : Answers) (s : Platform) (key : Key) : Prop :=
  lookup answers s.store key = s.store key

/-- The updates only add to what they have recorded, and change no variable but those in `keys`. -/
structure Frame (keys : List Key) (s s' : Platform) : Prop where
  platformMode : s'.platformMode = s.platformMode
  store : ∀ k ∉ keys, s'.store k = s.store k
  updates : s.updates <+: s'.updates

lemma Frame.refl (keys : List Key) (s : Platform) : Frame keys s s :=
  ⟨rfl, fun _ _ => rfl, List.prefix_refl _⟩

lemma Frame.trans {keys : List Key} {s₁ s₂ s₃ : Platform} (h : Frame keys s₁ s₂)
    (h' : Frame keys s₂ s₃) : Frame keys s₁ s₃ where
  platformMode := h'.platformMode.trans h.platformMode
  store k hk := (h'.store k hk).trans (h.store k hk)
  updates := h.updates.trans h'.updates

lemma Frame.mono {keys keys' : List Key} (h : Frame keys s s') (hsub : keys ⊆ keys') :
    Frame keys' s s' :=
  ⟨h.platformMode, fun k hk => h.store k fun hmem => hk (hsub hmem), h.updates⟩

/-- What an update returns, records and changes. -/
structure Updated (config : Config) (answers : Answers) (key : Key) (data : List UInt8)
    (attributes : Attributes) (time : Option EfiTime) (s : Platform) (status : EfiStatus)
    (s' : Platform) : Prop where
  returns : (update config answers s key data attributes time).1 = status
  updates : s'.updates = s.updates ++ [(key, status)]
  platformMode : s'.platformMode = s.platformMode
  vendorKeyState : s'.vendorKeyState = s.vendorKeyState
  store : ∀ k ≠ key, s'.store k = s.store k
  visible : Visible answers s key →
    s'.store key = (update config answers s key data attributes time).2
  error : status.isError → s'.store key = s.store key

lemma updateVariable_updated
    (h : updateVariable config answers key data attributes time s = .ok status s') :
    Updated config answers key data attributes time s status s' := by
  unfold updateVariable at h
  simp only [bind_eq_ok, get_eq_ok, set_eq_ok, pure_eq_ok] at h
  obtain ⟨_, _, ⟨rfl, rfl⟩, _, _, rfl, rfl, rfl⟩ := h
  refine ⟨rfl, rfl, rfl, rfl, fun k hk => ?_, fun hvis => ?_, fun herr => ?_⟩
  · grind
  · dsimp only
    split_ifs with heq
    · exact hvis.symm.trans heq
    · exact Function.update_self _ _ _
  · dsimp only
    rw [if_pos (updateRecord_of_error herr).symm]

lemma Updated.frame (h : Updated config answers key data attributes time s status s') :
    Frame [key] s s' where
  platformMode := h.platformMode
  store k hk := h.store k (by simpa using hk)
  updates := h.updates ▸ List.prefix_append _ _

lemma updateWithTimeStamp_updated {t : EfiTime}
    (h : authServiceInternalUpdateVariableWithTimeStamp config answers key data attributes t s =
      .ok status s') :
    ∃ data', (data' = data ∨ (attributes.appendWrite = true ∧
        (key = kek ∨ key ∈ imageSecurityDatabases) ∧ lookup answers s.store key ≠ none)) ∧
      Updated config answers key data' attributes (some t) s status s' := by
  unfold authServiceInternalUpdateVariableWithTimeStamp at h
  obtain ⟨found, s₁, hfind, h⟩ := bind_eq_ok.mp h
  obtain ⟨hfnd, rfl⟩ := findVariable_eq_ok.mp hfind
  cases found with
  | none => exact ⟨data, .inl rfl, updateVariable_updated h⟩
  | some old =>
    dsimp only at h
    split_ifs at h with happ
    · cases hfil : filterSignatureList config answers old.data data with
      | error halt =>
        rw [hfil] at h
        exact absurd h throw_ne_ok
      | ok data' =>
        rw [hfil] at h
        refine ⟨data', .inr ⟨happ.1, happ.2, ?_⟩, updateVariable_updated h⟩
        rw [hfnd]
        exact Option.some_ne_none old
    · exact ⟨data, .inl rfl, updateVariable_updated h⟩

lemma deleteCertsFromDb_frame
    (h : deleteCertsFromDb config answers key attributes s = .ok status s') :
    Frame [dbName attributes] s s' ∧
      (lookup answers s.store (dbName attributes) = none → s' = s) := by
  unfold deleteCertsFromDb at h
  obtain ⟨found, s₁, hfind, h⟩ := bind_eq_ok.mp h
  obtain ⟨hfnd, rfl⟩ := findVariable_eq_ok.mp hfind
  cases found with
  | none =>
    obtain ⟨-, rfl⟩ := pure_eq_ok.mp h
    exact ⟨Frame.refl _ _, fun _ => rfl⟩
  | some db =>
    refine ⟨?_, fun hnone => by rw [hfnd] at hnone; cases hnone⟩
    dsimp only at h
    split_ifs at h with hemp
    · obtain ⟨-, rfl⟩ := pure_eq_ok.mp h
      exact Frame.refl _ _
    · cases hcer : findCertsFromDb answers key db.data with
      | error halt =>
        rw [hcer] at h
        exact absurd h throw_ne_ok
      | ok place =>
        rw [hcer] at h
        cases place with
        | error status =>
          obtain ⟨-, rfl⟩ := pure_eq_ok.mp h
          exact Frame.refl _ _
        | ok place =>
          dsimp only at h
          split_ifs at h
          · obtain ⟨-, rfl⟩ := pure_eq_ok.mp h
            exact Frame.refl _ _
          · exact (updateVariable_updated h).frame

lemma insertCertsToDb_frame {signerCert topLevelCert : List UInt8}
    (h : insertCertsToDb config answers key attributes signerCert topLevelCert s = .ok status s') :
    Frame [dbName attributes] s s' ∧
      (lookup answers s.store (dbName attributes) = none → s' = s) := by
  unfold insertCertsToDb at h
  obtain ⟨found, s₁, hfind, h⟩ := bind_eq_ok.mp h
  obtain ⟨hfnd, rfl⟩ := findVariable_eq_ok.mp hfind
  cases found with
  | none =>
    obtain ⟨-, rfl⟩ := pure_eq_ok.mp h
    exact ⟨Frame.refl _ _, fun _ => rfl⟩
  | some db =>
    refine ⟨?_, fun hnone => by rw [hfnd] at hnone; cases hnone⟩
    dsimp only at h
    cases hcer : findCertsFromDb answers key db.data with
    | error halt =>
      rw [hcer] at h
      exact absurd h throw_ne_ok
    | ok place =>
      rw [hcer] at h
      cases place with
      | ok place => exact absurd h throw_ne_ok
      | error status =>
        dsimp only at h
        split_ifs at h
        · obtain ⟨-, rfl⟩ := pure_eq_ok.mp h
          exact Frame.refl _ _
        · cases hdig :
              calculatePrivAuthVarSignChainSha256Digest answers signerCert topLevelCert with
          | error status =>
            rw [hdig] at h
            obtain ⟨-, rfl⟩ := pure_eq_ok.mp h
            exact Frame.refl _ _
          | ok digest =>
            rw [hdig] at h
            exact (updateVariable_updated h).frame

lemma firstError_success {statuses : List EfiStatus} (h : firstError statuses = .success) :
    ∀ status ∈ statuses, status = .success := by
  intro status hmem
  unfold firstError at h
  cases hfind : statuses.find? EfiStatus.isError with
  | none => exact not_isError_iff.mp (List.find?_eq_none.mp hfind status hmem)
  | some first =>
    have herr := List.find?_some hfind
    rw [hfind, Option.getD_some] at h
    rw [h] at herr
    cases herr

lemma checkSetVariable_success
    (h : checkSetVariable config answers s.store key data attributes = .success) :
    Visible answers s key ∧
      ∀ record, s.store key = some record → attributes ≠ {} →
        attributes.stored = record.attributes := by
  have hexi : checkExisting answers (s.store key) attributes = .success :=
    firstError_success h _ (by simp)
  unfold Visible lookup
  cases hold : s.store key with
  | none => simp
  | some record =>
    grind [checkExisting]

/-! ### Verification -/

lemma findVariable_reads (answers : Answers) (key : Key) : Moves Eq (findVariable answers key) :=
  Moves.get.bind fun _ => Moves.pure _

lemma verifyWithPk_reads (answers : Answers) (sigData newData : List UInt8) :
    Moves Eq (verifyWithPk answers sigData newData) := by
  unfold verifyWithPk
  cases answers.pkcs7GetSigners sigData with
  | none => exact Moves.pure _
  | some signers =>
    apply (findVariable_reads answers pk).bind
    intro found
    cases found with
    | none => exact Moves.pure _
    | some record => exact Moves.ite (Moves.pure _) (Moves.pure _)

lemma verifyWithKek_reads (answers : Answers) (sigData newData : List UInt8) :
    Moves Eq (verifyWithKek answers sigData newData) := by
  unfold verifyWithKek
  apply (findVariable_reads answers kek).bind
  grind [Moves.pure, Moves.throw]

lemma checkSigner_reads (answers : Answers) (key : Key) (attributes : Attributes)
    (signers : Signers) : Moves Eq (checkSigner answers key attributes signers) := by
  unfold checkSigner
  apply Moves.bind
  · unfold getCertsFromDb
    apply (findVariable_reads answers _).bind
    grind [Moves.pure, Moves.throw]
  · intro found
    cases found with
    | error status => exact Moves.pure _
    | ok certs =>
      apply Moves.ite
      · split
        · exact Moves.pure _
        · exact Moves.pure _
      · exact Moves.pure _

/-- The verification of a private variable changes at most the database, and not for a variable
that exists. -/
lemma verifyPriv_frame {found : Bool} {sigData newData payload : List UInt8}
    (h : verifyPriv config answers key attributes found sigData newData payload s = .ok status s') :
    Frame [dbName attributes] s s' ∧
      (found = true ∨ lookup answers s.store (dbName attributes) = none → s' = s) := by
  have hsign : ∀ signers s₁, verifySigner config answers key attributes found signers sigData
      newData payload s₁ = .ok status s' → Frame [dbName attributes] s₁ s' ∧
        (found = true ∨ lookup answers s₁.store (dbName attributes) = none → s' = s₁) := by
    intro signers s₁ h
    unfold verifySigner at h
    split_ifs at h with hver hnew
    · obtain ⟨-, rfl⟩ := pure_eq_ok.mp h
      exact ⟨Frame.refl _ _, fun _ => rfl⟩
    · obtain ⟨inserted, s₂, hins, h⟩ := bind_eq_ok.mp h
      obtain ⟨-, rfl⟩ := pure_eq_ok.mp h
      obtain ⟨hfra, hsame⟩ := insertCertsToDb_frame hins
      refine ⟨hfra, ?_⟩
      rintro (hfnd | hnone)
      · rw [hfnd] at hnew
        cases hnew.1
      · exact hsame hnone
    · obtain ⟨-, rfl⟩ := pure_eq_ok.mp h
      exact ⟨Frame.refl _ _, fun _ => rfl⟩
  unfold verifyPriv at h
  cases hsig : answers.pkcs7GetSigners sigData with
  | none =>
    rw [hsig] at h
    obtain ⟨-, rfl⟩ := pure_eq_ok.mp h
    exact ⟨Frame.refl _ _, fun _ => rfl⟩
  | some signers =>
    rw [hsig] at h
    dsimp only at h
    split_ifs at h with hfnd
    · obtain ⟨known, s₁, hche, h⟩ := bind_eq_ok.mp h
      obtain rfl := (checkSigner_reads _ _ _ _).of_ok hche
      split_ifs at h with hkno
      · obtain ⟨-, rfl⟩ := pure_eq_ok.mp h
        exact ⟨Frame.refl _ _, fun _ => rfl⟩
      · exact hsign signers s h
    · exact hsign signers s h

lemma verifyTimeBasedPayload_reads {authVarType : AuthVarType} (htype : authVarType ≠ .priv)
    {org : Option EfiTime} :
    Moves Eq (verifyTimeBasedPayload config answers key data attributes authVarType org) := by
  unfold verifyTimeBasedPayload
  apply Moves.ite
  · exact Moves.pure _
  · apply Moves.bind
    · unfold verifySignature
      grind [verifyWithPk_reads, verifyWithKek_reads, Moves.pure]
    · intro status
      apply Moves.ite
      · exact Moves.pure _
      · split
        · exact Moves.throw _
        · exact Moves.pure _

/-- The verification leaves its variable alone, even if it is a database itself: then there is no
other database to enter it into. -/
lemma verifyTimeBasedPayload_variable {authVarType : AuthVarType}
    (hvis : Visible answers s key)
    (h : verifyTimeBasedPayload config answers key data attributes authVarType
      ((s.store key).map Record.timeStamp) s = .ok status s') :
    s'.store key = s.store key := by
  by_cases htype : authVarType = .priv
  · subst htype
    unfold verifyTimeBasedPayload at h
    split_ifs at h with hdes
    · obtain ⟨-, rfl⟩ := pure_eq_ok.mp h
      rfl
    · obtain ⟨signed, s₁, hsig, h⟩ := bind_eq_ok.mp h
      obtain ⟨hfra, hsame⟩ := verifyPriv_frame hsig
      obtain rfl : s₁ = s' := by
        split_ifs at h
        · exact (pure_eq_ok.mp h).2
        · cases hfor : checkSignatureListFormat answers key (payload answers data) with
          | error halt =>
            rw [hfor] at h
            exact absurd h throw_ne_ok
          | ok checked =>
            rw [hfor] at h
            exact (pure_eq_ok.mp h).2
      by_cases hdb : key = dbName attributes
      · rw [hsame]
        rw [← hdb, hvis]
        cases s.store key with
        | none => exact .inr rfl
        | some record => exact .inl rfl
      · exact hfra.store key (by simpa using hdb)
  · rw [(verifyTimeBasedPayload_reads htype).of_ok h]

lemma verifyTimeBasedPayload_success {authVarType : AuthVarType} {org : Option EfiTime}
    (h : verifyTimeBasedPayload config answers key data attributes authVarType org s =
      .ok .success s') :
    checkDescriptor config answers key data attributes org = .success ∧
      verifySignature config answers key attributes org.isSome (sigData answers data)
        (serialize answers key attributes data) (payload answers data) authVarType s =
          .ok .success s' := by
  unfold verifyTimeBasedPayload at h
  split_ifs at h with hdes
  · obtain ⟨heq, -⟩ := pure_eq_ok.mp h
    rw [heq] at hdes
    cases hdes
  · obtain ⟨status, s₁, hsig, h⟩ := bind_eq_ok.mp h
    split_ifs at h with hst
    · obtain ⟨rfl, -⟩ := pure_eq_ok.mp h
      cases hst
    · rw [not_isError_iff] at hst hdes
      subst hst
      cases hfor : checkSignatureListFormat answers key (payload answers data) with
      | error halt =>
        rw [hfor] at h
        exact absurd h throw_ne_ok
      | ok status =>
        rw [hfor] at h
        obtain ⟨-, rfl⟩ := pure_eq_ok.mp h
        exact ⟨hdes, hsig⟩

/-- Without a database of signers, a request is rejected, or it is accepted and then updates the
variable. -/
lemma verifyAndUpdate_cases {authVarType : AuthVarType} {del : Bool} (htype : authVarType ≠ .priv)
    (h : verifyTimeBasedPayloadAndUpdate config answers key data attributes authVarType s =
      .ok (status, del) s') :
    (status ≠ .success ∧ s' = s) ∨
      (verifyTimeBasedPayload config answers key data attributes authVarType
          ((lookup answers s.store key).map Record.timeStamp) s = .ok .success s ∧
        authServiceInternalUpdateVariableWithTimeStamp config answers key (payload answers data)
          attributes (timeStamp answers data) s = .ok status s' ∧
        (status = .success → (del = true ↔ lookup answers s.store key ≠ none ∧
          payload answers data = [] ∧ attributes.appendWrite = false))) := by
  unfold verifyTimeBasedPayloadAndUpdate at h
  obtain ⟨found, s₁, hfind, h⟩ := bind_eq_ok.mp h
  obtain ⟨rfl, rfl⟩ := findVariable_eq_ok.mp hfind
  obtain ⟨verified, s₁, hver, h⟩ := bind_eq_ok.mp h
  obtain rfl := (verifyTimeBasedPayload_reads htype).of_ok hver
  split_ifs at h with herr
  · obtain ⟨heq, rfl⟩ := pure_eq_ok.mp h
    cases heq
    exact .inl ⟨isError_iff.mp herr, rfl⟩
  · rw [not_isError_iff] at herr
    subst herr
    refine .inr ⟨hver, ?_⟩
    obtain ⟨updated, s₁, hupd, h⟩ := bind_eq_ok.mp h
    rw [if_neg fun hdel => htype hdel.2.1] at h
    obtain ⟨heq, rfl⟩ := pure_eq_ok.mp h
    grind [EfiStatus.isError]

end Edk2.Auth
