import Edk2.Auth.Update

/-!
# The mode of the platform

The platform is in user mode while it has a platform key. `ProcessVarWithPk` infers from the
request whether the key was enrolled or deleted. The two ways in which it does so agree with the
store except for one kind of request: an append without data.
-/

namespace Edk2.Auth

open Outcome

variable {config : Config} {answers : Answers} {data : List UInt8} {attributes : Attributes}
  {s s' : Platform} {status : EfiStatus} {del : Bool}

/-- A call of `SetVariable` for the platform key. -/
structure PkCall where
  answers : Answers
  data : List UInt8
  attributes : Attributes

def PkCall.run (config : Config) (call : PkCall) : Action EfiStatus :=
  variableServiceSetVariable config call.answers pk call.data call.attributes

/-- The platform is in user mode exactly when it has a platform key. -/
def ModeMatches (s : Platform) : Prop := s.platformMode = .userMode ↔ s.store pk ≠ none

/-- `SetupMode` exists, as the initialization of the library leaves it. -/
def HasSetupMode (s : Platform) : Prop :=
  ∃ record, s.store setupModeVariable = some record ∧ record.attributes.runtimeAccess = true

/-- No update of another variable failed. -/
def UpdatesSucceed (s : Platform) : Prop := ∀ u ∈ s.updates, u.1 ≠ pk → u.2 = .success

/-- The states that calls lead to which meet a condition and whose updates do not fail. -/
inductive PkRun (config : Config) (Allowed : Platform → PkCall → Prop) (start : Platform) :
    Platform → Prop
  | start : PkRun config Allowed start start
  | call {s s' : Platform} {call : PkCall} {status : EfiStatus} (h : PkRun config Allowed start s)
      (hallowed : Allowed s call) (hrun : call.run config s = .ok status s')
      (hupdates : UpdatesSucceed s') : PkRun config Allowed start s'

lemma pk_ne_setupModeVariable : pk ≠ setupModeVariable := by decide

lemma vendorKeysNv_ne_pk : vendorKeysNv ≠ pk := by decide

lemma vendorKeys_ne_pk : vendorKeys ≠ pk := by decide

lemma updateSecureBootEnable_frame {enable : Bool}
    (h : updateSecureBootEnable config answers enable s = .ok status s') :
    Frame [secureBootEnable] s s' := by
  unfold updateSecureBootEnable at h
  obtain ⟨found, s₁, hfind, h⟩ := bind_eq_ok.mp h
  obtain ⟨-, rfl⟩ := findVariable_eq_ok.mp hfind
  split_ifs at h
  · exact (updateVariable_updated h).frame
  · obtain ⟨-, rfl⟩ := pure_eq_ok.mp h
    exact Frame.refl _ _
  · exact (updateVariable_updated h).frame

lemma Frame.hasSetupMode {keys : List Key} (h : Frame keys s s') (hmem : setupModeVariable ∉ keys)
    (hs : HasSetupMode s) : HasSetupMode s' := by
  unfold HasSetupMode
  rw [h.store _ hmem]
  exact hs

lemma updatePlatformMode_spec {mode : PlatformMode} (hs : HasSetupMode s)
    (h : updatePlatformMode config answers mode s = .ok status s') :
    s'.platformMode = mode ∧ s'.store pk = s.store pk ∧ HasSetupMode s' := by
  obtain ⟨record, hrec, hrt⟩ := hs
  unfold updatePlatformMode at h
  obtain ⟨found, s₁, hfind, h⟩ := bind_eq_ok.mp h
  obtain ⟨hfnd, rfl⟩ := findVariable_eq_ok.mp hfind
  have hvis : lookup answers s.store setupModeVariable = some record := by
    simp [lookup, hrec, hrt]
  rw [hvis] at hfnd
  subst hfnd
  obtain ⟨_, s₂, hmod, h⟩ := bind_eq_ok.mp h
  have hs₂ := modify_eq_ok.mp hmod
  have hmod₂ : s₂.platformMode = mode := by rw [← hs₂]
  have hpk₂ : s₂.store pk = s.store pk := by
    rw [← hs₂]
    simp [pk_ne_setupModeVariable]
  have hset₂ : HasSetupMode s₂ := by
    refine ⟨record.setByte mode.toByte, ?_, hrt⟩
    rw [← hs₂]
    simp
  split_ifs at h
  · obtain ⟨-, rfl⟩ := pure_eq_ok.mp h
    exact ⟨hmod₂, hpk₂, hset₂⟩
  · obtain ⟨_, _, hfind, h⟩ := bind_eq_ok.mp h
    obtain ⟨-, rfl⟩ := findVariable_eq_ok.mp hfind
    obtain ⟨status₃, s₃, hupd, h⟩ := bind_eq_ok.mp h
    have hfra₃ := (updateVariable_updated hupd).frame
    -- both variables are neither the platform key nor `SetupMode`
    have hfra : Frame [secureBoot, secureBootEnable] s₂ s' := by
      split_ifs at h
      · obtain ⟨-, rfl⟩ := pure_eq_ok.mp h
        exact hfra₃.mono (by simp)
      · exact (hfra₃.mono (by simp)).trans ((updateSecureBootEnable_frame h).mono (by simp))
    exact ⟨hfra.platformMode.trans hmod₂, (hfra.store pk (by decide)).trans hpk₂,
      hfra.hasSetupMode (by decide) hset₂⟩

lemma vendorKeyIsModified_spec (h : vendorKeyIsModified config answers s = .ok status s') :
    Frame [vendorKeysNv, vendorKeys] s s' ∧
      (status ≠ .success → ∃ u ∈ s'.updates, u.1 ≠ pk ∧ u.2 ≠ .success) := by
  unfold vendorKeyIsModified at h
  obtain ⟨_, _, hget, h⟩ := bind_eq_ok.mp h
  obtain ⟨rfl, rfl⟩ := get_eq_ok.mp hget
  split_ifs at h
  · obtain ⟨rfl, rfl⟩ := pure_eq_ok.mp h
    exact ⟨Frame.refl _ _, fun hne => absurd rfl hne⟩
  · obtain ⟨_, s₁, hmod, h⟩ := bind_eq_ok.mp h
    have hs₁ := modify_eq_ok.mp hmod
    have hfra₁ : Frame [vendorKeysNv, vendorKeys] s s₁ := by
      rw [← hs₁]
      exact ⟨rfl, fun _ _ => rfl, List.prefix_refl _⟩
    obtain ⟨status₂, s₂, hupd, h⟩ := bind_eq_ok.mp h
    have hupd₂ := updateVariable_updated hupd
    have hfra₂ := hfra₁.trans (hupd₂.frame.mono (by simp))
    split_ifs at h with herr
    · obtain ⟨rfl, rfl⟩ := pure_eq_ok.mp h
      refine ⟨hfra₂, fun hne => ⟨(vendorKeysNv, _), ?_, vendorKeysNv_ne_pk, hne⟩⟩
      simp [hupd₂.updates]
    · have hupd₃ := updateVariable_updated h
      refine ⟨hfra₂.trans (hupd₃.frame.mono (by simp)),
        fun hne => ⟨(vendorKeys, _), ?_, vendorKeys_ne_pk, hne⟩⟩
      simp [hupd₃.updates]

/-! ### Enrolment and deletion -/

/-- The user is present and has chosen the custom mode: no signature is needed. -/
def Custom (answers : Answers) : Prop :=
  answers.inCustomMode = true ∧ answers.userPhysicalPresent = true

/-- `VerifyTimeBasedPayload` accepts a request for a platform key that does not exist, when the
payload is empty. -/
def Accepted (config : Config) (answers : Answers) (data : List UInt8) (attributes : Attributes) :
    Prop :=
  checkDescriptor config answers pk data attributes none = .success ∧
    verifyWithPayload answers (sigData answers data) (serialize answers pk attributes data) [] =
      .success

/-- What the verification with the current mode does when it succeeds. -/
structure Processed (config : Config) (answers : Answers) (data : List UInt8)
    (attributes : Attributes) (s s' : Platform) (del : Bool) : Prop where
  exists_iff : s'.store pk ≠ none ↔
    payload answers data ≠ [] ∨ (s.store pk ≠ none ∧ attributes.appendWrite = true)
  append_of_none : s.store pk = none → payload answers data = [] → attributes.appendWrite = true
  del_custom : Custom answers → (del = true ↔ payload answers data = [])
  del_verified : ¬ Custom answers →
    (del = true ↔ s.store pk ≠ none ∧ payload answers data = [] ∧ attributes.appendWrite = false)
  accepted : ¬ Custom answers → s.platformMode = .setupMode → s.store pk = none →
    payload answers data = [] → Accepted config answers data attributes

lemma update_pk {t : EfiTime} {s₁ : Platform} (hvis : Visible answers s pk)
    (hacc : s.store pk ≠ none → attributes.access = true)
    (h : authServiceInternalUpdateVariableWithTimeStamp config answers pk (payload answers data)
      attributes t s = .ok .success s₁) :
    (s₁.store pk ≠ none ↔
      payload answers data ≠ [] ∨ (s.store pk ≠ none ∧ attributes.appendWrite = true)) ∧
      (s.store pk = none → payload answers data = [] → attributes.appendWrite = true) := by
  obtain ⟨data', hdata, hupd⟩ := updateWithTimeStamp_updated h
  obtain rfl : data' = payload answers data := by
    rcases hdata with rfl | ⟨-, hkey, -⟩
    · rfl
    · exact absurd hkey (by decide)
  have hsto := hupd.visible hvis
  have hret := hupd.returns
  unfold update at hsto hret
  rw [hvis] at hsto hret
  cases hold : s.store pk with
  | none =>
    rw [hold] at hsto hret
    have hsome := updateRecord_none hret
    grind [Option.isSome_iff_ne_none, updateRecord]
  | some record =>
    rw [hold] at hsto hret
    have hsome := updateRecord_some hret
    grind [Option.isSome_iff_ne_none]

lemma updateUnverified_cases {key : Key}
    (h : updateUnverified config answers key data attributes s = .ok status s') :
    (status ≠ .success ∧ s' = s) ∨
      authServiceInternalUpdateVariableWithTimeStamp config answers key (payload answers data)
        attributes (timeStamp answers data) s = .ok status s' := by
  unfold updateUnverified at h
  cases hfor : checkSignatureListFormat answers key (payload answers data) with
  | error halt =>
    rw [hfor] at h
    exact absurd h throw_ne_ok
  | ok checked =>
    rw [hfor] at h
    dsimp only at h
    split_ifs at h with herr
    · obtain ⟨rfl, rfl⟩ := pure_eq_ok.mp h
      exact .inl ⟨isError_iff.mp herr, rfl⟩
    · exact .inr h

lemma updatePk_frame {t : EfiTime}
    (h : authServiceInternalUpdateVariableWithTimeStamp config answers pk (payload answers data)
      attributes t s = .ok status s') :
    Frame [pk, vendorKeysNv, vendorKeys] s s' ∧
      (status ≠ .success → s'.store pk = s.store pk) := by
  obtain ⟨data', -, hupd⟩ := updateWithTimeStamp_updated h
  exact ⟨hupd.frame.mono (by simp), fun hne => hupd.error (isError_iff.mpr hne)⟩

/-- The part of `ProcessVarWithPk` before the mode is looked at. If it fails then the platform key
is as before, unless the update of another variable failed. -/
lemma verifyWithMode_spec (hvis : Visible answers s pk)
    (hacc : s.store pk ≠ none → attributes.access = true)
    (h : verifyWithMode config answers pk data attributes true s = .ok (status, del) s') :
    Frame [pk, vendorKeysNv, vendorKeys] s s' ∧
      (status = .success → Processed config answers data attributes s s' del) ∧
      (status ≠ .success → s'.store pk = s.store pk ∨
        ∃ u ∈ s'.updates, u.1 ≠ pk ∧ u.2 ≠ .success) := by
  unfold verifyWithMode at h
  obtain ⟨_, _, hget, h⟩ := bind_eq_ok.mp h
  obtain ⟨rfl, rfl⟩ := get_eq_ok.mp hget
  by_cases hcus : Custom answers
  · rw [if_pos (.inl hcus)] at h
    obtain ⟨updated, s₁, hupd, h⟩ := bind_eq_ok.mp h
    rcases updateUnverified_cases hupd with ⟨hne, rfl⟩ | hupd
    · rw [if_pos (isError_iff.mpr hne)] at h
      obtain ⟨heq, rfl⟩ := pure_eq_ok.mp h
      cases heq
      exact ⟨Frame.refl _ _, fun hs => absurd hs hne, fun _ => .inl rfl⟩
    · obtain ⟨hfra, hsame⟩ := updatePk_frame hupd
      split_ifs at h with herr
      · obtain ⟨heq, rfl⟩ := pure_eq_ok.mp h
        cases heq
        exact ⟨hfra, fun hs => absurd hs (isError_iff.mp herr), fun hne => .inl (hsame hne)⟩
      · rw [not_isError_iff] at herr
        subst herr
        obtain ⟨vendor, s₂, hven, h⟩ := bind_eq_ok.mp h
        obtain ⟨heq, rfl⟩ := pure_eq_ok.mp h
        cases heq
        obtain ⟨hfra₂, hfai⟩ := vendorKeyIsModified_spec hven
        refine ⟨hfra.trans (hfra₂.mono (by simp)), fun _ => ?_, fun hne => .inr (hfai hne)⟩
        obtain ⟨hexi, happ⟩ := update_pk hvis hacc hupd
        have hpk : s₂.store pk = s₁.store pk := hfra₂.store pk (by decide)
        exact {
          exists_iff := by rw [hpk]; exact hexi
          append_of_none := happ
          del_custom := fun _ => by simp
          del_verified := fun hnot => absurd hcus hnot
          accepted := fun hnot => absurd hcus hnot }
      · rename_i hnot
        exact absurd (.inr rfl) hnot
  · rw [if_neg (by rintro (hc | ⟨-, hc⟩); exacts [hcus hc, Bool.noConfusion hc])] at h
    -- both kinds of verification leave the update to the same function
    have key : ∀ authVarType : AuthVarType, authVarType ≠ .priv →
        (s.platformMode = .setupMode → authVarType = .payload) →
        verifyTimeBasedPayloadAndUpdate config answers pk data attributes authVarType s =
          .ok (status, del) s' →
        Frame [pk, vendorKeysNv, vendorKeys] s s' ∧
          (status = .success → Processed config answers data attributes s s' del) ∧
          (status ≠ .success → s'.store pk = s.store pk) := by
      intro authVarType htype hmode hrun
      rcases verifyAndUpdate_cases htype hrun with ⟨hne, rfl⟩ | ⟨hver, hupd, hdel⟩
      · exact ⟨Frame.refl _ _, fun hs => absurd hs hne, fun _ => rfl⟩
      · obtain ⟨hfra, hsame⟩ := updatePk_frame hupd
        refine ⟨hfra, fun hsuc => ?_, hsame⟩
        subst hsuc
        obtain ⟨hexi, happ⟩ := update_pk hvis hacc hupd
        obtain ⟨hdes, hsig⟩ := verifyTimeBasedPayload_success hver
        rw [hvis] at hdel hdes hsig
        exact {
          exists_iff := hexi
          append_of_none := happ
          del_custom := fun hc => absurd hc hcus
          del_verified := fun _ => hdel rfl
          accepted := by
            intro _ hset hnone hnil
            rw [hnone] at hdes
            rw [hmode hset, hnil] at hsig
            exact ⟨hdes, (pure_eq_ok.mp hsig).1⟩ }
    split_ifs at h with hmode
    · obtain ⟨hfra, hpro, hsame⟩ := key .pk (by decide) (by simp [hmode]) h
      exact ⟨hfra, hpro, fun hne => .inl (hsame hne)⟩
    · obtain ⟨hfra, hpro, hsame⟩ := key .payload (by decide) (fun _ => rfl) h
      exact ⟨hfra, hpro, fun hne => .inl (hsame hne)⟩

/-! ### Calls and runs -/

/-- The call is no append without data that misleads `ProcessVarWithPk`: with the key there, for a
user in custom mode, or, without a key, when the signature is accepted. -/
def KeepsTrack (config : Config) (s : Platform) (call : PkCall) : Prop :=
  ¬ (call.attributes.appendWrite = true ∧ payload call.answers call.data = [] ∧
    (Custom call.answers ∧ s.store pk ≠ none ∨
      ¬ Custom call.answers ∧ s.store pk = none ∧
        Accepted config call.answers call.data call.attributes))

lemma Processed.del_iff {call : PkCall} (hmode : ModeMatches s) (hmee : KeepsTrack config s call)
    (h : Processed config call.answers call.data call.attributes s s' del) :
    (s.platformMode = .setupMode → (del = false ↔ s'.store pk ≠ none)) ∧
      (s.platformMode = .userMode → (del = false ↔ s'.store pk ≠ none)) := by
  have hexi := h.exists_iff
  unfold KeepsTrack at hmee
  constructor
  · intro hset
    have hnone : s.store pk = none := by
      by_contra hne
      rw [hmode.mpr hne] at hset
      cases hset
    rw [hexi]
    by_cases hcus : Custom call.answers
    · have hdel := h.del_custom hcus
      simp [hnone, ← hdel]
    · have hdel := h.del_verified hcus
      have hacc := h.accepted hcus hset hnone
      have happ := h.append_of_none hnone
      grind
  · intro huser
    have hsome := hmode.mp huser
    rw [hexi]
    by_cases hcus : Custom call.answers
    · have hdel := h.del_custom hcus
      grind
    · have hdel := h.del_verified hcus
      grind

lemma PkCall.run_keeps {call : PkCall} (hmode : ModeMatches s) (hsetu : HasSetupMode s)
    (hmee : KeepsTrack config s call) (hrun : call.run config s = .ok status s')
    (hupd : UpdatesSucceed s') : ModeMatches s' ∧ HasSetupMode s' := by
  unfold PkCall.run variableServiceSetVariable at hrun
  obtain ⟨_, _, hget, hrun⟩ := bind_eq_ok.mp hrun
  obtain ⟨rfl, rfl⟩ := get_eq_ok.mp hget
  obtain ⟨_, s₀, hset, hrun⟩ := bind_eq_ok.mp hrun
  have hs₀ := set_eq_ok.mp hset
  have hmod₀ : ModeMatches s₀ := by rw [← hs₀]; exact hmode
  have hset₀ : HasSetupMode s₀ := by rw [← hs₀]; exact hsetu
  have hmee₀ : KeepsTrack config s₀ call := by rw [← hs₀]; exact hmee
  split_ifs at hrun with hche
  · obtain ⟨-, rfl⟩ := pure_eq_ok.mp hrun
    exact ⟨hmod₀, hset₀⟩
  rw [not_isError_iff] at hche
  obtain ⟨hvis, hatt⟩ := checkSetVariable_success hche
  have hvis₀ : Visible call.answers s₀ pk := by rw [← hs₀]; exact hvis
  unfold authVariableLibProcessVariable at hrun
  rw [if_pos rfl] at hrun
  unfold processVarWithPk at hrun
  split_ifs at hrun with hkind
  · obtain ⟨-, rfl⟩ := pure_eq_ok.mp hrun
    exact ⟨hmod₀, hset₀⟩
  have hacc₀ : s₀.store pk ≠ none → call.attributes.access = true := by
    intro hne
    obtain ⟨record, hrec⟩ := Option.ne_none_iff_exists'.mp hne
    rw [← hs₀] at hrec
    have heq := hatt record hrec (by rintro hemp; simp [hemp] at hkind)
    rw [← Attributes.access_stored, heq]
    exact record.access
  obtain ⟨⟨verified, del⟩, s₁, hver, hrun⟩ := bind_eq_ok.mp hrun
  obtain ⟨hfra, hpro, hfai⟩ := verifyWithMode_spec hvis₀ hacc₀ hver
  obtain ⟨_, _, hget, hrun⟩ := bind_eq_ok.mp hrun
  obtain ⟨rfl, rfl⟩ := get_eq_ok.mp hget
  have hset₁ : HasSetupMode s₁ := hfra.hasSetupMode (by decide) hset₀
  split_ifs at hrun with herr henr hdele
  · -- the request failed and the key is as it was
    obtain ⟨-, rfl⟩ := pure_eq_ok.mp hrun
    have hne : verified ≠ .success := isError_iff.mp (herr.resolve_right (by simp))
    rcases hfai hne with hsame | ⟨u, hmem, hkey, hfail⟩
    · refine ⟨?_, hset₁⟩
      unfold ModeMatches
      rw [hfra.platformMode, hsame]
      exact hmod₀
    · exact absurd (hupd u hmem hkey) hfail
  all_goals
    have hsuc : verified = .success := not_isError_iff.mp (not_or.mp herr).1
    have hdel := (hpro hsuc).del_iff hmod₀ hmee₀
    rw [← hfra.platformMode] at hdel
  · obtain ⟨hmod', hpk', hset'⟩ := updatePlatformMode_spec hset₁ hrun
    grind [ModeMatches]
  · obtain ⟨hmod', hpk', hset'⟩ := updatePlatformMode_spec hset₁ hrun
    grind [ModeMatches]
  · obtain ⟨-, rfl⟩ := pure_eq_ok.mp hrun
    refine ⟨?_, hset₁⟩
    unfold ModeMatches
    cases hm : s₁.platformMode with
    | userMode =>
      grind
    | setupMode =>
      grind

/-- As long as no append without data comes at the wrong time, the platform is in user mode exactly
when it has a platform key. -/
theorem platformMode_iff_pk (start : Platform) (hstart : ModeMatches start)
    (hsetup : HasSetupMode start) (s : Platform) (h : PkRun config (KeepsTrack config) start s) :
    ModeMatches s := by
  have hboth : ModeMatches s ∧ HasSetupMode s := by
    induction h with
    | start => exact ⟨hstart, hsetup⟩
    | call _ hallowed hrun hupdates ih => exact PkCall.run_keeps ih.1 ih.2 hallowed hrun hupdates
  exact hboth.1

lemma modeMatches_samplePlatform : ModeMatches samplePlatform := by
  constructor
  · intro h
    cases h
  · intro h
    exact absurd rfl h

lemma hasSetupMode_samplePlatform : HasSetupMode samplePlatform := ⟨_, rfl, rfl⟩

/-- A user in custom mode enrols a key. -/
def enrolment : PkCall where
  answers := { sampleAnswers with inCustomMode := true, userPhysicalPresent := true }
  data := sampleRequest 1 sampleCertificate
  attributes := sampleAttributes

theorem platformMode_iff_pk_enrolled :
    ∃ s, PkRun sampleConfig (KeepsTrack sampleConfig) samplePlatform s ∧
      s.platformMode = .userMode ∧ s.store pk ≠ none := by
  have hreturns : returns (fun status s => status = .success && s.platformMode = .userMode &&
      s.updates.all fun u => u.2 = .success) (enrolment.run sampleConfig samplePlatform) = true := by
    decide
  obtain ⟨status, s, hrun, htest⟩ := exists_of_returns hreturns
  simp only [Bool.and_eq_true, decide_eq_true_eq, List.all_eq_true] at htest
  have hpk : PkRun sampleConfig (KeepsTrack sampleConfig) samplePlatform s :=
    PkRun.start.call (fun h => by cases h.1) hrun fun u hmem _ => htest.2 u hmem
  exact ⟨s, hpk, htest.1.2, (platformMode_iff_pk samplePlatform
    modeMatches_samplePlatform hasSetupMode_samplePlatform s hpk).mp htest.1.2⟩

/-- An append without data, when there is no key and the signature is accepted. -/
def emptyAppend : PkCall where
  answers := sampleAnswers
  data := sampleRequest 1 []
  attributes := { sampleAttributes with appendWrite := true }

/-- The platform enters the user mode without a platform key. -/
theorem userMode_without_pk :
    ¬ ∀ (start s : Platform), ModeMatches start → HasSetupMode start →
      PkRun sampleConfig (fun _ _ => True) start s → ModeMatches s := by
  intro hall
  have hreturns : returns (fun status s => status = .success && s.platformMode = .userMode &&
      s.store pk = none && s.updates.all fun u => u.2 = .success)
      (emptyAppend.run sampleConfig samplePlatform) = true := by decide
  obtain ⟨status, s, hrun, htest⟩ := exists_of_returns hreturns
  simp only [Bool.and_eq_true, decide_eq_true_eq, List.all_eq_true] at htest
  have hmode := hall samplePlatform s modeMatches_samplePlatform hasSetupMode_samplePlatform
    (PkRun.start.call trivial hrun fun u hmem _ => htest.2 u hmem)
  exact hmode.mp htest.1.1.2 htest.1.2

end Edk2.Auth
