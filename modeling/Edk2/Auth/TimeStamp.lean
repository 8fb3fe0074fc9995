import Edk2.Auth.Update

/-!
# Time stamps against replay

A request that replaces a variable must be later than the time stamp that is stored with it; an
append keeps the later one of the two. As long as a variable is not created by an append, its time
stamp is therefore never earlier than a request that was accepted for it.
-/

namespace Edk2.Auth

open Outcome

variable {config : Config} {answers : Answers} {key : Key} {data : List UInt8}
  {attributes : Attributes} {s s' : Platform} {status : EfiStatus}

/-- The place of a time stamp in the order. -/
def EfiTime.rank (time : EfiTime) : ℕ :=
  ((((time.year.toNat * 2 ^ 8 + time.month.toNat) * 2 ^ 8 + time.day.toNat) * 2 ^ 8 +
    time.hour.toNat) * 2 ^ 8 + time.minute.toNat) * 2 ^ 8 + time.second.toNat

lemma compareTimeStamp_iff (first second : EfiTime) :
    compareTimeStamp first second = true ↔ first.rank ≤ second.rank := by
  have hmon := first.month.toNat_lt
  have hmon' := second.month.toNat_lt
  have hday := first.day.toNat_lt
  have hday' := second.day.toNat_lt
  have hhour := first.hour.toNat_lt
  have hhou' := second.hour.toNat_lt
  have hmin := first.minute.toNat_lt
  have hmin' := second.minute.toNat_lt
  have hsec := first.second.toNat_lt
  have hsec' := second.second.toNat_lt
  unfold compareTimeStamp EfiTime.rank
  simp only [ne_eq, ← UInt8.toNat_inj, ← UInt16.toNat_inj, UInt8.lt_iff_toNat_lt,
    UInt16.lt_iff_toNat_lt, UInt8.le_iff_toNat_le]
  split_ifs <;> simp only [decide_eq_true_eq] <;> omega

lemma compareTimeStamp_self (time : EfiTime) : compareTimeStamp time time = true :=
  (compareTimeStamp_iff time time).mpr (Nat.le_refl _)

lemma compareTimeStamp_trans {t₁ t₂ t₃ : EfiTime} (h : compareTimeStamp t₁ t₂ = true)
    (h' : compareTimeStamp t₂ t₃ = true) : compareTimeStamp t₁ t₃ = true := by
  grind [compareTimeStamp_iff, Nat.le_trans]

lemma compareTimeStamp_of_not {t₁ t₂ : EfiTime} (h : ¬ compareTimeStamp t₁ t₂ = true) :
    compareTimeStamp t₂ t₁ = true := by
  rw [compareTimeStamp_iff] at h ⊢
  omega

/-- A time-based authenticated call whose payload is verified. -/
structure VerifiedCall where
  answers : Answers
  data : List UInt8
  attributes : Attributes
  authVarType : AuthVarType
  timeBased : attributes.timeBasedAuthenticatedWriteAccess = true

namespace VerifiedCall

variable (call : VerifiedCall)

/-- The time stamp of the payload. -/
def time : EfiTime := timeStamp call.answers call.data

/-- `SetVariable` for a variable whose requests are verified. -/
def run (config : Config) (key : Key) : Action EfiStatus := do
  let s ← get
  let status := checkSetVariable config call.answers s.store key call.data call.attributes
  if status.isError then return status
  else
    let (status, _) ← verifyTimeBasedPayloadAndUpdate config call.answers key call.data
      call.attributes call.authVarType
    return status

end VerifiedCall

lemma updateRecord_timeStamp {atRuntime : Bool} {written : EfiStatus} {name : Name}
    {old : Option Record} {record : Record} {t : EfiTime}
    (h : (updateRecord config atRuntime written name old data attributes (some t)).1 = .success)
    (hnew : (updateRecord config atRuntime written name old data attributes (some t)).2 =
      some record) :
    record.timeStamp = newTimeStamp (old.map Record.timeStamp) attributes (some t) := by
  unfold updateRecord at h hnew
  cases old with
  | none =>
    grind
  | some old =>
    dsimp only at h hnew
    split_ifs at h hnew <;> grind [EfiStatus.isError]

/-- What a verified call does to its variable. `updated` is the outcome of the update, if the
payload was accepted; only the deletion of a private variable can fail afterwards. -/
lemma verifyAndUpdate_variable {authVarType : AuthVarType} {del : Bool}
    (hvis : Visible answers s key)
    (h : verifyTimeBasedPayloadAndUpdate config answers key data attributes authVarType s =
      .ok (status, del) s') :
    (status ≠ .success ∧ s'.store key = s.store key) ∨
      ∃ written data' updated, updateRecord config answers.atRuntime written key.name
          (s.store key) data' attributes (some (timeStamp answers data)) = updated ∧
        checkDescriptor config answers key data attributes
          ((s.store key).map Record.timeStamp) = .success ∧
        (s.store key = none → data' = payload answers data) ∧ s'.store key = updated.2 ∧ (status = .success → updated.1 = .success) ∧
        (status ≠ .success → updated.1 = .success → updated.2 = none) := by
  unfold verifyTimeBasedPayloadAndUpdate at h
  obtain ⟨found, s₁, hfind, h⟩ := bind_eq_ok.mp h
  obtain ⟨rfl, rfl⟩ := findVariable_eq_ok.mp hfind
  rw [hvis] at h
  obtain ⟨verified, s₁, hver, h⟩ := bind_eq_ok.mp h
  have hkey := verifyTimeBasedPayload_variable hvis hver
  split_ifs at h with herr
  · obtain ⟨heq, rfl⟩ := pure_eq_ok.mp h
    cases heq
    exact .inl ⟨isError_iff.mp herr, hkey⟩
  · rw [not_isError_iff] at herr
    subst herr
    have hdes := (verifyTimeBasedPayload_success hver).1
    obtain ⟨updated, s₂, hupda, h⟩ := bind_eq_ok.mp h
    obtain ⟨data', hdata, hupd⟩ := updateWithTimeStamp_updated hupda
    have hvis₁ : Visible answers s₁ key := by
      grind [Visible, lookup]
    have hsto := hupd.visible hvis₁
    have hret := hupd.returns
    unfold update at hsto hret
    rw [hvis₁, hkey] at hsto hret
    have hcre : s.store key = none → data' = payload answers data := by
      intro hnone
      rcases hdata with rfl | ⟨-, -, hfnd⟩
      · rfl
      · rw [hvis₁, hkey] at hfnd
        exact absurd hnone hfnd
    refine .inr ⟨answers.written s₁.updates.length, data', _, rfl, hdes, hcre, ?_⟩
    split_ifs at h with hdel
    · obtain ⟨deleted, s₃, hdele, h⟩ := bind_eq_ok.mp h
      obtain ⟨heq, rfl⟩ := pure_eq_ok.mp h
      cases heq
      obtain ⟨hisD, -, hok⟩ := hdel
      simp only [ne_eq, decide_eq_true_eq, Bool.not_eq_true'] at hisD hok
      -- the variable was deleted before its node is
      have hsuc : updated = .success := by simpa [EfiStatus.isError] using hok
      have hgone : s₂.store key = none := by
        obtain ⟨record, hrec⟩ := Option.ne_none_iff_exists'.mp hisD.1
        have hemp : data' = [] := by
          grind
        rw [hrec, hemp] at hsto hret
        have hsome := updateRecord_some (hret.trans hsuc)
        rw [hsto, ← Option.not_isSome_iff_eq_none, hsome]
        simp [hisD.2.2]
      obtain ⟨hfra, hsame⟩ := deleteCertsFromDb_frame hdele
      have hkept : s₃.store key = s₂.store key := by
        by_cases hdb : key = dbName attributes
        · rw [hsame]
          simp [lookup, ← hdb, hgone]
        · exact hfra.store key (by simpa using hdb)
      grind
    · obtain ⟨heq, rfl⟩ := pure_eq_ok.mp h
      grind

/-! ### Histories -/

/-- A payload that was accepted. -/
structure Entry where
  time : EfiTime
  append : Bool

/-- The payloads accepted for a variable since its creation, after one more call. -/
def entries (key : Key) (call : VerifiedCall) (status : EfiStatus) (s' : Platform)
    (accepted : List Entry) : List Entry :=
  if s'.store key = none then []
  else if status = .success then ⟨call.time, call.attributes.appendWrite⟩ :: accepted
  else accepted

/-- The states that calls for one variable lead to, with the payloads that were accepted for it
since its creation. Between the calls anything can happen to the other variables. -/
inductive History (config : Config) (key : Key) (Allowed : Platform → VerifiedCall → Prop) :
    Platform → List Entry → Prop
  | absent {s : Platform} (h : s.store key = none) : History config key Allowed s []
  | call {s s' : Platform} {accepted : List Entry} {call : VerifiedCall} {status : EfiStatus}
      (h : History config key Allowed s accepted) (hallowed : Allowed s call)
      (hrun : call.run config key s = .ok status s') :
      History config key Allowed s' (entries key call status s' accepted)
  | other {s s' : Platform} {accepted : List Entry} (h : History config key Allowed s accepted)
      (hsame : s'.store key = s.store key) : History config key Allowed s' accepted

/-- The variable is not created by appending to it, unless with a time stamp of zero. -/
def Dated (key : Key) (s : Platform) (call : VerifiedCall) : Prop :=
  ¬ (s.store key = none ∧ call.attributes.appendWrite = true ∧
    payload call.answers call.data ≠ [] ∧ compareTimeStamp call.time .zero = false)

/-- The stored time stamp is not earlier than that of any accepted payload. -/
def Covers (key : Key) (s : Platform) (accepted : List Entry) : Prop :=
  ∀ entry ∈ accepted, ∃ record, s.store key = some record ∧
    compareTimeStamp entry.time record.timeStamp = true

lemma checkDescriptor_later {org : EfiTime} (happ : attributes.appendWrite = false)
    (h : checkDescriptor config answers key data attributes (some org) = .success) :
    ¬ compareTimeStamp (timeStamp answers data) org = true := by
  grind [checkDescriptor]

lemma newTimeStamp_covers {old : Option EfiTime} {time : EfiTime}
    (htime : attributes.timeBasedAuthenticatedWriteAccess = true)
    (hzero : old = none → attributes.appendWrite = true → compareTimeStamp time .zero = true)
    (hlat : ∀ org, old = some org → attributes.appendWrite = false →
      ¬ compareTimeStamp time org = true) :
    compareTimeStamp time (newTimeStamp old attributes (some time)) = true ∧
      ∀ org, old = some org →
        compareTimeStamp org (newTimeStamp old attributes (some time)) = true := by
  unfold newTimeStamp
  cases happ : attributes.appendWrite with
  | false =>
    grind [Bool.not_true, Bool.false_eq_true, Bool.not_false, compareTimeStamp_of_not]
  | true =>
    simp only [htime, Bool.not_true, Bool.false_eq_true, if_false]
    cases old with
    | none => exact ⟨hzero rfl happ, fun org horg => by cases horg⟩
    | some org =>
      dsimp only
      split_ifs with hcom
      · refine ⟨compareTimeStamp_self time, ?_⟩
        rintro _ ⟨rfl⟩
        exact hcom
      · refine ⟨compareTimeStamp_of_not hcom, ?_⟩
        rintro _ ⟨rfl⟩
        exact compareTimeStamp_self org

lemma VerifiedCall.run_cases {call : VerifiedCall} (h : call.run config key s = .ok status s') :
    (status ≠ .success ∧ s' = s) ∨
      Visible call.answers s key ∧ ∃ del, verifyTimeBasedPayloadAndUpdate config call.answers key
        call.data call.attributes call.authVarType s = .ok (status, del) s' := by
  unfold VerifiedCall.run at h
  obtain ⟨_, _, hget, h⟩ := bind_eq_ok.mp h
  obtain ⟨rfl, rfl⟩ := get_eq_ok.mp hget
  split_ifs at h with hche
  · obtain ⟨rfl, rfl⟩ := pure_eq_ok.mp h
    exact .inl ⟨isError_iff.mp hche, rfl⟩
  · rw [not_isError_iff] at hche
    obtain ⟨⟨verified, del⟩, s₁, hver, h⟩ := bind_eq_ok.mp h
    obtain ⟨rfl, rfl⟩ := pure_eq_ok.mp h
    exact .inr ⟨(checkSetVariable_success hche).1, del, hver⟩

lemma Covers.of_store {accepted : List Entry} (h : Covers key s accepted)
    (hsame : s'.store key = s.store key) : Covers key s' accepted := by
  unfold Covers
  rw [hsame]
  exact h

lemma Covers.call {accepted : List Entry} {call : VerifiedCall} (h : Covers key s accepted)
    (hdat : Dated key s call) (hrun : call.run config key s = .ok status s') :
    Covers key s' (entries key call status s' accepted) := by
  have hkept : status ≠ .success → s'.store key = s.store key →
      Covers key s' (entries key call status s' accepted) := by
    intro hne hsame
    unfold entries
    split_ifs with hnone
    · exact fun entry hmem => absurd hmem List.not_mem_nil
    · exact h.of_store hsame
  rcases call.run_cases hrun with ⟨hne, rfl⟩ | ⟨hvis, del, hver⟩
  · exact hkept hne rfl
  rcases verifyAndUpdate_variable hvis hver with
    ⟨hne, hsame⟩ | ⟨written, data', updated, rfl, hdes, hcre, hsto, hsuc, hgone⟩
  · exact hkept hne hsame
  by_cases hok : status = .success
  · subst hok
    cases hnew : s'.store key with
    | none =>
      simp only [entries, hnew, if_true]
      exact fun entry hmem => absurd hmem List.not_mem_nil
    | some record =>
      have htime := updateRecord_timeStamp (hsuc rfl) (hsto.symm.trans hnew)
      -- a variable is only created by an append at the time zero
      have hzero : (s.store key).map Record.timeStamp = none →
          call.attributes.appendWrite = true → compareTimeStamp call.time .zero = true := by
        intro hnone happ
        rw [Option.map_eq_none_iff] at hnone
        by_contra hlat
        rw [hcre hnone, hnone] at hsto hsuc
        have hsome := updateRecord_none (hsuc rfl)
        rw [← hsto, hnew] at hsome
        exact hdat ⟨hnone, happ, hsome.mp rfl, by simpa using hlat⟩
      have hlat : ∀ org, (s.store key).map Record.timeStamp = some org →
          call.attributes.appendWrite = false → ¬ compareTimeStamp call.time org = true := by
        intro org horg happ
        rw [horg] at hdes
        exact checkDescriptor_later happ hdes
      obtain ⟨hcall, hold⟩ := newTimeStamp_covers call.timeBased hzero hlat
      rw [VerifiedCall.time, ← htime] at hcall hold
      intro entry hmem
      refine ⟨record, hnew, ?_⟩
      simp only [entries, hnew, reduceCtorEq, if_false, if_true, List.mem_cons] at hmem
      rcases hmem with rfl | hmem
      · exact hcall
      · obtain ⟨old, hrec, hcom⟩ := h entry hmem
        grind [compareTimeStamp_trans]
  · -- a failed update changes nothing, and after a successful one the variable is gone
    by_cases hupd : (updateRecord config call.answers.atRuntime written key.name (s.store key)
        data' call.attributes (some (timeStamp call.answers call.data))).1 = .success
    · have hnone := hsto.trans (hgone hok hupd)
      simp only [entries, hnone, if_true]
      exact fun entry hmem => absurd hmem List.not_mem_nil
    · exact hkept hok (hsto.trans (updateRecord_of_error (isError_iff.mpr hupd)))

lemma History.covers {accepted : List Entry} (h : History config key (Dated key) s accepted) :
    Covers key s accepted := by
  induction h with
  | absent => exact fun entry hmem => absurd hmem List.not_mem_nil
  | call _ hall hrun ih => exact ih.call hall hrun
  | other _ hsame ih => exact ih.of_store hsame

/-- Unless a variable is created by an append, its time stamp is never earlier than that of a
payload accepted since its creation, and no payload that replaced it is accepted again. -/
theorem timeStamp_covers_accepted (accepted : List Entry)
    (h : History config key (Dated key) s accepted) :
    Covers key s accepted ∧
      ∀ (call : VerifiedCall) (status : EfiStatus) (s' : Platform),
        ⟨call.time, false⟩ ∈ accepted → call.attributes.appendWrite = false →
        call.run config key s = .ok status s' → status ≠ .success := by
  refine ⟨h.covers, fun call status s' hmem happend hrun => ?_⟩
  rcases call.run_cases hrun with ⟨hne, -⟩ | ⟨hvisible, del, hverify⟩
  · exact hne
  rcases verifyAndUpdate_variable hvisible hverify with
    ⟨hne, -⟩ | ⟨-, -, -, -, hdescriptor, -⟩
  · exact hne
  obtain ⟨record, hrecord, hcompare⟩ := h.covers _ hmem
  rw [hrecord] at hdescriptor
  exact absurd hcompare (checkDescriptor_later happend hdescriptor)

/-- A request of the given year for the platform key. -/
def sampleCall (year : UInt8) (append : Bool) : VerifiedCall where
  answers := sampleAnswers
  data := sampleRequest year sampleCertificate
  attributes := { sampleAttributes with appendWrite := append }
  authVarType := .payload
  timeBased := rfl

lemma entries_success {accepted : List Entry} {call : VerifiedCall} (h : s.store key ≠ none) :
    entries key call .success s accepted = ⟨call.time, call.attributes.appendWrite⟩ :: accepted := by
  simp [entries, h]

theorem timeStamp_covers_accepted_replaced :
    ∃ s, History sampleConfig pk (Dated pk) s
        [⟨(sampleCall 2 false).time, false⟩, ⟨(sampleCall 1 false).time, false⟩] ∧
      Covers pk s [⟨(sampleCall 2 false).time, false⟩, ⟨(sampleCall 1 false).time, false⟩] := by
  have hreturns : returns (fun status s => status = .success && s.store pk ≠ none &&
      returns (fun status s => status = .success && s.store pk ≠ none)
        ((sampleCall 2 false).run sampleConfig pk s))
      ((sampleCall 1 false).run sampleConfig pk samplePlatform) = true := by decide
  obtain ⟨status₁, s₁, hrun₁, htest₁⟩ := exists_of_returns hreturns
  simp only [ne_eq, Bool.and_eq_true, decide_eq_true_eq] at htest₁
  obtain ⟨⟨rfl, hstore₁⟩, hreturns₂⟩ := htest₁
  obtain ⟨status₂, s₂, hrun₂, htest₂⟩ := exists_of_returns hreturns₂
  simp only [Bool.and_eq_true, decide_eq_true_eq] at htest₂
  obtain ⟨rfl, hstore₂⟩ := htest₂
  have hstart : History sampleConfig pk (Dated pk) samplePlatform [] := .absent rfl
  have hfirst := hstart.call (fun h => by cases h.2.1) hrun₁
  have hsecond := hfirst.call (fun h => by cases h.2.1) hrun₂
  rw [entries_success hstore₁, entries_success hstore₂] at hsecond
  exact ⟨s₂, hsecond, (timeStamp_covers_accepted _ hsecond).1⟩

/-- A variable that an append creates is stored with the time zero. -/
theorem append_creates_undated :
    ¬ ∀ (s : Platform) (accepted : List Entry),
      History sampleConfig pk (fun _ _ => True) s accepted → Covers pk s accepted := by
  intro hall
  have hreturns : returns (fun status s => status = .success && s.store pk ≠ none &&
      (s.store pk).all fun record => record.timeStamp = .zero)
      ((sampleCall 1 true).run sampleConfig pk samplePlatform) = true := by decide
  obtain ⟨status, s, hrun, htest⟩ := exists_of_returns hreturns
  simp only [ne_eq, Bool.and_eq_true, decide_eq_true_eq] at htest
  obtain ⟨⟨rfl, hstore⟩, hzero⟩ := htest
  have hstart : History sampleConfig pk (fun _ _ => True) samplePlatform [] := .absent rfl
  have hcall := hstart.call trivial hrun
  rw [entries_success hstore] at hcall
  obtain ⟨record, hrecord, hcompare⟩ := hall _ _ hcall _ List.mem_cons_self
  rw [hrecord] at hzero
  have htime : record.timeStamp = .zero := by simpa using hzero
  rw [htime] at hcompare
  have hlater : compareTimeStamp (sampleCall 1 true).time .zero = false := by decide
  grind

end Edk2.Auth
