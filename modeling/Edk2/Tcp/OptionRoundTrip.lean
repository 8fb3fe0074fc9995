import Edk2.Tcp.OptionParse

/-!
# The fast path, and options read back

With twelve bytes of options that begin like an aligned timestamp the slow path comes to the same
values. What `TcpSynBuildOption` and `TcpBuildOption` put into a segment is what the parser finds
there.
-/

namespace Edk2.Tcp

open Halting

variable {head rest : List UInt8} {option : TcpOption} {cur fuel : ℕ}

lemma TcpHead.totalLen_eq (tcp : TcpHead) : tcp.totalLen = tcp.options.length := by
  have hle := tcp.five_le
  have hlt := tcp.headLen_lt
  rw [tcp.length_options]
  unfold TcpHead.totalLen tcpHeadSize
  omega

lemma TcpHead.length_options_lt (tcp : TcpHead) : tcp.options.length < 2 ^ 8 := by
  have hlt := tcp.headLen_lt
  rw [tcp.length_options]
  omega

lemma tcpGetUint16_eq {high low : UInt8} (h : head.drop cur = high :: low :: rest) :
    tcpGetUint16 head cur = .ok (high.toNat * 2 ^ 8 + low.toNat) := by
  have hhigh : byteAt head cur = .ok high := (byteAt_drop h 0).trans rfl
  have hlow : byteAt head (cur + 1) = .ok low := (byteAt_drop h 1).trans rfl
  unfold tcpGetUint16
  rw [hhigh, ok_bind, hlow]
  rfl

lemma tcpGetUint32_eq {b₀ b₁ b₂ b₃ : UInt8} (h : head.drop cur = b₀ :: b₁ :: b₂ :: b₃ :: rest) :
    tcpGetUint32 head cur =
      .ok ((b₀.toNat * 2 ^ 8 + b₁.toNat) * 2 ^ 16 + (b₂.toNat * 2 ^ 8 + b₃.toNat)) := by
  have hrest : head.drop (cur + 2) = b₂ :: b₃ :: rest := by
    rw [← List.drop_drop, h]
    rfl
  unfold tcpGetUint32
  rw [tcpGetUint16_eq h, ok_bind, tcpGetUint16_eq hrest]
  rfl

lemma tcpGetUint32_put {n : ℕ} (hn : n < 2 ^ 32) (h : head.drop cur = tcpPutUint32 n ++ rest) :
    tcpGetUint32 head cur = .ok n := by
  rw [tcpGetUint32_eq h]
  simp only [UInt8.toNat_ofNat']
  congr 1
  omega

lemma fixedOption_eq (optionLen : ℕ) {kind len : UInt8}
    (hrest : head.drop cur = kind :: len :: rest) (hlen : len.toNat = optionLen)
    (hfits : optionLen ≤ rest.length + 2) (hlt : head.length < 2 ^ 8) :
    fixedOption head head.length cur optionLen (pure option) =
      .ok (some (cur + optionLen, option)) := by
  have hval : optionLen ≤ rest.length + 2 →
      ∃ option', (pure option : Except Halt TcpOption) = .ok option' :=
    fun _ => ⟨option, rfl⟩
  have hspec := fixedOption_spec hrest hlt hval
  rw [if_pos ⟨hlen, hfits⟩] at hspec
  obtain ⟨option', hopt, hspec⟩ := hspec
  rw [hspec, pure_eq_ok.mp hopt]

lemma lt_length (hrest : head.drop cur = rest) (hne : rest ≠ []) : cur < head.length := by
  by_contra hle
  rw [List.drop_eq_nil_of_le (by omega)] at hrest
  exact hne hrest.symm

lemma parseLoop_nop (hrest : head.drop cur = tcpOptionNop :: rest) (hlt : head.length < 2 ^ 8) :
    parseLoop head head.length (fuel + 1) cur option =
      parseLoop head head.length fuel (cur + 1) option := by
  have hcur := lt_length hrest (by simp)
  rw [parseLoop_succ hcur, parseStep_nop hrest (by omega), ok_bind]

lemma parseLoop_mss {mss : ℕ} {high low : UInt8}
    (hrest : head.drop cur = tcpOptionMss :: 4 :: high :: low :: rest)
    (hmss : high.toNat * 2 ^ 8 + low.toNat = mss) (hlt : head.length < 2 ^ 8) :
    parseLoop head head.length (fuel + 1) cur option =
      parseLoop head head.length fuel (cur + 4)
        { option with mss := mss, flag := option.flag ||| tcpOptionRcvdMss } := by
  have htype : byteAt head cur = .ok tcpOptionMss := (byteAt_drop hrest 0).trans rfl
  have hdata : head.drop (cur + 2) = high :: low :: rest := by
    rw [← List.drop_drop, hrest]
    rfl
  rw [parseLoop_succ (lt_length hrest (by simp))]
  unfold parseStep
  rw [htype, ok_bind, if_pos rfl, tcpGetUint16_eq hdata, ok_bind, hmss,
    fixedOption_eq tcpOptionMssLen hrest rfl (by simp [tcpOptionMssLen]) hlt, ok_bind]

lemma parseLoop_ws {scale : UInt8} (hrest : head.drop cur = tcpOptionWs :: 3 :: scale :: rest)
    (hlt : head.length < 2 ^ 8) :
    parseLoop head head.length (fuel + 1) cur option =
      parseLoop head head.length fuel (cur + 3)
        { option with
          wndScale := min 14 scale.toNat, flag := option.flag ||| tcpOptionRcvdWs } := by
  have htype : byteAt head cur = .ok tcpOptionWs := (byteAt_drop hrest 0).trans rfl
  have hsca : byteAt head (cur + 2) = .ok scale := (byteAt_drop hrest 2).trans rfl
  rw [parseLoop_succ (lt_length hrest (by simp))]
  unfold parseStep
  rw [htype, ok_bind, if_neg (by decide), if_pos rfl, hsca, ok_bind,
    fixedOption_eq tcpOptionWsLen hrest rfl (by simp [tcpOptionWsLen]) hlt, ok_bind]

lemma parseLoop_ts {val ecr : ℕ} (hval : val < 2 ^ 32) (hecr : ecr < 2 ^ 32)
    (hrest : head.drop cur = timestampOption val ecr ++ rest) (hlt : head.length < 2 ^ 8) :
    parseLoop head head.length (fuel + 3) cur option =
      parseLoop head head.length fuel (cur + 12)
        { option with tsVal := val, tsEcr := ecr, flag := option.flag ||| tcpOptionRcvdTs } := by
  have hnop : head.drop (cur + 1) = (timestampOption val ecr ++ rest).drop 1 := by
    rw [← hrest, List.drop_drop]
  have hts : head.drop (cur + 1 + 1) = tcpOptionTs :: 10 :: (tcpPutUint32 val ++
      (tcpPutUint32 ecr ++ rest)) := by
    rw [← List.drop_drop, hnop]
    rfl
  have hval' := tcpGetUint32_put hval (show head.drop (cur + 1 + 1 + 2) = _ from by
    rw [← List.drop_drop, hts]
    rfl)
  have hecr' := tcpGetUint32_put hecr (show head.drop (cur + 1 + 1 + 6) = _ from by
    rw [← List.drop_drop, hts]
    rfl)
  have htype : byteAt head (cur + 1 + 1) = .ok tcpOptionTs := (byteAt_drop hts 0).trans rfl
  rw [parseLoop_nop hrest hlt, parseLoop_nop hnop hlt, parseLoop_succ (lt_length hts (by simp))]
  unfold parseStep
  rw [htype, ok_bind, if_neg (by decide), if_neg (by decide), if_pos rfl, hval', ok_bind, hecr',
    ok_bind, fixedOption_eq tcpOptionTsLen hts rfl (by simp [tcpPutUint32, tcpOptionTsLen]) hlt,
    ok_bind]
  rfl

lemma exists_put (b₀ b₁ b₂ b₃ : UInt8) : ∃ n < 2 ^ 32, [b₀, b₁, b₂, b₃] = tcpPutUint32 n := by
  have h₀ := b₀.toNat_lt
  have h₁ := b₁.toNat_lt
  have h₂ := b₂.toNat_lt
  have h₃ := b₃.toNat_lt
  refine ⟨b₀.toNat * 2 ^ 24 + b₁.toNat * 2 ^ 16 + b₂.toNat * 2 ^ 8 + b₃.toNat, by omega, ?_⟩
  unfold tcpPutUint32
  simp only [List.cons.injEq, and_true, ← UInt8.toNat_inj, UInt8.toNat_ofNat']
  omega

lemma eq_of_tsFast (hlen : head.length = 12)
    (hfast : tcpGetUint32 head 0 = .ok tcpOptionTsFast) :
    ∃ val ecr, val < 2 ^ 32 ∧ ecr < 2 ^ 32 ∧ head = timestampOption val ecr := by
  match head, hlen, hfast with
  | [b₀, b₁, b₂, b₃, v₀, v₁, v₂, v₃, e₀, e₁, e₂, e₃], _, hfast =>
    obtain ⟨start, hsta, hb⟩ := exists_put b₀ b₁ b₂ b₃
    obtain ⟨val, hval, hv⟩ := exists_put v₀ v₁ v₂ v₃
    obtain ⟨ecr, hecr, he⟩ := exists_put e₀ e₁ e₂ e₃
    change tcpGetUint32 ([b₀, b₁, b₂, b₃] ++ [v₀, v₁, v₂, v₃] ++ [e₀, e₁, e₂, e₃]) 0 = _ at hfast
    refine ⟨val, ecr, hval, hecr, ?_⟩
    change [b₀, b₁, b₂, b₃] ++ [v₀, v₁, v₂, v₃] ++ [e₀, e₁, e₂, e₃] = _
    rw [hb, hv, he] at hfast ⊢
    rw [List.append_assoc] at hfast ⊢
    have hread := @tcpGetUint32_put _ _ 0 _ hsta
      (rfl : List.drop 0 (tcpPutUint32 start ++ (tcpPutUint32 val ++ tcpPutUint32 ecr)) = _)
    have hts : start = tcpOptionTsFast := Except.ok.inj (hread.symm.trans hfast)
    rw [hts]
    rfl

lemma fast_bind {start : ℕ} {x y : Except Halt (ℤ × TcpOption)} :
    ((fun start => decide (start = tcpOptionTsFast)) <$> (.ok start : Except Halt ℕ) >>=
      fun fast => if fast then x else y) = if start = tcpOptionTsFast then x else y := by
  rw [← if_congr (decide_eq_true_iff) rfl rfl]
  rfl

/-- The fast path reads the values that the slow path would read. -/
theorem tcpParseOption_eq_slow (tcp : TcpHead) (option : TcpOption) :
    tcpParseOption tcp option = slowParseOption tcp option := by
  unfold tcpParseOption slowParseOption
  rw [tcp.totalLen_eq]
  dsimp only
  split_ifs with hzero hlen
  · rfl
  · change tcp.options.length = 12 at hlen
    obtain ⟨start, hsta⟩ : ∃ n, tcpGetUint32 tcp.options 0 = .ok n :=
      exists_tcpGetUint32 (by omega)
    rw [hsta]
    by_cases hts : start = tcpOptionTsFast
    · subst hts
      obtain ⟨val, ecr, hval, hecr, hhead⟩ := eq_of_tsFast hlen hsta
      have hrest : tcp.options.drop 0 = timestampOption val ecr ++ [] := by
        rw [hhead]
        rfl
      have hval' : tcpGetUint32 tcp.options 4 = .ok val := by
        refine @tcpGetUint32_put _ (tcpPutUint32 ecr) 4 _ hval ?_
        rw [hhead]
        rfl
      have hecr' : tcpGetUint32 tcp.options 8 = .ok ecr := by
        refine @tcpGetUint32_put _ [] 8 _ hecr ?_
        rw [hhead]
        rfl
      have hlt := tcp.length_options_lt
      have hfuel : tcp.options.length + 1 = 9 + 1 + 3 := by omega
      rw [hval', hecr', hfuel, parseLoop_ts hval hecr hrest hlt, parseLoop_end (by omega)]
      rw [fast_bind, if_pos rfl, ok_bind, ok_bind, UInt8.zero_or]
      rfl
    · rw [fast_bind, if_neg hts]
  · rfl

/-! ### Options read back -/

/-- Whether `TcpSynBuildOption` puts in a timestamp. -/
def Tcb.sendsTs (tcb : Tcb) (ack : Bool) : Bool := !tcb.ctrlNoTs && (!ack || tcb.ctrlRcvdTs)

/-- Whether `TcpSynBuildOption` puts in a window scale. -/
def Tcb.sendsWs (tcb : Tcb) (ack : Bool) : Bool := !tcb.ctrlNoWs && (!ack || tcb.ctrlRcvdWs)

lemma tcpSynBuildOption_eq (tcb : Tcb) (ack : Bool) (mTcpTick : UInt32) :
    tcpSynBuildOption tcb ack mTcpTick =
      (tcpPutUint32 (tcpOptionMssFast ||| tcb.rcvMss.toNat) ++
        ((if tcb.sendsWs ack then tcpPutUint32 (tcpOptionWsFast ||| tcpComputeScale tcb) else []) ++
          if tcb.sendsTs ack then timestampOption mTcpTick.toNat 0 else []),
        (if tcb.sendsTs ack then 12 else 0) + (if tcb.sendsWs ack then 4 else 0) + 4) := by
  unfold tcpSynBuildOption Tcb.sendsTs Tcb.sendsWs
  split_ifs <;> rfl

/-- The header of `TcpTransmitSegment` around the options that were built, with the two assertions
made there. -/
def segmentHead (built : List UInt8 × ℕ) (hlength : built.1.length = built.2)
    (hmod : built.2 % 4 = 0) (hle : built.2 ≤ 40) : TcpHead where
  headLen := (built.2 + tcpHeadSize) / 2 ^ 2
  options := built.1
  five_le := by
    unfold tcpHeadSize
    omega
  headLen_lt := by
    unfold tcpHeadSize
    omega
  length_options := by
    unfold tcpHeadSize
    omega

lemma put_mss {mss : ℕ} (h : mss < 2 ^ 16) :
    tcpPutUint32 (tcpOptionMssFast ||| mss) =
      [tcpOptionMss, 4, UInt8.ofNat (mss / 2 ^ 8), UInt8.ofNat mss] := by
  have hor : tcpOptionMssFast ||| mss = 2 ^ 16 * 0x204 + mss :=
    (Nat.two_pow_add_eq_or_of_lt h 0x204).symm
  rw [hor]
  unfold tcpPutUint32 tcpOptionMss
  simp only [List.cons.injEq, and_true, ← UInt8.toNat_inj, UInt8.toNat_ofNat', UInt8.reduceToNat]
  omega

lemma put_ws {scale : ℕ} (h : scale < 2 ^ 8) :
    tcpPutUint32 (tcpOptionWsFast ||| scale) =
      [tcpOptionNop, tcpOptionWs, 3, UInt8.ofNat scale] := by
  have hor : tcpOptionWsFast ||| scale = 2 ^ 8 * 0x10303 + scale :=
    (Nat.two_pow_add_eq_or_of_lt h 0x10303).symm
  rw [hor]
  unfold tcpPutUint32 tcpOptionNop tcpOptionWs
  simp only [List.cons.injEq, and_true, ← UInt8.toNat_inj, UInt8.toNat_ofNat', UInt8.reduceToNat]
  omega

lemma computeScaleLoop_le {bufSize scale : ℕ} (h : scale ≤ tcpOptionMaxWs) :
    computeScaleLoop bufSize fuel scale ≤ tcpOptionMaxWs := by
  induction fuel generalizing scale with
  | zero => exact h
  | succ fuel ih =>
    grind [computeScaleLoop]

lemma tcpComputeScale_le (tcb : Tcb) : tcpComputeScale tcb ≤ tcpOptionMaxWs :=
  computeScaleLoop_le (Nat.zero_le _)

lemma length_tcpSynBuildOption (tcb : Tcb) (ack : Bool) (mTcpTick : UInt32) :
    (tcpSynBuildOption tcb ack mTcpTick).1.length = (tcpSynBuildOption tcb ack mTcpTick).2 ∧
      (tcpSynBuildOption tcb ack mTcpTick).2 % 4 = 0 ∧
      (tcpSynBuildOption tcb ack mTcpTick).2 ≤ 40 := by
  rw [tcpSynBuildOption_eq]
  split_ifs <;> exact ⟨rfl, by simp⟩

lemma length_tcpBuildOption (tcb : Tcb) (rst : Bool) (mTcpTick : UInt32) :
    (tcpBuildOption tcb rst mTcpTick).1.length = (tcpBuildOption tcb rst mTcpTick).2 ∧
      (tcpBuildOption tcb rst mTcpTick).2 % 4 = 0 ∧
      (tcpBuildOption tcb rst mTcpTick).2 ≤ 40 := by
  unfold tcpBuildOption tcpOptionTsAlignedLen
  split_ifs <;> exact ⟨rfl, by simp⟩

/-- The header of a segment with `SYN`. -/
def synHead (tcb : Tcb) (ack : Bool) (mTcpTick : UInt32) : TcpHead :=
  segmentHead (tcpSynBuildOption tcb ack mTcpTick) (length_tcpSynBuildOption tcb ack mTcpTick).1
    (length_tcpSynBuildOption tcb ack mTcpTick).2.1
    (length_tcpSynBuildOption tcb ack mTcpTick).2.2

/-- The header of any other segment. -/
def dataHead (tcb : Tcb) (rst : Bool) (mTcpTick : UInt32) : TcpHead :=
  segmentHead (tcpBuildOption tcb rst mTcpTick) (length_tcpBuildOption tcb rst mTcpTick).1
    (length_tcpBuildOption tcb rst mTcpTick).2.1 (length_tcpBuildOption tcb rst mTcpTick).2.2

lemma slowParseOption_eq (tcp : TcpHead) :
    slowParseOption tcp option =
      parseLoop tcp.options tcp.options.length (tcp.options.length + 1) 0
        { option with flag := 0 } := by
  unfold slowParseOption
  rw [tcp.totalLen_eq]
  dsimp only
  split_ifs with hzero
  · exact (parseLoop_end (by omega)).symm
  · rfl

lemma parseLoop_mayTs {val ecr : ℕ} (ts : Bool) (hval : val < 2 ^ 32) (hecr : ecr < 2 ^ 32)
    (hrest : head.drop cur = if ts then timestampOption val ecr else [])
    (hlt : head.length < 2 ^ 8) (hfuel : 1 + (if ts then 3 else 0) ≤ fuel) :
    parseLoop head head.length fuel cur option =
      .ok (0, { option with
        flag := option.flag ||| if ts then tcpOptionRcvdTs else 0
        tsVal := if ts then val else option.tsVal
        tsEcr := if ts then ecr else option.tsEcr }) := by
  obtain ⟨n, rfl⟩ := Nat.exists_eq_add_of_le' hfuel
  have hlen := congrArg List.length hrest
  rw [List.length_drop] at hlen
  cases ts with
  | false =>
    change head.length - cur = 0 at hlen
    change parseLoop head head.length (n + 1) cur option = _
    rw [parseLoop_end (by omega)]
    simp
  | true =>
    change head.length - cur = 12 at hlen
    rw [if_pos rfl, ← List.append_nil (timestampOption val ecr)] at hrest
    change parseLoop head head.length (n + 1 + 3) cur option = _
    rw [parseLoop_ts hval hecr hrest hlt, parseLoop_end (by omega)]
    rfl

lemma parseLoop_mayWs {scale : ℕ} (ws : Bool) (hsca : scale ≤ tcpOptionMaxWs)
    (hrest : head.drop cur = (if ws then tcpPutUint32 (tcpOptionWsFast ||| scale) else []) ++ rest)
    (hlt : head.length < 2 ^ 8) (hfuel : fuel + (if ws then 2 else 0) ≤ i) :
    ∃ cur' i', fuel ≤ i' ∧ head.drop cur' = rest ∧
      parseLoop head head.length i cur option =
        parseLoop head head.length i' cur' { option with
          flag := option.flag ||| if ws then tcpOptionRcvdWs else 0
          wndScale := if ws then scale else option.wndScale } := by
  unfold tcpOptionMaxWs at hsca
  cases ws with
  | false => exact ⟨cur, i, hfuel, hrest, by simp⟩
  | true =>
    obtain ⟨n, rfl⟩ := Nat.exists_eq_add_of_le' hfuel
    rw [if_pos rfl, put_ws (by omega)] at hrest
    have hws : head.drop (cur + 1) = tcpOptionWs :: 3 :: UInt8.ofNat scale :: rest := by
      rw [← List.drop_drop, hrest]
      rfl
    have hdrop : head.drop (cur + 1 + 3) = rest := by
      rw [← List.drop_drop, hws]
      rfl
    have hmin : min 14 (UInt8.ofNat scale).toNat = scale := by
      rw [UInt8.toNat_ofNat']
      omega
    refine ⟨cur + 1 + 3, n + fuel, by omega, hdrop, ?_⟩
    change parseLoop head head.length (n + fuel + 1 + 1) cur option = _
    rw [parseLoop_nop hrest hlt, parseLoop_ws hws hlt, hmin]
    rfl

lemma tcpParseOption_syn (tcb : Tcb) (ack : Bool) (mTcpTick : UInt32) (option : TcpOption) :
    tcpParseOption (synHead tcb ack mTcpTick) option =
      .ok (0, {
        flag := tcpOptionRcvdMss ||| (if tcb.sendsWs ack then tcpOptionRcvdWs else 0) |||
          if tcb.sendsTs ack then tcpOptionRcvdTs else 0
        wndScale := if tcb.sendsWs ack then tcpComputeScale tcb else option.wndScale
        mss := tcb.rcvMss.toNat
        tsVal := if tcb.sendsTs ack then mTcpTick.toNat else option.tsVal
        tsEcr := if tcb.sendsTs ack then 0 else option.tsEcr }) := by
  have hlt := (synHead tcb ack mTcpTick).length_options_lt
  have hhead : (synHead tcb ack mTcpTick).options = _ :=
    congrArg Prod.fst (tcpSynBuildOption_eq tcb ack mTcpTick)
  rw [put_mss tcb.rcvMss.toNat_lt] at hhead
  have hlen : (synHead tcb ack mTcpTick).options.length =
      4 + (if tcb.sendsWs ack then 4 else 0) + if tcb.sendsTs ack then 12 else 0 := by
    rw [hhead]
    split_ifs <;> rfl
  rw [tcpParseOption_eq_slow, slowParseOption_eq]
  generalize (synHead tcb ack mTcpTick).options = head at hlt hhead hlen
  have hrest : head.drop 0 = _ := hhead
  have hmss : (UInt8.ofNat (tcb.rcvMss.toNat / 2 ^ 8)).toNat * 2 ^ 8 +
      (UInt8.ofNat tcb.rcvMss.toNat).toNat = tcb.rcvMss.toNat := by
    have hlt := tcb.rcvMss.toNat_lt
    simp only [UInt8.toNat_ofNat']
    omega
  have hdrop : head.drop (0 + 4) = _ := congrArg (List.drop 4) hhead
  have hfuel : 1 + (if tcb.sendsTs ack then 3 else 0) + (if tcb.sendsWs ack then 2 else 0) ≤
      head.length := by
    split_ifs at hlen ⊢ <;> omega
  obtain ⟨cur, fuel, hle, hts, hws⟩ :=
    parseLoop_mayWs (tcb.sendsWs ack) (tcpComputeScale_le tcb) hdrop hlt hfuel
  rw [parseLoop_mss hrest hmss hlt, hws,
    parseLoop_mayTs (tcb.sendsTs ack) mTcpTick.toNat_lt (by decide) hts hlt hle, UInt8.zero_or]

lemma tcpParseOption_data (tcb : Tcb) (rst : Bool) (mTcpTick : UInt32) (option : TcpOption) :
    tcpParseOption (dataHead tcb rst mTcpTick) option =
      .ok (0, { option with
        flag := if tcb.ctrlSndTs && !rst then tcpOptionRcvdTs else 0
        tsVal := if tcb.ctrlSndTs && !rst then mTcpTick.toNat else option.tsVal
        tsEcr := if tcb.ctrlSndTs && !rst then tcb.tsRecent.toNat else option.tsEcr }) := by
  have hlt := (dataHead tcb rst mTcpTick).length_options_lt
  have hhead : (dataHead tcb rst mTcpTick).options = if tcb.ctrlSndTs && !rst then
      timestampOption mTcpTick.toNat tcb.tsRecent.toNat else [] := by
    change (tcpBuildOption tcb rst mTcpTick).1 = _
    unfold tcpBuildOption
    split_ifs <;> rfl
  rw [tcpParseOption_eq_slow, slowParseOption_eq]
  generalize (dataHead tcb rst mTcpTick).options = head at hlt hhead
  have hfuel : 1 + (if tcb.ctrlSndTs && !rst then 3 else 0) ≤ head.length + 1 := by
    have hlen := congrArg List.length hhead
    split_ifs at hlen ⊢
    · change head.length = 12 at hlen
      omega
    · omega
  have hrest : head.drop 0 = _ := hhead
  rw [parseLoop_mayTs _ mTcpTick.toNat_lt tcb.tsRecent.toNat_lt hrest hlt hfuel, UInt8.zero_or]

/-- The parser comes to a result from bytes inside the header, the same as without the fast path,
exactly when no option starts at the last byte that needs a length. It never runs on, and it reads
back what the driver puts into its own segments. -/
theorem tcpParseOption_iff (tcp : TcpHead) (option : TcpOption) (tcb : Tcb) (ack rst : Bool)
    (mTcpTick : UInt32) :
    ((∃ result, tcpParseOption tcp option = .ok result ∧ slowParseOption tcp option = .ok result) ↔
        ¬ EndsShort tcp.options) ∧
      tcpParseOption tcp option = slowParseOption tcp option ∧
      tcpParseOption tcp option ≠ .error .loop ∧
      tcpParseOption (synHead tcb ack mTcpTick) option =
        .ok (0, {
          flag := tcpOptionRcvdMss ||| (if tcb.sendsWs ack then tcpOptionRcvdWs else 0) |||
            if tcb.sendsTs ack then tcpOptionRcvdTs else 0
          wndScale := if tcb.sendsWs ack then tcpComputeScale tcb else option.wndScale
          mss := tcb.rcvMss.toNat
          tsVal := if tcb.sendsTs ack then mTcpTick.toNat else option.tsVal
          tsEcr := if tcb.sendsTs ack then 0 else option.tsEcr }) ∧
      tcpComputeScale tcb ≤ 14 ∧
      tcpParseOption (dataHead tcb rst mTcpTick) option =
        .ok (0, { option with
          flag := if tcb.ctrlSndTs && !rst then tcpOptionRcvdTs else 0
          tsVal := if tcb.ctrlSndTs && !rst then mTcpTick.toNat else option.tsVal
          tsEcr := if tcb.ctrlSndTs && !rst then tcb.tsRecent.toNat else option.tsEcr }) := by
  have hslow := tcpParseOption_eq_slow tcp option
  have hspec := @parseLoop_spec _ _ { option with flag := 0 } 0 (tcp.options.length + 1)
    (List.drop_zero : tcp.options.drop 0 = _) (Nat.zero_le _) tcp.length_options_lt (by omega)
  rw [← slowParseOption_eq] at hspec
  refine ⟨?_, hslow, ?_, tcpParseOption_syn tcb ack mTcpTick option, tcpComputeScale_le tcb,
    tcpParseOption_data tcb rst mTcpTick option⟩
  · grind
  · grind

/-- The last of four bytes is a timestamp option: its length is read behind the header. -/
theorem tcpParseOption_endsShort :
    ¬ ∀ (tcp : TcpHead) (option : TcpOption), ∃ result, tcpParseOption tcp option = .ok result := by
  intro h
  obtain ⟨result, hok⟩ := h ⟨6, [1, 1, 1, 8], by decide, by decide, rfl⟩ ⟨0, 0, 0, 0, 0⟩
  exact absurd hok nofun

end Edk2.Tcp
