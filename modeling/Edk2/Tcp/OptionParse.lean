import Edk2.Base
import Edk2.Lib.Halting

/-!
# TCP options

`TcpOption.c`: the options that a segment is sent with, and the parser of the options that come in.
The parser reads from the bytes behind the header proper, up to the end of the header; reading
behind that is a fault. Numbers are in network byte order.
-/

namespace Edk2.Tcp

abbrev tcpOptionEop : UInt8 := 0
abbrev tcpOptionNop : UInt8 := 1
abbrev tcpOptionMss : UInt8 := 2
abbrev tcpOptionWs : UInt8 := 3
abbrev tcpOptionTs : UInt8 := 8

abbrev tcpOptionMssLen : ℕ := 4
abbrev tcpOptionWsLen : ℕ := 3
abbrev tcpOptionTsLen : ℕ := 10
abbrev tcpOptionWsAlignedLen : ℕ := 4
abbrev tcpOptionTsAlignedLen : ℕ := 12

abbrev tcpOptionTsFast : ℕ := 0x0101080a
abbrev tcpOptionWsFast : ℕ := 0x01030300
abbrev tcpOptionMssFast : ℕ := 0x02040000

abbrev tcpOptionRcvdMss : UInt8 := 0x01
abbrev tcpOptionRcvdWs : UInt8 := 0x02
abbrev tcpOptionRcvdTs : UInt8 := 0x04

abbrev tcpOptionMaxWs : ℕ := 14
abbrev tcpOptionMaxWin : ℕ := 0xffff

/-- `sizeof (TCP_HEAD)`. -/
abbrev tcpHeadSize : ℕ := 20

structure TcpOption where
  flag : UInt8
  wndScale : ℕ
  mss : ℕ
  tsVal : ℕ
  tsEcr : ℕ
deriving DecidableEq, Repr

/-- `TCP_HEAD` with what follows it up to the end of the header. `HeadLen` has four bits. -/
structure TcpHead where
  headLen : ℕ
  options : List UInt8
  five_le : 5 ≤ headLen
  headLen_lt : headLen < 2 ^ 4
  length_options : options.length = 4 * (headLen - 5)

/-- What the options depend on: the bits of `CtrlFlag`, and the other fields of `TCP_CB`. -/
structure Tcb where
  ctrlNoTs : Bool
  ctrlRcvdTs : Bool
  ctrlNoWs : Bool
  ctrlRcvdWs : Bool
  ctrlSndTs : Bool
  rcvMss : UInt16
  tsRecent : UInt32
  rcvBuffSize : UInt32

def tcpPutUint32 (data : ℕ) : List UInt8 :=
  [UInt8.ofNat (data / 2 ^ 24), UInt8.ofNat (data / 2 ^ 16), UInt8.ofNat (data / 2 ^ 8),
    UInt8.ofNat data]

/-- The loop of `TcpComputeScale`. -/
def computeScaleLoop (bufSize : ℕ) : ℕ → ℕ → ℕ
  | 0, scale => scale
  | fuel + 1, scale =>
    if scale < tcpOptionMaxWs ∧ u32 (tcpOptionMaxWin * 2 ^ scale) < bufSize then
      computeScaleLoop bufSize fuel (scale + 1)
    else scale

def tcpComputeScale (tcb : Tcb) : ℕ :=
  computeScaleLoop tcb.rcvBuffSize.toNat (tcpOptionMaxWs + 1) 0

/-- The timestamp option, aligned. -/
def timestampOption (val ecr : ℕ) : List UInt8 :=
  tcpPutUint32 tcpOptionTsFast ++ tcpPutUint32 val ++ tcpPutUint32 ecr

/-- `TcpSynBuildOption`: the options, each put in front of the ones before, and `Len`. -/
def tcpSynBuildOption (tcb : Tcb) (ack : Bool) (mTcpTick : UInt32) : List UInt8 × ℕ :=
  let (nbuf, len) : List UInt8 × ℕ :=
    if !tcb.ctrlNoTs && (!ack || tcb.ctrlRcvdTs) then
      (timestampOption mTcpTick.toNat 0, tcpOptionTsAlignedLen)
    else ([], 0)
  let (nbuf, len) : List UInt8 × ℕ :=
    if !tcb.ctrlNoWs && (!ack || tcb.ctrlRcvdWs) then
      (tcpPutUint32 (tcpOptionWsFast ||| tcpComputeScale tcb) ++ nbuf, len + tcpOptionWsAlignedLen)
    else (nbuf, len)
  (tcpPutUint32 (tcpOptionMssFast ||| tcb.rcvMss.toNat) ++ nbuf, len + tcpOptionMssLen)

def tcpBuildOption (tcb : Tcb) (rst : Bool) (mTcpTick : UInt32) : List UInt8 × ℕ :=
  if tcb.ctrlSndTs && !rst then
    (timestampOption mTcpTick.toNat tcb.tsRecent.toNat, tcpOptionTsAlignedLen)
  else ([], 0)

/-! ### Parsing options -/

/-- `Head[i]`. -/
def byteAt (head : List UInt8) (i : ℕ) : Except Halt UInt8 :=
  match head[i]? with
  | some byte => .ok byte
  | none => .error .fault

def tcpGetUint16 (head : List UInt8) (i : ℕ) : Except Halt ℕ := do
  let high ← byteAt head i
  let low ← byteAt head (i + 1)
  return high.toNat * 2 ^ 8 + low.toNat

def tcpGetUint32 (head : List UInt8) (i : ℕ) : Except Halt ℕ := do
  let high ← tcpGetUint16 head i
  let low ← tcpGetUint16 head (i + 2)
  return high * 2 ^ 16 + low

/-- The cases of `TcpParseOption` for options of a fixed length. `Cur` is a `UINT8`. -/
def fixedOption (head : List UInt8) (totalLen cur optionLen : ℕ)
    (value : Except Halt TcpOption) : Except Halt (Option (ℕ × TcpOption)) := do
  let len ← byteAt head (cur + 1)
  if len.toNat ≠ optionLen ∨ totalLen - cur < optionLen then return none
  else
    let option ← value
    return some ((cur + optionLen) % 2 ^ 8, option)

/-- One option: `Cur` and the values afterwards, or nothing if the option is illegal. -/
def parseStep (head : List UInt8) (totalLen cur : ℕ) (option : TcpOption) :
    Except Halt (Option (ℕ × TcpOption)) := do
  let type ← byteAt head cur
  if type = tcpOptionMss then
    fixedOption head totalLen cur tcpOptionMssLen do
      let mss ← tcpGetUint16 head (cur + 2)
      return { option with mss := mss, flag := option.flag ||| tcpOptionRcvdMss }
  else if type = tcpOptionWs then
    fixedOption head totalLen cur tcpOptionWsLen do
      let scale ← byteAt head (cur + 2)
      return { option with
        wndScale := min 14 scale.toNat, flag := option.flag ||| tcpOptionRcvdWs }
  else if type = tcpOptionTs then
    fixedOption head totalLen cur tcpOptionTsLen do
      let tsVal ← tcpGetUint32 head (cur + 2)
      let tsEcr ← tcpGetUint32 head (cur + 6)
      return { option with
        tsVal := tsVal, tsEcr := tsEcr, flag := option.flag ||| tcpOptionRcvdTs }
  else if type = tcpOptionNop then return some ((cur + 1) % 2 ^ 8, option)
  else if type = tcpOptionEop then return some (totalLen, option)
  else
    let len ← byteAt head (cur + 1)
    if totalLen - cur < len.toNat ∨ len.toNat < 2 then return none
    else return some ((cur + len.toNat) % 2 ^ 8, option)

/-- The loop of the slow path. -/
def parseLoop (head : List UInt8) (totalLen : ℕ) :
    ℕ → ℕ → TcpOption → Except Halt (ℤ × TcpOption)
  | 0, _, _ => .error .loop
  | fuel + 1, cur, option =>
    if cur < totalLen then do
      match ← parseStep head totalLen cur option with
      | none => return (-1, option)
      | some (cur, option) => parseLoop head totalLen fuel cur option
    else .ok (0, option)

def TcpHead.totalLen (tcp : TcpHead) : ℕ := (tcp.headLen * 2 ^ 2 - tcpHeadSize) % 2 ^ 8

/-- `TcpParseOption` without the fast path. -/
def slowParseOption (tcp : TcpHead) (option : TcpOption) : Except Halt (ℤ × TcpOption) :=
  let option := { option with flag := 0 }
  let totalLen := tcp.totalLen
  if totalLen = 0 then .ok (0, option)
  else parseLoop tcp.options totalLen (totalLen + 1) 0 option

def tcpParseOption (tcp : TcpHead) (option : TcpOption) : Except Halt (ℤ × TcpOption) :=
  let option := { option with flag := 0 }
  let totalLen := tcp.totalLen
  let head := tcp.options
  if totalLen = 0 then .ok (0, option)
  else do
    let fast ←
      if totalLen = tcpOptionTsAlignedLen then
        (fun start => decide (start = tcpOptionTsFast)) <$> tcpGetUint32 head 0
      else .ok false
    if fast then
      let tsVal ← tcpGetUint32 head 4
      let tsEcr ← tcpGetUint32 head 8
      return (0, { option with tsVal := tsVal, tsEcr := tsEcr, flag := tcpOptionRcvdTs })
    else parseLoop head totalLen (totalLen + 1) 0 option

end Edk2.Tcp

/-!
## What the option parser reads

An option is accepted if it has the length of its kind and ends in front of the end of the header.
The parser leaves the header exactly when an option that has a length starts at the last byte;
otherwise the fast path makes no difference, and the options that the driver builds itself are read
back.
-/

namespace Edk2.Tcp

open Halting

variable {head rest more data : List UInt8} {kind len byte : UInt8} {option : TcpOption}
  {cur fuel i : ℕ}

/-- The lengths that the parser accepts for a kind of options. -/
def Accepts (kind len : UInt8) : Prop :=
  if kind = tcpOptionMss then len = 4
  else if kind = tcpOptionWs then len = 3
  else if kind = tcpOptionTs then len = 10
  else 2 ≤ len.toNat

/-- Accepted options lead to one that starts at the last byte and needs a length. -/
inductive EndsShort : List UInt8 → Prop
  | last {kind : UInt8} (hnop : kind ≠ tcpOptionNop) (heop : kind ≠ tcpOptionEop) : EndsShort [kind]
  | nop {rest : List UInt8} (h : EndsShort rest) : EndsShort (tcpOptionNop :: rest)
  | option {kind len : UInt8} {data rest : List UInt8} (hnop : kind ≠ tcpOptionNop)
      (heop : kind ≠ tcpOptionEop) (hlen : Accepts kind len) (hdata : data.length + 2 = len.toNat)
      (h : EndsShort rest) : EndsShort (kind :: len :: (data ++ rest))

lemma Accepts.two_le (h : Accepts kind len) : 2 ≤ len.toNat := by
  unfold Accepts at h
  split_ifs at h
  · subst h
    decide
  · subst h
    decide
  · subst h
    decide
  · exact h

lemma not_endsShort_nil : ¬ EndsShort [] := nofun

lemma endsShort_nop : EndsShort (tcpOptionNop :: rest) ↔ EndsShort rest := by
  refine ⟨fun h => ?_, .nop⟩
  cases h with
  | last hnop _ => exact absurd rfl hnop
  | nop h => exact h
  | option hnop _ _ _ _ => exact absurd rfl hnop

lemma not_endsShort_eop : ¬ EndsShort (tcpOptionEop :: rest) := by
  intro h
  cases h with
  | last _ heop => exact heop rfl
  | option _ heop _ _ _ => exact heop rfl

lemma endsShort_option (hnop : kind ≠ tcpOptionNop) (heop : kind ≠ tcpOptionEop) :
    EndsShort (kind :: len :: more) ↔
      (Accepts kind len ∧ len.toNat ≤ more.length + 2) ∧ EndsShort (more.drop (len.toNat - 2)) := by
  constructor
  · intro h
    cases h with
    | nop _ => exact absurd rfl hnop
    | @option _ _ data rest _ _ hlen hdata h =>
      grind
  · rintro ⟨⟨hlen, hle⟩, h⟩
    have htwo := hlen.two_le
    have hdata : (more.take (len.toNat - 2)).length + 2 = len.toNat := by
      rw [List.length_take]
      omega
    have hopt := EndsShort.option hnop heop hlen hdata h
    rwa [List.take_append_drop] at hopt

lemma byteAt_of_getElem? (h : head[i]? = some byte) : byteAt head i = .ok byte := by
  simp only [byteAt, h]

lemma exists_byteAt (h : i < head.length) : ∃ byte, byteAt head i = .ok byte :=
  ⟨head[i], byteAt_of_getElem? (List.getElem?_eq_getElem h)⟩

lemma exists_tcpGetUint16 (h : i + 1 < head.length) : ∃ n, tcpGetUint16 head i = .ok n := by
  obtain ⟨high, hhigh⟩ := exists_byteAt (by omega : i < head.length)
  obtain ⟨low, hlow⟩ := exists_byteAt h
  unfold tcpGetUint16
  rw [hhigh, ok_bind, hlow, ok_bind]
  exact ⟨_, rfl⟩

lemma exists_tcpGetUint32 (h : i + 3 < head.length) : ∃ n, tcpGetUint32 head i = .ok n := by
  obtain ⟨high, hhigh⟩ := exists_tcpGetUint16 (by omega : i + 1 < head.length)
  obtain ⟨low, hlow⟩ := exists_tcpGetUint16 (by omega : i + 2 + 1 < head.length)
  unfold tcpGetUint32
  rw [hhigh, ok_bind, hlow, ok_bind]
  exact ⟨_, rfl⟩

lemma byteAt_drop (h : head.drop cur = rest) (i : ℕ) : byteAt head (cur + i) = byteAt rest i := by
  unfold byteAt
  rw [← h, List.getElem?_drop]

/-! ### One option -/

lemma fixedOption_spec {value : Except Halt TcpOption} {optionLen : ℕ}
    (hrest : head.drop cur = kind :: len :: more) (hlt : head.length < 2 ^ 8)
    (hval : optionLen ≤ more.length + 2 → ∃ option, value = .ok option) :
    if len.toNat = optionLen ∧ optionLen ≤ more.length + 2 then
      ∃ option, value = .ok option ∧
        fixedOption head head.length cur optionLen value = .ok (some (cur + optionLen, option))
    else fixedOption head head.length cur optionLen value = .ok none := by
  have hleng := congrArg List.length hrest
  simp only [List.length_drop, List.length_cons] at hleng
  have hlen : byteAt head (cur + 1) = .ok len := (byteAt_drop hrest 1).trans rfl
  unfold fixedOption
  rw [hlen, ok_bind]
  split_ifs with hfits hbad
  · omega
  · obtain ⟨option, hopt⟩ := hval hfits.2
    rw [hopt, ok_bind, Nat.mod_eq_of_lt (by omega)]
    exact ⟨option, rfl, rfl⟩
  · rfl
  · omega

lemma parseStep_nop (hrest : head.drop cur = tcpOptionNop :: rest) (hlt : cur + 1 < 2 ^ 8) :
    parseStep head head.length cur option = .ok (some (cur + 1, option)) := by
  have htype : byteAt head cur = .ok tcpOptionNop := (byteAt_drop hrest 0).trans rfl
  unfold parseStep
  rw [htype, ok_bind, if_neg (by decide), if_neg (by decide), if_neg (by decide), if_pos rfl,
    Nat.mod_eq_of_lt hlt]
  rfl

lemma parseStep_eop (hrest : head.drop cur = tcpOptionEop :: rest) :
    parseStep head head.length cur option = .ok (some (head.length, option)) := by
  have htype : byteAt head cur = .ok tcpOptionEop := (byteAt_drop hrest 0).trans rfl
  unfold parseStep
  rw [htype, ok_bind, if_neg (by decide), if_neg (by decide), if_neg (by decide),
    if_neg (by decide), if_pos rfl]
  rfl

lemma parseStep_last (hrest : head.drop cur = [kind]) (hnop : kind ≠ tcpOptionNop)
    (heop : kind ≠ tcpOptionEop) :
    parseStep head head.length cur option = .error .fault := by
  have htype : byteAt head cur = .ok kind := (byteAt_drop hrest 0).trans rfl
  have hlen : byteAt head (cur + 1) = .error .fault := (byteAt_drop hrest 1).trans rfl
  unfold parseStep fixedOption
  rw [htype, ok_bind, if_neg hnop, if_neg heop, hlen]
  split_ifs <;> rfl

lemma parseStep_option (hrest : head.drop cur = kind :: len :: more) (hlt : head.length < 2 ^ 8)
    (hnop : kind ≠ tcpOptionNop) (heop : kind ≠ tcpOptionEop) :
    (Accepts kind len ∧ len.toNat ≤ more.length + 2) ∧
        (∃ option', parseStep head head.length cur option = .ok (some (cur + len.toNat, option'))) ∨
      ¬ (Accepts kind len ∧ len.toNat ≤ more.length + 2) ∧
        parseStep head head.length cur option = .ok none := by
  have hleng := congrArg List.length hrest
  simp only [List.length_drop, List.length_cons] at hleng
  have htype : byteAt head cur = .ok kind := (byteAt_drop hrest 0).trans rfl
  have hfix : ∀ (optionLen : UInt8) (value : Except Halt TcpOption),
      (Accepts kind len ↔ len = optionLen) →
      (optionLen.toNat ≤ more.length + 2 → ∃ option, value = .ok option) →
      (Accepts kind len ∧ len.toNat ≤ more.length + 2) ∧
          (∃ option', fixedOption head head.length cur optionLen.toNat value =
            .ok (some (cur + len.toNat, option'))) ∨
        ¬ (Accepts kind len ∧ len.toNat ≤ more.length + 2) ∧
          fixedOption head head.length cur optionLen.toNat value = .ok none := by
    intro optionLen value hacc hval
    have hspec := fixedOption_spec hrest hlt hval
    rw [hacc]
    by_cases hfits : len = optionLen ∧ len.toNat ≤ more.length + 2
    · grind
    · have hnot : ¬ (len.toNat = optionLen.toNat ∧ optionLen.toNat ≤ more.length + 2) := by
        rintro ⟨heq, hle⟩
        exact hfits ⟨UInt8.toNat_inj.mp heq, heq ▸ hle⟩
      rw [if_neg hnot] at hspec
      exact .inr ⟨hfits, hspec⟩
  unfold parseStep
  rw [htype, ok_bind, if_neg hnop, if_neg heop]
  by_cases hmss : kind = tcpOptionMss
  · rw [if_pos hmss]
    refine hfix 4 _ (by unfold Accepts; rw [if_pos hmss]) fun hle => ?_
    change 4 ≤ _ at hle
    obtain ⟨mss, hmss⟩ := exists_tcpGetUint16 (by omega : cur + 2 + 1 < head.length)
    rw [hmss, ok_bind]
    exact ⟨_, rfl⟩
  · rw [if_neg hmss]
    by_cases hws : kind = tcpOptionWs
    · rw [if_pos hws]
      refine hfix 3 _ (by unfold Accepts; rw [if_neg hmss, if_pos hws]) fun hle => ?_
      change 3 ≤ _ at hle
      obtain ⟨scale, hsca⟩ := exists_byteAt (by omega : cur + 2 < head.length)
      rw [hsca, ok_bind]
      exact ⟨_, rfl⟩
    · rw [if_neg hws]
      by_cases hts : kind = tcpOptionTs
      · rw [if_pos hts]
        refine hfix 10 _ (by unfold Accepts; rw [if_neg hmss, if_neg hws, if_pos hts]) fun hle => ?_
        change 10 ≤ _ at hle
        obtain ⟨tsVal, htsV⟩ := exists_tcpGetUint32 (by omega : cur + 2 + 3 < head.length)
        obtain ⟨tsEcr, htsE⟩ := exists_tcpGetUint32 (by omega : cur + 6 + 3 < head.length)
        rw [htsV, ok_bind, htsE, ok_bind]
        exact ⟨_, rfl⟩
      · have hacc : Accepts kind len ↔ 2 ≤ len.toNat := by
          unfold Accepts
          rw [if_neg hmss, if_neg hws, if_neg hts]
        have hlen : byteAt head (cur + 1) = .ok len := (byteAt_drop hrest 1).trans rfl
        rw [if_neg hts, hlen, ok_bind, hacc]
        split_ifs with hbad
        · exact .inr ⟨by omega, rfl⟩
        · rw [Nat.mod_eq_of_lt (by omega)]
          exact .inl ⟨by omega, option, rfl⟩

/-! ### The loop -/

lemma parseLoop_succ (hlt : cur < head.length) :
    parseLoop head head.length (fuel + 1) cur option =
      (parseStep head head.length cur option >>= fun next => match next with
        | none => return (-1, option)
        | some (cur, option) => parseLoop head head.length fuel cur option) := by
  rw [parseLoop, if_pos hlt]

lemma parseLoop_end (hle : head.length ≤ cur) :
    parseLoop head head.length (fuel + 1) cur option = .ok (0, option) := by
  rw [parseLoop, if_neg (by omega)]

lemma parseLoop_spec (hrest : head.drop cur = rest) (hle : cur ≤ head.length)
    (hlt : head.length < 2 ^ 8) (hfuel : rest.length < fuel) :
    EndsShort rest ∧ parseLoop head head.length fuel cur option = .error .fault ∨
      ¬ EndsShort rest ∧ ∃ result, parseLoop head head.length fuel cur option = .ok result := by
  induction fuel generalizing cur rest option with
  | zero => omega
  | succ fuel ih =>
    have hlen := congrArg List.length hrest
    rw [List.length_drop] at hlen
    have htail : ∀ n, head.drop (cur + n) = rest.drop n := by
      intro n
      rw [← hrest, List.drop_drop]
    match rest, hrest with
    | [], _ =>
      rw [List.length_nil] at hlen
      exact .inr ⟨not_endsShort_nil, _, parseLoop_end (by omega)⟩
    | kind :: more, hrest =>
      rw [List.length_cons] at hlen hfuel
      rw [parseLoop_succ (by omega)]
      by_cases hnop : kind = tcpOptionNop
      · grind [parseStep_nop, ok_bind, endsShort_nop]
      by_cases heop : kind = tcpOptionEop
      · subst heop
        rw [parseStep_eop hrest, ok_bind]
        cases fuel with
        | zero => omega
        | succ fuel => exact .inr ⟨not_endsShort_eop, _, parseLoop_end le_rfl⟩
      match more, hrest with
      | [], hrest =>
        rw [parseStep_last hrest hnop heop]
        exact .inl ⟨.last hnop heop, rfl⟩
      | len :: more, hrest =>
        rw [endsShort_option hnop heop]
        rw [List.length_cons] at hlen hfuel
        rcases @parseStep_option head more kind len option cur hrest hlt hnop heop with
          ⟨hfits, option', hstep⟩ | ⟨hfits, hstep⟩
        · have htwo := hfits.1.two_le
          have hdrop : (kind :: len :: more).drop len.toNat = more.drop (len.toNat - 2) := by
            obtain ⟨n, hn⟩ := Nat.exists_eq_add_of_le' htwo
            rw [hn]
            rfl
          have hfue' : (more.drop (len.toNat - 2)).length < fuel := by
            rw [List.length_drop]
            omega
          rw [hstep, ok_bind]
          rcases ih ((htail len.toNat).trans hdrop) (by omega) hfue' with
            ⟨hsho, hfau⟩ | ⟨hsho, hok⟩
          · exact .inl ⟨⟨hfits, hsho⟩, hfau⟩
          · exact .inr ⟨fun h => hsho h.2, hok⟩
        · rw [hstep]
          exact .inr ⟨fun h => hfits h.1, _, rfl⟩

end Edk2.Tcp
