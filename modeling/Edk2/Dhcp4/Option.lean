import Edk2.Base
import Edk2.Lib.Halting

/-!
# Options of a DHCP packet

`Dhcp4Option.c`: the options of a packet are visited in the option field and, when it is overloaded,
in the fields for the file and server name. `DhcpParseOption` visits them twice. The first pass
counts how much data each tag has, the second one collects it in a buffer of that size. A write
behind the buffer is a fault.
-/

namespace Edk2.Dhcp4

abbrev dhcp4TagPad : UInt8 := 0
abbrev dhcp4TagOverload : UInt8 := 52
abbrev dhcp4TagEop : UInt8 := 255

abbrev dhcpOverloadFilename : UInt8 := 1
abbrev dhcpOverloadSvrname : UInt8 := 2
abbrev dhcpOverloadBoth : UInt8 := 3

abbrev dhcpMaxOptions : ℕ := 256

/-- The fields of `EFI_DHCP4_PACKET` that hold options. -/
structure Dhcp4Packet where
  option : List UInt8
  bootFileName : List UInt8
  serverName : List UInt8
  length_bootFileName : bootFileName.length = 128
  length_serverName : serverName.length = 64

/-- `DHCP_CHECK_OPTION`: a callback with its context. -/
abbrev DhcpCheckOption (σ : Type) :=
  UInt8 → UInt8 → List UInt8 → σ → Except Halt (EfiStatus × σ)

/-! ### Iterating -/

variable {σ : Type}

/-- The loop of `DhcpIterateBufferOptions` on the rest of the buffer: the status, `Overload` and the
context. Only the option field looks at the tag for overloading. -/
def iterateLoop (check : DhcpCheckOption σ) (mayOverload : Bool) :
    ℕ → List UInt8 → UInt8 → σ → Except Halt (EfiStatus × UInt8 × σ)
  | 0, _, _, _ => .error .loop
  | _ + 1, [], overload, context => .ok (.invalidParameter, overload, context)
  | fuel + 1, tag :: rest, overload, context =>
    if tag = dhcp4TagPad then iterateLoop check mayOverload fuel rest overload context
    else if tag = dhcp4TagEop then .ok (.success, overload, context)
    else
      match rest with
      | [] => .ok (.invalidParameter, overload, context)
      | len :: rest =>
        if rest.length < len.toNat then .ok (.invalidParameter, overload, context)
        else if tag = dhcp4TagOverload ∧ mayOverload ∧ len ≠ 1 then
          .ok (.invalidParameter, overload, context)
        else do
          let overload := if tag = dhcp4TagOverload ∧ mayOverload then rest.headD 0 else overload
          let (status, context) ← check tag len (rest.take len.toNat) context
          if status.isError then return (.invalidParameter, overload, context)
          else iterateLoop check mayOverload fuel (rest.drop len.toNat) overload context

def dhcpIterateBufferOptions (buffer : List UInt8) (check : DhcpCheckOption σ) (mayOverload : Bool)
    (overload : UInt8) (context : σ) : Except Halt (EfiStatus × UInt8 × σ) :=
  iterateLoop check mayOverload (buffer.length + 1) buffer overload context

/-- A field that holds options if it is overloaded: the status and the context. -/
def iterateField (overloaded : Bool) (field : List UInt8) (check : DhcpCheckOption σ)
    (context : σ) : Except Halt (EfiStatus × σ) :=
  if overloaded then
    (fun result => (result.1, result.2.2)) <$> dhcpIterateBufferOptions field check false 0 context
  else .ok (.success, context)

def dhcpIterateOptions (packet : Dhcp4Packet) (check : DhcpCheckOption σ) (context : σ) :
    Except Halt (EfiStatus × σ) := do
  let (status, overload, context) ← dhcpIterateBufferOptions packet.option check true 0 context
  if status.isError then return (status, context)
  let (status, context) ←
    iterateField (overload = dhcpOverloadFilename || overload = dhcpOverloadBoth)
      packet.bootFileName check context
  if status.isError then return (status, context)
  iterateField (overload = dhcpOverloadSvrname || overload = dhcpOverloadBoth) packet.serverName
    check context

/-! ### Counting -/

/-- `DHCP_OPTION_COUNT`. -/
structure OptionCount where
  index : ℕ
  offset : ℕ
deriving DecidableEq, Repr

/-- `OptCount`, by the tag. -/
abbrev OptionTable := UInt8 → OptionCount

def dhcpGetOptionLen : DhcpCheckOption OptionTable := fun tag len _ optCount =>
  .ok (.success, Function.update optCount tag
    { optCount tag with offset := ((optCount tag).offset + len.toNat) % 2 ^ 16 })

/-- The tags in the order of the table. -/
def allTags : List UInt8 := (List.range dhcpMaxOptions).map UInt8.ofNat

/-- The loop over the table that turns lengths into offsets, with `TotalLen` and `OptNum`. -/
def offsetLoop : List UInt8 → OptionTable → ℕ → ℕ → OptionTable × ℕ × ℕ
  | [], optCount, totalLen, optNum => (optCount, totalLen, optNum)
  | tag :: tags, optCount, totalLen, optNum =>
    let offset := (optCount tag).offset
    if offset ≠ 0 then
      let totalLen := (totalLen + offset) % 2 ^ 16
      offsetLoop tags
        (Function.update optCount tag
          ⟨optNum % 2 ^ 8, (totalLen + (2 ^ 16 - offset)) % 2 ^ 16⟩)
        totalLen (optNum + 1)
    else offsetLoop tags optCount totalLen optNum

/-! ### Filling -/

/-- `DHCP_OPTION`; `data` is the place in the buffer behind the options. -/
structure DhcpOption where
  tag : UInt8
  len : ℕ
  data : Option ℕ
deriving DecidableEq, Repr

/-- `DHCP_OPTION_CONTEXT`. -/
structure OptionContext where
  opCount : OptionTable
  options : List DhcpOption
  buf : List UInt8

/-- `CopyMem` into the buffer. -/
def copyInto (buf : List UInt8) (offset : ℕ) (data : List UInt8) : Except Halt (List UInt8) :=
  if data = [] then .ok buf
  else if offset + data.length ≤ buf.length then
    .ok (buf.take offset ++ data ++ buf.drop (offset + data.length))
  else .error .fault

def dhcpFillOption : DhcpCheckOption OptionContext := fun tag len data context => do
  let count := context.opCount tag
  match context.options[count.index]? with
  | none => .error .fault
  | some option =>
    let option :=
      if option.data = none then { option with tag := tag, data := some count.offset } else option
    let buf ← copyInto context.buf count.offset data
    let option := { option with len := (option.len + len.toNat) % 2 ^ 16 }
    return (.success, {
      opCount := Function.update context.opCount tag
        { count with offset := (count.offset + len.toNat) % 2 ^ 16 }
      options := context.options.set count.index option
      buf := buf })

/-! ### Parsing -/

/-- What `DhcpParseOption` returns: `Count`, and the options with their buffer. -/
structure ParsedOptions where
  count : ℕ
  optionPoint : Option (List DhcpOption × List UInt8)

/-- `DhcpParseOption`, when the table and the buffer can be allocated. -/
def dhcpParseOption (packet : Dhcp4Packet) : Except Halt (EfiStatus × Option ParsedOptions) := do
  let (status, optCount) ← dhcpIterateOptions packet dhcpGetOptionLen fun _ => ⟨0, 0⟩
  if status.isError then return (status, none)
  let (optCount, totalLen, optNum) := offsetLoop allTags optCount 0 0
  if optNum = 0 then return (status, some ⟨0, none⟩)
  let (status, context) ← dhcpIterateOptions packet dhcpFillOption
    ⟨optCount, List.replicate optNum ⟨0, 0, none⟩, List.replicate totalLen 0⟩
  if status.isError then return (status, some ⟨optNum, none⟩)
  return (status, some ⟨optNum, some (context.options, context.buf)⟩)

end Edk2.Dhcp4

/-!
## The options that are visited

Whether the options are accepted, and which ones are visited, does not depend on a callback that
always succeeds: iterating folds it over the options.
-/

namespace Edk2.Dhcp4

open Halting

variable {σ : Type} {packet : Dhcp4Packet} {check : DhcpCheckOption σ}
  {f : σ → UInt8 × List UInt8 → Except Halt σ} {found found' fragments : List (UInt8 × List UInt8)}
  {rest : List UInt8} {overload overload' : UInt8} {status : EfiStatus} {mayOverload : Bool} {s : σ}
  {fuel : ℕ}

/-- A callback that notes down the options. -/
def recordOption : DhcpCheckOption (List (UInt8 × List UInt8)) := fun tag _ data found =>
  .ok (.success, found ++ [(tag, data)])

/-- `DhcpIterateOptions` accepts the packet and visits these options. -/
def Visits (packet : Dhcp4Packet) (fragments : List (UInt8 × List UInt8)) : Prop :=
  dhcpIterateOptions packet recordOption [] = .ok (.success, fragments)

/-- A callback that succeeds and takes the context to its next value. -/
def Steps (check : DhcpCheckOption σ) (f : σ → UInt8 × List UInt8 → Except Halt σ) : Prop :=
  ∀ tag len data s, data.length = UInt8.toNat len →
    check tag len data s = f s (tag, data) >>= fun s => .ok (.success, s)

/-- What is known of an option that is visited. -/
structure Fragment (item : UInt8 × List UInt8) : Prop where
  ne_pad : item.1 ≠ dhcp4TagPad
  ne_eop : item.1 ≠ dhcp4TagEop
  length_lt : item.2.length < 2 ^ 8

lemma iterateLoop_eq (hche : Steps check f)
    (hrec : iterateLoop recordOption mayOverload fuel rest overload found =
      .ok (status, overload', found')) :
    ∃ fragments, found' = found ++ fragments ∧ (∀ item ∈ fragments, Fragment item) ∧
      ∀ s, iterateLoop check mayOverload fuel rest overload s =
        fragments.foldlM f s >>= fun s => .ok (status, overload', s) := by
  induction fuel generalizing rest overload found with
  | zero => cases hrec
  | succ fuel ih =>
    match rest, hrec with
    | [], hrec =>
      cases hrec
      exact ⟨[], (List.append_nil _).symm, nofun, fun s => rfl⟩
    | tag :: rest, hrec =>
      unfold iterateLoop at hrec ⊢
      by_cases hpad : tag = dhcp4TagPad
      · grind
      by_cases heop : tag = dhcp4TagEop
      · rw [if_neg hpad, if_pos heop] at hrec
        cases hrec
        simp only [if_neg hpad, if_pos heop]
        simp
      rw [if_neg hpad, if_neg heop] at hrec
      simp only [if_neg hpad, if_neg heop]
      match rest, hrec with
      | [], hrec =>
        cases hrec
        simp
      | len :: rest, hrec =>
        dsimp only at hrec ⊢
        by_cases hlen : rest.length < len.toNat
        · rw [if_pos hlen] at hrec
          cases hrec
          simp [hlen]
        by_cases hbad : tag = dhcp4TagOverload ∧ mayOverload ∧ len ≠ 1
        · rw [if_neg hlen, if_pos hbad] at hrec
          cases hrec
          simp [hlen, hbad]
        rw [if_neg hlen, if_neg hbad] at hrec
        simp only [if_neg hlen, if_neg hbad]
        have hdata : (rest.take len.toNat).length = len.toNat := by
          rw [List.length_take]
          omega
        obtain ⟨fragments, rfl, hfra, hrun⟩ := ih hrec
        refine ⟨(tag, rest.take len.toNat) :: fragments, List.append_assoc _ _ _, ?_, fun s => ?_⟩
        · refine List.forall_mem_cons.mpr ⟨⟨hpad, heop, ?_⟩, hfra⟩
          rw [hdata]
          exact len.toNat_lt
        · rw [hche tag len _ s hdata, List.foldlM_cons, bind_assoc, bind_assoc]
          congr 1
          funext s
          exact hrun s

lemma iterateField_eq (hche : Steps check f) {field : List UInt8} {overloaded : Bool}
    (hrec : iterateField overloaded field recordOption found = .ok (status, found')) :
    ∃ fragments, found' = found ++ fragments ∧ (∀ item ∈ fragments, Fragment item) ∧
      ∀ s, iterateField overloaded field check s =
        fragments.foldlM f s >>= fun s => .ok (status, s) := by
  unfold iterateField at hrec ⊢
  cases overloaded with
  | false =>
    cases hrec
    simp
  | true =>
    rw [if_pos rfl] at hrec
    obtain ⟨⟨status', overload', found''⟩, hbuf, hres⟩ := bind_eq_ok.mp hrec
    cases hres
    obtain ⟨fragments, hfnd, hfra, hrun⟩ := iterateLoop_eq hche hbuf
    refine ⟨fragments, hfnd, hfra, fun s => ?_⟩
    unfold dhcpIterateBufferOptions
    rw [if_pos rfl, hrun, map_bind]
    rfl

lemma visits_spec (hche : Steps check f) (hvis : Visits packet fragments) :
    (∀ item ∈ fragments, Fragment item) ∧
      ∀ s, dhcpIterateOptions packet check s =
        fragments.foldlM f s >>= fun s => .ok (.success, s) := by
  unfold Visits dhcpIterateOptions at hvis
  obtain ⟨⟨status₁, overload, found₁⟩, hopt, hvis⟩ := bind_eq_ok.mp hvis
  obtain ⟨fragments₁, rfl, hfra₁, hrun₁⟩ := iterateLoop_eq hche hopt
  dsimp only at hvis
  split_ifs at hvis with herr₁
  · cases hvis
    exact absurd herr₁ (by decide)
  obtain ⟨⟨status₂, found₂⟩, hfile, hvis⟩ := bind_eq_ok.mp hvis
  obtain ⟨fragments₂, rfl, hfra₂, hrun₂⟩ := iterateField_eq hche hfile
  dsimp only at hvis
  split_ifs at hvis with herr₂
  · cases hvis
    exact absurd herr₂ (by decide)
  obtain ⟨fragments₃, rfl, hfra₃, hrun₃⟩ := iterateField_eq hche hvis
  refine ⟨?_, fun s => ?_⟩
  · grind
  · unfold dhcpIterateOptions dhcpIterateBufferOptions
    rw [hrun₁, bind_assoc, List.append_assoc, List.foldlM_append, bind_assoc]
    congr 1
    funext s
    rw [ok_bind]
    dsimp only
    rw [if_neg herr₁, hrun₂, bind_assoc, List.foldlM_append, bind_assoc]
    grind [ok_bind]

end Edk2.Dhcp4
