import Edk2.Base

/-!
# Base64

`Base64Encode` and `Base64Decode` of `BaseLib`. A source is its address and its bytes. The bytes
that are stored are a list, as every call stores them one behind the other from `Destination` on.
-/

namespace Edk2.Base64

/-! ### The tables -/

def badV : ℕ := 99

/-- `'='`. -/
def padding : UInt8 := 61

def encodingTable : List UInt8 :=
  (List.range' 65 26 ++ List.range' 97 26 ++ List.range' 48 10 ++ [43, 47]).map UInt8.ofNat

def decodingTable : List ℕ :=
  List.replicate 43 badV ++ [62] ++ List.replicate 3 badV ++ [63] ++ List.range' 52 10 ++
    List.replicate 3 badV ++ [0] ++ List.replicate 3 badV ++ List.range 26 ++
    List.replicate 6 badV ++ List.range' 26 26 ++ List.replicate 133 badV

def encodingChar (n : ℕ) : UInt8 := encodingTable.getD n 0

def decodingValue (chr : UInt8) : ℕ := decodingTable.getD chr.toNat badV

/-! ### Encoding -/

/-- The loop over three bytes at a time, and the `switch` for the remainder. -/
def encodeText : List UInt8 → List UInt8
  | a :: b :: c :: source =>
    encodingChar ((a.toNat &&& 0xfc) >>> 2) ::
      encodingChar (((a.toNat &&& 0x03) <<< 4) + ((b.toNat &&& 0xf0) >>> 4)) ::
      encodingChar (((b.toNat &&& 0x0f) <<< 2) + ((c.toNat &&& 0xc0) >>> 6)) ::
      encodingChar (c.toNat &&& 0x3f) :: encodeText source
  | [a, b] =>
    [encodingChar ((a.toNat &&& 0xfc) >>> 2),
      encodingChar (((a.toNat &&& 0x03) <<< 4) + ((b.toNat &&& 0xf0) >>> 4)),
      encodingChar ((b.toNat &&& 0x0f) <<< 2), padding]
  | [a] =>
    [encodingChar ((a.toNat &&& 0xfc) >>> 2), encodingChar ((a.toNat &&& 0x03) <<< 4), padding,
      padding]
  | [] => []

/-- What a call does: its status, `*DestinationSize` if there is one, and the bytes it stores. -/
structure Outcome where
  status : EfiStatus
  destinationSize : Option ℕ
  stored : List UInt8

/-- The lengths are checked against `MAX_ADDRESS`; a destination that is `NULL` has address 0. -/
def tooLong (maxAddress : ℕ) (source : ℕ × List UInt8) (destination : Option ℕ) (size : ℕ) : Bool :=
  maxAddress - source.1 ≤ source.2.length || maxAddress - destination.getD 0 ≤ size

def base64Encode (maxAddress : ℕ) (source : Option (ℕ × List UInt8)) (destination : Option ℕ)
    (destinationSize : Option ℕ) : Except Halt Outcome :=
  match source, destinationSize with
  | some source, some size =>
    if source.2.length = 0 then
      if size < 1 then .ok ⟨.bufferTooSmall, some 1, []⟩
      else if destination = none then .error .fault
      else .ok ⟨.success, some 1, [0]⟩
    else if tooLong maxAddress source destination size then
      .ok ⟨.invalidParameter, some size, []⟩
    else
      let requiredSize := (source.2.length + 2) / 3 * 4 + 1
      if destination = none ∨ size < requiredSize then
        .ok ⟨.bufferTooSmall, some requiredSize, []⟩
      else .ok ⟨.success, some size, encodeText source.2 ++ [0]⟩
  | _, _ => .ok ⟨.invalidParameter, destinationSize, []⟩

/-! ### Decoding -/

/-- `' '`, `'\t'`, `'\n'` and `'\r'`. -/
def isBlank (chr : UInt8) : Bool := chr = 32 || chr = 9 || chr = 10 || chr = 13

/-- One turn of the loop that counts, with `ActualSourceLength` and `BufferSize`. -/
def countChar : ℕ × ℤ → UInt8 → Option (ℕ × ℤ)
  | (actualSourceLength, bufferSize), chr =>
    if chr = padding then
      if bufferSize - 1 < -2 then none else some (actualSourceLength + 1, bufferSize - 1)
    else if badV ≠ decodingValue chr then
      if bufferSize < 0 then none else some (actualSourceLength + 1, bufferSize)
    else if isBlank chr then some (actualSourceLength, bufferSize)
    else none

/-- The `do`-`while` loop. It does not look at `SourceLength`. -/
def readChar : List UInt8 → Option (ℕ × List UInt8)
  | [] => none
  | chr :: source =>
    if decodingValue chr = badV then readChar source else some (decodingValue chr, source)

/-- The loop over `Index`. Four characters do not fill the `UINT32`. -/
def readValue : ℕ → ℕ → List UInt8 → Option (ℕ × List UInt8)
  | 0, value, source => some (value, source)
  | index + 1, value, source =>
    match readChar source with
    | none => none
    | some (chr, source) => readValue index ((value <<< 6) ||| chr) source

/-- The loop that stores. A read behind the source is a fault. -/
def decodeLoop (size : ℕ) : ℕ → List UInt8 → ℕ → Except Halt (List UInt8)
  | 0, _, _ => .error .loop
  | fuel + 1, source, destinationIndex =>
    if source ≠ [] ∧ destinationIndex < size then
      match readValue 4 0 source with
      | none => .error .fault
      | some (value, source) =>
        (decodeLoop size fuel source (destinationIndex + 3)).map fun rest =>
          UInt8.ofNat (value >>> 16) ::
            (if destinationIndex + 1 < size then [UInt8.ofNat (value >>> 8)] else []) ++
            (if destinationIndex + 2 < size then [UInt8.ofNat value] else []) ++ rest
    else .ok []

/-- `Base64Decode`. Every turn of the second loop moves the source index. -/
def base64Decode (maxAddress : ℕ) (source : Option (ℕ × List UInt8)) (destination : Option ℕ)
    (destinationSize : Option ℕ) : Except Halt Outcome :=
  match source, destinationSize with
  | some source, some size =>
    if tooLong maxAddress source destination size then .ok ⟨.invalidParameter, some size, []⟩
    else
      match source.2.foldlM countChar (0, 0) with
      | none => .ok ⟨.invalidParameter, some size, []⟩
      | some (actualSourceLength, bufferSize) =>
        if actualSourceLength % 4 ≠ 0 then .ok ⟨.invalidParameter, some size, []⟩
        else
          let bufferSize := bufferSize + (actualSourceLength / 4 * 3 : ℕ)
          if bufferSize < 0 then .ok ⟨.invalidParameter, some size, []⟩
          else if destination = none ∨ size < bufferSize.toNat then
            .ok ⟨.bufferTooSmall, some bufferSize.toNat, []⟩
          else if actualSourceLength = 0 then .ok ⟨.success, some 0, []⟩
          else (decodeLoop size (source.2.length + 1) source.2 0).map fun stored =>
            ⟨.success, some size, stored⟩
  | _, _ => .ok ⟨.invalidParameter, destinationSize, []⟩

end Edk2.Base64
