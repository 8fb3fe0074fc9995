import Edk2.DevicePath.Model

/-!
# Valid device paths

`IsDevicePathValid` accepts exactly the buffers that start with a device path, and reads nothing
behind `MaxSize`.
-/

namespace Edk2.DevicePath

open Bytes

variable {buffer rest : List Byte} {d size count maximum maxSize fuel : ℕ}

@[ext]
structure Node where
  type : Byte
  subType : Byte
  data : List Byte
  fits : data.length + 4 < 2 ^ 16

namespace Node

def bytes (n : Node) : List Byte := n.type :: n.subType :: (field 2 (n.data.length + 4) ++ n.data)

def isEndType (n : Node) : Bool := n.type = 0x7F

def isEnd (n : Node) : Bool := n.type = 0x7F ∧ n.subType = 0xFF

/-- A file path ends in a `NUL`. -/
def Terminated (n : Node) : Prop :=
  n.type = 0x04 → n.subType = 0x04 → n.bytes.drop (n.bytes.length - 2) = [0, 0]

instance (n : Node) : Decidable n.Terminated :=
  inferInstanceAs (Decidable (_ → _ → _))

/-- The end of the entire path. -/
def endEntire : Node := ⟨0x7F, 0xFF, [], by decide⟩

/-- The end of an instance. -/
def endInstance : Node := ⟨0x7F, 0x01, [], by decide⟩

@[simp] lemma length_bytes (n : Node) : n.bytes.length = n.data.length + 4 := by
  simp [bytes]
  omega

end Node

variable {n : Node} {nodes : List Node}

/-- The bytes of nodes, one behind the other. -/
def nodeBytes (nodes : List Node) : List Byte := (nodes.map Node.bytes).flatten

@[simp] lemma nodeBytes_nil : nodeBytes [] = [] := rfl

@[simp] lemma nodeBytes_cons : nodeBytes (n :: nodes) = n.bytes ++ nodeBytes nodes := rfl

@[simp] lemma nodeBytes_append {nodes' : List Node} :
    nodeBytes (nodes ++ nodes') = nodeBytes nodes ++ nodeBytes nodes' := by
  simp [nodeBytes]

/-- The bytes of a path. -/
def pathBytes (nodes : List Node) : List Byte := nodeBytes nodes ++ Node.endEntire.bytes

lemma pathBytes_nil : pathBytes [] = endDevicePath := rfl

lemma pathBytes_cons : pathBytes (n :: nodes) = n.bytes ++ pathBytes nodes := by
  simp [pathBytes]

lemma pathBytes_append {nodes' : List Node} :
    pathBytes (nodes ++ nodes') = nodeBytes nodes ++ pathBytes nodes' := by
  simp [pathBytes]

lemma length_pathBytes : (pathBytes nodes).length = (nodeBytes nodes).length + 4 := by
  simp [pathBytes, Node.endEntire]

lemma length_le_nodeBytes : 4 * nodes.length ≤ (nodeBytes nodes).length := by
  induction nodes with
  | nil => exact le_rfl
  | cons n nodes ih =>
    rw [nodeBytes_cons, List.length_append, List.length_cons, n.length_bytes]
    omega

lemma getElem?_of_drop {xs : List Byte} {i : ℕ} (h : buffer.drop d = xs) :
    buffer[d + i]? = xs[i]? := by
  rw [← h, List.getElem?_drop]

lemma drop_next (h : buffer.drop d = n.bytes ++ rest) :
    buffer.drop (d + n.bytes.length) = rest := by
  rw [← List.drop_drop, h, List.drop_left]

lemma type_of_drop (h : buffer.drop d = n.bytes ++ rest) :
    devicePathType buffer d = some n.type := by
  have hget := getElem?_of_drop (i := 0) h
  exact hget

lemma subType_of_drop (h : buffer.drop d = n.bytes ++ rest) :
    devicePathSubType buffer d = some n.subType := by
  have hget := getElem?_of_drop (i := 1) h
  exact hget

lemma nodeLength_of_drop (h : buffer.drop d = n.bytes ++ rest) :
    devicePathNodeLength buffer d = some n.bytes.length := by
  have hlow : buffer[d + 2]? = some (UInt8.ofNat (n.data.length + 4)) :=
    getElem?_of_drop (i := 2) h
  have hhigh : buffer[d + 2 + 1]? = some (UInt8.ofNat ((n.data.length + 4) / 256)) :=
    getElem?_of_drop (i := 3) h
  have hfits := n.fits
  unfold devicePathNodeLength readUnaligned16
  rw [hlow, hhigh]
  dsimp only [Option.bind_eq_bind, Option.bind_some]
  rw [UInt8.toNat_ofNat', UInt8.toNat_ofNat', n.length_bytes, Option.some.injEq]
  omega

lemma isEndType_of_drop (h : buffer.drop d = n.bytes ++ rest) :
    isDevicePathEndType buffer d = some n.isEndType := by
  unfold isDevicePathEndType
  rw [type_of_drop h]
  rfl

lemma isEnd_of_drop (h : buffer.drop d = n.bytes ++ rest) :
    isDevicePathEnd buffer d = some n.isEnd := by
  unfold isDevicePathEnd
  rw [isEndType_of_drop h, subType_of_drop h]
  by_cases htype : n.type = 0x7F <;> simp [Node.isEndType, Node.isEnd, htype]

lemma readUnaligned16_last (h : buffer.drop d = n.bytes ++ rest) :
    ∃ word, readUnaligned16 buffer (d + n.bytes.length - 2) = some word ∧
      (word = 0 ↔ n.bytes.drop (n.bytes.length - 2) = [0, 0]) := by
  have hlen := n.length_bytes
  have htwo : (n.bytes.drop (n.bytes.length - 2)).length = 2 := by
    rw [List.length_drop]
    omega
  obtain ⟨low, high, hlast⟩ := List.length_eq_two.mp htwo
  have hget : ∀ i < 2, buffer[d + n.bytes.length - 2 + i]? = [low, high][i]? := by
    intro i hi
    rw [← hlast, List.getElem?_drop,
      show d + n.bytes.length - 2 + i = d + (n.bytes.length - 2 + i) by omega,
      getElem?_of_drop h, List.getElem?_append_left (by omega)]
  have hlow : buffer[d + n.bytes.length - 2]? = some low := hget 0 (by decide)
  have hhigh : buffer[d + n.bytes.length - 2 + 1]? = some high := hget 1 (by decide)
  refine ⟨low.toNat + 256 * high.toNat, ?_, ?_⟩
  · unfold readUnaligned16
    rw [hlow, hhigh]
    rfl
  · rw [hlast]
    constructor
    · intro hzero
      have hlow₀ : low = 0 := UInt8.toNat_inj.mp (by rw [UInt8.toNat_zero]; omega)
      have hhig₀ : high = 0 := UInt8.toNat_inj.mp (by rw [UInt8.toNat_zero]; omega)
      rw [hlow₀, hhig₀]
    · intro heq
      rw [List.cons.injEq, List.cons.injEq] at heq
      rw [heq.1, heq.2.1]
      rfl

lemma terminated_of_drop (h : buffer.drop d = n.bytes ++ rest) :
    isFilePathTerminated buffer d n.bytes.length = some (decide n.Terminated) := by
  obtain ⟨word, hword, hiff⟩ := readUnaligned16_last h
  unfold isFilePathTerminated
  rw [type_of_drop h, subType_of_drop h, hword]
  by_cases htype : n.type = 0x04
  · grind [Node.Terminated]
  · simp [htype, Node.Terminated]

lemma exists_node (hd : d + 4 ≤ buffer.length) :
    ∃ length, devicePathNodeLength buffer d = some length ∧
      (isDevicePathEnd buffer d).isSome ∧
      (4 ≤ length → d + length ≤ buffer.length → ∃ n : Node, n.bytes.length = length ∧
        buffer.drop d = n.bytes ++ buffer.drop (d + length)) := by
  have hlen : 4 ≤ (buffer.drop d).length := by
    rw [List.length_drop]
    omega
  obtain ⟨type, subType, low, high, data, hdata⟩ :
      ∃ type subType low high data, buffer.drop d = type :: subType :: low :: high :: data := by
    match hcas : buffer.drop d with
    | type :: subType :: low :: high :: data => exact ⟨_, _, _, _, _, rfl⟩
    | [] | [_] | [_, _] | [_, _, _] => simp [hcas] at hlen
  have hlow : buffer[d + 2]? = some low := getElem?_of_drop (i := 2) hdata
  have hhigh : buffer[d + 2 + 1]? = some high := getElem?_of_drop (i := 3) hdata
  have htype : buffer[d]? = some type := getElem?_of_drop (i := 0) hdata
  have hsub : buffer[d + 1]? = some subType := getElem?_of_drop (i := 1) hdata
  have hlowL := low.toNat_lt
  have hhig := high.toNat_lt
  refine ⟨low.toNat + 256 * high.toNat, ?_, ?_, fun hge hle => ?_⟩
  · unfold devicePathNodeLength readUnaligned16
    rw [hlow, hhigh]
    rfl
  · grind [isDevicePathEnd, isDevicePathEndType, devicePathType, devicePathSubType]
  · have hdat : data.length + 4 = buffer.length - d := by
      have hsum := congrArg List.length hdata
      rw [List.length_drop] at hsum
      simpa using hsum.symm
    have htake : (data.take (low.toNat + 256 * high.toNat - 4)).length =
        low.toNat + 256 * high.toNat - 4 := by
      rw [List.length_take]
      omega
    refine ⟨⟨type, subType, data.take (low.toNat + 256 * high.toNat - 4), by omega⟩, ?_, ?_⟩
    · rw [Node.length_bytes]
      dsimp only
      omega
    · have hlow' : UInt8.ofNat (low.toNat + 256 * high.toNat) = low := by
        apply UInt8.toNat_inj.mp
        rw [UInt8.toNat_ofNat']
        omega
      have hhig' : UInt8.ofNat ((low.toNat + 256 * high.toNat) / 256) = high := by
        apply UInt8.toNat_inj.mp
        rw [UInt8.toNat_ofNat']
        omega
      rw [← List.drop_drop, hdata]
      unfold Node.bytes field field field
      dsimp only
      rw [htake, Nat.sub_add_cancel hge, hlow', hhig']
      obtain ⟨k, hk⟩ : ∃ k, low.toNat + 256 * high.toNat = k + 4 :=
        ⟨low.toNat + 256 * high.toNat - 4, by omega⟩
      rw [hk]
      simp

/-! ### The loop of `IsDevicePathValid` -/

/-- The nodes before the end of a path that is accepted. -/
structure Accepted (maximum : ℕ) (nodes : List Node) : Prop where
  notEnd : ∀ n ∈ nodes, n.isEnd = false
  terminated : ∀ n ∈ nodes, n.Terminated
  count : maximum = 0 ∨ nodes.length < maximum

lemma validLoop_of_drop (maximum size count maxSize : ℕ) (hnot : ∀ n ∈ nodes, n.isEnd = false)
    (hdrop : buffer.drop d = pathBytes nodes ++ rest)
    (hsize : size + (pathBytes nodes).length ≤ maxSize) (hmax : maxSize < 2 ^ 64)
    (hcnt : maximum = 0 ∨ count < maximum) (hfuel : nodes.length < fuel) :
    ∃ b, isDevicePathValidLoop maximum buffer maxSize fuel d size count = some b ∧
      (b = true ↔ (∀ n ∈ nodes, n.Terminated) ∧ (maximum = 0 ∨ count + nodes.length < maximum)) := by
  induction nodes generalizing d size count fuel with
  | nil =>
    obtain ⟨fuel, rfl⟩ : ∃ k, fuel = k + 1 := ⟨fuel - 1, by simp at hfuel; omega⟩
    have hend : isDevicePathEnd buffer d = some true := isEnd_of_drop (n := .endEntire) hdrop
    have hlen : devicePathNodeLength buffer d = some 4 :=
      nodeLength_of_drop (n := .endEntire) hdrop
    refine ⟨true, ?_, iff_of_true rfl ⟨fun n hn => (by cases hn), hcnt⟩⟩
    unfold isDevicePathValidLoop
    rw [hend, hlen]
    rfl
  | cons n nodes ih =>
    obtain ⟨fuel, rfl⟩ : ∃ k, fuel = k + 1 := ⟨fuel - 1, by simp at hfuel; omega⟩
    rw [pathBytes_cons, List.append_assoc] at hdrop
    rw [pathBytes_cons, List.length_append, length_pathBytes] at hsize
    have hend : isDevicePathEnd buffer d = some false := by
      rw [isEnd_of_drop hdrop, hnot n List.mem_cons_self]
    have hlen := n.length_bytes
    unfold isDevicePathValidLoop
    rw [hend, nodeLength_of_drop hdrop]
    dsimp only [Option.bind_eq_bind, Option.bind_some]
    rw [if_neg Bool.false_ne_true, if_neg (by omega), if_neg (by omega), if_neg (by omega),
      terminated_of_drop hdrop]
    dsimp only [Option.bind_some]
    by_cases hfull : 0 < maximum ∧ maximum ≤ count + 1
    · simp [hfull, List.length_cons]
      omega
    · rw [if_neg hfull]
      by_cases hter : n.Terminated
      · rw [decide_eq_true hter, if_neg (by decide)]
        have hnext := drop_next hdrop
        have hmore : nodes.length < fuel := by
          rw [List.length_cons] at hfuel
          omega
        obtain ⟨b, hloop, hiff⟩ := ih (size + n.bytes.length)
          (if 0 < maximum then count + 1 else count)
          (fun n' hn' => hnot n' (List.mem_cons_of_mem _ hn')) hnext (by rw [length_pathBytes]; omega) (by split_ifs <;> omega)
          hmore
        refine ⟨b, hloop, hiff.trans ?_⟩
        rw [List.forall_mem_cons, List.length_cons]
        split_ifs with hpos
        · simp [show count + 1 + nodes.length = count + (nodes.length + 1) by omega, hter, true_and]
        · grind
      · grind

lemma validLoop_total (maximum count d fuel : ℕ) (hbuf : maxSize = buffer.length) (hsize : d + 4 ≤ maxSize)
    (hfuel : maxSize < d + fuel) :
    ∃ b, isDevicePathValidLoop maximum buffer maxSize fuel d d count = some b ∧
      (b = true → ∃ nodes rest, (∀ n ∈ nodes, n.isEnd = false) ∧
        buffer.drop d = pathBytes nodes ++ rest) := by
  induction fuel generalizing d count with
  | zero => omega
  | succ fuel ih =>
    obtain ⟨length, hlen, hisE, hnode⟩ := exists_node (show d + 4 ≤ buffer.length by omega)
    obtain ⟨isEnd, hend⟩ := Option.isSome_iff_exists.mp hisE
    unfold isDevicePathValidLoop
    rw [hend, hlen]
    dsimp only [Option.bind_eq_bind, Option.bind_some]
    cases isEnd with
    | true =>
      rw [if_pos rfl]
      refine ⟨_, rfl, fun htrue => ?_⟩
      have hfour : length = 4 := by simpa using htrue
      obtain ⟨n, hn, hdrop⟩ := hnode (by omega) (by omega)
      rw [n.length_bytes] at hn
      rw [isEnd_of_drop hdrop, Option.some.injEq] at hend
      have hendN : n = .endEntire := by
        have htyp : n.type = 0x7F ∧ n.subType = 0xFF := by simpa [Node.isEnd] using hend
        exact Node.ext htyp.1 htyp.2 (List.length_eq_zero_iff.mp (by omega))
      refine ⟨[], buffer.drop (d + length), fun n hn => (by cases hn), ?_⟩
      rw [hdrop, hendN]
      rfl
    | false =>
      rw [if_neg Bool.false_ne_true]
      by_cases hsho : length < 4
      · rw [if_pos hsho]
        exact ⟨false, rfl, fun h => by cases h⟩
      rw [if_neg hsho]
      by_cases hwrap : 2 ^ 64 - 1 - d < length
      · rw [if_pos hwrap]
        exact ⟨false, rfl, fun h => by cases h⟩
      rw [if_neg hwrap]
      by_cases hlong : maxSize - 4 < d + length
      · rw [if_pos hlong]
        exact ⟨false, rfl, fun h => by cases h⟩
      rw [if_neg hlong]
      obtain ⟨n, hn, hdrop⟩ := hnode (by omega) (by omega)
      by_cases hfull : 0 < maximum ∧ maximum ≤ count + 1
      · rw [if_pos hfull]
        exact ⟨false, rfl, fun h => by cases h⟩
      rw [if_neg hfull, ← hn, terminated_of_drop hdrop]
      dsimp only [Option.bind_some]
      by_cases hter : n.Terminated
      · rw [decide_eq_true hter, if_neg (by decide)]
        obtain ⟨b, hloop, hpath⟩ := ih (if 0 < maximum then count + 1 else count)
          (d + n.bytes.length) (by omega) (by omega)
        refine ⟨b, hloop, fun htrue => ?_⟩
        obtain ⟨nodes, rest, hnot, hrest⟩ := hpath htrue
        refine ⟨n :: nodes, rest, ?_, ?_⟩
        · rw [List.forall_mem_cons]
          rw [isEnd_of_drop hdrop, Option.some.injEq] at hend
          exact ⟨hend, hnot⟩
        · rw [hdrop, ← hn, hrest, pathBytes_cons, List.append_assoc]
      · simp [decide_eq_false hter]

lemma lt_of_drop (hdrop : buffer.drop d = pathBytes nodes ++ rest) :
    nodes.length < buffer.length + 1 := by
  have hle : 4 * nodes.length ≤ (nodeBytes nodes).length := length_le_nodeBytes
  have hlen := congrArg List.length hdrop
  rw [List.length_drop, List.length_append, length_pathBytes] at hlen
  omega

lemma isDevicePathValid_of_drop (maximum : ℕ) (hnot : ∀ n ∈ nodes, n.isEnd = false)
    (hdrop : buffer.drop d = pathBytes nodes ++ rest) (hlt : (pathBytes nodes).length < 2 ^ 64) :
    ∃ b, isDevicePathValid maximum buffer d 0 = some b ∧
      (b = true ↔ Accepted maximum nodes) := by
  unfold isDevicePathValid
  rw [if_neg (by simp), if_pos rfl]
  obtain ⟨b, hloop, hiff⟩ := validLoop_of_drop maximum 0 0 (2 ^ 64 - 1) hnot hdrop (by omega)
    (by omega) (by omega) (lt_of_drop hdrop)
  refine ⟨b, hloop, hiff.trans ?_⟩
  rw [Nat.zero_add]
  exact ⟨fun h => ⟨hnot, h.1, h.2⟩, fun h => ⟨h.terminated, h.count⟩⟩

lemma isDevicePathValid_iff (hpos : 0 < buffer.length) (hlt : buffer.length < 2 ^ 64) :
    ∃ b, isDevicePathValid maximum buffer 0 buffer.length = some b ∧
      (b = true ↔ ∃ nodes, Accepted maximum nodes ∧ pathBytes nodes <+: buffer) := by
  unfold isDevicePathValid
  by_cases hsho : buffer.length < 4
  · rw [if_pos ⟨hpos, hsho⟩]
    refine ⟨false, rfl, iff_of_false Bool.false_ne_true ?_⟩
    rintro ⟨nodes, -, hpre⟩
    have hle := hpre.length_le
    rw [length_pathBytes] at hle
    omega
  · rw [if_neg (fun h => hsho h.2), if_neg (by omega)]
    obtain ⟨b, hloop, hpath⟩ := validLoop_total maximum 0 0 (buffer.length + 1) rfl
      (show 0 + 4 ≤ buffer.length by omega) (by omega)
    have hiff : ∀ {nodes : List Node} {rest : List Byte}, (∀ n ∈ nodes, n.isEnd = false) →
        buffer = pathBytes nodes ++ rest → (b = true ↔ Accepted maximum nodes) := by
      intro nodes rest hnot hbuf
      have hdrop : buffer.drop 0 = pathBytes nodes ++ rest := hbuf
      have hsum := congrArg List.length hbuf
      rw [List.length_append] at hsum
      obtain ⟨b', hloo', hiff'⟩ := validLoop_of_drop maximum 0 0 buffer.length hnot hdrop
        (by omega) hlt (by omega) (lt_of_drop hdrop)
      obtain rfl : b = b' := Option.some.inj (hloop.symm.trans hloo')
      rw [Nat.zero_add] at hiff'
      exact hiff'.trans ⟨fun h => ⟨hnot, h.1, h.2⟩, fun h => ⟨h.terminated, h.count⟩⟩
    refine ⟨b, hloop, ?_⟩
    constructor
    · grind
    · rintro ⟨nodes, hacc, rest, hbuf⟩
      exact (hiff hacc.notEnd hbuf.symm).mpr hacc

end Edk2.DevicePath
