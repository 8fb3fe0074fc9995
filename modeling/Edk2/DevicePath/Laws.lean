import Edk2.DevicePath.Append

/-!
# The algebra of device paths

What `IsDevicePathValid` accepts, that paths can be appended in any grouping, and that the instances
of a path put together are the path.
-/

namespace Edk2.DevicePath

open Bytes

variable {buffer rest : List Byte} {d fuel maximum : ℕ} {n e : Node}
  {nodes nodes' inst : List Node} {config : Config}

lemma set_eq_self {i : ℕ} {x : Byte} (h : buffer[i]? = some x) : buffer.set i x = buffer := by
  apply List.ext_getElem?
  grind

lemma drop_set_add {k : ℕ} {x : Byte} : (buffer.set (d + k) x).drop d = (buffer.drop d).set k x := by
  rw [List.drop_set, if_neg (by omega), Nat.add_sub_cancel_left]

lemma getNext_last (hnod : ∀ n ∈ nodes, n.isEndType = false)
    (hacc : Accepted config.maximumNodeCount nodes) (hdrop : buffer.drop d = pathBytes nodes)
    (hlt : (pathBytes nodes).length < 2 ^ 64) (hpool : config.HasMemory) :
    getNextDevicePathInstance config buffer (some d) =
      some ⟨some (pathBytes nodes), some (pathBytes nodes).length, none, buffer⟩ := by
  have hread : buffer.drop d = pathBytes nodes ++ [] := by rw [hdrop, List.append_nil]
  have hend : buffer.drop d = nodeBytes nodes ++ (Node.endEntire.bytes ++ []) := by
    rw [hdrop, pathBytes, List.append_nil]
  have hfind : findEnd isDevicePathEndType buffer (buffer.length + 1) d =
      some (d + (nodeBytes nodes).length) :=
    findEnd_of_drop isEndType_of_drop hnod rfl hend (lt_of_drop hread)
  have hsub : devicePathSubType buffer (d + (nodeBytes nodes).length) = some 0xFF :=
    subType_of_drop (n := .endEntire) (drop_nodeBytes hend)
  have hset : buffer.set (d + (nodeBytes nodes).length + 1) 0xFF = buffer := set_eq_self hsub
  unfold getNextDevicePathInstance
  dsimp only
  rw [valid_of_accepted hacc hread hlt]
  dsimp only [Option.bind_eq_bind, Option.bind_some]
  grind [duplicate_of_accepted, Nat.add_sub_cancel_left, length_pathBytes]

lemma getNext_more (hinst : ∀ n ∈ inst, n.isEndType = false)
    (hacc : Accepted config.maximumNodeCount (inst ++ .endInstance :: nodes))
    (hdrop : buffer.drop d = pathBytes (inst ++ .endInstance :: nodes))
    (hlt : (pathBytes (inst ++ .endInstance :: nodes)).length < 2 ^ 64) (hpool : config.HasMemory) :
    getNextDevicePathInstance config buffer (some d) =
      some ⟨some (pathBytes inst), some (pathBytes inst).length,
        some (d + (nodeBytes inst).length + 4), buffer⟩ := by
  have hread : buffer.drop d = pathBytes (inst ++ .endInstance :: nodes) ++ [] := by
    rw [hdrop, List.append_nil]
  have hend : buffer.drop d = nodeBytes inst ++ (Node.endInstance.bytes ++ pathBytes nodes) := by
    rw [hdrop, pathBytes_append, pathBytes_cons]
  have hfuel := lt_of_drop hread
  rw [List.length_append] at hfuel
  have hfind : findEnd isDevicePathEndType buffer (buffer.length + 1) d =
      some (d + (nodeBytes inst).length) :=
    findEnd_of_drop isEndType_of_drop hinst rfl hend (by omega)
  have hsub : devicePathSubType buffer (d + (nodeBytes inst).length) = some 0x01 :=
    subType_of_drop (n := .endInstance) (drop_nodeBytes hend)
  have hlen : devicePathNodeLength buffer (d + (nodeBytes inst).length) = some 4 :=
    nodeLength_of_drop (n := .endInstance) (drop_nodeBytes hend)
  -- for the copy, the end of the instance is the end of the path
  have hcopy : (buffer.set (d + (nodeBytes inst).length + 1) 0xFF).drop d =
      pathBytes inst ++ pathBytes nodes := by
    have hone : (nodeBytes inst).length + 1 - (nodeBytes inst).length = 1 := by omega
    have hspl : pathBytes inst ++ pathBytes nodes =
        nodeBytes inst ++ (Node.endEntire.bytes ++ pathBytes nodes) := List.append_assoc _ _ _
    rw [Nat.add_assoc, drop_set_add, hend, List.set_append_right _ _ (Nat.le_add_right _ 1), hone,
      hspl]
    rfl
  have hset : (buffer.set (d + (nodeBytes inst).length + 1) 0xFF).set
      (d + (nodeBytes inst).length + 1) 0x01 = buffer := by
    rw [List.set_set]
    exact set_eq_self hsub
  have hsho : (pathBytes inst).length < 2 ^ 64 := by
    grind [pathBytes_append, List.length_append, length_pathBytes]
  unfold getNextDevicePathInstance
  dsimp only
  rw [valid_of_accepted hacc hread hlt]
  dsimp only [Option.bind_eq_bind, Option.bind_some]
  rw [if_neg (by decide), hfind]
  dsimp only [Option.bind_some]
  rw [hsub]
  dsimp only [Option.bind_some]
  rw [duplicate_of_accepted hacc.left hcopy hsho hpool]
  simp [Option.bind_some, hset, hlen, length_pathBytes,
    nextDevicePathNode]

/-- `GetNextDevicePathInstance` is called until it returns `NULL`: the copies with their sizes, and
the memory of the path. -/
def copyInstances (config : Config) :
    ℕ → List Byte → Option ℕ → Option (List (List Byte × Option ℕ) × List Byte)
  | 0, _, _ => none
  | fuel + 1, buffer, devicePath => do
    let r ← getNextDevicePathInstance config buffer devicePath
    match r.copy with
    | none => some ([], r.buffer)
    | some copy => do
      let (copies, buffer) ← copyInstances config fuel r.buffer r.devicePath
      some ((copy, r.size) :: copies, buffer)

/-- The copies that are right. -/
def expectedCopies (nodes : List Node) : List (List Byte × Option ℕ) :=
  (instances nodes).map fun i => (pathBytes i, some (pathBytes i).length)

lemma copyInstances_eq (hsep : WellSeparated nodes)
    (hacc : Accepted config.maximumNodeCount nodes) (hdrop : buffer.drop d = pathBytes nodes)
    (hlt : (pathBytes nodes).length < 2 ^ 64) (hpool : config.HasMemory)
    (hfuel : nodes.length + 1 < fuel) :
    copyInstances config fuel buffer (some d) = some (expectedCopies nodes, buffer) := by
  induction fuel generalizing nodes d with
  | zero => omega
  | succ fuel ih =>
    unfold copyInstances expectedCopies
    rcases exists_instance nodes with hnone | ⟨inst, e, rest, rfl, hinst, he⟩
    · obtain ⟨fuel, rfl⟩ : ∃ k, fuel = k + 1 := ⟨fuel - 1, by omega⟩
      rw [getNext_last hnone hacc hdrop hlt hpool, instances_of_none hnone]
      rfl
    · obtain rfl := hsep e (by simp) he
      have hnext : buffer.drop (d + (nodeBytes inst).length + 4) = pathBytes rest := by
        have hend : buffer.drop d = nodeBytes inst ++ (Node.endInstance.bytes ++ pathBytes rest) := by
          rw [hdrop, pathBytes_append, pathBytes_cons]
        exact drop_next (n := .endInstance) (drop_nodeBytes hend)
      have hrest : copyInstances config fuel buffer (some (d + (nodeBytes inst).length + 4)) =
          some (expectedCopies rest, buffer) := by
        refine ih (fun n hn => hsep n (by simp [hn])) hacc.right.tail hnext ?_ ?_
        · rw [pathBytes_append, pathBytes_cons, List.length_append, List.length_append] at hlt
          omega
        · rw [List.length_append, List.length_cons] at hfuel
          omega
      rw [getNext_more hinst hacc hdrop hlt hpool, instances_append hinst he]
      dsimp only [Option.bind_eq_bind, Option.bind_some]
      rw [hrest]
      rfl

/-- `AppendDevicePathInstance` over copies, the first one to `NULL`. -/
def rebuild (config : Config) (copies : List (List Byte)) : Option (Option (List Byte)) :=
  copies.foldlM (fun path copy => appendDevicePathInstance config path (some copy)) none

lemma foldlM_append {is : List (List Node)} {p : List Node}
    (hacc : Accepted config.maximumNodeCount (is.foldl (fun p i => p ++ .endInstance :: i) p))
    (hlt : (pathBytes (is.foldl (fun p i => p ++ .endInstance :: i) p)).length < 2 ^ 64)
    (hpool : config.HasMemory) :
    (is.map pathBytes).foldlM (fun path copy => appendDevicePathInstance config path (some copy))
        (some (pathBytes p)) =
      some (some (pathBytes (is.foldl (fun p i => p ++ .endInstance :: i) p))) := by
  induction is generalizing p with
  | nil => rfl
  | cons i is ih =>
    rw [List.foldl_cons] at hacc hlt ⊢
    have hspl : is.foldl (fun p i => p ++ Node.endInstance :: i) (p ++ .endInstance :: i) =
        p ++ .endInstance :: is.foldl (fun p i => p ++ .endInstance :: i) i := by
      have hjoin := foldl_append (p ++ [.endInstance]) i is
      rw [List.append_assoc, List.append_assoc] at hjoin
      exact hjoin
    have hinst : Accepted config.maximumNodeCount i ∧ (pathBytes i).length < 2 ^ 64 := by
      have hnil : is.foldl (fun p i => p ++ Node.endInstance :: i) (i ++ []) =
          i ++ is.foldl (fun p i => p ++ .endInstance :: i) [] := foldl_append i [] is
      rw [List.append_nil] at hnil
      rw [hspl, hnil] at hacc hlt
      refine ⟨hacc.right.tail.left, ?_⟩
      grind [pathBytes_append, pathBytes_cons, List.length_append, length_pathBytes]
    have hleft : Accepted config.maximumNodeCount p ∧ (pathBytes p).length < 2 ^ 64 := by
      rw [hspl] at hacc hlt
      refine ⟨hacc.left, ?_⟩
      grind [pathBytes_append, List.length_append, length_pathBytes]
    grind [appendInstance_of_accepted]

lemma rebuild_instances (hacc : Accepted config.maximumNodeCount nodes)
    (hlt : (pathBytes nodes).length < 2 ^ 64) (hpool : config.HasMemory) :
    rebuild config ((expectedCopies nodes).map Prod.fst) =
      some (some (pathBytes (joinInstances (instances nodes)))) := by
  obtain ⟨hjoin, hle⟩ := join_instances_of_accepted hacc
  obtain ⟨i, is, hi⟩ := List.exists_cons_of_ne_nil (instances_ne_nil nodes)
  have hmap : (expectedCopies nodes).map Prod.fst = (i :: is).map pathBytes := by
    unfold expectedCopies
    rw [List.map_map, hi]
    rfl
  rw [hi] at hjoin hle ⊢
  have hnil : is.foldl (fun p i => p ++ Node.endInstance :: i) (i ++ []) =
      i ++ is.foldl (fun p i => p ++ .endInstance :: i) [] := foldl_append i [] is
  rw [List.append_nil] at hnil
  have hfst : Accepted config.maximumNodeCount i ∧ (pathBytes i).length < 2 ^ 64 := by
    unfold joinInstances at hjoin hle
    dsimp only at hjoin hle
    rw [hnil] at hjoin hle
    refine ⟨hjoin.left, ?_⟩
    grind [pathBytes_append, List.length_append, length_pathBytes]
  have hread : (pathBytes i).drop 0 = pathBytes i ++ [] := by simp
  have hdup : appendDevicePathInstance config none (some (pathBytes i)) =
      some (some (pathBytes i)) := duplicate_of_accepted hfst.1 hread hfst.2 hpool
  have hsho : (pathBytes (joinInstances (i :: is))).length < 2 ^ 64 := by omega
  unfold rebuild
  rw [hmap, List.map_cons, List.foldlM_cons, hdup]
  exact foldlM_append hjoin hsho hpool

/-! ### The laws -/

variable {p q r : Path config.maximumNodeCount}

structure Laws (config : Config) (p q r : Path config.maximumNodeCount) : Prop where
  /-- All the memory that may be read is the buffer. -/
  valid : ∀ buffer : List Byte, 0 < buffer.length → buffer.length < 2 ^ 64 →
    ∃ b, isDevicePathValid config.maximumNodeCount buffer 0 buffer.length = some b ∧
      (b = true ↔ ∃ nodes, Accepted config.maximumNodeCount nodes ∧ pathBytes nodes <+: buffer)
  unit : appendDevicePath config (some p.bytes) (some endDevicePath) = some (some p.bytes) ∧
    appendDevicePath config (some endDevicePath) (some p.bytes) = some (some p.bytes)
  assoc : ∃ pq qr pqr, appendDevicePath config (some p.bytes) (some q.bytes) = some (some pq) ∧
    appendDevicePath config (some q.bytes) (some r.bytes) = some (some qr) ∧
    appendDevicePath config (some pq) (some r.bytes) = some (some pqr) ∧
    appendDevicePath config (some p.bytes) (some qr) = some (some pqr) ∧
    ∀ path ∈ [pq, qr, pqr], isDevicePathValid config.maximumNodeCount path 0 0 = some true
  instances : ∃ fuel, copyInstances config fuel p.bytes (some 0) =
      some (expectedCopies p.nodes, p.bytes) ∧
    (∀ copy ∈ expectedCopies p.nodes,
      isDevicePathValid config.maximumNodeCount copy.1 0 0 = some true) ∧
    rebuild config ((expectedCopies p.nodes).map Prod.fst) = some (some p.bytes)

lemma accepted_append (h : Accepted maximum nodes) (h' : Accepted maximum nodes')
    (hcnt : maximum = 0 ∨ nodes.length + nodes'.length < maximum) :
    Accepted maximum (nodes ++ nodes') := by
  refine ⟨fun n hn => ?_, fun n hn => ?_, ?_⟩
  · exact (List.mem_append.mp hn).elim (h.notEnd n) (h'.notEnd n)
  · exact (List.mem_append.mp hn).elim (h.terminated n) (h'.terminated n)
  · rwa [List.length_append]

lemma length_pathBytes_append (nodes nodes' : List Node) :
    (pathBytes (nodes ++ nodes')).length + 4 = (pathBytes nodes).length + (pathBytes nodes').length := by
  rw [pathBytes_append, List.length_append, length_pathBytes, length_pathBytes]
  omega

lemma valid_pathBytes (h : Accepted maximum nodes) (hlt : (pathBytes nodes).length < 2 ^ 64) :
    isDevicePathValid maximum (pathBytes nodes) 0 0 = some true :=
  valid_of_accepted h (show (pathBytes nodes).drop 0 = pathBytes nodes ++ [] by simp) hlt

lemma accepted_instance (hacc : Accepted maximum nodes) {i : List Node}
    (hi : i ∈ instances nodes) : Accepted maximum i ∧ (pathBytes i).length ≤ (pathBytes nodes).length := by
  induction hlen : nodes.length using Nat.strong_induction_on generalizing nodes with
  | _ length ih =>
    rcases exists_instance nodes with hnone | ⟨inst, e, rest, rfl, hinst, he⟩
    · grind [instances_of_none]
    · rw [instances_append hinst he] at hi
      have hsum := length_pathBytes_append inst (e :: rest)
      have hrest : 4 ≤ (pathBytes rest).length := by
        rw [length_pathBytes]
        omega
      rw [pathBytes_cons, List.length_append] at hsum
      rcases List.mem_cons.mp hi with rfl | hi
      · exact ⟨hacc.left, by omega⟩
      · obtain ⟨hi', hle⟩ := ih rest.length (by rw [← hlen]; simp; omega) hacc.right.tail hi rfl
        grind [length_pathBytes]

lemma laws_of_condition (hpool : config.HasMemory)
    (hcnt : config.maximumNodeCount = 0 ∨
      p.nodes.length + q.nodes.length + r.nodes.length < config.maximumNodeCount)
    (hsep : WellSeparated p.nodes) : Laws config p q r := by
  have hp := p.fits
  have hq := q.fits
  have hr := r.fits
  have hpq := length_pathBytes_append p.nodes q.nodes
  have hqr := length_pathBytes_append q.nodes r.nodes
  have hpqr := length_pathBytes_append (p.nodes ++ q.nodes) r.nodes
  have hnil : Accepted config.maximumNodeCount [] :=
    ⟨fun n hn => (by cases hn), fun n hn => (by cases hn), by rw [List.length_nil]; omega⟩
  have hpqA := accepted_append p.accepted q.accepted (by omega)
  have hqrA := accepted_append q.accepted r.accepted (by omega)
  have hpqrA := accepted_append hpqA r.accepted (by rwa [List.length_append])
  refine ⟨fun buffer hpos hlt => isDevicePathValid_iff hpos hlt, ⟨?_, ?_⟩, ?_, ?_⟩
  · have happ := append_of_accepted p.accepted hnil (by omega) (by decide) hpool
    rwa [List.append_nil] at happ
  · exact append_of_accepted hnil p.accepted (by decide) (by omega) hpool
  · refine ⟨_, _, _, append_of_accepted p.accepted q.accepted (by omega) (by omega) hpool,
      append_of_accepted q.accepted r.accepted (by omega) (by omega) hpool,
      append_of_accepted hpqA r.accepted (by omega) (by omega) hpool, ?_, ?_⟩
    · rw [List.append_assoc]
      exact append_of_accepted p.accepted hqrA (by omega) (by omega) hpool
    grind [valid_pathBytes]
  · refine ⟨p.nodes.length + 2, ?_, ?_, ?_⟩
    · exact copyInstances_eq hsep p.accepted rfl (by omega) hpool (by omega)
    · intro copy hcopy
      obtain ⟨i, hi, rfl⟩ := List.mem_map.mp hcopy
      obtain ⟨hi', hle⟩ := accepted_instance p.accepted hi
      exact valid_pathBytes hi' (by omega)
    · rw [rebuild_instances p.accepted (by omega) hpool, join_instances_iff.mpr hsep]
      rfl

lemma wellSeparated_of_laws (h : Laws config p q r) (hpool : config.HasMemory) :
    WellSeparated p.nodes := by
  have hp := p.fits
  obtain ⟨fuel, -, -, hreb⟩ := h.instances
  rw [rebuild_instances p.accepted (by omega) hpool, Option.some.injEq, Option.some.injEq]
    at hreb
  have hjoin := (join_instances_of_accepted p.accepted).1
  have hsame : pathBytes (joinInstances (instances p.nodes)) ++ [] = pathBytes p.nodes ++ [] := by
    rw [List.append_nil, List.append_nil]
    exact hreb
  exact join_instances_iff.mp (pathBytes_inj hjoin.notEnd p.accepted.notEnd hsame)

/-- The laws hold exactly if no sum has too many nodes and the path is well separated. -/
theorem laws_iff (hpool : config.HasMemory) :
    Laws config p q r ↔
      (config.maximumNodeCount = 0 ∨
        p.nodes.length + q.nodes.length + r.nodes.length < config.maximumNodeCount) ∧
      ∀ n ∈ p.nodes, n.isEndType = true → n = .endInstance := by
  have hp := p.fits
  have hq := q.fits
  have hr := r.fits
  constructor
  · intro h
    constructor
    · obtain ⟨pq, qr, pqr, hpq, -, hpqr, -, hvalid⟩ := h.assoc
      rw [Path.bytes, Path.bytes, append_of_accepted p.accepted q.accepted (by omega) (by omega) hpool,
        Option.some.injEq, Option.some.injEq] at hpq
      have hnotEnd : ∀ n ∈ p.nodes ++ q.nodes, n.isEnd = false := fun n hn =>
        (List.mem_append.mp hn).elim (p.accepted.notEnd n) (q.accepted.notEnd n)
      have hlength := length_pathBytes_append p.nodes q.nodes
      have hpqAccepted : Accepted config.maximumNodeCount (p.nodes ++ q.nodes) := by
        grind [append_of_not_accepted]
      rw [← hpq, Path.bytes, append_of_accepted hpqAccepted r.accepted (by omega) (by omega) hpool,
        Option.some.injEq, Option.some.injEq] at hpqr
      have hnotEnd' : ∀ n ∈ p.nodes ++ q.nodes ++ r.nodes, n.isEnd = false := fun n hn =>
        (List.mem_append.mp hn).elim (hnotEnd n) (r.accepted.notEnd n)
      have hlength' := length_pathBytes_append (p.nodes ++ q.nodes) r.nodes
      have hread : pqr.drop 0 = pathBytes (p.nodes ++ q.nodes ++ r.nodes) ++ [] := by
        rw [hpqr, List.append_nil]
        rfl
      obtain ⟨b, hb, hiff⟩ :=
        isDevicePathValid_of_drop config.maximumNodeCount hnotEnd' hread (by omega)
      obtain rfl := Option.some.inj (hb.symm.trans (hvalid pqr (by simp)))
      have hcount := (hiff.mp rfl).count
      rwa [List.length_append, List.length_append] at hcount
    · exact wellSeparated_of_laws h hpool
  · rintro ⟨hcount, hsep⟩
    exact laws_of_condition hpool hcount hsep

/-- A path with one node. -/
def Path.single (n : Node) (hend : n.isEnd = false) (hterminated : n.Terminated) : Path 0 where
  nodes := [n]
  accepted := ⟨by simpa using hend, by simpa using hterminated, Or.inl rfl⟩
  fits := by
    have hfits := n.fits
    rw [length_pathBytes, nodeBytes_cons, nodeBytes_nil, List.append_nil, n.length_bytes]
    omega

/-- Nodes are not counted, and there is always memory. -/
def plentyOfMemory : Config := ⟨0, fun _ => true⟩

/-- A path of two instances without nodes. -/
theorem laws_iff_endInstance :
    ∃ p : Path plentyOfMemory.maximumNodeCount, p.nodes = [.endInstance] ∧
      Laws plentyOfMemory p p p := by
  refine ⟨.single .endInstance (by decide) (by decide), rfl, ?_⟩
  have hpool : plentyOfMemory.HasMemory := fun _ => rfl
  exact (laws_iff hpool).mpr ⟨Or.inl rfl, fun n hn _ => List.mem_singleton.mp hn⟩

/-- The end of an instance has two bytes of data. The path is valid, but nothing is copied. -/
theorem not_laws_longEnd :
    ¬∀ (config : Config) (p q r : Path config.maximumNodeCount), config.HasMemory →
      Laws config p q r := by
  intro h
  have hpool : plentyOfMemory.HasMemory := fun _ => rfl
  obtain ⟨n, hn⟩ : ∃ n : Node, n = ⟨0x7F, 0x01, [0, 0], by decide⟩ := ⟨_, rfl⟩
  have hlaws := h plentyOfMemory (.single n (by rw [hn]; decide) (by rw [hn]; decide))
    (.single .endInstance (by decide) (by decide)) (.single .endInstance (by decide) (by decide))
    hpool
  have hend := wellSeparated_of_laws hlaws hpool n (List.mem_singleton_self n) (by rw [hn]; decide)
  rw [hn] at hend
  exact absurd (congrArg Node.data hend) (by decide)

end Edk2.DevicePath
