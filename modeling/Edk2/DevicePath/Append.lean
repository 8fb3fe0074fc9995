import Edk2.DevicePath.Valid

/-!
# Sizes, copies and sums of paths

The library finds the end of a path that it has checked. To append is to put the nodes of one path
behind those of the other.
-/

namespace Edk2.DevicePath

open Bytes

variable {buffer rest rest' : List Byte} {d fuel maximum : ℕ} {n n' e : Node}
  {nodes nodes' : List Node} {config : Config}

lemma Node.bytes_inj (h : n.bytes ++ rest = n'.bytes ++ rest') : n = n' ∧ rest = rest' := by
  have hread : (n.bytes ++ rest).drop 0 = n.bytes ++ rest := rfl
  have hrea' : (n.bytes ++ rest).drop 0 = n'.bytes ++ rest' := h
  have hlen := Option.some.inj ((nodeLength_of_drop hread).symm.trans (nodeLength_of_drop hrea'))
  obtain ⟨hbyt, hrest⟩ := List.append_inj h hlen
  refine ⟨?_, hrest⟩
  unfold bytes at hbyt
  simp only [List.cons.injEq] at hbyt
  obtain ⟨htype, hsub, hdata⟩ := hbyt
  obtain ⟨-, hdata⟩ := List.append_inj hdata (by rw [length_field, length_field])
  exact Node.ext htype hsub hdata

lemma pathBytes_inj (hnod : ∀ n ∈ nodes, n.isEnd = false) (hnod' : ∀ n ∈ nodes', n.isEnd = false)
    (h : pathBytes nodes ++ rest = pathBytes nodes' ++ rest') : nodes = nodes' := by
  induction nodes generalizing nodes' with
  | nil =>
    cases nodes' with
    | nil => rfl
    | cons n' nodes' =>
      rw [pathBytes_cons, List.append_assoc] at h
      obtain ⟨rfl, -⟩ := Node.bytes_inj (n := .endEntire) h
      exact absurd (hnod' _ List.mem_cons_self) (by decide)
  | cons n nodes ih =>
    rw [pathBytes_cons, List.append_assoc] at h
    cases nodes' with
    | nil =>
      have hend : n = .endEntire ∧ _ := Node.bytes_inj h
      obtain ⟨rfl, -⟩ := hend
      exact absurd (hnod _ List.mem_cons_self) (by decide)
    | cons n' nodes' =>
      rw [pathBytes_cons, List.append_assoc] at h
      obtain ⟨rfl, hrest⟩ := Node.bytes_inj h
      rw [ih (fun m hm => hnod m (List.mem_cons_of_mem _ hm))
        (fun m hm => hnod' m (List.mem_cons_of_mem _ hm)) hrest]

lemma findEnd_of_drop {isEnd : List Byte → ℕ → Option Bool} {g : Node → Bool}
    (hisE : ∀ {buffer d n rest}, buffer.drop d = Node.bytes n ++ rest → isEnd buffer d = some (g n))
    (hnod : ∀ n ∈ nodes, g n = false) (he : g e = true)
    (hdrop : buffer.drop d = nodeBytes nodes ++ (e.bytes ++ rest)) (hfuel : nodes.length < fuel) :
    findEnd isEnd buffer fuel d = some (d + (nodeBytes nodes).length) := by
  induction nodes generalizing d fuel with
  | nil =>
    obtain ⟨fuel, rfl⟩ : ∃ k, fuel = k + 1 := ⟨fuel - 1, by simp at hfuel; omega⟩
    unfold findEnd
    rw [hisE hdrop, he]
    rfl
  | cons n nodes ih =>
    rw [List.length_cons] at hfuel
    obtain ⟨fuel, rfl⟩ : ∃ k, fuel = k + 1 := ⟨fuel - 1, by omega⟩
    rw [nodeBytes_cons, List.append_assoc] at hdrop
    unfold findEnd nextDevicePathNode
    rw [hisE hdrop, hnod n List.mem_cons_self, nodeLength_of_drop hdrop]
    dsimp only [Option.bind_eq_bind, Option.bind_some]
    rw [if_neg Bool.false_ne_true, ih (fun m hm => hnod m (List.mem_cons_of_mem _ hm))
      (drop_next hdrop) (by omega), nodeBytes_cons, List.length_append, Nat.add_assoc]

lemma drop_nodeBytes (hdrop : buffer.drop d = nodeBytes nodes ++ rest) :
    buffer.drop (d + (nodeBytes nodes).length) = rest := by
  rw [← List.drop_drop, hdrop, List.drop_left]

lemma valid_of_accepted (h : Accepted maximum nodes)
    (hdrop : buffer.drop d = pathBytes nodes ++ rest) (hlt : (pathBytes nodes).length < 2 ^ 64) :
    isDevicePathValid maximum buffer d 0 = some true := by
  obtain ⟨b, hval, hiff⟩ := isDevicePathValid_of_drop maximum h.notEnd hdrop hlt
  rw [hval, hiff.mpr h]

lemma size_of_accepted (h : Accepted maximum nodes)
    (hdrop : buffer.drop d = pathBytes nodes ++ rest) (hlt : (pathBytes nodes).length < 2 ^ 64) :
    getDevicePathSize maximum buffer d = some (pathBytes nodes).length := by
  have hend : buffer.drop d = nodeBytes nodes ++ (Node.endEntire.bytes ++ rest) := by
    rw [hdrop, pathBytes, List.append_assoc]
  have hfind : findEnd isDevicePathEnd buffer (buffer.length + 1) d =
      some (d + (nodeBytes nodes).length) :=
    findEnd_of_drop isEnd_of_drop h.notEnd rfl hend (lt_of_drop hdrop)
  have hlen : devicePathNodeLength buffer (d + (nodeBytes nodes).length) = some 4 :=
    nodeLength_of_drop (drop_nodeBytes hend)
  unfold getDevicePathSize
  rw [valid_of_accepted h hdrop hlt]
  dsimp only [Option.bind_eq_bind, Option.bind_some]
  rw [if_pos rfl, hfind]
  dsimp only [Option.bind_some]
  rw [hlen]
  dsimp only [Option.bind_some]
  rw [length_pathBytes, Nat.add_sub_cancel_left]

/-- There is always memory. -/
def Config.HasMemory (config : Config) : Prop := ∀ size, config.pool size = true

lemma duplicate_of_accepted (h : Accepted config.maximumNodeCount nodes)
    (hdrop : buffer.drop d = pathBytes nodes ++ rest) (hlt : (pathBytes nodes).length < 2 ^ 64)
    (hpool : config.HasMemory) :
    duplicateDevicePath config buffer d = some (some (pathBytes nodes)) := by
  unfold duplicateDevicePath
  rw [size_of_accepted h hdrop hlt]
  dsimp only [Option.bind_eq_bind, Option.bind_some]
  rw [length_pathBytes, if_neg (by omega), if_pos (hpool _), hdrop, ← length_pathBytes,
    List.take_left]

/-- A path that is valid and in memory. -/
structure Path (maximum : ℕ) where
  nodes : List Node
  accepted : Accepted maximum nodes
  fits : (pathBytes nodes).length < 2 ^ 60

def Path.bytes (p : Path maximum) : List Byte := pathBytes p.nodes

lemma append_of_accepted (h : Accepted config.maximumNodeCount nodes)
    (h' : Accepted config.maximumNodeCount nodes') (hlt : (pathBytes nodes).length < 2 ^ 64)
    (hlt' : (pathBytes nodes').length < 2 ^ 64) (hpool : config.HasMemory) :
    appendDevicePath config (some (pathBytes nodes)) (some (pathBytes nodes')) =
      some (some (pathBytes (nodes ++ nodes'))) := by
  have hread : (pathBytes nodes).drop 0 = pathBytes nodes ++ [] := by simp
  have hrea' : (pathBytes nodes').drop 0 = pathBytes nodes' ++ [] := by simp
  unfold appendDevicePath
  dsimp only
  rw [valid_of_accepted h hread hlt, valid_of_accepted h' hrea' hlt',
    size_of_accepted h hread hlt, size_of_accepted h' hrea' hlt']
  dsimp only [Option.bind_eq_bind, Option.bind_some]
  rw [if_neg (by decide), if_neg (by decide), if_pos (hpool _), List.take_length, List.take_length,
    pathBytes_append]
  have htake : (pathBytes nodes).take ((pathBytes nodes).length - 4) = nodeBytes nodes := by
    rw [length_pathBytes, Nat.add_sub_cancel]
    exact List.take_left
  rw [htake]

lemma append_of_not_accepted (hnod : ∀ n ∈ nodes, n.isEnd = false)
    (h : ¬Accepted config.maximumNodeCount nodes) (hlt : (pathBytes nodes).length < 2 ^ 64)
    (second : List Byte) :
    appendDevicePath config (some (pathBytes nodes)) (some second) = some none := by
  have hread : (pathBytes nodes).drop 0 = pathBytes nodes ++ [] := by simp
  obtain ⟨b, hval, hiff⟩ :=
    isDevicePathValid_of_drop config.maximumNodeCount hnod hread hlt
  have hb : b = false := Bool.eq_false_iff.mpr fun htrue => h (hiff.mp htrue)
  unfold appendDevicePath
  dsimp only
  rw [hval, hb]
  rfl

lemma appendInstance_of_accepted (h : Accepted config.maximumNodeCount nodes)
    (h' : Accepted config.maximumNodeCount nodes') (hlt : (pathBytes nodes).length < 2 ^ 64)
    (hlt' : (pathBytes nodes').length < 2 ^ 64) (hpool : config.HasMemory) :
    appendDevicePathInstance config (some (pathBytes nodes)) (some (pathBytes nodes')) =
      some (some (pathBytes (nodes ++ .endInstance :: nodes'))) := by
  have hread : (pathBytes nodes).drop 0 = pathBytes nodes ++ [] := by simp
  have hrea' : (pathBytes nodes').drop 0 = pathBytes nodes' ++ [] := by simp
  have hend : (pathBytes nodes).drop 0 = nodeBytes nodes ++ (Node.endEntire.bytes ++ []) := by
    simp [pathBytes]
  have hfind : findEnd isDevicePathEnd (pathBytes nodes) ((pathBytes nodes).length + 1) 0 =
      some (0 + (nodeBytes nodes).length) :=
    findEnd_of_drop isEnd_of_drop h.notEnd rfl hend (lt_of_drop hread)
  have hset : (pathBytes nodes).set ((nodeBytes nodes).length + 1) 0x01 =
      nodeBytes nodes ++ Node.endInstance.bytes := by
    have hone : (nodeBytes nodes).length + 1 - (nodeBytes nodes).length = 1 := by omega
    unfold pathBytes
    rw [List.set_append_right _ _ (Nat.le_add_right _ 1), hone]
    rfl
  have hnext : nextDevicePathNode (nodeBytes nodes ++ Node.endInstance.bytes)
      (nodeBytes nodes).length = some ((nodeBytes nodes).length + 4) := by
    have hdrop : (nodeBytes nodes ++ Node.endInstance.bytes).drop (nodeBytes nodes).length =
        Node.endInstance.bytes ++ [] := by simp
    unfold nextDevicePathNode
    rw [nodeLength_of_drop hdrop]
    rfl
  unfold appendDevicePathInstance
  dsimp only
  rw [valid_of_accepted h hread hlt, valid_of_accepted h' hrea' hlt',
    size_of_accepted h hread hlt, size_of_accepted h' hrea' hlt']
  dsimp only [Option.bind_eq_bind, Option.bind_some]
  rw [if_neg (by decide), if_neg (by decide), if_pos (hpool _), List.take_length, List.take_length,
    hfind, Nat.zero_add]
  dsimp only [Option.bind_some]
  rw [hset, hnext]
  dsimp only [Option.bind_some]
  have hlen : (nodeBytes nodes).length + 4 = (nodeBytes nodes ++ Node.endInstance.bytes).length := by
    simp [Node.endInstance]
  rw [hlen, List.take_length, pathBytes_append, pathBytes_cons, List.append_assoc]

end Edk2.DevicePath

/-!
## Instances

A path of several instances has nodes for the end of an instance in it. `GetNextDevicePathInstance`
copies one instance after the other, and `AppendDevicePathInstance` puts them together again. Both
take a node for the end of an instance to have no data and the subtype of an instance, which
`IsDevicePathValid` does not check. Nor does it help that only the operands of a sum are checked:
the sum may have too many nodes.
-/

namespace Edk2.DevicePath

open Bytes

variable {rest : List Byte} {maximum : ℕ} {n e : Node}
  {nodes nodes' inst : List Node}

/-- The instances of a path. -/
def instances : List Node → List (List Node)
  | [] => [[]]
  | n :: nodes =>
    if n.isEndType then [] :: instances nodes
    else
      match instances nodes with
      | [] => [[n]]
      | i :: is => (n :: i) :: is

/-- Instances, with nodes for the end of an instance between them. -/
def joinInstances : List (List Node) → List Node
  | [] => []
  | i :: is => is.foldl (fun p i => p ++ .endInstance :: i) i

lemma instances_of_none (h : ∀ n ∈ nodes, n.isEndType = false) : instances nodes = [nodes] := by
  induction nodes with
  | nil => rfl
  | cons n nodes ih =>
    unfold instances
    rw [h n List.mem_cons_self, ih fun m hm => h m (List.mem_cons_of_mem _ hm)]
    rfl

lemma instances_append (h : ∀ n ∈ inst, n.isEndType = false) (he : e.isEndType = true) :
    instances (inst ++ e :: nodes) = inst :: instances nodes := by
  induction inst with
  | nil =>
    rw [List.nil_append, instances, if_pos he]
  | cons n inst ih =>
    rw [List.cons_append, instances, h n List.mem_cons_self,
      ih fun m hm => h m (List.mem_cons_of_mem _ hm)]
    rfl

lemma exists_instance (nodes : List Node) :
    (∀ n ∈ nodes, n.isEndType = false) ∨ ∃ inst e rest, nodes = inst ++ e :: rest ∧
      (∀ n ∈ inst, n.isEndType = false) ∧ e.isEndType = true := by
  induction nodes with
  | nil => exact Or.inl fun n hn => by cases hn
  | cons n nodes ih =>
    cases htype : n.isEndType with
    | true => exact Or.inr ⟨[], n, nodes, rfl, fun m hm => (by cases hm), htype⟩
    | false =>
      grind

lemma foldl_append (p q : List Node) (is : List (List Node)) :
    is.foldl (fun p i => p ++ Node.endInstance :: i) (p ++ q) =
      p ++ is.foldl (fun p i => p ++ .endInstance :: i) q := by
  induction is generalizing q with
  | nil => rfl
  | cons i is ih =>
    rw [List.foldl_cons, List.foldl_cons, List.append_assoc]
    exact ih _

lemma joinInstances_cons {i j : List Node} {is : List (List Node)} :
    joinInstances (i :: j :: is) = i ++ .endInstance :: joinInstances (j :: is) := by
  have hjoin := foldl_append (i ++ [.endInstance]) j is
  rw [List.append_assoc, List.append_assoc] at hjoin
  exact hjoin

lemma instances_ne_nil (nodes : List Node) : instances nodes ≠ [] := by
  cases nodes with
  | nil => exact List.cons_ne_nil _ _
  | cons n nodes =>
    unfold instances
    split_ifs
    · exact List.cons_ne_nil _ _
    · cases instances nodes <;> exact List.cons_ne_nil _ _

lemma join_append (h : ∀ n ∈ inst, n.isEndType = false) (he : e.isEndType = true) :
    joinInstances (instances (inst ++ e :: nodes)) =
      inst ++ .endInstance :: joinInstances (instances nodes) := by
  obtain ⟨i, is, hi⟩ := List.exists_cons_of_ne_nil (instances_ne_nil nodes)
  rw [instances_append h he, hi, joinInstances_cons]

lemma join_of_none (h : ∀ n ∈ nodes, n.isEndType = false) :
    joinInstances (instances nodes) = nodes := by
  rw [instances_of_none h]
  rfl

/-- Every end of an instance has no data, and the right subtype. -/
def WellSeparated (nodes : List Node) : Prop :=
  ∀ n ∈ nodes, n.isEndType = true → n = .endInstance

lemma join_instances_iff : joinInstances (instances nodes) = nodes ↔ WellSeparated nodes := by
  induction hlen : nodes.length using Nat.strong_induction_on generalizing nodes with
  | _ length ih =>
    rcases exists_instance nodes with hnone | ⟨inst, e, rest, rfl, hinst, he⟩
    · refine iff_of_true (join_of_none hnone) fun n hn htype => ?_
      rw [hnone n hn] at htype
      cases htype
    · have hrest : joinInstances (instances rest) = rest ↔ WellSeparated rest :=
        ih rest.length (by rw [← hlen]; simp; omega) rfl
      rw [join_append hinst he]
      constructor
      · intro hjoin
        obtain ⟨hend, hjoin⟩ := List.cons.inj (List.append_cancel_left hjoin)
        have hsep := hrest.mp hjoin
        intro n hn htype
        rcases List.mem_append.mp hn with hn | hn
        · rw [hinst n hn] at htype
          cases htype
        · rcases List.mem_cons.mp hn with rfl | hn
          · exact hend.symm
          · exact hsep n hn htype
      · intro hsep
        rw [hsep e (by simp) he, hrest.mpr fun n hn => hsep n (by simp [hn])]

lemma join_instances_of_accepted (h : Accepted maximum nodes) :
    Accepted maximum (joinInstances (instances nodes)) ∧
      (pathBytes (joinInstances (instances nodes))).length ≤ (pathBytes nodes).length := by
  have hnod : (∀ n ∈ joinInstances (instances nodes), n.isEnd = false ∧ n.Terminated) ∧
      (joinInstances (instances nodes)).length = nodes.length ∧
      (pathBytes (joinInstances (instances nodes))).length ≤ (pathBytes nodes).length := by
    have hall : ∀ n ∈ nodes, n.isEnd = false ∧ n.Terminated :=
      fun n hn => ⟨h.notEnd n hn, h.terminated n hn⟩
    clear h
    induction hlen : nodes.length using Nat.strong_induction_on generalizing nodes with
    | _ length ih =>
      rcases exists_instance nodes with hnone | ⟨inst, e, rest, rfl, hinst, he⟩
      · rw [join_of_none hnone]
        exact ⟨hall, hlen, le_rfl⟩
      · have hrest : ∀ n ∈ rest, n.isEnd = false ∧ n.Terminated := fun n hn => hall n (by simp [hn])
        obtain ⟨hrest, hcnt, hbyt⟩ := ih rest.length (by rw [← hlen]; simp; omega) hrest rfl
        rw [join_append hinst he]
        refine ⟨fun n hn => ?_, ?_, ?_⟩
        · rcases List.mem_append.mp hn with hn | hn
          · exact hall n (by simp [hn])
          · rcases List.mem_cons.mp hn with rfl | hn
            · exact ⟨by decide, by decide⟩
            · exact hrest n hn
        · rw [← hlen]
          simp [hcnt]
        · simp [pathBytes_append, pathBytes_cons, List.length_append, Node.length_bytes,
            Node.endInstance, List.length_nil]
          omega
  obtain ⟨hall, hcnt, hbyt⟩ := hnod
  refine ⟨⟨fun n hn => (hall n hn).1, fun n hn => (hall n hn).2, ?_⟩, hbyt⟩
  rw [hcnt]
  exact h.count

lemma Accepted.left (h : Accepted maximum (nodes ++ nodes')) : Accepted maximum nodes := by
  refine ⟨fun n hn => h.notEnd n (List.mem_append_left _ hn),
    fun n hn => h.terminated n (List.mem_append_left _ hn), ?_⟩
  have hcnt := h.count
  rw [List.length_append] at hcnt
  omega

lemma Accepted.right (h : Accepted maximum (nodes ++ nodes')) : Accepted maximum nodes' := by
  refine ⟨fun n hn => h.notEnd n (List.mem_append_right _ hn),
    fun n hn => h.terminated n (List.mem_append_right _ hn), ?_⟩
  have hcnt := h.count
  rw [List.length_append] at hcnt
  omega

lemma Accepted.tail (h : Accepted maximum (n :: nodes)) : Accepted maximum nodes :=
  (show Accepted maximum ([n] ++ nodes) from h).right

end Edk2.DevicePath
