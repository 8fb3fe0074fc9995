import Edk2.Pci.Tree

/-!
# The requests in the trees

Every bar that asks for resources is one node without children in one of the five trees. Merging and
degrading move nodes from tree to tree, and lose none.
-/

namespace Edk2.Pci

variable {config : Config}

/-- The request of a bar. -/
structure Request where
  pciDev : DeviceInfo
  virtual : Bool
  bar : ℕ
  length : ℕ
  alignment : ℕ
deriving DecidableEq, Repr

def NodeInfo.request (info : NodeInfo) : Request :=
  ⟨info.pciDev, info.virtual, info.bar, info.length, info.alignment⟩

/-- The bars of a device that ask for resources. -/
def DeviceInfo.requests (pciDev : DeviceInfo) : List Request :=
  pciDev.pciBar.zipIdx.filterMap (fun (bar, index) =>
    if bar.barType = .unknown then none
    else some ⟨pciDev, false, index, bar.length, bar.alignment⟩) ++
  pciDev.vfPciBar.zipIdx.filterMap (fun (bar, index) =>
    if vfBarPool bar.barType = none then none
    else some ⟨pciDev, true, index, bar.length, bar.alignment⟩)

mutual

/-- The requests of a device and of those behind it. The cards behind a CardBus bridge share its
windows, which are padding. -/
def PciIoDevice.requests : PciIoDevice → List Request
  | .mk info children =>
    info.requests ++ if info.kind = .bridge then requestsBehind children else []

def requestsBehind : List PciIoDevice → List Request
  | [] => []
  | device :: rest => device.requests ++ requestsBehind rest

end

lemma PciIoDevice.requests_eq (device : PciIoDevice) : device.requests =
    device.info.requests ++ if device.info.kind = .bridge then requestsBehind device.children
      else [] := by
  cases device with
  | mk info children =>
    rw [PciIoDevice.requests]
    rfl

mutual

/-- The requests in a tree: its nodes without children, unless they are padding. -/
def ResourceNode.requests : ResourceNode → List Request
  | .mk info children =>
    if children.isEmpty then if info.resourceUsage = .typical then [info.request] else []
    else requestsBelow children

def requestsBelow : List ResourceNode → List Request
  | [] => []
  | node :: rest => node.requests ++ requestsBelow rest

end

/-- How often a request is in the five trees. -/
def Pools.count (p : Pools) (r : Request) : ℕ :=
  (requestsBelow (p .io).children).count r + (requestsBelow (p .mem32).children).count r +
    (requestsBelow (p .pMem32).children).count r + (requestsBelow (p .mem64).children).count r +
    (requestsBelow (p .pMem64).children).count r

lemma requestsBelow_perm {nodes nodes' : List ResourceNode} (h : nodes.Perm nodes') :
    (requestsBelow nodes).Perm (requestsBelow nodes') := by
  induction h with
  | nil => exact .nil
  | cons node _ ih =>
    simp only [requestsBelow]
    exact ih.append_left _
  | swap node node' rest =>
    simp only [requestsBelow, ← List.append_assoc]
    exact List.perm_append_comm.append_right _
  | trans _ _ ih ih' => exact ih.trans ih'

lemma Moved.requests {node node' : ResourceNode} (h : Moved node node') :
    node'.requests = node.requests := by
  obtain ⟨offset, resType, -, rfl⟩ := h
  cases node with
  | mk info children =>
    rw [ResourceNode.requests, ResourceNode.requests]
    rfl

lemma requestsBelow_same {nodes nodes' : List ResourceNode}
    (h : List.Forall₂ SameButOffset nodes nodes') : requestsBelow nodes' = requestsBelow nodes := by
  induction h with
  | nil => rfl
  | @cons node _ _ _ hnode _ ih =>
    obtain ⟨offset, rfl⟩ := hnode
    simp only [requestsBelow, (moved_setOffset node offset).requests, ih]

lemma requests_of_children {node : ResourceNode} (h : node.children ≠ []) :
    node.requests = requestsBelow node.children := by
  cases node with
  | mk info children =>
    rw [ResourceNode.requests, if_neg (by simpa using h)]
    rfl

/-! ### Moving nodes between the trees -/

section Count

variable {p : Pools} {pool dst res : Pool} {r : Request}

lemma count_update (p : Pools) (pool : Pool) (bridge : ResourceNode) (r : Request) :
    Pools.count (Function.update p pool bridge) r + (requestsBelow (p pool).children).count r =
      p.count r + (requestsBelow bridge.children).count r := by
  cases pool <;> simp [Pools.count] <;> omega

lemma count_insertResourceNode (bridge node : ResourceNode) (r : Request) :
    (requestsBelow (insertResourceNode bridge node).children).count r =
      (requestsBelow bridge.children).count r + node.requests.count r := by
  have hperm := requestsBelow_perm (insertNode_perm node bridge.children)
  rw [insertResourceNode, ResourceNode.children_mk, hperm.count_eq, requestsBelow,
    List.count_append, Nat.add_comm]

lemma count_insert (p : Pools) (pool : Pool) (node : ResourceNode) (r : Request) :
    (p.insert pool node).count r = p.count r + node.requests.count r := by
  have hupd := count_update p pool (insertResourceNode (p pool) node) r
  rw [count_insertResourceNode] at hupd
  unfold Pools.insert
  omega

lemma count_insertAll (p : Pools) (nodes : List (Pool × ResourceNode)) (r : Request) :
    (p.insertAll nodes).count r = p.count r + (requestsBelow (nodes.map Prod.snd)).count r := by
  induction nodes generalizing p with
  | nil => rfl
  | cons x rest ih =>
    have heq : p.insertAll (x :: rest) = (p.insert x.1 x.2).insertAll rest := rfl
    rw [heq, ih, count_insert, List.map_cons, requestsBelow, List.count_append, Nat.add_assoc]

lemma count_foldl_insert (bridge : ResourceNode) (nodes : List ResourceNode)
    (f : ResourceNode → ResourceNode) (hf : ∀ node ∈ nodes, (f node).requests = node.requests)
    (r : Request) :
    (requestsBelow (nodes.foldl (fun bridge node => insertResourceNode bridge (f node))
      bridge).children).count r =
      (requestsBelow bridge.children).count r + (requestsBelow nodes).count r := by
  induction nodes generalizing bridge with
  | nil => rfl
  | cons node rest ih =>
    rw [List.foldl_cons, ih _ fun c hc => hf c (List.mem_cons_of_mem _ hc),
      count_insertResourceNode, hf node List.mem_cons_self, requestsBelow, List.count_append,
      Nat.add_assoc]

lemma count_mergeResourceTree (hne : dst ≠ res) (typeMerge : Bool) (p : Pools) (r : Request) :
    (mergeResourceTree dst res typeMerge p).count r = p.count r := by
  have hres := count_update p res (.mk (p res).info []) r
  rw [ResourceNode.children_mk, requestsBelow, List.count_nil] at hres
  unfold mergeResourceTree
  apply Nat.add_right_cancel ((count_update _ dst _ r).trans _)
  rw [Function.update_of_ne hne, count_foldl_insert _ _ _ fun node _ => ?_]
  · omega
  · cases node with
    | mk info children =>
      split_ifs
      · rw [ResourceNode.requests, ResourceNode.requests]
        rfl
      · rfl

lemma count_filter (f : ResourceNode → Bool) (nodes : List ResourceNode) (r : Request) :
    (requestsBelow (nodes.filter f)).count r +
      (requestsBelow (nodes.filter fun node => !f node)).count r =
      (requestsBelow nodes).count r := by
  rw [← List.count_append]
  induction nodes with
  | nil => rfl
  | cons node rest ih =>
    grind [requestsBelow]

lemma count_degradeDevice (pciDev : DeviceInfo) (p : Pools) (r : Request) :
    (degradeDevice config pciDev dst res p).count r = p.count r := by
  have hres := count_update p res (.mk (p res).info
    ((p res).children.filter fun node => !degradable config pciDev node)) r
  have hfil := count_filter (degradable config pciDev) (p res).children r
  rw [degradeDevice_eq, count_insertAll, List.map_map]
  rw [ResourceNode.children_mk] at hres
  have hid : (Prod.snd ∘ fun node : ResourceNode => (dst, node)) = id := rfl
  rw [hid, List.map_id]
  omega

lemma count_degradeResource (bridge : DeviceInfo) (devices : List DeviceInfo) (p : Pools)
    (r : Request) : (degradeResource config bridge devices p).count r = p.count r :=
  degradeResource_induction (motive := fun q => q.count r = p.count r) bridge devices
    (fun _ _ typeMerge q _ _ hne hq => (count_mergeResourceTree hne typeMerge q r).trans hq)
    (fun _ _ pciDev q _ _ _ hq => (count_degradeDevice pciDev q r).trans hq) rfl

lemma count_calculate (p : Pools) (r : Request) :
    Pools.count (fun pool => calculateResourceAperture config (p pool)) r = p.count r := by
  have hsame : ∀ pool, requestsBelow (calculateResourceAperture config (p pool)).children =
      requestsBelow (p pool).children := by
    intro pool
    obtain ⟨place, pad, length, heq, -⟩ := calculateResourceAperture_spec config (p pool)
    rw [heq]
    exact requestsBelow_same (layoutLoop_same place pad 0 0 _)
  unfold Pools.count
  simp only [hsame]

lemma requestsBelow_append (nodes nodes' : List ResourceNode) :
    requestsBelow (nodes ++ nodes') = requestsBelow nodes ++ requestsBelow nodes' := by
  induction nodes with
  | nil => rfl
  | cons node rest ih => rw [List.cons_append, requestsBelow, requestsBelow, ih, List.append_assoc]

lemma requestsBelow_filterMap (f : PciBar × ℕ → Option (Pool × ResourceNode))
    (g : PciBar × ℕ → Option Request)
    (h : ∀ a, (f a).elim [] (fun x => x.2.requests) = (g a).toList) (bars : List (PciBar × ℕ)) :
    requestsBelow ((bars.filterMap f).map Prod.snd) = bars.filterMap g := by
  induction bars with
  | nil => rfl
  | cons a rest ih =>
    have ha := h a
    rw [List.filterMap_cons, List.filterMap_cons]
    cases hf : f a with
    | none => cases hg : g a <;> simp_all
    | some x => cases hg : g a <;> simp_all [requestsBelow]

lemma requestsBelow_deviceNodes (pciDev : DeviceInfo) :
    requestsBelow ((deviceNodes pciDev).map Prod.snd) = pciDev.requests := by
  unfold deviceNodes DeviceInfo.requests
  rw [List.map_append, requestsBelow_append]
  congr 1
  · apply requestsBelow_filterMap
    rintro ⟨bar, index⟩
    cases hbar : bar.barType <;>
      simp [hbar, barPool, createResourceNode, ResourceNode.requests, NodeInfo.request]
  · apply requestsBelow_filterMap
    rintro ⟨bar, index⟩
    cases hbar : bar.barType <;>
      simp [hbar, vfBarPool, createVfResourceNode, ResourceNode.requests, NodeInfo.request]

lemma requestsBelow_paddingNodes (pciDev : DeviceInfo) :
    requestsBelow ((paddingNodes pciDev).map Prod.snd) = [] := by
  unfold paddingNodes
  generalize pciDev.resourcePaddingDescriptors.filter _ = descriptors
  induction descriptors with
  | nil => rfl
  | cons descriptor rest ih =>
    grind [requestsBelow, createResourceNode, ResourceNode.requests]

lemma requestsBelow_cardBusNodes (pciDev : DeviceInfo) :
    requestsBelow ((cardBusNodes pciDev).map Prod.snd) = [] := by
  simp [cardBusNodes, createResourceNode, requestsBelow, ResourceNode.requests]

lemma count_insertBridge {base : Pool → NodeInfo} {bridge : Pools}
    (hbri : ∀ pool, Mapped config base pool (bridge pool)) (p : Pools) (r : Request) :
    (insertBridge bridge p).count r = p.count r + bridge.count r := by
  have hstep : ∀ pool (q : Pools),
      Pools.count (if resourceRequestExisted (bridge pool) then q.insert pool (bridge pool)
        else q) r = q.count r + (requestsBelow (bridge pool).children).count r := by
    intro pool q
    by_cases hnil : (bridge pool).children = []
    · have hno : resourceRequestExisted (bridge pool) = false := by
        simp [resourceRequestExisted, hnil, (hbri pool).empty hnil]
      rw [hno, if_neg Bool.false_ne_true, hnil]
      rfl
    · grind [resourceRequestExisted, count_insert, requests_of_children]
  unfold insertBridge
  simp only [List.foldl_cons, List.foldl_nil, hstep]
  rw [Pools.count.eq_def bridge]
  omega

lemma count_finishMap (bridge : DeviceInfo) (devices : List DeviceInfo) (p : Pools) (r : Request) :
    (finishMap config bridge devices p).count r = p.count r := by
  unfold finishMap
  dsimp only
  rw [count_calculate, count_degradeResource, count_insertAll, requestsBelow_paddingNodes,
    List.count_nil, Nat.add_zero]

end Count

mutual

theorem count_createResourceMap {device : PciIoDevice} (h : device.All DeviceInfo.WellFormed)
    (p : Pools) (r : Request) :
    (createResourceMap config device p).count r =
      p.count r + (requestsBehind device.children).count r := by
  match device with
  | .mk bridge children =>
    obtain ⟨-, hchi⟩ := h
    rw [createResourceMap, count_finishMap, count_mapDevices hchi]
    rfl

theorem count_mapDevices {devices : List PciIoDevice}
    (h : ∀ d ∈ devices, d.All DeviceInfo.WellFormed) (p : Pools) (r : Request) :
    (mapDevices config devices p).count r = p.count r + (requestsBehind devices).count r := by
  match devices with
  | [] => rw [mapDevices, requestsBehind, List.count_nil, Nat.add_zero]
  | temp :: rest =>
    have htemp := h temp List.mem_cons_self
    have hbars : (getResourceFromDevice temp.info p).count r =
        p.count r + temp.info.requests.count r := by
      rw [getResourceFromDevice, count_insertAll, requestsBelow_deviceNodes]
    have hzero : (bridgePools temp.info).count r = 0 := rfl
    have hbri : (if temp.info.kind = .bridge then
        insertBridge (createResourceMap config temp (bridgePools temp.info))
          (getResourceFromDevice temp.info p)
        else getResourceFromDevice temp.info p).count r = p.count r + temp.requests.count r := by
      rw [PciIoDevice.requests_eq, List.count_append]
      split_ifs with hkind
      · rw [count_insertBridge (Filled.createResourceMap (filled_bridgePools htemp.root) htemp),
          count_createResourceMap htemp]
        omega
      · rw [hbars, List.count_nil, Nat.add_zero]
    have hcard : ∀ q : Pools, (if temp.info.kind = .cardBus then
        q.insertAll (cardBusNodes temp.info) else q).count r = q.count r := by
      intro q
      split_ifs
      · rw [count_insertAll, requestsBelow_cardBusNodes, List.count_nil, Nat.add_zero]
      · rfl
    rw [mapDevices, count_mapDevices fun d hd => h d (List.mem_cons_of_mem _ hd), requestsBehind,
      List.count_append, hcard, hbri, Nat.add_assoc]

end

lemma count_rootMap {rootBridgeDev : PciIoDevice} (h : rootBridgeDev.All DeviceInfo.WellFormed)
    (ioAlignment : ℕ) (r : Request) :
    (rootMap config ioAlignment rootBridgeDev).count r =
      (rootBridgeDev.info.requests ++ requestsBehind rootBridgeDev.children).count r := by
  rw [rootMap, count_createResourceMap h, getResourceFromDevice, count_insertAll,
    requestsBelow_deviceNodes, List.count_append]
  congr 1
  exact Nat.zero_add _

end Edk2.Pci
