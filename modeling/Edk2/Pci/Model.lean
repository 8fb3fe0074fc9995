import Edk2.Base

/-!
# Resources of the PCI bus

`Bus/Pci/PciBusDxe/PciResourceSupport.c`. A device carries what the resource code reads of its
`PCI_IO_DEVICE`, and the list of the devices behind it; a resource node carries its list of
children. The five nodes that `CreateResourceMap` fills are a table over their kinds. Lengths and
alignments are 64-bit values; an alignment is one less than a power of two. The code runs with its
assertions compiled out, and every node is allocated.
-/

namespace Edk2.Pci

inductive PciBarType
  | unknown
  | io16
  | io32
  | mem32
  | pMem32
  | mem64
  | pMem64
  | opRom
deriving DecidableEq, Repr

structure PciBar where
  barType : PciBarType
  barTypeFixed : Bool
  length : ℕ
  alignment : ℕ
deriving DecidableEq, Repr

/-- `IS_PCI_BRIDGE` and `IS_CARDBUS_BRIDGE`. -/
inductive Kind
  | device
  | bridge
  | cardBus
deriving DecidableEq, Repr

/-- The five resource trees. -/
inductive Pool
  | io
  | mem32
  | pMem32
  | mem64
  | pMem64
deriving DecidableEq, Repr

/-- A padding descriptor of one of these trees; `alignment` is `AddrRangeMax`. -/
structure Padding where
  pool : Pool
  addrLen : ℕ
  alignment : ℕ
deriving DecidableEq, Repr

/-- The bits of `Decodes`. -/
structure Decodes where
  mem64 : Bool
  pMem64 : Bool
  pMem32 : Bool
  pMemMemCombine : Bool
deriving DecidableEq, Repr

/-- The fields of `PCI_IO_DEVICE`. -/
structure DeviceInfo where
  /-- The pointer to the device. -/
  id : ℕ
  kind : Kind
  pciBar : List PciBar
  vfPciBar : List PciBar
  romSize : ℕ
  decodes : Decodes
  bridgeIoAlignment : ℕ
  /-- `Parent != NULL`. -/
  parent : Bool
  resourcePaddingDescriptors : List Padding
deriving DecidableEq, Repr

/-- A device and its `ChildList`. -/
inductive PciIoDevice
  | mk (info : DeviceInfo) (children : List PciIoDevice)

def PciIoDevice.info : PciIoDevice → DeviceInfo
  | .mk info _ => info

def PciIoDevice.children : PciIoDevice → List PciIoDevice
  | .mk _ children => children

/-- `PCI_RESOURCE_USAGE`. -/
inductive ResourceUsage
  | typical
  | padding
deriving DecidableEq, Repr

/-- The fields of `PCI_RESOURCE_NODE`. -/
structure NodeInfo where
  pciDev : DeviceInfo
  length : ℕ
  alignment : ℕ
  bar : ℕ
  resType : PciBarType
  virtual : Bool
  resourceUsage : ResourceUsage
  offset : ℕ
deriving DecidableEq, Repr

/-- `PCI_RESOURCE_NODE`. -/
inductive ResourceNode
  | mk (info : NodeInfo) (children : List ResourceNode)

def ResourceNode.info : ResourceNode → NodeInfo
  | .mk info _ => info

def ResourceNode.children : ResourceNode → List ResourceNode
  | .mk _ children => children

/-- What the code finds around it. -/
structure Config where
  /-- `mReserveIsaAliases`, once the policy is determined. -/
  reserveIsaAliases : Bool
  /-- `mReserveVgaAliases`. -/
  reserveVgaAliases : Bool
  /-- `PcdPciDegradeResourceForOptionRom`. -/
  degradeForOptionRom : Bool
  /-- `sizeof (UINTN) <= 4`. -/
  uintn32 : Bool
  /-- `BarTypeFixed` of a bar behind the end of the array. -/
  beyond : Bool
deriving DecidableEq, Repr

/-! ### Sorted lists -/

/-- `Length & Alignment`. -/
def alignRest (info : NodeInfo) : ℕ := info.length &&& info.alignment

/-- `InsertResourceNode`: the node is put in front of the list and moved towards its end. -/
def insertNode (node : ResourceNode) : List ResourceNode → List ResourceNode
  | [] => [node]
  | temp :: rest =>
    if temp.info.alignment < node.info.alignment ∨
        node.info.alignment = temp.info.alignment ∧
          (alignRest node.info = 0 ∨ alignRest temp.info ≤ alignRest node.info) then
      node :: temp :: rest
    else temp :: insertNode node rest

def insertResourceNode (bridge node : ResourceNode) : ResourceNode :=
  .mk bridge.info (insertNode node bridge.children)

/-- The resource nodes of a bridge. -/
abbrev Pools := Pool → ResourceNode

def Pools.insert (p : Pools) (pool : Pool) (node : ResourceNode) : Pools :=
  Function.update p pool (insertResourceNode (p pool) node)

def mergeResourceTree (dst res : Pool) (typeMerge : Bool) (p : Pools) : Pools :=
  let retype (node : ResourceNode) : ResourceNode :=
    if typeMerge then .mk { node.info with resType := (p dst).info.resType } node.children
    else node
  let moved := (p res).children.foldl (fun bridge node => insertResourceNode bridge (retype node))
    (p dst)
  Function.update (Function.update p res (.mk (p res).info [])) dst moved

/-! ### Apertures -/

/-- `ALIGN_VALUE (Value, Alignment + 1)`. -/
def alignValue (value alignment : ℕ) : ℕ :=
  u64 (value + (sub64 (u64 (alignment + 1)) value &&& sub64 (u64 (alignment + 1)) 1))

/-- The alignment of `Aperture` in `CalculateApertureIo16`. -/
def alignAperture (aperture alignment : ℕ) : ℕ :=
  let offset := aperture &&& alignment
  if offset ≠ 0 then u64 (aperture + (alignment + 1) - offset) else aperture

/-- `SkipVGAAperture` and `SkipIsaAliasAperture`: `first` is the first alias of the range, and
`limit` its last one. -/
def skipAperture (first limit start length : ℕ) : ℕ :=
  let startOffset := start &&& 0x3ff
  let limitOffset := sub64 (u64 (start + length)) 1 &&& 0x3ff
  if first ≤ limitOffset then u64 (start - startOffset + limit + 1) else start

/-- `SkipVGAAperture`, with `VGABASE1` and `VGALIMIT2`. -/
def skipVGAAperture (start length : ℕ) : ℕ := skipAperture 0x3b0 0x3df start length

/-- `SkipIsaAliasAperture`, with `ISABASE` and `ISALIMIT`. -/
def skipIsaAliasAperture (start length : ℕ) : ℕ := skipAperture 0x100 0x3ff start length

/-- Where `CalculateApertureIo16` puts a child. -/
def placeIo16 (config : Config) (aperture : ℕ) (info : NodeInfo) : ℕ :=
  let aperture := alignAperture aperture info.alignment
  if info.pciDev.kind = .device then
    if config.reserveIsaAliases then
      alignAperture (skipIsaAliasAperture aperture info.length) info.alignment
    else if config.reserveVgaAliases then
      alignAperture (skipVGAAperture aperture info.length) info.alignment
    else aperture
  else aperture

/-- Where `CalculateResourceAperture` puts a child. -/
def placeMem (aperture : ℕ) (info : NodeInfo) : ℕ := alignValue aperture info.alignment

/-- The offset of a padding node in `CalculateResourceAperture`, and the aperture of the padding. -/
def padMem (padding : ℕ) (info : NodeInfo) : ℕ × ℕ :=
  let offset := alignValue padding info.alignment
  (offset, u64 (offset + info.length))

/-- Set the offset of a node. -/
def ResourceNode.setOffset (node : ResourceNode) (offset : ℕ) : ResourceNode :=
  .mk { node.info with offset := offset } node.children

/-- The loop over the children: `place` is the offset of a child, `pad` the offset of a padding
node and the aperture of the padding. -/
def layoutLoop (place : ℕ → NodeInfo → ℕ) (pad : ℕ → NodeInfo → ℕ × ℕ) :
    ℕ → ℕ → List ResourceNode → List ResourceNode × ℕ × ℕ
  | aperture, padding, [] => ([], aperture, padding)
  | aperture, padding, node :: rest =>
    match node.info.resourceUsage with
    | .typical =>
      let offset := place aperture node.info
      let (rest, apertures) :=
        layoutLoop place pad (u64 (offset + node.info.length)) padding rest
      (node.setOffset offset :: rest, apertures)
    | .padding =>
      let (offset, padding) := pad padding node.info
      let (rest, apertures) := layoutLoop place pad aperture padding rest
      (node.setOffset offset :: rest, apertures)

/-- The alignment of a bridge is adjusted to the one of its first child. -/
def firstAlignment (bridge : NodeInfo) (children : List ResourceNode) : ℕ :=
  match children with
  | [] => bridge.alignment
  | node :: _ =>
    if bridge.alignment < node.info.alignment then node.info.alignment else bridge.alignment

/-- `CalculateApertureIo16`; a padding node keeps its offset. -/
def calculateApertureIo16 (config : Config) (bridge : ResourceNode) : ResourceNode :=
  let (children, aperture, padding) :=
    layoutLoop (placeIo16 config) (fun _ info => (info.offset, info.length)) 0 0 bridge.children
  let length := alignAperture aperture bridge.info.alignment
  .mk { bridge.info with
    length := max length padding, alignment := firstAlignment bridge.info children } children

def calculateResourceAperture (config : Config) (bridge : ResourceNode) : ResourceNode :=
  if bridge.info.resType = .io16 then calculateApertureIo16 config bridge
  else
    let (children, aperture, padding) :=
      layoutLoop placeMem padMem 0 0 bridge.children
    .mk { bridge.info with
      length := max (alignValue aperture bridge.info.alignment)
        (alignValue padding bridge.info.alignment),
      alignment := firstAlignment bridge.info children } children

/-! ### The requests of a device -/

def createResourceNode (pciDev : DeviceInfo) (length alignment bar : ℕ) (resType : PciBarType)
    (resUsage : ResourceUsage) : ResourceNode :=
  .mk ⟨pciDev, length, alignment, bar, resType, false, resUsage, 0⟩ []

def createVfResourceNode (pciDev : DeviceInfo) (length alignment bar : ℕ) (resType : PciBarType)
    (resUsage : ResourceUsage) : ResourceNode :=
  .mk ⟨pciDev, length, alignment, bar, resType, true, resUsage, 0⟩ []

/-- The tree and the resource type of the node for a bar. -/
def barPool : PciBarType → Option (Pool × PciBarType)
  | .mem32 => some (.mem32, .mem32)
  | .opRom => some (.mem32, .opRom)
  | .mem64 => some (.mem64, .mem64)
  | .pMem64 => some (.pMem64, .pMem64)
  | .pMem32 => some (.pMem32, .pMem32)
  | .io16 => some (.io, .io16)
  | .io32 => some (.io, .io16)
  | .unknown => none

/-- The same for a bar of virtual functions. -/
def vfBarPool : PciBarType → Option (Pool × PciBarType)
  | .mem32 => some (.mem32, .mem32)
  | .mem64 => some (.mem64, .mem64)
  | .pMem64 => some (.pMem64, .pMem64)
  | .pMem32 => some (.pMem32, .pMem32)
  | _ => none

/-- The nodes that `GetResourceFromDevice` creates, in order, with their trees. -/
def deviceNodes (pciDev : DeviceInfo) : List (Pool × ResourceNode) :=
  pciDev.pciBar.zipIdx.filterMap (fun (bar, index) =>
    (barPool bar.barType).map fun (pool, resType) =>
      (pool, createResourceNode pciDev bar.length bar.alignment index resType .typical)) ++
  pciDev.vfPciBar.zipIdx.filterMap (fun (bar, index) =>
    (vfBarPool bar.barType).map fun (pool, resType) =>
      (pool, createVfResourceNode pciDev bar.length bar.alignment index resType .typical))

/-- Insert nodes into their trees. -/
def Pools.insertAll (p : Pools) (nodes : List (Pool × ResourceNode)) : Pools :=
  nodes.foldl (fun p (pool, node) => p.insert pool node) p

def getResourceFromDevice (pciDev : DeviceInfo) (p : Pools) : Pools :=
  p.insertAll (deviceNodes pciDev)

/-- The nodes that `ResourcePaddingForCardBusBridge` creates. -/
def cardBusNodes (pciDev : DeviceInfo) : List (Pool × ResourceNode) :=
  [(.mem32, createResourceNode pciDev 0x2000000 0x1ffffff 1 .mem32 .padding),
    (.pMem32, createResourceNode pciDev 0x2000000 0x1ffffff 2 .pMem32 .padding),
    (.io, createResourceNode pciDev 0x100 0xff 3 .io16 .padding),
    (.io, createResourceNode pciDev 0x100 0xff 4 .io16 .padding)]

/-- The resource type of the nodes of a tree. -/
def Pool.resType : Pool → PciBarType
  | .io => .io16
  | .mem32 => .mem32
  | .pMem32 => .pMem32
  | .mem64 => .mem64
  | .pMem64 => .pMem64

/-- The nodes that `ApplyResourcePadding` creates. -/
def paddingNodes (pciDev : DeviceInfo) : List (Pool × ResourceNode) :=
  (pciDev.resourcePaddingDescriptors.filter (·.addrLen ≠ 0)).map fun padding =>
    (padding.pool, createResourceNode pciDev padding.addrLen padding.alignment 0
      padding.pool.resType .padding)

/-! ### Degradation -/

/-- The node belongs to the device and its type may be changed. -/
def degradable (config : Config) (pciDev : DeviceInfo) (node : ResourceNode) : Bool :=
  node.info.pciDev.id == pciDev.id &&
    (node.info.virtual ||
      !((pciDev.pciBar[node.info.bar]?).elim config.beyond PciBar.barTypeFixed))

/-- Move the nodes of a device with an option ROM from one tree to another. -/
def degradeDevice (config : Config) (pciDev : DeviceInfo) (dst res : Pool) (p : Pools) : Pools :=
  let moved := (p res).children.filter (degradable config pciDev)
  let kept := (p res).children.filter (fun node => !degradable config pciDev node)
  let p := Function.update p res (.mk (p res).info kept)
  moved.foldl (fun p node => p.insert dst node) p

/-- `DegradeResource`; `devices` are the children of the bridge. -/
def degradeResource (config : Config) (bridge : DeviceInfo) (devices : List DeviceInfo)
    (p : Pools) : Pools :=
  let p := if config.degradeForOptionRom then
      devices.foldl (fun p pciIoDevice =>
        if pciIoDevice.romSize ≠ 0 then
          degradeDevice config pciIoDevice .pMem32 .pMem64
            (degradeDevice config pciIoDevice .mem32 .mem64 p)
        else p) p
    else p
  let p := if config.uintn32 then
      mergeResourceTree .pMem32 .pMem64 true (mergeResourceTree .mem32 .mem64 true p)
    else
      let p := if !bridge.decodes.mem64 then mergeResourceTree .mem32 .mem64 true p else p
      let p := if !bridge.decodes.pMem64 then mergeResourceTree .pMem32 .pMem64 true p else p
      if !(p .pMem64).children.isEmpty && bridge.parent then
        mergeResourceTree .mem32 .pMem32 true p
      else p
  let p := if !bridge.decodes.pMem32 then mergeResourceTree .mem32 .pMem32 true p else p
  if bridge.decodes.pMemMemCombine then
    mergeResourceTree .mem64 .pMem64 false (mergeResourceTree .mem32 .pMem32 false p)
  else p

/-! ### The resource map -/

/-- The bar index of a resource node of a bridge. -/
def Pool.ppbRange : Pool → ℕ
  | .io => 2
  | .mem32 => 3
  | .pMem32 => 4
  | .pMem64 => 5
  | .mem64 => 0xff

/-- The empty resource nodes of a PCI bridge. -/
def bridgePools (pciDev : DeviceInfo) : Pools := fun pool =>
  createResourceNode pciDev 0 (if pool = .io then pciDev.bridgeIoAlignment else 0xfffff)
    pool.ppbRange pool.resType .typical

def resourceRequestExisted (bridge : ResourceNode) : Bool :=
  !bridge.children.isEmpty || bridge.info.length != 0

/-- Insert the nodes of a bridge that have requests. -/
def insertBridge (bridge p : Pools) : Pools :=
  [Pool.io, .mem32, .pMem32, .mem64, .pMem64].foldl (fun p pool =>
    if resourceRequestExisted (bridge pool) then p.insert pool (bridge pool) else p) p

/-- The end of `CreateResourceMap`: padding, degradation and the apertures. -/
def finishMap (config : Config) (bridge : DeviceInfo) (devices : List DeviceInfo) (p : Pools) :
    Pools :=
  let p := p.insertAll (paddingNodes bridge)
  let p := degradeResource config bridge devices p
  fun pool => calculateResourceAperture config (p pool)

mutual

def createResourceMap (config : Config) : PciIoDevice → Pools → Pools
  | .mk bridge children, p =>
    finishMap config bridge (children.map PciIoDevice.info) (mapDevices config children p)

/-- The loop over the devices behind a bridge. -/
def mapDevices (config : Config) : List PciIoDevice → Pools → Pools
  | [], p => p
  | temp :: rest, p =>
    let p := getResourceFromDevice temp.info p
    let p := if temp.info.kind = .bridge then
        insertBridge (createResourceMap config temp (bridgePools temp.info)) p
      else p
    let p := if temp.info.kind = .cardBus then p.insertAll (cardBusNodes temp.info) else p
    mapDevices config rest p

end

/-- The resource nodes of a root bridge: `PciHostBridgeResourceAllocator` aligns the one for I/O by
4 KB, or by less if the alignments of the bridges are probed. A root bridge asks for memory for
option ROMs through its bar. -/
def rootMap (config : Config) (ioAlignment : ℕ) (rootBridgeDev : PciIoDevice) : Pools :=
  createResourceMap config rootBridgeDev (getResourceFromDevice rootBridgeDev.info fun pool =>
    createResourceNode rootBridgeDev.info 0 (if pool = .io then ioAlignment else 0xfffff) 0
      pool.resType .typical)

/-! ### Programming -/

/-- The address that was written for a node, and kept in `BaseAddress`. -/
structure Assignment where
  info : NodeInfo
  address : ℕ
deriving DecidableEq, Repr

def NodeInfo.assign (info : NodeInfo) (base : ℕ) : List Assignment :=
  [⟨info, u64 (base + info.offset)⟩]

def programVfBar (base : ℕ) (info : NodeInfo) : List Assignment :=
  match (info.pciDev.vfPciBar[info.bar]?).map PciBar.barType with
  | some .mem32 | some .pMem32 | some .mem64 | some .pMem64 => info.assign base
  | _ => []

def programBar (base : ℕ) (info : NodeInfo) : List Assignment :=
  if info.virtual then programVfBar base info
  else match (info.pciDev.pciBar[info.bar]?).map PciBar.barType with
    | none | some .unknown => []
    | some _ => info.assign base

/-- `ProgramP2C`: the bar and the four windows of a CardBus bridge. -/
def programP2C (base : ℕ) (info : NodeInfo) : List Assignment :=
  if info.bar ≤ 4 then info.assign base else []

def programPpbApperture (base : ℕ) (info : NodeInfo) : List Assignment :=
  if info.length = 0 ∨ info.resourceUsage = .padding then []
  else if info.bar ≤ 1 then
    match (info.pciDev.pciBar[info.bar]?).map PciBar.barType with
    | none | some .unknown | some .opRom => []
    | some _ => info.assign base
  else if info.bar ≤ 5 then info.assign base
  else []

mutual

/-- `ProgramResource`: what is assigned, and the status. -/
def programResource (base : ℕ) : ResourceNode → List Assignment × EfiStatus
  | .mk _ children =>
    if base = 2 ^ 64 - 1 then ([], .outOfResources) else programChildren base children

/-- The loop over the children. -/
def programChildren (base : ℕ) : List ResourceNode → List Assignment × EfiStatus
  | [] => ([], .success)
  | node :: rest =>
    match node.info.pciDev.kind with
    | .device =>
      let (assigned, status) := programChildren base rest
      (programBar base node.info ++ assigned, status)
    | .cardBus =>
      let (assigned, status) := programChildren base rest
      (programP2C base node.info ++ assigned, status)
    | .bridge =>
      let (below, status) := programResource (u64 (base + node.info.offset)) node
      if status.isError then (below, status)
      else
        let (assigned, status) := programChildren base rest
        (below ++ programPpbApperture base node.info ++ assigned, status)

end

end Edk2.Pci
