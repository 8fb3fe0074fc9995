import Edk2.Pci.Layout
import Mathlib.Data.List.Forall2

/-!
# The resource trees

`InsertResourceNode` keeps the children of a bridge sorted, the larger alignments first, and so do
`MergeResourceTree` and `DegradeResource`. Hence the alignment of the first child, to which
`CalculateResourceAperture` adjusts the one of the bridge, is the largest, and every node of the
trees that `CreateResourceMap` leaves behind is laid out.
-/

namespace Edk2.Pci

open Align

variable {config : Config}

/-- What the enumeration guarantees for a device: a bar of length zero is no bar, a bridge has two
bars, and a CardBus bridge has one. -/
structure DeviceInfo.WellFormed (pciDev : DeviceInfo) : Prop where
  bars : ∀ bar ∈ pciDev.pciBar, bar.barType ≠ .unknown → IsMask bar.alignment ∧ 0 < bar.length
  vfBars : ∀ bar ∈ pciDev.vfPciBar, vfBarPool bar.barType ≠ none →
    IsMask bar.alignment ∧ 0 < bar.length
  padding : ∀ padding ∈ pciDev.resourcePaddingDescriptors, IsMask padding.alignment
  ioAlignment : IsMask pciDev.bridgeIoAlignment
  bridge : pciDev.kind = .bridge →
    pciDev.pciBar.length ≤ 2 ∧ pciDev.vfPciBar = [] ∧ ∀ bar ∈ pciDev.pciBar, bar.barType ≠ .opRom
  cardBus : pciDev.kind = .cardBus → pciDev.pciBar.length ≤ 1 ∧ pciDev.vfPciBar = []

/-- A property of all devices of a tree. -/
inductive PciIoDevice.All (P : DeviceInfo → Prop) : PciIoDevice → Prop
  | mk {info : DeviceInfo} {children : List PciIoDevice} (here : P info)
    (below : ∀ c ∈ children, PciIoDevice.All P c) : PciIoDevice.All P (.mk info children)

lemma PciIoDevice.All.root {P : DeviceInfo → Prop} {device : PciIoDevice} (h : device.All P) :
    P device.info := by
  obtain ⟨here, -⟩ := h
  exact here

/-- A property of all nodes of a tree. -/
inductive ResourceNode.All (P : NodeInfo → List ResourceNode → Prop) : ResourceNode → Prop
  | mk {info : NodeInfo} {children : List ResourceNode} (here : P info children)
    (below : ∀ c ∈ children, ResourceNode.All P c) : ResourceNode.All P (.mk info children)

@[simp] lemma ResourceNode.info_mk (info : NodeInfo) (children : List ResourceNode) :
    (ResourceNode.mk info children).info = info := rfl

@[simp] lemma ResourceNode.children_mk (info : NodeInfo) (children : List ResourceNode) :
    (ResourceNode.mk info children).children = children := rfl

section All

variable {P Q : NodeInfo → List ResourceNode → Prop} {node : ResourceNode}

lemma ResourceNode.All.root (h : node.All P) : P node.info node.children := by
  obtain ⟨here, -⟩ := h
  exact here

lemma ResourceNode.All.child (h : node.All P) : ∀ c ∈ node.children, c.All P := by
  obtain ⟨-, below⟩ := h
  exact below

lemma ResourceNode.All.mono (h : node.All P) (himp : ∀ info children, P info children →
    Q info children) : node.All Q := by
  induction h with
  | mk here _ ih => exact .mk (himp _ _ here) ih

lemma ResourceNode.All.and (h : node.All P) (h' : node.All Q) :
    node.All fun info children => P info children ∧ Q info children := by
  induction h with
  | mk here _ ih => exact .mk ⟨here, h'.root⟩ fun c hc => ih c hc (h'.child c hc)

end All

/-- The layout in natural numbers for a resource type. -/
def ideal (config : Config) (resType : PciBarType) : ℕ → NodeInfo → ℕ :=
  if resType = .io16 then idealIo16 config else idealMem

lemma relocatable_ideal (config : Config) (resType : PciBarType) :
    Relocatable (ideal config resType) := by
  unfold ideal
  split_ifs
  · exact relocatable_idealIo16
  · exact relocatable_idealMem

/-- The aligned sums of a bridge are below `2 ^ 64`. -/
def Fits (config : Config) (info : NodeInfo) (children : List ResourceNode) : Prop :=
  SumsFit (ideal config info.resType) info.alignment 0 (children.map ResourceNode.info) ∧
    (info.resType ≠ .io16 → PadsFit info.alignment 0 (children.map ResourceNode.info))

/-- The children of a node are laid out behind each other, and the alignment of the node is the
largest. -/
structure Laid (config : Config) (info : NodeInfo) (children : List ResourceNode) : Prop where
  mask : IsMask info.alignment
  le : ∀ c ∈ children, c.info.alignment ≤ info.alignment
  placed : Fits config info children → ∃ final ≤ info.length,
    Placed (ideal config info.resType) 0 (children.map ResourceNode.info) final
  padded : Fits config info children → ∀ c ∈ children, c.info.resourceUsage = .padding →
    c.info.offset = 0 ∧ 0 < info.length ∨ c.info.offset + c.info.length ≤ info.length

/-- The node is for a bar of its device. -/
structure IsBar (info : NodeInfo) : Prop where
  known : info.virtual = false → ∃ bar, info.pciDev.pciBar[info.bar]? = some bar ∧
    bar.barType ≠ .unknown ∧ (info.pciDev.kind = .bridge → bar.barType ≠ .opRom)
  vfKnown : info.virtual = true →
    ∃ bar, info.pciDev.vfPciBar[info.bar]? = some bar ∧ vfBarPool bar.barType ≠ none
  bridge : info.pciDev.kind = .bridge → info.virtual = false ∧ info.bar ≤ 1
  cardBus : info.pciDev.kind = .cardBus → info.bar ≤ 4

/-- The nodes with children are those of bridges, the others are bars or padding. -/
structure Shaped (info : NodeInfo) (children : List ResourceNode) : Prop where
  pos : children = [] → 0 < info.length
  leaf : children = [] → info.resourceUsage = .typical → IsBar info
  branch : children ≠ [] →
    info.pciDev.kind = .bridge ∧ 2 ≤ info.bar ∧ info.resourceUsage = .typical

lemma Shaped.nil_of_padding {info : NodeInfo} {children : List ResourceNode}
    (h : Shaped info children) (hpad : info.resourceUsage = .padding) : children = [] := by
  by_contra hbra
  rw [(h.branch hbra).2.2] at hpad
  cases hpad

lemma Shaped.pos_of_padding {info : NodeInfo} {children : List ResourceNode}
    (h : Shaped info children) (hpad : info.resourceUsage = .padding) : 0 < info.length :=
  h.pos (h.nil_of_padding hpad)

/-- A node below a bridge. -/
def Sound (config : Config) (info : NodeInfo) (children : List ResourceNode) : Prop :=
  Laid config info children ∧ Shaped info children

/-- What happens to a node after it was laid out: its offset is set, and its type may change to
another memory type. -/
def Moved (node node' : ResourceNode) : Prop :=
  ∃ offset resType, (resType = PciBarType.io16 ↔ node.info.resType = .io16) ∧
    node' = .mk { node.info with
      offset := offset, resType := resType } node.children

lemma Moved.sound {node node' : ResourceNode} (h : Moved node node')
    (hnode : node.All (Sound config)) : node'.All (Sound config) := by
  obtain ⟨offset, resType, htype, rfl⟩ := h
  obtain ⟨hlaid, hsha⟩ := hnode.root
  have hide : ideal config resType = ideal config node.info.resType := by simp only [ideal, htype]
  have hfits : Fits config { node.info with
        offset := offset, resType := resType } node.children =
      Fits config node.info node.children := by
    simp only [Fits, hide, ne_eq, htype]
  refine .mk ⟨⟨hlaid.mask, hlaid.le, ?_, ?_⟩,
    ⟨hsha.pos, fun hnil htyp => ?_, hsha.branch⟩⟩ hnode.child
  · rw [hfits]
    simp only [hide]
    exact hlaid.placed
  · rw [hfits]
    exact hlaid.padded
  · obtain ⟨known, vfKnown, bridge, cardBus⟩ := hsha.leaf hnil htyp
    exact ⟨known, vfKnown, bridge, cardBus⟩

lemma Moved.refl (node : ResourceNode) : Moved node node := by
  cases node with
  | mk info children => exact ⟨info.offset, info.resType, Iff.rfl, rfl⟩

lemma moved_setOffset (node : ResourceNode) (offset : ℕ) : Moved node (node.setOffset offset) :=
  ⟨offset, node.info.resType, Iff.rfl, rfl⟩

/-- The larger alignments come first. -/
def SortedByAlignment (children : List ResourceNode) : Prop :=
  children.Pairwise fun c c' => c'.info.alignment ≤ c.info.alignment

lemma insertNode_perm (node : ResourceNode) (children : List ResourceNode) :
    (insertNode node children).Perm (node :: children) := by
  fun_induction insertNode node children with
  | case1 => rfl
  | case2 => rfl
  | case3 temp rest h ih => exact (ih.cons temp).trans (List.Perm.swap node temp rest)

lemma insertNode_sorted {node : ResourceNode} {children : List ResourceNode}
    (h : SortedByAlignment children) : SortedByAlignment (insertNode node children) := by
  fun_induction insertNode node children with
  | case1 => exact List.pairwise_singleton _ _
  | case2 temp rest hle =>
    refine List.pairwise_cons.mpr ⟨fun c hc => ?_, h⟩
    have htemp : temp.info.alignment ≤ node.info.alignment := by omega
    rcases List.mem_cons.mp hc with rfl | hc
    · exact htemp
    · exact (List.rel_of_pairwise_cons h hc).trans htemp
  | case3 temp rest hle ih =>
    refine List.pairwise_cons.mpr ⟨fun c hc => ?_, ih h.of_cons⟩
    rcases List.mem_cons.mp ((insertNode_perm node rest).mem_iff.mp hc) with rfl | hc
    · omega
    · exact List.rel_of_pairwise_cons h hc

/-! ### Filled trees -/

/-- A node in one of the five trees, before the bridge is laid out. -/
structure Child (config : Config) (pool : Pool) (node : ResourceNode) : Prop where
  resType : node.info.resType = .io16 ↔ pool = .io
  fresh : node.info.resourceUsage = .padding → node.info.offset = 0
  sound : node.All (Sound config)

/-- A resource node of a bridge whose children are not laid out yet; `base` is what the bridge
started with. -/
structure FilledNode (config : Config) (base : Pool → NodeInfo) (pool : Pool)
    (bridge : ResourceNode) : Prop where
  info : bridge.info = base pool
  mask : IsMask bridge.info.alignment
  resType : bridge.info.resType = pool.resType
  sorted : SortedByAlignment bridge.children
  child : ∀ c ∈ bridge.children, Child config pool c

def Filled (config : Config) (base : Pool → NodeInfo) (p : Pools) : Prop :=
  ∀ pool, FilledNode config base pool (p pool)

section Filled

variable {base : Pool → NodeInfo} {p : Pools} {pool dst res : Pool} {bridge node : ResourceNode}

lemma FilledNode.insert (h : FilledNode config base pool bridge) (hnode : Child config pool node) :
    FilledNode config base pool (insertResourceNode bridge node) := by
  refine ⟨h.info, h.mask, h.resType, insertNode_sorted h.sorted, fun c hc => ?_⟩
  rcases List.mem_cons.mp ((insertNode_perm node bridge.children).mem_iff.mp hc) with rfl | hc
  · exact hnode
  · exact h.child c hc

lemma FilledNode.foldl_insert (h : FilledNode config base pool bridge) (nodes : List ResourceNode)
    (f : ResourceNode → ResourceNode) (hnod : ∀ node ∈ nodes, Child config pool (f node)) :
    FilledNode config base pool
      (nodes.foldl (fun bridge node => insertResourceNode bridge (f node)) bridge) := by
  induction nodes generalizing bridge with
  | nil => exact h
  | cons node rest ih =>
    exact ih (h.insert (hnod node List.mem_cons_self))
      fun c hc => hnod c (List.mem_cons_of_mem _ hc)

lemma FilledNode.sublist (h : FilledNode config base pool bridge) {children : List ResourceNode}
    (hsub : children.Sublist bridge.children) :
    FilledNode config base pool (.mk bridge.info children) :=
  ⟨h.info, h.mask, h.resType, h.sorted.sublist hsub, fun c hc => h.child c (hsub.subset hc)⟩

lemma Filled.update (h : Filled config base p) (hbri : FilledNode config base pool bridge) :
    Filled config base (Function.update p pool bridge) := by
  intro pool'
  by_cases heq : pool' = pool
  · rw [heq, Function.update_self]
    exact hbri
  · rw [Function.update_of_ne heq]
    exact h pool'

lemma Filled.insert (h : Filled config base p) (hnode : Child config pool node) :
    Filled config base (p.insert pool node) := h.update ((h pool).insert hnode)

lemma Filled.insertAll (h : Filled config base p) (nodes : List (Pool × ResourceNode))
    (hnod : ∀ x ∈ nodes, Child config x.1 x.2) : Filled config base (p.insertAll nodes) := by
  induction nodes generalizing p with
  | nil => exact h
  | cons x rest ih =>
    exact ih (h.insert (hnod x List.mem_cons_self)) fun y hy => hnod y (List.mem_cons_of_mem _ hy)

lemma Child.move {node' : ResourceNode} (h : Child config res node) (hdst : dst ≠ .io)
    (hres : res ≠ .io) (hmov : Moved node node')
    (hoff : node'.info.offset = node.info.offset) : Child config dst node' := by
  have hsou := hmov.sound h.sound
  obtain ⟨offset, resType, htype, rfl⟩ := hmov
  have hnode := h.resType
  refine ⟨?_, fun hpad => ?_, hsou⟩
  · simp_all
  · rw [hoff]
    exact h.fresh hpad

lemma resType_ne_io16 (h : pool ≠ .io) : pool.resType ≠ .io16 := by
  cases pool <;> simp_all [Pool.resType]

lemma Filled.mergeResourceTree (h : Filled config base p) (hdst : dst ≠ .io) (hres : res ≠ .io)
    (typeMerge : Bool) : Filled config base (mergeResourceTree dst res typeMerge p) := by
  have hmov : ∀ node ∈ (p res).children, Moved node
      (if typeMerge then .mk { node.info with resType := (p dst).info.resType } node.children
        else node) := by
    intro node hnode
    split_ifs
    · refine ⟨node.info.offset, (p dst).info.resType, ?_, rfl⟩
      rw [(h dst).resType, ((h res).child node hnode).resType]
      simp [hres, resType_ne_io16 hdst]
    · exact Moved.refl node
  apply (h.update ((h res).sublist (List.nil_sublist _))).update
  exact (h dst).foldl_insert _ _ fun node hnode =>
    ((h res).child node hnode).move hdst hres (hmov node hnode) (by split_ifs <;> rfl)

lemma degradeDevice_eq (config : Config) (pciDev : DeviceInfo) (dst res : Pool) (p : Pools) :
    degradeDevice config pciDev dst res p =
      Pools.insertAll (Function.update p res (.mk (p res).info
        ((p res).children.filter fun node => !degradable config pciDev node)))
      (((p res).children.filter (degradable config pciDev)).map fun node => (dst, node)) := by
  unfold degradeDevice Pools.insertAll
  rw [List.foldl_map]

lemma Filled.degradeDevice (h : Filled config base p) (hdst : dst ≠ .io) (hres : res ≠ .io)
    (pciDev : DeviceInfo) : Filled config base (degradeDevice config pciDev dst res p) := by
  rw [degradeDevice_eq]
  apply (h.update ((h res).sublist List.filter_sublist)).insertAll
  intro x hx
  obtain ⟨node, hnode, rfl⟩ := List.mem_map.mp hx
  exact ((h res).child node (List.mem_filter.mp hnode).1).move hdst hres (Moved.refl node) rfl

lemma degradeResource_induction {motive : Pools → Prop} (bridge : DeviceInfo)
    (devices : List DeviceInfo)
    (hmer : ∀ dst res typeMerge q, dst ≠ .io → res ≠ .io → dst ≠ res → motive q →
      motive (mergeResourceTree dst res typeMerge q))
    (hdeg : ∀ dst res pciDev q, dst ≠ .io → res ≠ .io → dst ≠ res → motive q →
      motive (degradeDevice config pciDev dst res q))
    (h : motive p) : motive (degradeResource config bridge devices p) := by
  have hdev : ∀ q, motive q →
      motive (devices.foldl (fun p pciIoDevice => if pciIoDevice.romSize ≠ 0 then
        degradeDevice config pciIoDevice .pMem32 .pMem64
          (degradeDevice config pciIoDevice .mem32 .mem64 p) else p) q) := by
    induction devices with
    | nil => exact fun q hq => hq
    | cons device rest ih =>
      grind
  have hif : ∀ (dst res : Pool) (typeMerge : Bool) (c : Prop) [Decidable c] (q : Pools),
      dst ≠ .io → res ≠ .io → dst ≠ res → motive q →
      motive (if c then mergeResourceTree dst res typeMerge q else q) := by
    intro dst res typeMerge c _ q hdst hres hne hq
    split_ifs
    · exact hmer _ _ _ _ hdst hres hne hq
    · exact hq
  have hcas : ∀ (c : Prop) [Decidable c] (q r : Pools), motive q → motive r →
      motive (if c then q else r) := by
    intro c _ q r hq hr
    split_ifs
    · exact hq
    · exact hr
  unfold degradeResource
  dsimp only
  generalize hq : (if config.degradeForOptionRom = true then _ else p) = q
  have hmot : motive q := hq ▸ hcas _ _ _ (hdev p h) h
  clear hq
  generalize hr : (if config.uintn32 = true then _ else _) = r
  have hmot' : motive r := by
    grind
  clear hr
  have hlast := hif .mem32 .pMem32 true (!bridge.decodes.pMem32) r (by decide) (by decide)
    (by decide) hmot'
  apply hcas
  · grind
  · exact hlast

lemma Filled.degradeResource (h : Filled config base p) (bridge : DeviceInfo)
    (devices : List DeviceInfo) : Filled config base (degradeResource config bridge devices p) :=
  degradeResource_induction bridge devices
    (fun _ _ typeMerge _ hdst hres _ hq => hq.mergeResourceTree hdst hres typeMerge)
    (fun _ _ pciDev _ hdst hres _ hq => hq.degradeDevice hdst hres pciDev) h

end Filled

/-! ### Apertures -/

lemma forall₂_map_alignment {children children' : List ResourceNode}
    (h : List.Forall₂ SameButOffset children children') :
    children'.map (fun c => c.info.alignment) = children.map fun c => c.info.alignment := by
  induction h with
  | nil => rfl
  | cons hnode _ ih =>
    obtain ⟨offset, rfl⟩ := hnode
    simp only [List.map_cons, setOffset_info, ih]

lemma SameButOffset.exists_mem {children children' : List ResourceNode}
    (h : List.Forall₂ SameButOffset children children') :
    ∀ c' ∈ children', ∃ c ∈ children, SameButOffset c c' := by
  intro c' hc'
  induction h with
  | nil => cases hc'
  | @cons node node' rest rest' hnode _ ih =>
    grind

/-- The two loops have one shape: they place the children as the ideal layout does, and the bridge
is at least as long as the aperture. -/
lemma calculateResourceAperture_spec (config : Config) (bridge : ResourceNode) :
    ∃ place pad length, let loop := layoutLoop place pad 0 0 bridge.children
      calculateResourceAperture config bridge = .mk { bridge.info with
        length := length, alignment := firstAlignment bridge.info loop.1 } loop.1 ∧
      (∀ aperture info, IsMask info.alignment → aperture < 2 ^ 64 →
        StepFits (ideal config bridge.info.resType) aperture info →
        place aperture info = ideal config bridge.info.resType aperture info) ∧
      (IsMask bridge.info.alignment → roundUp loop.2.1 (bridge.info.alignment + 1) < 2 ^ 64 →
        loop.2.1 ≤ length) ∧
      (bridge.children = [] → IsMask bridge.info.alignment → length = 0) ∧
      (IsMask bridge.info.alignment → (∀ c ∈ bridge.children, IsMask c.info.alignment) →
        (∀ c ∈ bridge.children, c.info.resourceUsage = .padding →
          c.info.offset = 0 ∧ 0 < c.info.length) →
        (bridge.info.resType ≠ .io16 →
          PadsFit bridge.info.alignment 0 (bridge.children.map ResourceNode.info)) →
        ∀ c ∈ loop.1, c.info.resourceUsage = .padding →
          c.info.offset = 0 ∧ 0 < length ∨ c.info.offset + c.info.length ≤ length) := by
  unfold calculateResourceAperture
  by_cases hio : bridge.info.resType = .io16
  · rw [if_pos hio]
    refine ⟨placeIo16 config, fun _ info => (info.offset, info.length), _, rfl, ?_, ?_, ?_, ?_⟩
    · intro aperture info hmask _ hfits
      rw [ideal, if_pos hio] at hfits ⊢
      exact placeIo16_eq hmask hfits
    · grind [alignAperture_eq, le_roundUp]
    · intro hnil _
      rw [hnil]
      simp [layoutLoop, alignAperture]
    · intro _ _ hpads _ c hc hpad
      refine Or.inl ⟨layoutLoop_io_pads 0 0 (fun c hc h => (hpads c hc h).1) c hc hpad, ?_⟩
      obtain ⟨c', hc', offset, rfl⟩ := SameButOffset.exists_mem (layoutLoop_same _ _ _ _ _) c hc
      exact lt_of_lt_of_le (layoutLoop_io_pos 0 (fun c hc h => (hpads c hc h).2)
        (Or.inr ⟨c', hc', hpad⟩)) (le_max_right _ _)
  · rw [if_neg hio]
    refine ⟨placeMem, padMem, _, rfl, ?_, ?_, ?_, ?_⟩
    · intro aperture info hmask hape hfits
      rw [ideal, if_neg hio] at hfits ⊢
      exact placeMem_eq hmask hape hfits
    · grind [alignValue_eq, le_roundUp]
    · intro hnil hmask
      have hzero : roundUp 0 (bridge.info.alignment + 1) = 0 := roundUp_of_dvd ⟨0, rfl⟩
      rw [hnil]
      simp only [layoutLoop]
      rw [alignValue_eq hmask (by decide) (by rw [hzero]; decide), hzero, max_self]
    · intro hmask hmas _ hfits c hc hpad
      obtain ⟨-, hrou, hpads⟩ := layoutLoop_pads 0 (by decide) hmas (hfits hio)
      have hlt := (le_roundUp _ _).trans_lt hrou
      refine Or.inr ((hpads c hc hpad).trans ?_)
      rw [alignValue_eq hmask hlt hrou]
      exact (le_roundUp _ _).trans (le_max_right _ _)

lemma le_firstAlignment (bridge : NodeInfo) {children : List ResourceNode}
    (h : SortedByAlignment children) :
    bridge.alignment ≤ firstAlignment bridge children ∧
      ∀ c ∈ children, c.info.alignment ≤ firstAlignment bridge children := by
  cases children with
  | nil => exact ⟨le_rfl, by simp⟩
  | cons node rest =>
    have hfst : bridge.alignment ≤ firstAlignment bridge (node :: rest) ∧
        node.info.alignment ≤ firstAlignment bridge (node :: rest) := by
      unfold firstAlignment
      dsimp only
      split_ifs <;> omega
    refine ⟨hfst.1, fun c hc => ?_⟩
    rcases List.mem_cons.mp hc with rfl | hc
    · exact hfst.2
    · exact (List.rel_of_pairwise_cons h hc).trans hfst.2

lemma isMask_firstAlignment {bridge : NodeInfo} {children : List ResourceNode}
    (h : IsMask bridge.alignment) (hchi : ∀ c ∈ children, IsMask c.info.alignment) :
    IsMask (firstAlignment bridge children) := by
  cases children with
  | nil => exact h
  | cons node rest =>
    grind [firstAlignment]

/-- A resource node of a bridge that is laid out. -/
structure Mapped (config : Config) (base : Pool → NodeInfo) (pool : Pool) (bridge : ResourceNode) :
    Prop where
  pciDev : bridge.info.pciDev = (base pool).pciDev
  bar : bridge.info.bar = (base pool).bar
  resType : bridge.info.resType = pool.resType
  usage : bridge.info.resourceUsage = (base pool).resourceUsage
  laid : Laid config bridge.info bridge.children
  child : ∀ c ∈ bridge.children, c.All (Sound config)
  empty : bridge.children = [] → bridge.info.length = 0

lemma FilledNode.calculate {base : Pool → NodeInfo} {pool : Pool} {bridge : ResourceNode}
    (h : FilledNode config base pool bridge) :
    Mapped config base pool (calculateResourceAperture config bridge) := by
  obtain ⟨place, pad, length, heq, hplac, hlen, hzero, hpads⟩ :=
    calculateResourceAperture_spec config bridge
  have hsame := layoutLoop_same place pad 0 0 bridge.children
  have hmas : ∀ c ∈ bridge.children, IsMask c.info.alignment :=
    fun c hc => (h.child c hc).sound.root.1.mask
  have hpla : ∀ alignment, SumsFit (ideal config bridge.info.resType) alignment 0
      (bridge.children.map ResourceNode.info) →
      Placed (ideal config bridge.info.resType) 0
        ((layoutLoop place pad 0 0 bridge.children).1.map ResourceNode.info)
        (layoutLoop place pad 0 0 bridge.children).2.1 ∧
      roundUp (layoutLoop place pad 0 0 bridge.children).2.1 (alignment + 1) < 2 ^ 64 :=
    fun _ hfits => layoutLoop_placed (relocatable_ideal config _) hplac 0 (by decide) hmas hfits
  rw [heq]
  generalize layoutLoop place pad 0 0 bridge.children = loop at *
  have hmas' : ∀ c ∈ loop.1, IsMask c.info.alignment := by
    intro c hc
    obtain ⟨c', hc', offset, rfl⟩ := SameButOffset.exists_mem hsame c hc
    exact hmas c' hc'
  have hsor : SortedByAlignment loop.1 := by
    have := h.sorted
    unfold SortedByAlignment at this ⊢
    rw [← List.pairwise_map (R := fun a a' => a' ≤ a)] at this ⊢
    rw [forall₂_map_alignment hsame]
    exact this
  have hmask := isMask_firstAlignment h.mask hmas'
  obtain ⟨hle, hles⟩ := le_firstAlignment bridge.info hsor
  have hdev : bridge.info.pciDev = (base pool).pciDev := by rw [h.info]
  have hbar : bridge.info.bar = (base pool).bar := by rw [h.info]
  have husa : bridge.info.resourceUsage = (base pool).resourceUsage := by rw [h.info]
  refine ⟨hdev, hbar, h.resType, husa, ⟨hmask, hles, fun hfits => ?_, fun hfits => ?_⟩,
    fun c hc => ?_, fun hnil => ?_⟩
  · obtain ⟨hpla, hrou⟩ := hpla _
      ((sumsFit_congr (relocatable_ideal config bridge.info.resType) hsame).mp hfits.1)
    refine ⟨loop.2.1, hlen h.mask (lt_of_le_of_lt ?_ hrou), hpla⟩
    apply roundUp_le (Nat.succ_pos _) (le_roundUp _ _)
    exact (h.mask.dvd_of_le hmask hle).trans (dvd_roundUp (Nat.succ_pos _) _)
  · apply hpads h.mask hmas fun c hc hpad =>
      ⟨(h.child c hc).fresh hpad, (h.child c hc).sound.root.2.pos_of_padding hpad⟩
    intro hio
    exact ((padsFit_congr hsame).mp (hfits.2 hio)).mono h.mask hmask hle
  · obtain ⟨c', hc', offset, rfl⟩ := SameButOffset.exists_mem hsame c hc
    exact (moved_setOffset c' offset).sound (h.child c' hc').sound
  · rw [ResourceNode.children_mk] at hnil
    rw [hnil] at hsame
    exact hzero (List.forall₂_nil_right_iff.mp hsame) h.mask

lemma child_leaf {pool : Pool} {info : NodeInfo} (htype : info.resType = .io16 ↔ pool = .io)
    (hmask : IsMask info.alignment) (hpos : 0 < info.length) (hoff : info.offset = 0)
    (hbar : info.resourceUsage = .typical → IsBar info) : Child config pool (.mk info []) := by
  refine ⟨htype, fun _ => hoff, .mk ⟨⟨hmask, by simp, fun _ => ⟨0, Nat.zero_le _, rfl⟩, by simp⟩,
    fun _ => hpos, fun _ => hbar, ?_⟩ (by simp)⟩
  simp

lemma resType_eq_io16 (pool : Pool) : pool.resType = .io16 ↔ pool = .io := by
  cases pool <;> simp [Pool.resType]

lemma barPool_resType {barType resType : PciBarType} {pool : Pool}
    (h : barPool barType = some (pool, resType)) :
    (resType = .io16 ↔ pool = .io) ∧ barType ≠ .unknown := by
  cases barType <;> simp [barPool] at h <;> obtain ⟨rfl, rfl⟩ := h <;> simp

lemma vfBarPool_resType {barType resType : PciBarType} {pool : Pool}
    (h : vfBarPool barType = some (pool, resType)) : resType = .io16 ↔ pool = .io := by
  cases barType <;> simp [vfBarPool] at h <;> obtain ⟨rfl, rfl⟩ := h <;> simp

lemma DeviceInfo.WellFormed.deviceNodes {pciDev : DeviceInfo} (h : pciDev.WellFormed) :
    ∀ x ∈ deviceNodes pciDev, Child config x.1 x.2 := by
  intro x hx
  rcases List.mem_append.mp hx with hx | hx
  · obtain ⟨⟨bar, index⟩, hmem, hx⟩ := List.mem_filterMap.mp hx
    obtain ⟨⟨pool, resType⟩, hpool, rfl⟩ := Option.map_eq_some_iff.mp hx
    have hget : pciDev.pciBar[index]? = some bar := List.mem_zipIdx_iff_getElem?.mp hmem
    obtain ⟨htype, hkno⟩ := barPool_resType hpool
    obtain ⟨hmask, hpos⟩ := h.bars bar (List.mem_of_getElem? hget) hkno
    have hind : index < pciDev.pciBar.length := (List.getElem?_eq_some_iff.mp hget).1
    refine child_leaf htype hmask hpos rfl fun _ => ⟨fun _ => ⟨bar, hget, hkno, fun hkind => ?_⟩,
      fun hvir => ?_, fun hkind => ⟨rfl, ?_⟩, fun hkind => ?_⟩
    · exact (h.bridge hkind).2.2 bar (List.mem_of_getElem? hget)
    · cases hvir
    · have := (h.bridge hkind).1
      dsimp only
      omega
    · have := (h.cardBus hkind).1
      dsimp only
      omega
  · obtain ⟨⟨bar, index⟩, hmem, hx⟩ := List.mem_filterMap.mp hx
    obtain ⟨⟨pool, resType⟩, hpool, rfl⟩ := Option.map_eq_some_iff.mp hx
    have hget : pciDev.vfPciBar[index]? = some bar := List.mem_zipIdx_iff_getElem?.mp hmem
    have hkno : vfBarPool bar.barType ≠ none := by
      rw [hpool]
      simp
    obtain ⟨hmask, hpos⟩ := h.vfBars bar (List.mem_of_getElem? hget) hkno
    have hind : index < pciDev.vfPciBar.length := (List.getElem?_eq_some_iff.mp hget).1
    refine child_leaf (vfBarPool_resType hpool) hmask hpos rfl fun _ => ⟨fun hvir => ?_,
      fun _ => ⟨bar, hget, hkno⟩, fun hkind => ?_, fun hkind => ?_⟩
    · cases hvir
    · simp [(h.bridge hkind).2.1] at hind
    · simp [(h.cardBus hkind).2] at hind

lemma DeviceInfo.WellFormed.paddingNodes {pciDev : DeviceInfo} (h : pciDev.WellFormed) :
    ∀ x ∈ paddingNodes pciDev, Child config x.1 x.2 := by
  intro x hx
  obtain ⟨padding, hmem, rfl⟩ := List.mem_map.mp hx
  obtain ⟨hmem, hlen⟩ := List.mem_filter.mp hmem
  exact child_leaf (resType_eq_io16 _) (h.padding padding hmem)
    (Nat.pos_of_ne_zero (by simpa using hlen)) rfl (by simp)

lemma child_cardBusNodes (pciDev : DeviceInfo) :
    ∀ x ∈ cardBusNodes pciDev, Child config x.1 x.2 := by
  have hmem : IsMask 0x1ffffff := ⟨25, by decide, by decide⟩
  have hio : IsMask 0xff := ⟨8, by decide, by decide⟩
  simp only [cardBusNodes, List.forall_mem_cons]
  refine ⟨?_, ?_, ?_, ?_, by simp⟩
  · exact child_leaf (by simp) hmem (Nat.succ_pos _) rfl (by simp)
  · exact child_leaf (by simp) hmem (Nat.succ_pos _) rfl (by simp)
  · exact child_leaf (by simp) hio (Nat.succ_pos _) rfl (by simp)
  · exact child_leaf (by simp) hio (Nat.succ_pos _) rfl (by simp)

lemma Mapped.node {pciDev : DeviceInfo} {pool : Pool} {bridge : ResourceNode}
    (h : Mapped config (fun pool => (bridgePools pciDev pool).info) pool bridge)
    (hkind : pciDev.kind = .bridge) (hexi : resourceRequestExisted bridge = true) :
    Child config pool bridge := by
  have hchi : bridge.children ≠ [] := by
    intro hnil
    simp [resourceRequestExisted, hnil, h.empty hnil] at hexi
  have hbar : 2 ≤ bridge.info.bar := by
    rw [h.bar]
    cases pool <;> simp [bridgePools, createResourceNode, Pool.ppbRange]
  refine ⟨by rw [h.resType, resType_eq_io16],
    by simp [h.usage, bridgePools, createResourceNode], ?_⟩
  cases bridge with
  | mk info children =>
    refine .mk ⟨h.laid, fun hnil => absurd hnil hchi, fun hnil => absurd hnil hchi,
      fun _ => ⟨?_, hbar, h.usage⟩⟩
      fun c hc => h.child c hc
    rw [show info.pciDev = pciDev from h.pciDev, hkind]

lemma Filled.insertBridge {base : Pool → NodeInfo} {bridge p : Pools} {pciDev : DeviceInfo}
    (h : Filled config base p)
    (hbri : ∀ pool, Mapped config (fun pool => (bridgePools pciDev pool).info) pool (bridge pool))
    (hkind : pciDev.kind = .bridge) : Filled config base (insertBridge bridge p) := by
  unfold Pci.insertBridge
  generalize [Pool.io, .mem32, .pMem32, .mem64, .pMem64] = pools
  induction pools generalizing p with
  | nil => exact h
  | cons pool rest ih =>
    rw [List.foldl_cons]
    apply ih
    split_ifs with hexi
    · exact h.insert ((hbri pool).node hkind hexi)
    · exact h

lemma filled_of_empty {p : Pools} (hchi : ∀ pool, (p pool).children = [])
    (htype : ∀ pool, (p pool).info.resType = pool.resType)
    (hmask : ∀ pool, IsMask (p pool).info.alignment) :
    Filled config (fun pool => (p pool).info) p := by
  intro pool
  refine ⟨rfl, hmask pool, htype pool, ?_, ?_⟩
  · rw [hchi]
    exact List.Pairwise.nil
  · rw [hchi]
    simp

lemma filled_bridgePools {pciDev : DeviceInfo} (h : pciDev.WellFormed) :
    Filled config (fun pool => (bridgePools pciDev pool).info) (bridgePools pciDev) := by
  refine filled_of_empty (fun _ => rfl) (fun _ => rfl) fun pool => ?_
  simp only [bridgePools, createResourceNode, ResourceNode.info_mk]
  split_ifs
  · exact h.ioAlignment
  · exact ⟨20, by decide, by decide⟩

lemma Filled.finishMap {base : Pool → NodeInfo} {p : Pools} {bridge : DeviceInfo}
    (h : Filled config base p) (hbri : bridge.WellFormed) (devices : List DeviceInfo)
    (pool : Pool) : Mapped config base pool (finishMap config bridge devices p pool) :=
  ((h.insertAll _ hbri.paddingNodes).degradeResource bridge devices pool).calculate

mutual

/-- `CreateResourceMap` lays out the trees of a bridge. -/
theorem Filled.createResourceMap {base : Pool → NodeInfo} {p : Pools} {device : PciIoDevice}
    (h : Filled config base p) (hdev : device.All DeviceInfo.WellFormed) (pool : Pool) :
    Mapped config base pool (createResourceMap config device p pool) := by
  match device with
  | .mk bridge children =>
    obtain ⟨hbri, hchi⟩ := hdev
    rw [Pci.createResourceMap]
    exact (Filled.mapDevices h hchi).finishMap hbri _ pool

theorem Filled.mapDevices {base : Pool → NodeInfo} {p : Pools} {devices : List PciIoDevice}
    (h : Filled config base p) (hdev : ∀ d ∈ devices, d.All DeviceInfo.WellFormed) :
    Filled config base (mapDevices config devices p) := by
  match devices with
  | [] =>
    rw [Pci.mapDevices]
    exact h
  | temp :: rest =>
    have htemp := hdev temp List.mem_cons_self
    have hwell := htemp.root
    have hbars := h.insertAll _ hwell.deviceNodes
    have hinn : Filled config base (if temp.info.kind = .bridge then
        Pci.insertBridge (Pci.createResourceMap config temp (bridgePools temp.info))
          (getResourceFromDevice temp.info p)
        else getResourceFromDevice temp.info p) := by
      split_ifs with hkind
      · exact hbars.insertBridge (Filled.createResourceMap (filled_bridgePools hwell) htemp) hkind
      · exact hbars
    rw [Pci.mapDevices]
    apply Filled.mapDevices _ fun d hd => hdev d (List.mem_cons_of_mem _ hd)
    split_ifs at hinn ⊢
    all_goals first | exact hinn | exact hinn.insertAll _ (child_cardBusNodes _)

end

/-- The nodes that the root bridge starts with. -/
def rootInfo (ioAlignment : ℕ) (rootBridgeDev : DeviceInfo) (pool : Pool) : NodeInfo :=
  (createResourceNode rootBridgeDev 0 (if pool = .io then ioAlignment else 0xfffff) 0 pool.resType
    .typical).info

lemma mapped_rootMap {ioAlignment : ℕ} {rootBridgeDev : PciIoDevice} (hio : IsMask ioAlignment)
    (h : rootBridgeDev.All DeviceInfo.WellFormed) (pool : Pool) :
    Mapped config (rootInfo ioAlignment rootBridgeDev.info) pool
      (rootMap config ioAlignment rootBridgeDev pool) := by
  apply Filled.createResourceMap _ h
  apply Filled.insertAll _ _ h.root.deviceNodes
  refine filled_of_empty (fun _ => rfl) (fun _ => rfl) fun pool => ?_
  simp only [createResourceNode, ResourceNode.info_mk]
  split_ifs
  · exact hio
  · exact ⟨20, by decide, by decide⟩

end Edk2.Pci
