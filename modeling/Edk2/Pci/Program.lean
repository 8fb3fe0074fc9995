import Edk2.Pci.Requests

/-!
# The addresses of the bars

`ProgramResource` walks a tree and adds the offsets up. If every bridge of the tree is laid out
well, the bars get addresses that are aligned, disjoint and inside the windows of the bridges above them.
-/

namespace Edk2.Pci

open Align

variable {config : Config}

/-- A bridge is laid out well. -/
structure LayoutOk (info : NodeInfo) (children : List ResourceNode) : Prop where
  disjoint : AllDisjoint (children.map ResourceNode.info)
  inside : ∀ c ∈ children, c.info.resourceUsage = .typical →
    c.info.offset + c.info.length ≤ info.length
  aligned : ∀ c ∈ children, c.info.resourceUsage = .typical → c.info.alignment + 1 ∣ c.info.offset
  alignment : ∀ c ∈ children, c.info.alignment ≤ info.alignment

/-- `SkipVGAAperture` does not go back in the layout of an I/O bridge. -/
def NeverBack (config : Config) (info : NodeInfo) (children : List ResourceNode) : Prop :=
  info.resType = .io16 → NoSkipBack config 0 (children.map ResourceNode.info)

lemma forward_of_le {ideal : ℕ → NodeInfo → ℕ} (h : ∀ aperture info, aperture ≤ ideal aperture info)
    (aperture : ℕ) (infos : List NodeInfo) : Forward ideal aperture infos := by
  induction infos generalizing aperture with
  | nil => trivial
  | cons info rest ih =>
    cases husa : info.resourceUsage with
    | typical => exact (forward_typical husa).mpr ⟨h _ _, ih _⟩
    | padding => exact (forward_padding husa).mpr (ih _)

lemma dvd_ideal (resType : PciBarType) (aperture : ℕ) (info : NodeInfo) :
    info.alignment + 1 ∣ ideal config resType aperture info := by
  unfold ideal
  split_ifs
  · exact dvd_idealIo16 aperture info
  · exact dvd_roundUp (Nat.succ_pos _) _

section Bridge

variable {info : NodeInfo} {children : List ResourceNode}

lemma forall_mem_infos {P : NodeInfo → Prop} (h : ∀ c ∈ children, P c.info) :
    ∀ info ∈ children.map ResourceNode.info, P info := by
  grind

lemma Laid.layoutOk (h : Laid config info children) (hfits : Fits config info children)
    (hmas : ∀ c ∈ children, IsMask c.info.alignment) (hback : NeverBack config info children) :
    LayoutOk info children := by
  obtain ⟨final, hfin, hpla⟩ := h.placed hfits
  have hfor : Forward (ideal config info.resType) 0 (children.map ResourceNode.info) := by
    by_cases hio : info.resType = .io16
    · have hbac' := (noSkipBack_iff (forall_mem_infos hmas)).mp (hback hio)
      rwa [ideal, if_pos hio]
    · rw [ideal, if_neg hio]
      exact forward_of_le (fun aperture info => le_roundUp aperture (info.alignment + 1)) _ _
  refine ⟨hpla.allDisjoint hfor, fun c hc htyp => ?_, fun c hc htyp => ?_, h.le⟩
  · have := (hpla.bounds hfor).2 c.info (List.mem_map_of_mem hc) htyp
    omega
  · obtain ⟨aperture, hoff⟩ := hpla.exists_offset (List.mem_map_of_mem hc) htyp
    rw [hoff]
    exact dvd_ideal _ _ _

lemma Laid.neverBack (h : Laid config info children) (hfits : Fits config info children)
    (hchi : ∀ c ∈ children, c.All (Sound config)) (hok : LayoutOk info children) :
    NeverBack config info children := by
  intro hio
  have hmas : ∀ info ∈ children.map ResourceNode.info, IsMask info.alignment :=
    forall_mem_infos fun c hc => (hchi c hc).root.1.mask
  obtain ⟨final, -, hpla⟩ := h.placed hfits
  rw [ideal, if_pos hio] at hpla
  rw [noSkipBack_iff hmas]
  cases hisa : config.reserveIsaAliases with
  | true => exact forward_of_le (le_idealIo16 (Or.inr hisa)) _ _
  | false =>
    have hnone : AliasTaken [] 0 := fun β _ hlt => absurd hlt (Nat.not_lt_zero β)
    apply hpla.forward_of_allDisjoint hisa hnone hmas _ hok.disjoint (by simp)
    refine forall_mem_infos fun c hc _ hkind => ?_
    have hsha := (hchi c hc).root.2
    apply hsha.pos
    by_contra hbra
    rw [(hsha.branch hbra).1] at hkind
    cases hkind

end Bridge

mutual

/-- The bars of a node that is at an address, with their addresses. -/
def ResourceNode.barsAt (address : ℕ) : ResourceNode → List Assignment
  | .mk info children =>
    if children.isEmpty then if info.resourceUsage = .typical then [⟨info, address⟩] else []
    else barsBelow address children

def barsBelow (base : ℕ) : List ResourceNode → List Assignment
  | [] => []
  | node :: rest => node.barsAt (base + node.info.offset) ++ barsBelow base rest

end

/-- The assignment is for a bar, and not for the window of a bridge or a CardBus bridge. -/
def Assignment.isBar (assignment : Assignment) : Bool :=
  assignment.info.resourceUsage = .typical &&
    !(assignment.info.pciDev.kind = .bridge && 2 ≤ assignment.info.bar)

/-- The ranges of two assignments are disjoint. -/
def Apart (assignment assignment' : Assignment) : Prop :=
  ∀ a, ¬(assignment.address ≤ a ∧ a < assignment.address + assignment.info.length ∧
    assignment'.address ≤ a ∧ a < assignment'.address + assignment'.info.length)

/-- A range is inside another one. -/
def Inside (base length : ℕ) (assignment : Assignment) : Prop :=
  base ≤ assignment.address ∧ assignment.address + assignment.info.length ≤ base + length

section Leaf

variable {address : ℕ}

lemma ResourceNode.barsAt_leaf (node : ResourceNode) (hnil : node.children = [])
    (htyp : node.info.resourceUsage = .typical) :
    node.barsAt address = [⟨node.info, address⟩] := by
  cases node with
  | mk info children =>
    rw [ResourceNode.info_mk] at htyp ⊢
    rw [ResourceNode.barsAt, if_pos (by simpa using hnil), if_pos htyp]

lemma ResourceNode.barsAt_padding (node : ResourceNode) (hnil : node.children = [])
    (hpad : node.info.resourceUsage = .padding) : node.barsAt address = [] := by
  cases node with
  | mk info children =>
    rw [ResourceNode.info_mk] at hpad
    rw [ResourceNode.barsAt, if_pos (by simpa using hnil), hpad]
    rfl

lemma ResourceNode.barsAt_branch (node : ResourceNode) (h : node.children ≠ []) :
    node.barsAt address = barsBelow address node.children := by
  cases node with
  | mk info children =>
    rw [ResourceNode.barsAt, if_neg (by simpa using h)]
    rfl

end Leaf

lemma mem_barsBelow {base : ℕ} {nodes : List ResourceNode} {assignment : Assignment} :
    assignment ∈ barsBelow base nodes ↔
      ∃ node ∈ nodes, assignment ∈ node.barsAt (base + node.info.offset) := by
  induction nodes with
  | nil => simp [barsBelow]
  | cons node rest ih => simp [barsBelow, ih]

/-- What holds for the bars of a node that is aligned. -/
structure BarsOk (address length : ℕ) (bars : List Assignment) : Prop where
  inside : ∀ bar ∈ bars, Inside address length bar
  aligned : ∀ bar ∈ bars, bar.info.alignment + 1 ∣ bar.address
  apart : bars.Pairwise Apart

lemma barsBelow_apart {base : ℕ} {nodes : List ResourceNode}
    (hdis : AllDisjoint (nodes.map ResourceNode.info))
    (hins : ∀ c ∈ nodes, ∀ bar ∈ c.barsAt (base + c.info.offset),
      c.info.resourceUsage = .typical ∧ Inside (base + c.info.offset) c.info.length bar)
    (hapa : ∀ c ∈ nodes, (c.barsAt (base + c.info.offset)).Pairwise Apart) :
    (barsBelow base nodes).Pairwise Apart := by
  induction nodes with
  | nil =>
    rw [barsBelow]
    exact List.Pairwise.nil
  | cons node rest ih =>
    rw [List.map_cons] at hdis
    obtain ⟨hfst, hdis⟩ := List.pairwise_cons.mp hdis
    rw [barsBelow, List.pairwise_append]
    refine ⟨hapa node List.mem_cons_self, ih hdis
      (fun c hc => hins c (List.mem_cons_of_mem _ hc))
      (fun c hc => hapa c (List.mem_cons_of_mem _ hc)), fun bar hbar bar' hbar' a ha => ?_⟩
    obtain ⟨node', hnod', hbar'⟩ := mem_barsBelow.mp hbar'
    obtain ⟨htyp, hlo, hhi⟩ := hins node List.mem_cons_self bar hbar
    obtain ⟨htyp', hlo', hhi'⟩ := hins node' (List.mem_cons_of_mem _ hnod') bar' hbar'
    apply hfst node'.info (List.mem_map_of_mem hnod') htyp htyp' (a - base)
    omega

lemma Shaped.nil_of_kind {info : NodeInfo} {children : List ResourceNode} (h : Shaped info children)
    (hkind : info.pciDev.kind ≠ .bridge) : children = [] := by
  by_contra hbra
  exact hkind (h.branch hbra).1

lemma Shaped.padding {node : ResourceNode} (h : Shaped node.info node.children)
    (hpad : node.info.resourceUsage = .padding) (address : ℕ) : node.barsAt address = [] := by
  exact node.barsAt_padding (h.nil_of_padding hpad) hpad

lemma LayoutOk.barsOk {info : NodeInfo} {children : List ResourceNode} {address : ℕ}
    (h : LayoutOk info children) (hmask : IsMask info.alignment)
    (hchi : ∀ c ∈ children, c.All (Sound config))
    (hadd : info.alignment + 1 ∣ address)
    (hbars : ∀ c ∈ children, ∀ a, c.info.alignment + 1 ∣ a → BarsOk a c.info.length (c.barsAt a)) :
    BarsOk address info.length (barsBelow address children) := by
  have hchil : ∀ c ∈ children, c.info.resourceUsage = .typical →
      BarsOk (address + c.info.offset) c.info.length (c.barsAt (address + c.info.offset)) := by
    intro c hc htyp
    apply hbars c hc
    have hdvd := (hchi c hc).root.1.mask.dvd_of_le hmask (h.alignment c hc)
    exact (Nat.dvd_add_right (hdvd.trans hadd)).mpr (h.aligned c hc htyp)
  have htyp : ∀ c ∈ children, ∀ bar ∈ c.barsAt (address + c.info.offset),
      c.info.resourceUsage = .typical := by
    intro c hc bar hbar
    cases husa : c.info.resourceUsage with
    | typical => rfl
    | padding =>
      rw [(hchi c hc).root.2.padding husa] at hbar
      cases hbar
  refine ⟨fun bar hbar => ?_, fun bar hbar => ?_, ?_⟩
  · obtain ⟨c, hc, hbar⟩ := mem_barsBelow.mp hbar
    have husa := htyp c hc bar hbar
    obtain ⟨hlo, hhi⟩ := (hchil c hc husa).inside bar hbar
    have := h.inside c hc husa
    exact ⟨by omega, by omega⟩
  · obtain ⟨c, hc, hbar⟩ := mem_barsBelow.mp hbar
    exact (hchil c hc (htyp c hc bar hbar)).aligned bar hbar
  · apply barsBelow_apart h.disjoint
    · intro c hc bar hbar
      have husa := htyp c hc bar hbar
      exact ⟨husa, (hchil c hc husa).inside bar hbar⟩
    · intro c hc
      cases husa : c.info.resourceUsage with
      | typical => exact (hchil c hc husa).apart
      | padding =>
        simp [(hchi c hc).root.2.padding husa]

lemma ResourceNode.All.barsOk {node : ResourceNode} (hsou : node.All (Sound config))
    (h : node.All LayoutOk) {address : ℕ} (hadd : node.info.alignment + 1 ∣ address) :
    BarsOk address node.info.length (node.barsAt address) := by
  induction h generalizing address with
  | @mk info children here below ih =>
    obtain ⟨hlaid, hsha⟩ := hsou.root
    by_cases hnil : children = []
    · cases husa : info.resourceUsage with
      | typical =>
        rw [ResourceNode.barsAt_leaf (.mk info children) hnil husa]
        refine ⟨?_, ?_, List.pairwise_singleton _ _⟩
        · simp [Inside]
        · simpa using hadd
      | padding =>
        rw [ResourceNode.barsAt_padding (.mk info children) hnil husa]
        exact ⟨by simp, by simp, List.Pairwise.nil⟩
    · rw [ResourceNode.barsAt_branch (.mk info children) hnil]
      exact here.barsOk hlaid.mask hsou.child hadd fun c hc a ha => ih c hc (hsou.child c hc) ha

section Bar

variable {info : NodeInfo} {base : ℕ}

lemma IsBar.programBar_eq (h : IsBar info) : programBar base info = info.assign base := by
  unfold programBar
  split_ifs with hvir
  · obtain ⟨bar, hbar, hkno⟩ := h.vfKnown hvir
    unfold programVfBar
    rw [hbar, Option.map_some]
    cases htype : bar.barType <;> simp_all [vfBarPool]
  · obtain ⟨bar, hbar, hkno, -⟩ := h.known (by simpa using hvir)
    simp [hbar, Option.map_some]

lemma IsBar.programP2C_eq (h : IsBar info) (hkind : info.pciDev.kind = .cardBus) :
    programP2C base info = info.assign base := by
  rw [programP2C, if_pos (h.cardBus hkind)]

lemma IsBar.programPpbApperture_eq (h : IsBar info) (hkind : info.pciDev.kind = .bridge)
    (hlen : 0 < info.length) (htyp : info.resourceUsage = .typical) :
    programPpbApperture base info = info.assign base := by
  obtain ⟨hvir, hind⟩ := h.bridge hkind
  obtain ⟨bar, hbar, hkno, hrom⟩ := h.known hvir
  grind [programPpbApperture]

lemma programBar_or (base : ℕ) (info : NodeInfo) :
    programBar base info = [] ∨ programBar base info = info.assign base := by
  grind [programBar, programVfBar]

lemma programP2C_or (base : ℕ) (info : NodeInfo) :
    programP2C base info = [] ∨ programP2C base info = info.assign base := by
  unfold programP2C
  split_ifs <;> simp

lemma programPpbApperture_or (base : ℕ) (info : NodeInfo) :
    programPpbApperture base info = [] ∨ programPpbApperture base info = info.assign base := by
  grind [programPpbApperture]

lemma filter_of_not_bar {own : List Assignment} (h : own = [] ∨ own = info.assign base)
    (hbar : info.resourceUsage = .padding ∨ info.pciDev.kind = .bridge ∧ 2 ≤ info.bar) :
    own.filter Assignment.isBar = [] := by
  grind [NodeInfo.assign, List.filter_eq_nil_iff, List.mem_singleton, Assignment.isBar]

lemma filter_assign (htyp : info.resourceUsage = .typical)
    (hbar : info.pciDev.kind = .bridge → info.bar ≤ 1) (hfits : base + info.offset < 2 ^ 64) :
    (info.assign base).filter Assignment.isBar = [⟨info, base + info.offset⟩] := by
  grind [NodeInfo.assign, u64_of_lt, List.filter_singleton, Assignment.isBar]

end Bar

/-- The children of a node are inside of it, unless they are padding at its start. -/
def Contained (info : NodeInfo) (children : List ResourceNode) : Prop :=
  ∀ c ∈ children, c.info.resourceUsage = .padding ∧ c.info.offset = 0 ∧ 0 < info.length ∨
    c.info.offset + c.info.length ≤ info.length

/-- The addresses of a node are below the limit. -/
def Reachable (base : ℕ) (info : NodeInfo) : Prop :=
  info.resourceUsage = .padding ∧ info.offset = 0 ∨ base + info.offset + info.length < 2 ^ 64

lemma Shaped.filter_leaf {base : ℕ} {node : ResourceNode} {own : List Assignment}
    (hsha : Shaped node.info node.children) (hnil : node.children = [])
    (hrea : Reachable base node.info) (hor : own = [] ∨ own = node.info.assign base)
    (hown : IsBar node.info → 0 < node.info.length → node.info.resourceUsage = .typical →
      own = node.info.assign base) :
    own.filter Assignment.isBar = node.barsAt (base + node.info.offset) := by
  have hpos := hsha.pos hnil
  cases husa : node.info.resourceUsage with
  | typical =>
    have hbar := hsha.leaf hnil husa
    have hfits : base + node.info.offset < 2 ^ 64 := by
      rcases hrea with ⟨hpad, -⟩ | hrea
      · rw [husa] at hpad
        cases hpad
      · omega
    rw [node.barsAt_leaf hnil husa, hown hbar hpos husa,
      filter_assign husa (fun hkind => (hbar.bridge hkind).2) hfits]
  | padding => rw [hsha.padding husa, filter_of_not_bar hor (Or.inl husa)]

lemma Reachable.address {base : ℕ} {info : NodeInfo} (h : Reachable base info)
    (hbase : base < 2 ^ 64 - 1) (hpos : 0 < info.length) : base + info.offset < 2 ^ 64 - 1 := by
  rcases h with ⟨-, hzero⟩ | h <;> omega

lemma ResourceNode.All.length_pos {node : ResourceNode} (hsou : node.All (Sound config))
    (h : node.All Contained) : 0 < node.info.length := by
  induction h with
  | @mk info children here below ih =>
    cases hchi : children with
    | nil => exact hsou.root.2.pos hchi
    | cons c rest =>
      have hc : c ∈ children := hchi ▸ List.mem_cons_self
      have hpos := ih c hc (hsou.child c hc)
      rw [ResourceNode.info_mk]
      rcases here c hc with ⟨-, -, hlen⟩ | hlen <;> omega

lemma Contained.reachable {base : ℕ} {info : NodeInfo} {children : List ResourceNode}
    (h : Contained info children) (hbase : base + info.length < 2 ^ 64) :
    ∀ c ∈ children, Reachable base c.info := by
  intro c hc
  rcases h c hc with ⟨hpad, hzero, -⟩ | hlen
  · exact Or.inl ⟨hpad, hzero⟩
  · exact Or.inr (by omega)

section Children

variable {base : ℕ} {node : ResourceNode} {rest : List ResourceNode}

lemma programChildren_device (hkind : node.info.pciDev.kind = .device) :
    programChildren base (node :: rest) = (programBar base node.info ++
      (programChildren base rest).1, (programChildren base rest).2) := by
  rw [programChildren, hkind]

lemma programChildren_cardBus (hkind : node.info.pciDev.kind = .cardBus) :
    programChildren base (node :: rest) = (programP2C base node.info ++
      (programChildren base rest).1, (programChildren base rest).2) := by
  rw [programChildren, hkind]

lemma programChildren_bridge {below : List Assignment} (hkind : node.info.pciDev.kind = .bridge)
    (h : programResource (u64 (base + node.info.offset)) node = (below, .success)) :
    programChildren base (node :: rest) = (below ++ programPpbApperture base node.info ++
      (programChildren base rest).1, (programChildren base rest).2) := by
  rw [programChildren, hkind, h]
  rfl

end Children

mutual

/-- `ProgramResource` assigns every bar of a tree the address that the offsets add up to. -/
theorem programResource_spec {base : ℕ} {node : ResourceNode} (hbase : base < 2 ^ 64 - 1)
    (hchi : ∀ c ∈ node.children, c.All (Sound config) ∧ c.All Contained ∧
      Reachable base c.info) :
    ∃ assigned, programResource base node = (assigned, .success) ∧
      assigned.filter Assignment.isBar = barsBelow base node.children := by
  match node with
  | .mk info children =>
    rw [programResource, if_neg hbase.ne]
    exact programChildren_spec hbase hchi

theorem programChildren_spec {base : ℕ} {nodes : List ResourceNode} (hbase : base < 2 ^ 64 - 1)
    (hnod : ∀ c ∈ nodes, c.All (Sound config) ∧ c.All Contained ∧ Reachable base c.info) :
    ∃ assigned, programChildren base nodes = (assigned, .success) ∧
      assigned.filter Assignment.isBar = barsBelow base nodes := by
  match nodes with
  | [] => exact ⟨[], by rw [programChildren], by rw [barsBelow]; rfl⟩
  | node :: rest =>
    obtain ⟨hsou, hcon, hrea⟩ := hnod _ List.mem_cons_self
    obtain ⟨assigned, hrest, hbars⟩ :=
      programChildren_spec hbase fun c hc => hnod c (List.mem_cons_of_mem _ hc)
    obtain ⟨-, hsha⟩ := hsou.root
    rw [barsBelow]
    cases hkind : node.info.pciDev.kind with
    | device =>
      refine ⟨_, by rw [programChildren_device hkind, hrest], ?_⟩
      rw [List.filter_append, hbars, hsha.filter_leaf (hsha.nil_of_kind (by simp [hkind]))
        hrea (programBar_or base _) fun hbar _ _ => hbar.programBar_eq]
    | cardBus =>
      refine ⟨_, by rw [programChildren_cardBus hkind, hrest], ?_⟩
      rw [List.filter_append, hbars, hsha.filter_leaf (hsha.nil_of_kind (by simp [hkind]))
        hrea (programP2C_or base _) fun hbar _ _ => hbar.programP2C_eq hkind]
    | bridge =>
      have hadd := hrea.address hbase (hsou.length_pos hcon)
      have hchi : ∀ c ∈ node.children, c.All (Sound config) ∧ c.All Contained ∧
          Reachable (base + node.info.offset) c.info := by
        intro c hc
        refine ⟨hsou.child c hc, hcon.child c hc, hcon.root.reachable ?_ c hc⟩
        rcases hrea with ⟨hpad, -⟩ | hrea
        · rw [hsha.nil_of_padding hpad] at hc
          cases hc
        · exact hrea
      obtain ⟨below, hbelo, hbel⟩ := programResource_spec hadd hchi
      have hu64 : u64 (base + node.info.offset) = base + node.info.offset :=
        u64_of_lt (by omega)
      refine ⟨_, by rw [programChildren_bridge hkind (hu64 ▸ hbelo), hrest], ?_⟩
      rw [List.filter_append, List.filter_append, hbars, hbel]
      by_cases hnil : node.children = []
      · rw [hnil, barsBelow, List.nil_append, hsha.filter_leaf hnil hrea
          (programPpbApperture_or base _) fun hbar => hbar.programPpbApperture_eq hkind]
      · rw [node.barsAt_branch hnil, filter_of_not_bar (programPpbApperture_or base _)
          (Or.inr ⟨hkind, (hsha.branch hnil).2.1⟩), List.append_nil]

end

end Edk2.Pci
