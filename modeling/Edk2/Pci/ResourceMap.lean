import Edk2.Pci.Program

/-!
# The resource map of a root bridge

For every tree of devices the map that `CreateResourceMap` makes is laid out and programmed well if
and only if `SkipVGAAperture` never moves the aperture of an I/O bridge back.
-/

namespace Edk2.Pci

open Align

variable {config : Config}

mutual

theorem barsAt_requests (address : ℕ) (node : ResourceNode) :
    (node.barsAt address).map (fun bar => bar.info.request) = node.requests := by
  match node with
  | .mk info children =>
    rw [ResourceNode.barsAt, ResourceNode.requests]
    split_ifs
    · rfl
    · rfl
    · exact barsBelow_requests address children

theorem barsBelow_requests (base : ℕ) (nodes : List ResourceNode) :
    (barsBelow base nodes).map (fun bar => bar.info.request) = requestsBelow nodes := by
  match nodes with
  | [] =>
    rw [barsBelow, requestsBelow]
    rfl
  | node :: rest =>
    rw [barsBelow, requestsBelow, List.map_append, barsAt_requests, barsBelow_requests]

end

/-- A node below another one, with the addresses of both. -/
inductive Below : ResourceNode → ℕ → ResourceNode → ℕ → Prop
  | child {node c : ResourceNode} {a : ℕ} (hc : c ∈ node.children) :
    Below node a c (a + c.info.offset)
  | deeper {node c below : ResourceNode} {a b : ℕ} (hc : c ∈ node.children)
    (h : Below c (a + c.info.offset) below b) : Below node a below b

/-- The bars that are programmed for a tree. -/
def programmedBars (base : ℕ) (tree : ResourceNode) : List Assignment :=
  (programResource base tree).1.filter Assignment.isBar

/-- All bars of a tree are programmed, with aligned and disjoint addresses that are inside the
windows of the bridges above them. -/
structure Programmed (tree : ResourceNode) (base : ℕ) : Prop where
  success : (programResource base tree).2 = .success
  all : (programmedBars base tree).map (fun bar => bar.info.request) = requestsBelow tree.children
  aligned : ∀ bar ∈ programmedBars base tree, bar.info.alignment + 1 ∣ bar.address
  apart : (programmedBars base tree).Pairwise Apart
  windows : ∀ leaf address, Below tree base leaf address → leaf.children = [] →
    leaf.info.resourceUsage = .typical →
    ⟨leaf.info, address⟩ ∈ programmedBars base tree ∧
      Inside base tree.info.length ⟨leaf.info, address⟩ ∧
      ∀ bridge window, Below tree base bridge window → Below bridge window leaf address →
        Inside window bridge.info.length ⟨leaf.info, address⟩

/-- The resource map serves the requests. -/
structure MapOk (p : Pools) (requests : List Request) : Prop where
  layout : ∀ pool, (p pool).All LayoutOk
  requests : ([Pool.io, .mem32, .pMem32, .mem64, .pMem64].flatMap fun pool =>
    requestsBelow (p pool).children).Perm requests
  program : ∀ pool base, (p pool).info.alignment + 1 ∣ base →
    base + (p pool).info.length < 2 ^ 64 → base ≠ 2 ^ 64 - 1 → Programmed (p pool) base

lemma Below.children_ne_nil {node below : ResourceNode} {a b : ℕ} (h : Below node a below b) :
    node.children ≠ [] := by
  intro hemp
  cases h with
  | child hc => simp [hemp] at hc
  | deeper hc => simp [hemp] at hc

lemma Below.mem_barsBelow {node below : ResourceNode} {a b : ℕ} (h : Below node a below b)
    (hnil : below.children = []) (htyp : below.info.resourceUsage = .typical) :
    ⟨below.info, b⟩ ∈ barsBelow a node.children := by
  induction h with
  | @child node c a hc =>
    apply Pci.mem_barsBelow.mpr ⟨c, hc, _⟩
    rw [c.barsAt_leaf hnil htyp]
    exact List.mem_singleton_self _
  | @deeper node c below a b hc h ih =>
    apply Pci.mem_barsBelow.mpr ⟨c, hc, _⟩
    rw [c.barsAt_branch h.children_ne_nil]
    exact ih hnil htyp

lemma Below.aligned {node below : ResourceNode} {a b : ℕ} (h : Below node a below b)
    (hmask : IsMask node.info.alignment) (hsou : ∀ c ∈ node.children, c.All (Sound config))
    (hok : node.All LayoutOk) (ha : node.info.alignment + 1 ∣ a) :
    below.All (Sound config) ∧ below.All LayoutOk ∧
      (below.info.resourceUsage = .typical → below.info.alignment + 1 ∣ b) := by
  have hstep : ∀ {node : ResourceNode} {a : ℕ}, IsMask node.info.alignment →
      (∀ c ∈ node.children, c.All (Sound config)) → node.All LayoutOk →
      node.info.alignment + 1 ∣ a → ∀ c ∈ node.children, c.info.resourceUsage = .typical →
      c.info.alignment + 1 ∣ a + c.info.offset := by
    intro node a hmask hsou hok ha c hc htyp
    have hdvd := (hsou c hc).root.1.mask.dvd_of_le hmask (hok.root.alignment c hc)
    exact (Nat.dvd_add_right (hdvd.trans ha)).mpr (hok.root.aligned c hc htyp)
  induction h with
  | @child node c a hc => exact ⟨hsou c hc, hok.child c hc, hstep hmask hsou hok ha c hc⟩
  | @deeper node c below a b hc h ih =>
    have hbel := hsou c hc
    exact ih hbel.root.1.mask hbel.child (hok.child c hc)
      (hstep hmask hsou hok ha c hc (hbel.root.2.branch h.children_ne_nil).2.2)

section Tree

variable {base : Pool → NodeInfo} {pool : Pool} {tree : ResourceNode}

lemma Mapped.all {P : NodeInfo → List ResourceNode → Prop} (h : Mapped config base pool tree)
    (hP : ∀ info children, Laid config info children →
      (∀ c ∈ children, c.All (Sound config)) → P info children) : tree.All P := by
  have hbel : ∀ {node : ResourceNode}, node.All (Sound config) → node.All P := by
    intro node hnode
    induction hnode with
    | mk here below ih => exact .mk (hP _ _ here.1 below) ih
  cases tree with
  | mk info children => exact .mk (hP _ _ h.laid h.child) fun c hc => hbel (h.child c hc)

lemma Mapped.layoutOk_iff (h : Mapped config base pool tree) (hfits : tree.All (Fits config)) :
    tree.All LayoutOk ↔ tree.All (NeverBack config) := by
  have hiff : tree.All fun info children => Fits config info children →
      (LayoutOk info children ↔ NeverBack config info children) :=
    h.all fun info children hlaid hc hfits =>
      ⟨hlaid.neverBack hfits hc, hlaid.layoutOk hfits fun c hmem => (hc c hmem).root.1.mask⟩
  constructor
  · intro hok
    exact ((hiff.and hfits).and hok).mono fun _ _ ⟨⟨hiff, hfits⟩, hok⟩ => (hiff hfits).mp hok
  · intro hback
    exact ((hiff.and hfits).and hback).mono fun _ _ ⟨⟨hiff, hfits⟩, hback⟩ => (hiff hfits).mpr hback

lemma Mapped.contained (h : Mapped config base pool tree) (hfits : tree.All (Fits config))
    (hok : tree.All LayoutOk) : tree.All Contained := by
  have hpad : tree.All fun info children => Fits config info children →
      LayoutOk info children → Contained info children := by
    refine h.all fun info children hlaid _ hfits hok c hc => ?_
    cases husa : c.info.resourceUsage with
    | typical => exact Or.inr (hok.inside c hc husa)
    | padding => exact (hlaid.padded hfits c hc husa).imp_left fun hsta => ⟨rfl, hsta⟩
  exact ((hpad.and hfits).and hok).mono fun _ _ ⟨⟨hpad, hfits⟩, hok⟩ => hpad hfits hok

lemma Mapped.programmed (h : Mapped config base pool tree) (hfits : tree.All (Fits config))
    (hok : tree.All LayoutOk) {address : ℕ} (hadd : tree.info.alignment + 1 ∣ address)
    (hlen : address + tree.info.length < 2 ^ 64) (hne : address ≠ 2 ^ 64 - 1) :
    Programmed tree address := by
  have hcon := h.contained hfits hok
  have hchi : ∀ c ∈ tree.children, c.All (Sound config) ∧ c.All Contained ∧
      Reachable address c.info := fun c hc =>
    ⟨h.child c hc, hcon.child c hc, hcon.root.reachable hlen c hc⟩
  obtain ⟨assigned, hprog, hbars⟩ := programResource_spec (by omega) hchi
  have hpro : programmedBars address tree = barsBelow address tree.children := by
    rw [programmedBars, hprog, hbars]
  obtain ⟨hins, hali, hapa⟩ := hok.root.barsOk h.laid.mask h.child hadd
    fun c hc a ha => (h.child c hc).barsOk (hok.child c hc) ha
  refine ⟨by rw [hprog], ?_, ?_, ?_, fun leaf b hbel hnil htyp => ?_⟩
  · rw [hpro, barsBelow_requests]
  · rwa [hpro]
  · rwa [hpro]
  · have hmem := hbel.mem_barsBelow hnil htyp
    rw [hpro]
    refine ⟨hmem, hins _ hmem, fun bridge window hbri hleaf => ?_⟩
    obtain ⟨hsou, hlay, hdvd⟩ := hbri.aligned h.laid.mask h.child hok hadd
    have hbra := hleaf.children_ne_nil
    have hwin := hsou.barsOk hlay (hdvd (hsou.root.2.branch hbra).2.2)
    rw [bridge.barsAt_branch hbra] at hwin
    exact hwin.inside _ (hleaf.mem_barsBelow hnil htyp)

end Tree

instance decidableSumsFit (ideal : ℕ → NodeInfo → ℕ) (alignment : ℕ) :
    ∀ aperture infos, Decidable (SumsFit ideal alignment aperture infos)
  | aperture, [] => inferInstanceAs (Decidable (roundUp aperture (alignment + 1) < 2 ^ 64))
  | aperture, info :: rest =>
    match husage : info.resourceUsage with
    | .typical =>
      have := decidableSumsFit ideal alignment (ideal aperture info + info.length) rest
      decidable_of_iff ((roundUp aperture (info.alignment + 1) < 2 ^ 64 ∧
          ideal aperture info + info.length < 2 ^ 64) ∧
        SumsFit ideal alignment (ideal aperture info + info.length) rest)
        (sumsFit_typical husage).symm
    | .padding =>
      have := decidableSumsFit ideal alignment aperture rest
      decidable_of_iff (SumsFit ideal alignment aperture rest) (sumsFit_padding husage).symm

instance decidablePadsFit (alignment : ℕ) : ∀ padding infos,
    Decidable (PadsFit alignment padding infos)
  | padding, [] => inferInstanceAs (Decidable (roundUp padding (alignment + 1) < 2 ^ 64))
  | padding, info :: rest =>
    match husage : info.resourceUsage with
    | .typical =>
      have := decidablePadsFit alignment padding rest
      decidable_of_iff (PadsFit alignment padding rest) (by rw [PadsFit, husage])
    | .padding =>
      have := decidablePadsFit alignment (roundUp padding (info.alignment + 1) + info.length) rest
      decidable_of_iff (roundUp padding (info.alignment + 1) + info.length < 2 ^ 64 ∧
        PadsFit alignment (roundUp padding (info.alignment + 1) + info.length) rest)
        (by rw [PadsFit, husage])

instance (config : Config) (aperture : ℕ) (info : NodeInfo) :
    Decidable (SkipsBack config aperture info) :=
  inferInstanceAs (Decidable (_ ∧ _ ∧ _ ∧ _ ∧ _))

instance decidableNoSkipBack (config : Config) :
    ∀ aperture infos, Decidable (NoSkipBack config aperture infos)
  | _, [] => isTrue trivial
  | aperture, info :: rest =>
    match husage : info.resourceUsage with
    | .typical =>
      have := decidableNoSkipBack config (idealIo16 config aperture info + info.length) rest
      decidable_of_iff (¬SkipsBack config aperture info ∧
        NoSkipBack config (idealIo16 config aperture info + info.length) rest)
        (by rw [NoSkipBack, husage])
    | .padding =>
      have := decidableNoSkipBack config aperture rest
      decidable_of_iff (NoSkipBack config aperture rest) (by rw [NoSkipBack, husage])

instance (config : Config) (info : NodeInfo) (children : List ResourceNode) :
    Decidable (Fits config info children) := inferInstanceAs (Decidable (_ ∧ _))

instance (config : Config) (info : NodeInfo) (children : List ResourceNode) :
    Decidable (NeverBack config info children) := inferInstanceAs (Decidable (_ → _))

mutual

/-- Check all nodes of a tree. -/
def ResourceNode.check (f : NodeInfo → List ResourceNode → Bool) : ResourceNode → Bool
  | .mk info children => f info children && checkAll f children

def checkAll (f : NodeInfo → List ResourceNode → Bool) : List ResourceNode → Bool
  | [] => true
  | node :: rest => node.check f && checkAll f rest

end

mutual

theorem all_of_check {P : NodeInfo → List ResourceNode → Prop}
    {f : NodeInfo → List ResourceNode → Bool} (hf : ∀ info children, f info children = true →
      P info children) {node : ResourceNode} (h : node.check f = true) : node.All P := by
  match node with
  | .mk info children =>
    rw [ResourceNode.check, Bool.and_eq_true] at h
    exact .mk (hf _ _ h.1) (all_of_checkAll hf h.2)

theorem all_of_checkAll {P : NodeInfo → List ResourceNode → Prop}
    {f : NodeInfo → List ResourceNode → Bool} (hf : ∀ info children, f info children = true →
      P info children) {nodes : List ResourceNode} (h : checkAll f nodes = true) :
    ∀ node ∈ nodes, node.All P := by
  match nodes with
  | [] => simp
  | node :: rest =>
    rw [checkAll, Bool.and_eq_true] at h
    exact List.forall_mem_cons.mpr ⟨all_of_check hf h.1, all_of_checkAll hf h.2⟩

end

section Example

/-- An I/O bar that asks for `2 ^ k` ports. -/
def ioBar (k : ℕ) : PciBar := ⟨.io16, false, 2 ^ k, 2 ^ k - 1⟩

def ioDevice (id : ℕ) (ks : List ℕ) : PciIoDevice :=
  .mk ⟨id, .device, ks.map ioBar, [], 0, ⟨false, false, false, false⟩, 0xfff, true, []⟩ []

/-- Two devices with seven I/O bars behind a root bridge. -/
def sevenBars : PciIoDevice :=
  .mk ⟨0, .device, [], [], 0, ⟨true, true, true, false⟩, 0xfff, false, []⟩
    [ioDevice 1 [9, 8, 7, 5], ioDevice 2 [4, 4, 4]]

def aliases (reserveIsaAliases reserveVgaAliases : Bool) : Config :=
  ⟨reserveIsaAliases, reserveVgaAliases, true, false, false⟩

lemma sevenBars_wellFormed : sevenBars.All DeviceInfo.WellFormed := by
  have hmask : IsMask 0xfff := ⟨12, by decide, by decide⟩
  have hdev : ∀ id ks, (∀ k ∈ ks, k ≤ 64) → (ioDevice id ks).All DeviceInfo.WellFormed := by
    intro id ks hks
    refine .mk ⟨?_, by simp, by simp, hmask, by simp, by simp⟩ (by simp)
    intro bar hbar _
    obtain ⟨k, hk, rfl⟩ := List.mem_map.mp hbar
    exact ⟨⟨k, hks k hk, rfl⟩, Nat.two_pow_pos k⟩
  refine .mk ⟨by simp, by simp, by simp, hmask, by simp, by simp⟩ ?_
  simp only [List.forall_mem_cons]
  exact ⟨hdev _ _ (by decide), hdev _ _ (by decide), by simp⟩

end Example

end Edk2.Pci
