import Edk2.Pci.Model
import Edk2.Lib.Align

/-!
# The layout of one bridge

`CalculateResourceAperture` puts the children of a bridge one behind the other. As long as the
aligned sums are below `2 ^ 64` the code computes what one would compute in natural numbers. The
ranges are disjoint unless `SkipVGAAperture` moves the aperture back, which it does if the aperture
is behind the last VGA alias already.
-/

namespace Edk2.Pci

open Align

variable {config : Config} {value alignment : ℕ}

/-- An alignment is one less than a power of two, and a 64-bit value. -/
def IsMask (alignment : ℕ) : Prop := ∃ k ≤ 64, alignment = 2 ^ k - 1

lemma IsMask.lt (h : IsMask alignment) : alignment < 2 ^ 64 := by
  obtain ⟨k, hk, rfl⟩ := h
  have hle := Nat.pow_le_pow_right (show 0 < 2 by decide) hk
  have hpos := Nat.two_pow_pos k
  omega

lemma IsMask.land (h : IsMask alignment) (value : ℕ) :
    value &&& alignment = value % (alignment + 1) := by
  obtain ⟨k, -, rfl⟩ := h
  have hpos := Nat.two_pow_pos k
  rw [land_mask, Nat.sub_add_cancel hpos]

lemma IsMask.dvd (h : IsMask alignment) : alignment + 1 ∣ 2 ^ 64 := by
  obtain ⟨k, hk, rfl⟩ := h
  rw [Nat.sub_add_cancel (Nat.two_pow_pos k)]
  exact Nat.pow_dvd_pow 2 hk

lemma IsMask.dvd_of_le {alignment' : ℕ} (h : IsMask alignment) (h' : IsMask alignment')
    (hle : alignment ≤ alignment') : alignment + 1 ∣ alignment' + 1 := by
  obtain ⟨k, -, rfl⟩ := h
  obtain ⟨k', -, rfl⟩ := h'
  rw [Nat.sub_add_cancel (Nat.two_pow_pos k), Nat.sub_add_cancel (Nat.two_pow_pos k')]
  apply Nat.pow_dvd_pow 2
  have hpos := Nat.two_pow_pos k
  have hpos' := Nat.two_pow_pos k'
  exact (Nat.pow_le_pow_iff_right (show 1 < 2 by decide)).mp (by omega)

lemma alignAperture_eq (hmask : IsMask alignment) (hfits : roundUp value (alignment + 1) < 2 ^ 64) :
    alignAperture value alignment = roundUp value (alignment + 1) := by
  have hmod := Nat.mod_lt value (show 0 < alignment + 1 by omega)
  unfold alignAperture
  rw [hmask.land]
  dsimp only
  split_ifs with h
  · have heq : value + (alignment + 1) - value % (alignment + 1) =
        roundUp value (alignment + 1) := by
      unfold roundUp
      rw [Nat.mod_eq_of_lt (show alignment + 1 - value % (alignment + 1) < alignment + 1 by omega)]
      omega
    rw [heq, u64_of_lt hfits]
  · exact (roundUp_of_dvd (Nat.dvd_of_mod_eq_zero (by omega))).symm

lemma alignValue_eq (hmask : IsMask alignment) (hval : value < 2 ^ 64)
    (hfits : roundUp value (alignment + 1) < 2 ^ 64) :
    alignValue value alignment = roundUp value (alignment + 1) := by
  obtain ⟨c, hc⟩ := hmask.dvd
  have hlt := hmask.lt
  have hone : sub64 (u64 (alignment + 1)) 1 = alignment := by
    unfold sub64 u64
    omega
  have hzero : u64 (alignment + 1) % (alignment + 1) = 0 := by
    unfold u64
    rw [Nat.mod_mod_of_dvd _ hmask.dvd, Nat.mod_self]
  have hmod : sub64 (u64 (alignment + 1)) value % (alignment + 1) =
      (alignment + 1 - value % (alignment + 1)) % (alignment + 1) := by
    rw [sub64, u64, Nat.mod_mod_of_dvd _ hmask.dvd, Nat.add_mod, hzero, Nat.zero_add, Nat.mod_mod,
      hc]
    exact mul_sub_mod (Nat.succ_pos _) (by omega)
  unfold alignValue
  rw [hone, hmask.land, hmod]
  exact u64_of_lt hfits

/-- `skipAperture` in natural numbers. -/
def skip (first limit start length : ℕ) : ℕ :=
  if first ≤ (start + length + 0x3ff) % 0x400 then start - start % 0x400 + limit + 1 else start

/-- `placeIo16` in natural numbers. -/
def idealIo16 (config : Config) (aperture : ℕ) (info : NodeInfo) : ℕ :=
  let start := roundUp aperture (info.alignment + 1)
  if info.pciDev.kind = .device then
    if config.reserveIsaAliases then
      roundUp (skip 0x100 0x3ff start info.length) (info.alignment + 1)
    else if config.reserveVgaAliases then
      roundUp (skip 0x3b0 0x3df start info.length) (info.alignment + 1)
    else start
  else start

/-- `placeMem` in natural numbers. -/
def idealMem (aperture : ℕ) (info : NodeInfo) : ℕ := roundUp aperture (info.alignment + 1)

lemma skipAperture_eq {first limit start length : ℕ}
    (hfits : skip first limit start length < 2 ^ 64) :
    skipAperture first limit start length = skip first limit start length := by
  have hland : ∀ n : ℕ, n &&& 0x3ff = n % 0x400 := fun n => land_mask n 10
  have hlim : sub64 (u64 (start + length)) 1 % 0x400 = (start + length + 0x3ff) % 0x400 := by
    unfold sub64 u64
    omega
  unfold skipAperture
  rw [hland, hland, hlim]
  unfold skip at hfits ⊢
  dsimp only
  split_ifs with h
  · rw [if_pos h] at hfits
    exact u64_of_lt hfits
  · rfl

/-- The start before a range is skipped, and the end of the child, are 64-bit values. -/
def StepFits (ideal : ℕ → NodeInfo → ℕ) (aperture : ℕ) (info : NodeInfo) : Prop :=
  roundUp aperture (info.alignment + 1) < 2 ^ 64 ∧ ideal aperture info + info.length < 2 ^ 64

lemma placeIo16_eq {aperture : ℕ} {info : NodeInfo} (hmask : IsMask info.alignment)
    (hfits : StepFits (idealIo16 config) aperture info) :
    placeIo16 config aperture info = idealIo16 config aperture info := by
  obtain ⟨hsta, hend⟩ := hfits
  have hrou : ∀ {n}, roundUp n (info.alignment + 1) < 2 ^ 64 →
      alignAperture n info.alignment = roundUp n (info.alignment + 1) :=
    fun h => alignAperture_eq hmask h
  have hlt : ∀ n, roundUp n (info.alignment + 1) + info.length < 2 ^ 64 → n < 2 ^ 64 := by
    intro n hn
    have := le_roundUp n (info.alignment + 1)
    omega
  unfold idealIo16 at hend
  unfold placeIo16 idealIo16
  rw [hrou hsta]
  dsimp only at hend ⊢
  split_ifs at hend ⊢
  · rw [skipIsaAliasAperture, skipAperture_eq (hlt _ hend), hrou (by omega)]
  · rw [skipVGAAperture, skipAperture_eq (hlt _ hend), hrou (by omega)]
  · rfl
  · rfl

lemma placeMem_eq {aperture : ℕ} {info : NodeInfo} (hmask : IsMask info.alignment)
    (hape : aperture < 2 ^ 64) (hfits : StepFits idealMem aperture info) :
    placeMem aperture info = idealMem aperture info :=
  alignValue_eq hmask hape hfits.1

lemma dvd_idealIo16 (aperture : ℕ) (info : NodeInfo) :
    info.alignment + 1 ∣ idealIo16 config aperture info := by
  unfold idealIo16
  dsimp only
  split_ifs <;> exact dvd_roundUp (Nat.succ_pos _) _

lemma le_idealIo16 (hvga : config.reserveVgaAliases = false ∨ config.reserveIsaAliases = true)
    (aperture : ℕ) (info : NodeInfo) : aperture ≤ idealIo16 config aperture info := by
  have hsta := le_roundUp aperture (info.alignment + 1)
  unfold idealIo16
  dsimp only
  split_ifs with hkind hisa hvga'
  · refine hsta.trans (le_trans ?_ (le_roundUp _ _))
    unfold skip
    split_ifs
    · omega
    · exact le_rfl
  · simp_all
  · exact hsta
  · exact hsta

/-- The sums of the children, aligned, are below `2 ^ 64`; the last one is aligned as the bridge
is. -/
def SumsFit (ideal : ℕ → NodeInfo → ℕ) (alignment : ℕ) : ℕ → List NodeInfo → Prop
  | aperture, [] => roundUp aperture (alignment + 1) < 2 ^ 64
  | aperture, info :: rest =>
    match info.resourceUsage with
    | .typical => StepFits ideal aperture info ∧
      SumsFit ideal alignment (ideal aperture info + info.length) rest
    | .padding => SumsFit ideal alignment aperture rest

/-- The children are where the ideal layout has them, and the aperture behind them. -/
def Placed (ideal : ℕ → NodeInfo → ℕ) : ℕ → List NodeInfo → ℕ → Prop
  | aperture, [], final => final = aperture
  | aperture, info :: rest, final =>
    match info.resourceUsage with
    | .typical => info.offset = ideal aperture info ∧
      Placed ideal (ideal aperture info + info.length) rest final
    | .padding => Placed ideal aperture rest final

/-- The aperture never goes back. -/
def Forward (ideal : ℕ → NodeInfo → ℕ) : ℕ → List NodeInfo → Prop
  | _, [] => True
  | aperture, info :: rest =>
    match info.resourceUsage with
    | .typical => aperture ≤ ideal aperture info ∧
      Forward ideal (ideal aperture info + info.length) rest
    | .padding => Forward ideal aperture rest

section Cons

variable {ideal : ℕ → NodeInfo → ℕ} {aperture final : ℕ} {info : NodeInfo} {rest : List NodeInfo}

lemma sumsFit_typical (h : info.resourceUsage = .typical) :
    SumsFit ideal alignment aperture (info :: rest) ↔ StepFits ideal aperture info ∧
      SumsFit ideal alignment (ideal aperture info + info.length) rest := by
  rw [SumsFit, h]

lemma sumsFit_padding (h : info.resourceUsage = .padding) :
    SumsFit ideal alignment aperture (info :: rest) ↔ SumsFit ideal alignment aperture rest := by
  rw [SumsFit, h]

lemma placed_typical (h : info.resourceUsage = .typical) :
    Placed ideal aperture (info :: rest) final ↔ info.offset = ideal aperture info ∧
      Placed ideal (ideal aperture info + info.length) rest final := by rw [Placed, h]

lemma placed_padding (h : info.resourceUsage = .padding) :
    Placed ideal aperture (info :: rest) final ↔ Placed ideal aperture rest final := by
  rw [Placed, h]

lemma forward_typical (h : info.resourceUsage = .typical) :
    Forward ideal aperture (info :: rest) ↔ aperture ≤ ideal aperture info ∧
      Forward ideal (ideal aperture info + info.length) rest := by rw [Forward, h]

lemma forward_padding (h : info.resourceUsage = .padding) :
    Forward ideal aperture (info :: rest) ↔ Forward ideal aperture rest := by rw [Forward, h]

end Cons

/-- The offset of a child does not matter for where it is put. -/
def Relocatable (ideal : ℕ → NodeInfo → ℕ) : Prop :=
  ∀ aperture info offset, ideal aperture { info with offset := offset } = ideal aperture info

lemma relocatable_idealIo16 : Relocatable (idealIo16 config) := fun _ _ _ => rfl

lemma relocatable_idealMem : Relocatable idealMem := fun _ _ _ => rfl

@[simp] lemma setOffset_info (node : ResourceNode) (offset : ℕ) :
    (node.setOffset offset).info = { node.info with offset := offset } := rfl

@[simp] lemma setOffset_children (node : ResourceNode) (offset : ℕ) :
    (node.setOffset offset).children = node.children := rfl

/-- Nodes that differ in their offsets only. -/
def SameButOffset (node node' : ResourceNode) : Prop := ∃ offset, node' = node.setOffset offset

section Loop

variable {place : ℕ → NodeInfo → ℕ} {pad : ℕ → NodeInfo → ℕ × ℕ} {aperture padding : ℕ}
  {node : ResourceNode} {rest : List ResourceNode}

lemma layoutLoop_typical (h : node.info.resourceUsage = .typical) :
    layoutLoop place pad aperture padding (node :: rest) =
      (node.setOffset (place aperture node.info) ::
          (layoutLoop place pad (u64 (place aperture node.info + node.info.length)) padding rest).1,
        (layoutLoop place pad (u64 (place aperture node.info + node.info.length)) padding
          rest).2) := by
  rw [layoutLoop, h]

lemma layoutLoop_padding (h : node.info.resourceUsage = .padding) :
    layoutLoop place pad aperture padding (node :: rest) =
      (node.setOffset (pad padding node.info).1 ::
          (layoutLoop place pad aperture (pad padding node.info).2 rest).1,
        (layoutLoop place pad aperture (pad padding node.info).2 rest).2) := by
  rw [layoutLoop, h]

end Loop

lemma layoutLoop_same (place : ℕ → NodeInfo → ℕ) (pad : ℕ → NodeInfo → ℕ × ℕ)
    (aperture padding : ℕ) (children : List ResourceNode) :
    List.Forall₂ SameButOffset children (layoutLoop place pad aperture padding children).1 := by
  induction children generalizing aperture padding with
  | nil => exact .nil
  | cons node rest ih =>
    cases husa : node.info.resourceUsage with
    | typical =>
      rw [layoutLoop_typical husa]
      exact .cons ⟨_, rfl⟩ (ih _ _)
    | padding =>
      rw [layoutLoop_padding husa]
      exact .cons ⟨_, rfl⟩ (ih _ _)

lemma sumsFit_congr {ideal : ℕ → NodeInfo → ℕ} (hide : Relocatable ideal) {aperture : ℕ}
    {children children' : List ResourceNode} (h : List.Forall₂ SameButOffset children children') :
    SumsFit ideal alignment aperture (children'.map ResourceNode.info) ↔
      SumsFit ideal alignment aperture (children.map ResourceNode.info) := by
  induction h generalizing aperture with
  | nil => rfl
  | @cons node node' rest rest' hnode _ ih =>
    obtain ⟨offset, rfl⟩ := hnode
    unfold Relocatable at hide
    simp only [List.map_cons, SumsFit, setOffset_info, StepFits, hide, ih]

lemma layoutLoop_placed {ideal place : ℕ → NodeInfo → ℕ} {pad : ℕ → NodeInfo → ℕ × ℕ}
    (hide : Relocatable ideal)
    (hplac : ∀ aperture info, IsMask info.alignment → aperture < 2 ^ 64 →
      StepFits ideal aperture info → place aperture info = ideal aperture info)
    {aperture : ℕ} (padding : ℕ) {children : List ResourceNode} (hape : aperture < 2 ^ 64)
    (hmas : ∀ c ∈ children, IsMask c.info.alignment)
    (hfits : SumsFit ideal alignment aperture (children.map ResourceNode.info)) :
    Placed ideal aperture
        ((layoutLoop place pad aperture padding children).1.map ResourceNode.info)
        (layoutLoop place pad aperture padding children).2.1 ∧
      roundUp (layoutLoop place pad aperture padding children).2.1 (alignment + 1) < 2 ^ 64 := by
  induction children generalizing aperture padding with
  | nil => exact ⟨rfl, hfits⟩
  | cons node rest ih =>
    have hrest : ∀ c ∈ rest, IsMask c.info.alignment :=
      fun c hc => hmas c (List.mem_cons_of_mem _ hc)
    rw [List.map_cons] at hfits
    cases husa : node.info.resourceUsage with
    | typical =>
      obtain ⟨hstep, hfits⟩ := (sumsFit_typical husa).mp hfits
      rw [layoutLoop_typical husa,
        hplac aperture node.info (hmas node List.mem_cons_self) hape hstep,
        u64_of_lt hstep.2, List.map_cons]
      obtain ⟨hpla, hlt⟩ := ih padding hstep.2 hrest hfits
      have hsame : ideal aperture (node.setOffset (ideal aperture node.info)).info =
          ideal aperture node.info := hide aperture node.info _
      refine ⟨(placed_typical (by exact husa)).mpr ⟨hsame.symm, ?_⟩, hlt⟩
      rw [hsame]
      exact hpla
    | padding =>
      rw [sumsFit_padding husa] at hfits
      rw [layoutLoop_padding husa, List.map_cons, placed_padding (by exact husa)]
      exact ih _ hape hrest hfits

/-! ### Padding -/

/-- The aligned sums of the padding of a memory bridge are below `2 ^ 64`. -/
def PadsFit (alignment : ℕ) : ℕ → List NodeInfo → Prop
  | padding, [] => roundUp padding (alignment + 1) < 2 ^ 64
  | padding, info :: rest =>
    match info.resourceUsage with
    | .typical => PadsFit alignment padding rest
    | .padding => roundUp padding (info.alignment + 1) + info.length < 2 ^ 64 ∧
      PadsFit alignment (roundUp padding (info.alignment + 1) + info.length) rest

lemma padsFit_congr {padding : ℕ} {children children' : List ResourceNode}
    (h : List.Forall₂ SameButOffset children children') :
    PadsFit alignment padding (children'.map ResourceNode.info) ↔
      PadsFit alignment padding (children.map ResourceNode.info) := by
  induction h generalizing padding with
  | nil => rfl
  | @cons node node' rest rest' hnode _ ih =>
    obtain ⟨offset, rfl⟩ := hnode
    simp only [List.map_cons, PadsFit, setOffset_info, ih]

lemma PadsFit.mono {alignment' padding : ℕ} {infos : List NodeInfo}
    (h : PadsFit alignment' padding infos) (hmask : IsMask alignment) (hmas' : IsMask alignment')
    (hle : alignment ≤ alignment') : PadsFit alignment padding infos := by
  induction infos generalizing padding with
  | nil =>
    refine lt_of_le_of_lt (roundUp_le (Nat.succ_pos _) (le_roundUp _ _) ?_) h
    exact (hmask.dvd_of_le hmas' hle).trans (dvd_roundUp (Nat.succ_pos _) _)
  | cons info rest ih =>
    grind [PadsFit]

lemma layoutLoop_pads {place : ℕ → NodeInfo → ℕ} (aperture : ℕ) {padding : ℕ}
    {children : List ResourceNode} (hpadd : padding < 2 ^ 64)
    (hmas : ∀ c ∈ children, IsMask c.info.alignment)
    (hfits : PadsFit alignment padding (children.map ResourceNode.info)) :
    let loop := layoutLoop place padMem aperture padding children
    padding ≤ loop.2.2 ∧ roundUp loop.2.2 (alignment + 1) < 2 ^ 64 ∧
      ∀ c ∈ loop.1, c.info.resourceUsage = .padding → c.info.offset + c.info.length ≤ loop.2.2 := by
  induction children generalizing aperture padding with
  | nil => exact ⟨le_rfl, hfits, by simp [layoutLoop]⟩
  | cons node rest ih =>
    have hrest : ∀ c ∈ rest, IsMask c.info.alignment :=
      fun c hc => hmas c (List.mem_cons_of_mem _ hc)
    rw [List.map_cons] at hfits
    cases husa : node.info.resourceUsage with
    | typical =>
      grind [PadsFit, layoutLoop_typical, setOffset_info]
    | padding =>
      rw [PadsFit, husa] at hfits
      obtain ⟨hfit, hfits⟩ := hfits
      have hge := le_roundUp padding (node.info.alignment + 1)
      have hpad : padMem padding node.info = (roundUp padding (node.info.alignment + 1),
          roundUp padding (node.info.alignment + 1) + node.info.length) := by
        unfold padMem
        rw [alignValue_eq (hmas node List.mem_cons_self) hpadd (by omega)]
        dsimp only
        rw [u64_of_lt hfit]
      obtain ⟨hle, hrou, hpads⟩ := ih aperture hfit hrest hfits
      rw [layoutLoop_padding husa, hpad]
      refine ⟨hge.trans ((Nat.le_add_right _ _).trans hle), hrou, fun c hc hpad => ?_⟩
      rcases List.mem_cons.mp hc with rfl | hc
      · simpa using hle
      · exact hpads c hc hpad

lemma layoutLoop_io_pads {place : ℕ → NodeInfo → ℕ} (aperture padding : ℕ)
    {children : List ResourceNode}
    (hfre : ∀ c ∈ children, c.info.resourceUsage = .padding → c.info.offset = 0) :
    ∀ c ∈ (layoutLoop place (fun _ info => (info.offset, info.length)) aperture padding children).1,
      c.info.resourceUsage = .padding → c.info.offset = 0 := by
  induction children generalizing aperture padding with
  | nil => simp [layoutLoop]
  | cons node rest ih =>
    have hrest : ∀ c ∈ rest, c.info.resourceUsage = .padding → c.info.offset = 0 :=
      fun c hc => hfre c (List.mem_cons_of_mem _ hc)
    intro c hc hpad
    cases husa : node.info.resourceUsage with
    | typical =>
      grind [layoutLoop_typical, setOffset_info]
    | padding =>
      rw [layoutLoop_padding husa] at hc
      rcases List.mem_cons.mp hc with rfl | hc
      · exact hfre node List.mem_cons_self husa
      · exact ih _ _ hrest c hc hpad

lemma layoutLoop_io_pos {place : ℕ → NodeInfo → ℕ} (aperture : ℕ) {padding : ℕ}
    {children : List ResourceNode}
    (hpos : ∀ c ∈ children, c.info.resourceUsage = .padding → 0 < c.info.length)
    (h : 0 < padding ∨ ∃ c ∈ children, c.info.resourceUsage = .padding) :
    0 < (layoutLoop place (fun _ info => (info.offset, info.length)) aperture padding
      children).2.2 := by
  induction children generalizing aperture padding with
  | nil => simpa [layoutLoop] using h
  | cons node rest ih =>
    have hrest : ∀ c ∈ rest, c.info.resourceUsage = .padding → 0 < c.info.length :=
      fun c hc => hpos c (List.mem_cons_of_mem _ hc)
    cases husa : node.info.resourceUsage with
    | typical =>
      rw [layoutLoop_typical husa]
      exact ih _ hrest (by simpa [husa] using h)
    | padding =>
      grind [layoutLoop_padding]

/-- No address is in the ranges of both nodes. -/
def Disjoint (info info' : NodeInfo) : Prop :=
  ∀ a, ¬(info.offset ≤ a ∧ a < info.offset + info.length ∧
    info'.offset ≤ a ∧ a < info'.offset + info'.length)

/-- The ranges of the children that are no padding are disjoint. -/
def AllDisjoint (infos : List NodeInfo) : Prop :=
  infos.Pairwise fun info info' =>
    info.resourceUsage = .typical → info'.resourceUsage = .typical → Disjoint info info'

section Ideal

variable {ideal : ℕ → NodeInfo → ℕ} {aperture final : ℕ} {infos : List NodeInfo}

lemma Placed.bounds (h : Placed ideal aperture infos final)
    (hfor : Forward ideal aperture infos) :
    aperture ≤ final ∧ ∀ info ∈ infos, info.resourceUsage = .typical →
      aperture ≤ info.offset ∧ info.offset + info.length ≤ final := by
  induction infos generalizing aperture with
  | nil => exact ⟨h.ge, by simp⟩
  | cons info rest ih =>
    cases husa : info.resourceUsage with
    | typical =>
      obtain ⟨hoff, h⟩ := (placed_typical husa).mp h
      obtain ⟨hle, hfor⟩ := (forward_typical husa).mp hfor
      obtain ⟨hfin, hrest⟩ := ih h hfor
      refine ⟨by omega, fun info' hmem htyp => ?_⟩
      rcases List.mem_cons.mp hmem with rfl | hmem
      · omega
      · have := hrest info' hmem htyp
        omega
    | padding =>
      grind [placed_padding, forward_padding]

lemma Placed.allDisjoint (h : Placed ideal aperture infos final)
    (hfor : Forward ideal aperture infos) : AllDisjoint infos := by
  induction infos generalizing aperture with
  | nil => exact List.Pairwise.nil
  | cons info rest ih =>
    cases husa : info.resourceUsage with
    | typical =>
      obtain ⟨hoff, h⟩ := (placed_typical husa).mp h
      obtain ⟨hle, hfor⟩ := (forward_typical husa).mp hfor
      refine List.pairwise_cons.mpr ⟨fun info' hmem _ htyp a ha => ?_, ih h hfor⟩
      have := (h.bounds hfor).2 info' hmem htyp
      omega
    | padding =>
      rw [placed_padding husa] at h
      rw [forward_padding husa] at hfor
      refine List.pairwise_cons.mpr ⟨fun info' _ htyp => ?_, ih h hfor⟩
      rw [husa] at htyp
      cases htyp

lemma Placed.exists_offset (h : Placed ideal aperture infos final) {info : NodeInfo}
    (hmem : info ∈ infos) (htyp : info.resourceUsage = .typical) :
    ∃ a, info.offset = ideal a info := by
  induction infos generalizing aperture with
  | nil => cases hmem
  | cons info' rest ih =>
    cases husa : info'.resourceUsage with
    | typical =>
      obtain ⟨hoff, h⟩ := (placed_typical husa).mp h
      rcases List.mem_cons.mp hmem with rfl | hmem
      · exact ⟨aperture, hoff⟩
      · exact ih h hmem
    | padding =>
      grind [placed_padding]

end Ideal

/-! ### Going back

If VGA aliases are skipped, the aperture may go back to the address behind the last of them. There
is a child at this address already.
-/

/-- The child has a range that contains the address. -/
def Covers (info : NodeInfo) (a : ℕ) : Prop :=
  info.resourceUsage = .typical ∧ info.offset ≤ a ∧ a < info.offset + info.length

/-- If the aperture is less than 32 bytes behind an alias, a child contains the address behind the
alias. -/
def AliasTaken (prior : List NodeInfo) (aperture : ℕ) : Prop :=
  ∀ β, β % 0x400 = 0x3e0 → β < aperture → aperture < β + 0x20 → ∃ info ∈ prior, Covers info β

/-- A multiple of a power of two that is in the last 32 bytes of 1 KB is a multiple of a small
one. -/
lemma IsMask.dvd_sixteen (h : IsMask alignment) (hdvd : alignment + 1 ∣ value)
    (hmod : 0x3e0 < value % 0x400) : alignment + 1 ∣ 16 := by
  obtain ⟨k, -, rfl⟩ := h
  rw [Nat.sub_add_cancel (Nat.two_pow_pos k)] at hdvd ⊢
  apply Nat.pow_dvd_pow 2 (show k ≤ 4 from _)
  by_contra hk
  have h32 : 2 ^ 5 ∣ value := (Nat.pow_dvd_pow 2 (by omega)).trans hdvd
  obtain ⟨c, rfl⟩ := h32
  omega

lemma roundUp_alias {β : ℕ} (hβ : β % 0x400 = 0x3e0) (h : alignment + 1 ∣ 16) :
    roundUp β (alignment + 1) = β := by
  apply roundUp_of_dvd
  apply h.trans
  omega

lemma idealIo16_vga (hisa : config.reserveIsaAliases = false) (aperture : ℕ) (info : NodeInfo) :
    idealIo16 config aperture info = roundUp aperture (info.alignment + 1) ∨
      ∃ β, β % 0x400 = 0x3e0 ∧ roundUp aperture (info.alignment + 1) < β + 0x20 ∧
        0x3b0 ≤ (roundUp aperture (info.alignment + 1) + info.length + 0x3ff) % 0x400 ∧
        config.reserveVgaAliases = true ∧ info.pciDev.kind = .device ∧
        idealIo16 config aperture info = roundUp β (info.alignment + 1) := by
  have hdvd := dvd_roundUp (Nat.succ_pos info.alignment) aperture
  unfold idealIo16 skip
  generalize roundUp aperture (info.alignment + 1) = start at hdvd ⊢
  dsimp only
  rw [hisa, if_neg Bool.false_ne_true]
  split_ifs with hkind hvga hlim
  · refine Or.inr ⟨start - start % 0x400 + 0x3df + 1, ?_, ?_, hlim, hvga, hkind, rfl⟩ <;> omega
  · exact Or.inl (roundUp_of_dvd hdvd)
  · exact Or.inl rfl
  · exact Or.inl rfl

lemma exists_alias_of_lt (hisa : config.reserveIsaAliases = false) {aperture : ℕ}
    {info : NodeInfo} (hmask : IsMask info.alignment)
    (hlt : idealIo16 config aperture info < aperture) :
    idealIo16 config aperture info % 0x400 = 0x3e0 ∧
      aperture < idealIo16 config aperture info + 0x20 ∧ info.pciDev.kind = .device := by
  have hle := le_roundUp aperture (info.alignment + 1)
  obtain heq | ⟨β, hβ, hnear, -, -, hkind, heq⟩ := idealIo16_vga hisa aperture info
  · omega
  · have hge := le_roundUp β (info.alignment + 1)
    have hsma := hmask.dvd_sixteen (dvd_roundUp (Nat.succ_pos info.alignment) aperture)
      (show 0x3e0 < roundUp aperture (info.alignment + 1) % 0x400 by omega)
    rw [roundUp_alias hβ hsma] at heq
    exact ⟨by omega, by omega, hkind⟩

/-- A child that leaves the aperture behind an alias contains the address behind it, or was put
behind it. -/
lemma AliasTaken.step (hisa : config.reserveIsaAliases = false) {prior : List NodeInfo}
    {aperture : ℕ} {info : NodeInfo} (h : AliasTaken prior aperture)
    (htyp : info.resourceUsage = .typical) (hmask : IsMask info.alignment)
    (hoff : info.offset = idealIo16 config aperture info)
    (hle : aperture ≤ idealIo16 config aperture info) :
    AliasTaken (info :: prior) (idealIo16 config aperture info + info.length) := by
  intro β hβ hlt hnear
  by_cases hcov : info.offset ≤ β
  · exact ⟨info, List.mem_cons_self, htyp, hcov, by omega⟩
  · have hdvd : info.alignment + 1 ∣ idealIo16 config aperture info := dvd_idealIo16 aperture info
    have hsma := hmask.dvd_sixteen hdvd (by omega)
    have hbeh : β < aperture := by
      by_contra hge
      obtain heq | ⟨γ, hγ, -, -, -, -, heq⟩ := idealIo16_vga hisa aperture info
      · have := roundUp_le (show 0 < info.alignment + 1 from Nat.succ_pos _)
          (Nat.le_of_not_lt hge) (hsma.trans (show 16 ∣ β by omega))
        omega
      · rw [roundUp_alias hγ hsma] at heq
        omega
    obtain ⟨info', hmem, hcov⟩ := h β hβ hbeh (by omega)
    exact ⟨info', List.mem_cons_of_mem _ hmem, hcov⟩

lemma Placed.forward_of_allDisjoint (hisa : config.reserveIsaAliases = false)
    {prior infos : List NodeInfo} {aperture final : ℕ}
    (h : Placed (idealIo16 config) aperture infos final) (hpri : AliasTaken prior aperture)
    (hmas : ∀ info ∈ infos, IsMask info.alignment)
    (hlen : ∀ info ∈ infos, info.resourceUsage = .typical → info.pciDev.kind = .device →
      0 < info.length)
    (hdis : AllDisjoint infos)
    (hoth : ∀ info ∈ prior, ∀ info' ∈ infos, info'.resourceUsage = .typical →
      Disjoint info info') :
    Forward (idealIo16 config) aperture infos := by
  induction infos generalizing prior aperture with
  | nil => trivial
  | cons info rest ih =>
    have hmask := hmas info List.mem_cons_self
    have hmas' : ∀ c ∈ rest, IsMask c.alignment :=
      fun c hc => hmas c (List.mem_cons_of_mem _ hc)
    have hlen' : ∀ c ∈ rest, c.resourceUsage = .typical → c.pciDev.kind = .device →
        0 < c.length :=
      fun c hc => hlen c (List.mem_cons_of_mem _ hc)
    obtain ⟨hfst, hdis⟩ := List.pairwise_cons.mp hdis
    cases husa : info.resourceUsage with
    | typical =>
      obtain ⟨hoff, h⟩ := (placed_typical husa).mp h
      rw [forward_typical husa]
      have hle : aperture ≤ idealIo16 config aperture info := by
        by_contra hlt
        obtain ⟨hβ, hnear, hkind⟩ := exists_alias_of_lt hisa hmask (Nat.lt_of_not_le hlt)
        obtain ⟨info', hmem, -, hlo, hhi⟩ := hpri _ hβ (Nat.lt_of_not_le hlt) hnear
        have hleng := hlen info List.mem_cons_self husa hkind
        exact hoth info' hmem info List.mem_cons_self husa _ ⟨hlo, hhi, hoff.le, by omega⟩
      refine ⟨hle, ih h (hpri.step hisa husa hmask hoff hle) hmas' hlen'
        hdis fun c hc c' hc' htyp => ?_⟩
      rcases List.mem_cons.mp hc with rfl | hc
      · exact hfst c' hc' husa htyp
      · exact hoth c hc c' (List.mem_cons_of_mem _ hc') htyp
    | padding =>
      rw [placed_padding husa] at h
      rw [forward_padding husa]
      exact ih h hpri hmas' hlen' hdis fun c hc c' hc' => hoth c hc c' (List.mem_cons_of_mem _ hc')

/-- `SkipVGAAperture` is called with a start behind the last alias of 1 KB already, and the end of
the child is not in front of the first alias of its 1 KB. -/
def SkipsBack (config : Config) (aperture : ℕ) (info : NodeInfo) : Prop :=
  info.pciDev.kind = .device ∧ config.reserveIsaAliases = false ∧ config.reserveVgaAliases = true ∧
    0x3e0 < roundUp aperture (info.alignment + 1) % 0x400 ∧
    0x3b0 ≤ (roundUp aperture (info.alignment + 1) + info.length + 0x3ff) % 0x400

/-- This happens for no child. -/
def NoSkipBack (config : Config) : ℕ → List NodeInfo → Prop
  | _, [] => True
  | aperture, info :: rest =>
    match info.resourceUsage with
    | .typical => ¬SkipsBack config aperture info ∧
      NoSkipBack config (idealIo16 config aperture info + info.length) rest
    | .padding => NoSkipBack config aperture rest

lemma skipsBack_iff {aperture : ℕ} {info : NodeInfo} (hmask : IsMask info.alignment) :
    SkipsBack config aperture info ↔ idealIo16 config aperture info < aperture := by
  have hle := le_roundUp aperture (info.alignment + 1)
  have hdvd := dvd_roundUp (Nat.succ_pos info.alignment) aperture
  constructor
  · rintro ⟨hkind, hisa, hvga, hsta, hlim⟩
    have hsma := hmask.dvd_sixteen hdvd hsta
    unfold idealIo16
    simp only [hkind, hisa, hvga, if_true, Bool.false_eq_true, if_false, skip, if_pos hlim]
    rw [roundUp_alias (by omega) hsma]
    by_contra hge
    have := roundUp_le (show 0 < info.alignment + 1 from Nat.succ_pos _) (Nat.le_of_not_lt hge)
      (hsma.trans (by omega))
    omega
  · intro hlt
    cases hisa : config.reserveIsaAliases with
    | true =>
      have := le_idealIo16 (Or.inr hisa) aperture info
      omega
    | false =>
      obtain heq | ⟨β, hβ, hnear, hlim, hvga, hkind, heq⟩ := idealIo16_vga hisa aperture info
      · omega
      · have hge := le_roundUp β (info.alignment + 1)
        exact ⟨hkind, hisa, hvga, by omega, hlim⟩

lemma noSkipBack_iff {aperture : ℕ} {infos : List NodeInfo}
    (hmas : ∀ info ∈ infos, IsMask info.alignment) :
    NoSkipBack config aperture infos ↔ Forward (idealIo16 config) aperture infos := by
  induction infos generalizing aperture with
  | nil => rfl
  | cons info rest ih =>
    have hrest : ∀ aperture, NoSkipBack config aperture rest ↔
        Forward (idealIo16 config) aperture rest :=
      fun _ => ih fun c hc => hmas c (List.mem_cons_of_mem _ hc)
    have hinfo : SkipsBack config aperture info ↔ idealIo16 config aperture info < aperture :=
      skipsBack_iff (hmas info List.mem_cons_self)
    rw [NoSkipBack, Forward]
    simp only [hrest, hinfo, Nat.not_lt]

end Edk2.Pci
