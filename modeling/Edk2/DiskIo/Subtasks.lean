import Edk2.DiskIo.Model

/-!
# The subtasks of a request

Carried out one after the other, the subtasks of a write put the buffer where it belongs, and leave
the rest of the disk alone. They stay in the blocks of the request, and a write that is not blocking
shares no block with a later subtask.
-/

namespace Edk2.DiskIo

open Overlay

variable {media : Media} {request : Request}

/-- What is created, if the allocations succeed. -/
def Yields {α : Type} (x : Create α) (P : α → Prop) : Prop :=
  ∀ answers a rest, x answers = some (a, rest) → P a

section Yields

variable {α β : Type} {P : α → Prop} {R : β → Prop}

lemma yields_pure {a : α} (h : P a) : Yields (pure a) P := by
  intro answers b rest hb
  cases hb
  exact h

lemma yields_bind {x : Create α} {f : α → Create β} (hx : Yields x P)
    (hf : ∀ a, P a → Yields (f a) R) : Yields (x >>= f) R := by
  intro answers b rest hb
  change (x answers >>= fun y => f y.1 y.2) = _ at hb
  obtain ⟨⟨a, answers'⟩, ha, hb⟩ := Option.bind_eq_some_iff.mp hb
  exact hf a (hx _ _ _ ha) _ _ _ hb

lemma yields_any (x : Create α) : Yields x fun _ => True := fun _ _ _ _ => trivial

lemma yields_ite {c : Prop} [Decidable c] {x y : Create α} (hx : c → Yields x P)
    (hy : ¬c → Yields y P) : Yields (if c then x else y) P := by
  split_ifs with h
  · exact hx h
  · exact hy h

lemma yields_createSubtask {write : Bool} {lba offset length : ℕ} {workingBuffer : Option Work}
    {buffer : Place} {blocking : Bool} {P : Subtask → Prop}
    (h : P ⟨write, lba, offset, length, workingBuffer, buffer, blocking⟩) :
    Yields (createSubtask write lba offset length workingBuffer buffer blocking) P :=
  yields_bind (yields_any _) fun _ _ => yields_pure h

end Yields

/-- The first byte that a subtask transfers. -/
def Subtask.start (media : Media) (subtask : Subtask) : ℕ := subtask.lba * media.blockSize

/-- Carry out a subtask on a disk, as if it were blocking. -/
def perform (media : Media) (x : Call × (ℕ → Byte)) (subtask : Subtask) : Call × (ℕ → Byte) :=
  let start := subtask.start media
  if subtask.write then
    ({ x.1 with work := x.1.fill subtask },
      overlay x.2 start (subtask.size media) (x.1.source subtask))
  else if subtask.blocking then
    ({ x.1 with work := x.1.read media subtask fun i => x.2 (start + i) }, x.2)
  else x

/-- The bytes that a subtask transfers. -/
def Subtask.Touches (media : Media) (subtask : Subtask) (a : ℕ) : Prop :=
  Covers (subtask.start media) (subtask.size media) a

/-- A list of subtasks for the bytes `R` of a request. -/
structure Part (media : Media) (request : Request) (R : ℕ → Prop) (l : List Subtask) : Prop where
  effect : request.write = true → ∀ c d, c.request = request → ∃ c' d',
    l.foldl (perform media) (c, d) = (c', d') ∧ c'.request = request ∧
      ∀ a, (R a → d' a = request.data (a - request.offset)) ∧ (¬R a → d' a = d a)
  direction : ∀ st ∈ l, st.write = true → request.write = true
  within : ∀ st ∈ l, ∀ a, st.Touches media a → ∃ b, R b ∧ a / media.blockSize = b / media.blockSize
  apart : l.Pairwise fun st st' => st.write = true → st.blocking = false →
    ∀ a, st.Touches media a → ¬st'.Touches media a

section Part

variable {R R' : ℕ → Prop} {l l' : List Subtask}

lemma Part.congr (h : Part media request R l) (hR : ∀ a, R a ↔ R' a) : Part media request R' l := by
  have : R = R' := funext fun a => propext (hR a)
  rwa [← this]

lemma Part.append (h : Part media request R l) (h' : Part media request R' l')
    (hne : ∀ a b, R a → R' b → a / media.blockSize ≠ b / media.blockSize) :
    Part media request (fun a => R a ∨ R' a) (l ++ l') := by
  refine ⟨fun hwri c d hc => ?_, fun st hst => ?_, fun st hst a ha => ?_, ?_⟩
  · obtain ⟨c₁, d₁, hrun, hc₁, hd₁⟩ := h.effect hwri c d hc
    obtain ⟨c₂, d₂, hrun', hc₂, hd₂⟩ := h'.effect hwri c₁ d₁ hc₁
    grind
  · rcases List.mem_append.mp hst with hst | hst
    · exact h.direction st hst
    · exact h'.direction st hst
  · rcases List.mem_append.mp hst with hst | hst
    · obtain ⟨b, hb, heq⟩ := h.within st hst a ha
      exact ⟨b, Or.inl hb, heq⟩
    · obtain ⟨b, hb, heq⟩ := h'.within st hst a ha
      exact ⟨b, Or.inr hb, heq⟩
  · refine List.pairwise_append.mpr ⟨h.apart, h'.apart, fun st hst st' hst' _ _ a ha ha' => ?_⟩
    obtain ⟨b, hb, heq⟩ := h.within st hst a ha
    obtain ⟨b', hb', heq'⟩ := h'.within st' hst' a ha'
    exact hne b b' hb hb' (heq.symm.trans heq')

lemma part_nil : Part media request (fun _ => False) [] where
  effect _ c d hc := ⟨c, d, rfl, hc, fun a => ⟨False.elim, fun _ => rfl⟩⟩
  direction := by simp
  within := by simp
  apart := List.Pairwise.nil

end Part

lemma part_singleton {R : ℕ → Prop} {subtask : Subtask}
    (hdir : subtask.write = request.write)
    (hR : ∀ a, subtask.Touches media a ↔ R a)
    (hsou : ∀ c : Call, c.request = request → ∀ a, R a →
      c.source subtask (a - subtask.start media) = request.data (a - request.offset)) :
    Part media request R [subtask] where
  effect hwrite c d hc := by
    have hst : subtask.write = true := hdir.trans hwrite
    refine ⟨{ c with work := c.fill subtask }, overlay d (subtask.start media) (subtask.size media)
      (c.source subtask), ?_, hc, fun a => ⟨fun ha => ?_, fun ha => ?_⟩⟩
    · simp only [List.foldl_cons, List.foldl_nil, perform, hst, if_true]
    · rw [overlay_of_covers ((hR a).mpr ha)]
      exact hsou c hc a ha
    · exact overlay_of_not_covers fun h => ha ((hR a).mp h)
  direction st hst hwrite := by
    rw [List.mem_singleton.mp hst] at hwrite
    exact hdir.symm.trans hwrite
  within st hst a ha := by
    rw [List.mem_singleton.mp hst] at ha
    exact ⟨a, (hR a).mp ha, rfl⟩
  apart := List.pairwise_singleton _ _

lemma part_whole {lba bufferSize position : ℕ} {workingBuffer : Option Work} {blocking : Bool}
    (hsize : bufferSize % media.blockSize = 0)
    (hpos : request.offset + position = lba * media.blockSize) :
    Part media request (Covers (lba * media.blockSize) bufferSize)
      [⟨request.write, lba, 0, bufferSize, workingBuffer, .user position, blocking⟩] := by
  refine part_singleton rfl (fun a => ?_) fun c hc a ha => ?_
  · simp only [Subtask.Touches, Subtask.start, Subtask.size, hsize, if_true]
  · have hbyt : ∀ i, c.bytes (.user position) i = request.data (position + i) := by
      intro i
      rw [Call.bytes, hc]
    have heq : position + (a - lba * media.blockSize) = a - request.offset := by
      unfold Covers at ha
      omega
    have hcov : Covers 0 bufferSize (a - lba * media.blockSize) := by
      unfold Covers at ha ⊢
      omega
    cases workingBuffer with
    | none => simp only [Call.source, Subtask.start, hbyt, heq]
    | some buffer =>
      simp only [Call.source, Call.fill, Function.update_self, Subtask.start]
      rw [overlay_of_covers hcov, hbyt, Nat.sub_zero, heq]

lemma part_empty {lba offset position : ℕ} {blocking : Bool} :
    Part media request (fun _ => False)
      [⟨request.write, lba, offset, 0, none, .user position, blocking⟩] := by
  refine part_singleton rfl (fun a => ?_) fun c hc a ha => ha.elim
  simp [Subtask.Touches, Subtask.size, Covers]

lemma block_eq {lba offset a : ℕ} (hoff : offset < media.blockSize)
    (hlo : lba * media.blockSize ≤ a) (hhi : a < lba * media.blockSize + media.blockSize) :
    a / media.blockSize = (lba * media.blockSize + offset) / media.blockSize := by
  have hblo : ∀ b, lba * media.blockSize ≤ b → b < lba * media.blockSize + media.blockSize →
      b / media.blockSize = lba := fun b hlo hhi =>
    Nat.div_eq_of_lt_le hlo (by rw [Nat.add_mul, Nat.one_mul]; exact hhi)
  rw [hblo a hlo hhi, hblo _ (Nat.le_add_right _ _) (by omega)]

lemma part_patch {lba offset length position : ℕ} {work : Work} {blocking : Bool}
    (hlen : 0 < length) (hlt : length < media.blockSize)
    (hle : offset + length ≤ media.blockSize) (hwri : request.write = true)
    (hpos : request.offset + position = lba * media.blockSize + offset) :
    Part media request (Covers (lba * media.blockSize + offset) length)
      [⟨false, lba, 0, media.blockSize, none, .work work, true⟩,
        ⟨request.write, lba, offset, length, some work, .user position, blocking⟩] := by
  have hmod : length % media.blockSize ≠ 0 := by
    rw [Nat.mod_eq_of_lt hlt]
    omega
  refine ⟨fun _ c d hc => ?_, by simp [hwri], fun st hst a ha => ?_, ?_⟩
  · let c₁ : Call := { c with
      work := Function.update c.work work
        (overlay (c.work work) 0 media.blockSize fun i => d (lba * media.blockSize + i)) }
    let subtask : Subtask :=
      ⟨request.write, lba, offset, length, some work, .user position, blocking⟩
    have hsou : ∀ i < media.blockSize, c₁.source subtask i = if Covers offset length i then
        request.data (position + (i - offset)) else d (lba * media.blockSize + i) := by
      intro i hi
      have hcov : Covers 0 media.blockSize i := ⟨Nat.zero_le _, by omega⟩
      simp only [c₁, subtask, Call.source, Call.fill, Function.update_self, Call.bytes, hc, overlay,
        hcov, if_true, Nat.sub_zero]
    refine ⟨{ c₁ with work := c₁.fill subtask }, overlay d (lba * media.blockSize) media.blockSize
      (c₁.source subtask), ?_, hc, fun a => ⟨fun ha => ?_, fun ha => ?_⟩⟩
    · simp only [List.foldl_cons, List.foldl_nil, perform, Bool.false_eq_true, if_false, if_true,
        hwri, Call.read, Subtask.start, Subtask.size, Nat.mod_self, hmod, c₁, subtask]
    · grind [overlay_of_covers, Covers]
    grind [overlay_of_covers, Nat.add_sub_cancel', Covers, overlay_of_not_covers]
  · refine ⟨lba * media.blockSize + offset, ⟨le_rfl, by omega⟩, ?_⟩
    simp only [List.mem_cons, List.not_mem_nil, or_false] at hst
    rcases hst with rfl | rfl
    · simp only [Subtask.Touches, Subtask.start, Subtask.size, Nat.mod_self, if_true, Covers] at ha
      exact block_eq (by omega) ha.1 ha.2
    · simp only [Subtask.Touches, Subtask.start, Subtask.size, hmod, if_false, Covers] at ha
      exact block_eq (by omega) ha.1 ha.2
  simp

lemma part_read {R : ℕ → Prop} {subtask : Subtask} (hwri : request.write = false)
    (hdir : subtask.write = request.write)
    (hwit : ∀ a, subtask.Touches media a →
      ∃ b, R b ∧ a / media.blockSize = b / media.blockSize) :
    Part media request R [subtask] where
  effect h := by simp [hwri] at h
  direction := by simp [hdir]
  within := by simpa using hwit
  apart := List.pairwise_singleton _ _

/-! ### The list of subtasks -/

lemma yields_partialBlock {lba offset length position : ℕ} {work : Work} {blocking : Bool}
    (hlen : 0 < length) (hlt : length < media.blockSize)
    (hle : offset + length ≤ media.blockSize)
    (hpos : request.offset + position = lba * media.blockSize + offset) :
    Yields (partialBlock media request.write lba offset length position work blocking)
      (Part media request (Covers (lba * media.blockSize + offset) length)) := by
  unfold partialBlock
  dsimp only
  generalize (if blocking = true then Work.shared else work) = buffer
  refine yields_bind (yields_any _) fun _ _ => ?_
  cases hwri : request.write with
  | true =>
    have hread : Yields (readBlock media lba buffer) fun l =>
        l = [⟨false, lba, 0, media.blockSize, none, .work buffer, true⟩] :=
      yields_bind (yields_createSubtask rfl) fun st hst => yields_pure (by rw [hst])
    refine yields_bind hread fun l hl => ?_
    refine yields_bind (yields_createSubtask rfl) fun st hst => yields_pure ?_
    have hpat : Part media request (Covers (lba * media.blockSize + offset) length)
        [⟨false, lba, 0, media.blockSize, none, .work buffer, true⟩,
          ⟨request.write, lba, offset, length, some buffer, .user position, blocking⟩] :=
      part_patch hlen hlt hle hwri hpos
    grind
  | false =>
    refine yields_bind (yields_pure rfl) fun l hl => ?_
    refine yields_bind (yields_createSubtask rfl) fun st hst => yields_pure ?_
    rw [← hl, ← hst, List.nil_append]
    refine part_read hwri hwri.symm fun a ha => ?_
    have hmod : length % media.blockSize ≠ 0 := by
      rw [Nat.mod_eq_of_lt hlt]
      omega
    simp only [Subtask.Touches, Subtask.start, Subtask.size, hmod, if_false, Covers] at ha
    exact ⟨lba * media.blockSize + offset, ⟨le_rfl, by omega⟩, block_eq (by omega) ha.1 ha.2⟩

lemma covers_append {start size size' a : ℕ} :
    Covers start size a ∨ Covers (start + size) size' a ↔ Covers start (size + size') a := by
  unfold Covers
  omega

lemma block_ne (hblo : 0 < media.blockSize) {lba a b : ℕ} (ha : a < lba * media.blockSize)
    (hb : lba * media.blockSize ≤ b) : a / media.blockSize ≠ b / media.blockSize := by
  have hlt : a / media.blockSize < lba := Nat.div_lt_of_lt_mul (by rwa [Nat.mul_comm])
  have hle : lba ≤ b / media.blockSize := (Nat.le_div_iff_mul_le hblo).mpr hb
  omega

lemma yields_dataChunks_nil {write : Bool} {overRunLba fuel lba bufferSize position : ℕ}
    (h : overRunLba ≤ lba) :
    Yields (dataChunks media write overRunLba fuel lba bufferSize position) (· = []) := by
  cases fuel with
  | zero => exact yields_pure rfl
  | succ fuel =>
    grind [dataChunks, yields_pure]

lemma yields_dataChunks (hblo : 0 < media.blockSize) (hnum : 0 < media.dataBufferBlockNum)
    {overRunLba fuel lba position : ℕ} (hfuel : overRunLba - lba ≤ fuel)
    (hpos : request.offset + position = lba * media.blockSize) :
    Yields (dataChunks media request.write overRunLba fuel lba
        ((overRunLba - lba) * media.blockSize) position)
      (Part media request (Covers (lba * media.blockSize)
        ((overRunLba - lba) * media.blockSize))) := by
  have hnone : overRunLba ≤ lba → Part media request (Covers (lba * media.blockSize)
      ((overRunLba - lba) * media.blockSize)) [] := by
    intro hle
    refine part_nil.congr fun a => ?_
    rw [Nat.sub_eq_zero_of_le hle, Nat.zero_mul]
    simp [Covers]
  induction fuel generalizing lba position with
  | zero => exact yields_pure (hnone (by omega))
  | succ fuel ih =>
    unfold dataChunks
    refine yields_ite (fun hlt => ?_) fun hge => yields_pure (hnone (Nat.le_of_not_lt hge))
    dsimp only
    rw [Nat.mul_min_mul_right, ← Nat.sub_mul]
    by_cases hlast : overRunLba - lba ≤ media.dataBufferBlockNum
    · rw [Nat.min_eq_left hlast]
      refine yields_bind (yields_createSubtask rfl) fun st hst => ?_
      refine yields_bind (yields_dataChunks_nil (by omega)) fun l hl => yields_pure ?_
      rw [← hst, hl]
      exact part_whole (Nat.mul_mod_left _ _) hpos
    · obtain ⟨n, hn⟩ : ∃ n, n = media.dataBufferBlockNum := ⟨_, rfl⟩
      have hsize : overRunLba - lba - n = overRunLba - (lba + n) := by omega
      have hnext : (lba + n) * media.blockSize = lba * media.blockSize + n * media.blockSize :=
        Nat.add_mul _ _ _
      rw [Nat.min_eq_right (by omega), ← hn, hsize]
      refine yields_bind (yields_createSubtask rfl) fun st hst => ?_
      refine yields_bind (ih (by omega) (by omega) fun hle => absurd hle (by omega)) fun l hl =>
        yields_pure ?_
      rw [← hst]
      have hwho : Part media request (Covers (lba * media.blockSize) (n * media.blockSize))
          [⟨request.write, lba, 0, n * media.blockSize, some .shared, .user position, true⟩] :=
        part_whole (Nat.mul_mod_left _ _) hpos
      refine (hwho.append hl fun a b ha hb => ?_).congr fun a => ?_
      · grind [Covers, block_ne]
      · rw [hnext, covers_append, ← Nat.add_mul]
        congr! 2
        omega

/-- The subtasks for whole blocks that are not aligned in memory. -/
def UnalignedOk (media : Media) (request : Request)
    (unaligned : ℕ → ℕ → ℕ → ℕ → Create (List Subtask)) : Prop :=
  ∀ lba overRunLba position, lba < overRunLba →
    request.offset + position = lba * media.blockSize →
    Yields (unaligned lba overRunLba ((overRunLba - lba) * media.blockSize) position)
      (Part media request (Covers (lba * media.blockSize)
        ((overRunLba - lba) * media.blockSize)))

lemma yields_overRunList (hblo : 0 < media.blockSize) {aligned : ℕ → Bool} {blocking : Bool}
    {unaligned : ℕ → ℕ → ℕ → ℕ → Create (List Subtask)}
    (huna : UnalignedOk media request unaligned) {lba bufferSize position : ℕ}
    (hpos : request.offset + position = lba * media.blockSize) :
    Yields (overRunList media aligned request.write blocking unaligned lba bufferSize position)
      (Part media request (Covers (lba * media.blockSize) bufferSize)) := by
  have hdiv := Nat.div_add_mod bufferSize media.blockSize
  have hmod := Nat.mod_lt bufferSize hblo
  have hcomm := Nat.mul_comm media.blockSize (bufferSize / media.blockSize)
  obtain ⟨n, hn⟩ : ∃ n, n = bufferSize / media.blockSize := ⟨_, rfl⟩
  have hwho : bufferSize - bufferSize % media.blockSize = n * media.blockSize := by
    rw [hn]
    omega
  have hnext : (lba + n) * media.blockSize = lba * media.blockSize + n * media.blockSize :=
    Nat.add_mul _ _ _
  unfold overRunList
  dsimp only
  rw [hwho, ← hn]
  have hover : Yields (if bufferSize % media.blockSize = 0 then pure []
      else partialBlock media request.write (lba + n) 0 (bufferSize % media.blockSize)
        (position + n * media.blockSize) .over blocking)
      (Part media request
        (Covers ((lba + n) * media.blockSize) (bufferSize % media.blockSize))) := by
    refine yields_ite (fun hzero => yields_pure (part_nil.congr fun a => ?_)) fun hne => ?_
    · simp [hzero, Covers]
    · exact yields_partialBlock (Nat.pos_of_ne_zero hne) hmod (by omega) (by omega)
  have hmid : Yields (if lba < lba + n then
        if aligned position then
          alignedBlocks request.write lba (n * media.blockSize) position blocking
        else unaligned lba (lba + n) (n * media.blockSize) position
      else pure [])
      (Part media request (Covers (lba * media.blockSize) (n * media.blockSize))) := by
    refine yields_ite (fun hlt => yields_ite (fun _ => ?_) fun _ => ?_) fun hge => ?_
    · exact yields_bind (yields_createSubtask rfl) fun st hst => yields_pure
        (hst ▸ part_whole (Nat.mul_mod_left _ _) hpos)
    · have := huna lba (lba + n) position hlt hpos
      rwa [Nat.add_sub_cancel_left] at this
    · refine yields_pure (part_nil.congr fun a => ?_)
      have hzero : n = 0 := by omega
      simp [hzero, Covers]
  refine yields_bind hover fun behind hbeh => yields_bind hmid fun middle hmid =>
    yields_pure ((hbeh.append hmid fun a b ha hb => ?_).congr fun a => ?_)
  · grind [Covers, block_ne]
  · rw [Or.comm, hnext, covers_append]
    congr! 1
    omega

lemma yields_overRunList_zero {aligned : ℕ → Bool} {write blocking : Bool}
    {unaligned : ℕ → ℕ → ℕ → ℕ → Create (List Subtask)} {lba position : ℕ} :
    Yields (overRunList media aligned write blocking unaligned lba 0 position) (· = []) := by
  unfold overRunList
  dsimp only
  rw [Nat.zero_mod, if_pos rfl, Nat.zero_div, Nat.add_zero, if_neg (Nat.lt_irrefl _)]
  grind [yields_bind, yields_pure]

lemma yields_subtaskList (hblo : 0 < media.blockSize) {aligned : ℕ → Bool} {blocking : Bool}
    {unaligned : ℕ → ℕ → ℕ → ℕ → Create (List Subtask)}
    (huna : UnalignedOk media request unaligned) {offset bufferSize position : ℕ}
    (hposi : request.offset + position = offset) :
    Yields (subtaskList media aligned request.write blocking unaligned offset bufferSize position)
      (Part media request (Covers offset bufferSize)) := by
  have hdiv := Nat.div_add_mod offset media.blockSize
  have hmod := Nat.mod_lt offset hblo
  have hcomm := Nat.mul_comm media.blockSize (offset / media.blockSize)
  have hnext : (offset / media.blockSize + 1) * media.blockSize =
      offset / media.blockSize * media.blockSize + media.blockSize := Nat.succ_mul _ _
  unfold subtaskList
  dsimp only
  refine yields_ite (fun hzero => ?_) fun hsize => yields_ite (fun hzero => ?_) fun hunde => ?_
  · refine yields_bind (yields_createSubtask rfl) fun st hst => yields_pure ?_
    rw [← hst]
    refine part_empty.congr fun a => ?_
    simp [hzero, Covers]
  · have hlba : offset / media.blockSize * media.blockSize = offset := by omega
    have hrest : Yields (overRunList media aligned request.write blocking unaligned
        (offset / media.blockSize) bufferSize position)
        (Part media request (Covers (offset / media.blockSize * media.blockSize) bufferSize)) :=
      yields_overRunList hblo huna (hposi.trans hlba.symm)
    rwa [hlba] at hrest
  · have hlba : offset / media.blockSize * media.blockSize + offset % media.blockSize = offset := by
      omega
    have hund : ∀ length, 0 < length → length ≤ media.blockSize - offset % media.blockSize →
        Yields (partialBlock media request.write (offset / media.blockSize)
          (offset % media.blockSize) length position .under blocking)
          (Part media request (Covers offset length)) := by
      intro length hpos hle
      have hpart : Yields (partialBlock media request.write (offset / media.blockSize)
          (offset % media.blockSize) length position .under blocking)
          (Part media request (Covers (offset / media.blockSize * media.blockSize +
            offset % media.blockSize) length)) :=
        yields_partialBlock hpos (by omega) (by omega) (by omega)
      rwa [hlba] at hpart
    by_cases hsho : bufferSize ≤ media.blockSize - offset % media.blockSize
    · rw [Nat.min_eq_right hsho, Nat.sub_self]
      refine yields_bind (hund bufferSize (by omega) hsho) fun under hunde =>
        yields_bind yields_overRunList_zero fun rest hrest => yields_pure ?_
      rwa [hrest, List.append_nil]
    · rw [Nat.min_eq_left (by omega)]
      refine yields_bind (hund _ (by omega) le_rfl) fun under hunde =>
        yields_bind (yields_overRunList hblo huna (by omega)) fun rest hrest =>
          yields_pure ((hunde.append hrest fun a b ha hb => ?_).congr fun a => ?_)
      · unfold Covers at ha hb
        refine block_ne hblo ?_ hb.1
        omega
      · unfold Covers
        omega

lemma unalignedOk_blocking (hblo : 0 < media.blockSize) (hnum : 0 < media.dataBufferBlockNum) :
    UnalignedOk media request fun lba overRunLba bufferSize position =>
      dataChunks media request.write overRunLba (overRunLba - lba) lba bufferSize position :=
  fun _ _ _ _ hpos => yields_dataChunks hblo hnum le_rfl hpos

/-- The subtasks of a request are those for its bytes. -/
theorem yields_createSubtaskList (hblo : 0 < media.blockSize)
    (hnum : 0 < media.dataBufferBlockNum) (request : Request) :
    Yields (createSubtaskList media request)
      (Part media request (Covers request.offset request.bufferSize)) := by
  refine yields_subtaskList hblo (fun lba overRunLba position hlt hpos => ?_) (Nat.add_zero _)
  refine yields_bind (yields_any _) fun allocated _ => yields_ite (fun _ => ?_) fun _ => ?_
  · exact yields_bind (yields_createSubtask rfl) fun st hst => yields_pure
      (hst ▸ part_whole (Nat.mul_mod_left _ _) hpos)
  · exact yields_subtaskList hblo (unalignedOk_blocking hblo hnum) hpos

end Edk2.DiskIo

/-!
## What the steps do

One inversion lemma for each step, and the runs in which nothing goes wrong: the subtasks can be
created, no outstanding write is in a block of a new write, and the device refuses a subtask only
before it has accepted another one of the request.
-/

namespace Edk2.DiskIo

open Overlay

variable {media : Media} {s s' : State}

lemma begin_cases {request : Request} {taskAllocated : Bool} {answers : List Bool}
    (h : begin media s request taskAllocated answers = some s') :
    ∃ queue heap, removeCompletedTask s.taskQueue s.heap = some (queue, heap) ∧
      ((taskAllocated = false ∧ s' = { s with
          taskQueue := queue
          heap := heap
          log := s.log ++ [(request, .outOfResources)] }) ∨
        (taskAllocated = true ∧ createSubtaskList media request answers = none ∧ s' = { s with
          taskQueue := queue ++ [s.fresh]
          heap := heap
          fresh := s.fresh + 1
          log := s.log ++ [(request, .outOfResources)] }) ∨
        ∃ subtasks answers', taskAllocated = true ∧
          createSubtaskList media request answers = some (subtasks, answers') ∧ s' = { s with
            taskQueue := queue ++ [s.fresh]
            heap := Function.update heap s.fresh
              (some ⟨some s.log.length, List.range subtasks.length⟩)
            fresh := s.fresh + 1
            call := some ⟨request, s.fresh, [], subtasks.zipIdx.map fun (subtask, index) =>
              (index, subtask), fun _ _ => 0, .success⟩ }) := by
  unfold begin at h
  obtain ⟨⟨queue, heap⟩, hrem, h⟩ := Option.bind_eq_some_iff.mp h
  refine ⟨queue, heap, hrem, ?_⟩
  grind

lemma submit_cases {status : EfiStatus} (h : submit media s status = some s') :
    ∃ c task index subtask rest, s.call = some c ∧ s.heap c.task = some task ∧
      c.rest = (index, subtask) :: rest ∧
      ((status.isError = true ∧ s' = { s with
          heap := Function.update s.heap c.task (some (((index, subtask) :: rest).foldl
            (fun task x => task.destroySubtask x.1) task))
          call := some { c with
            rest := []
            status := status } }) ∨
        (status.isError = false ∧ s' = accept media s c index subtask rest task)) := by
  unfold submit at h
  obtain ⟨c, hc, h⟩ := Option.bind_eq_some_iff.mp h
  obtain ⟨task, htask, h⟩ := Option.bind_eq_some_iff.mp h
  cases hrest : c.rest with
  | nil => simp [hrest] at h
  | cons x rest =>
    obtain ⟨index, subtask⟩ := x
    refine ⟨c, task, index, subtask, rest, hc, htask, hrest, ?_⟩
    grind

lemma finish_cases (h : finish s = some s') :
    ∃ c task, s.call = some c ∧ s.heap c.task = some task ∧ c.rest = [] ∧
      s'.disk = s.disk ∧ s'.inflight = s.inflight ∧ s'.call = none ∧
      s'.log = s.log ++ [(c.request, c.status)] ∧ s'.deviceError = s.deviceError ∧
      s'.fresh = s.fresh ∧
      ((task.subtasks = [] ∧ s'.taskQueue = s.taskQueue.erase c.task ∧
          s'.heap = Function.update s.heap c.task none ∧
          s'.signalled = s.signalled ++ if c.status.isError then [] else task.token.toList) ∨
        (task.subtasks ≠ [] ∧ s'.taskQueue = s.taskQueue ∧ s'.heap = s.heap ∧
          s'.signalled = s.signalled)) := by
  unfold finish at h
  obtain ⟨c, hc, h⟩ := Option.bind_eq_some_iff.mp h
  obtain ⟨task, htask, h⟩ := Option.bind_eq_some_iff.mp h
  grind

lemma complete_cases {position : ℕ} {status : EfiStatus}
    (h : complete media s position status = some s') :
    ∃ transfer task, s.inflight[position]? = some transfer ∧ s.heap transfer.task = some task ∧
      s'.disk = (if transfer.subtask.write && !status.isError then
        overlay s.disk (transfer.subtask.start media) (transfer.subtask.size media) transfer.source
        else s.disk) ∧
      s'.inflight = s.inflight.eraseIdx position ∧ s'.call = s.call ∧ s'.log = s.log ∧
      s'.deviceError = (s.deviceError || (transfer.subtask.write && status.isError)) ∧
      s'.taskQueue = s.taskQueue ∧ s'.fresh = s.fresh ∧
      (((status.isError = true ∨ (task.destroySubtask transfer.index).subtasks = []) ∧
          s'.heap = Function.update s.heap transfer.task
            (some { task.destroySubtask transfer.index with token := none }) ∧
          s'.signalled = s.signalled ++ task.token.toList) ∨
        ((task.destroySubtask transfer.index).subtasks ≠ [] ∧
          s'.heap =
            Function.update s.heap transfer.task (some (task.destroySubtask transfer.index)) ∧
          s'.signalled = s.signalled)) := by
  unfold complete at h
  obtain ⟨transfer, htra, h⟩ := Option.bind_eq_some_iff.mp h
  obtain ⟨task, htask, h⟩ := Option.bind_eq_some_iff.mp h
  refine ⟨transfer, task, htra, htask, ?_⟩
  obtain rfl := (Option.some.inj h).symm
  refine ⟨rfl, rfl, rfl, rfl, rfl, rfl, rfl, ?_⟩
  grind

section Accept

variable {c : Call} {index : ℕ} {subtask : Subtask} {rest : List (ℕ × Subtask)} {task : Task}

/-- The transfer for a subtask. -/
def transferOf (s : State) (c : Call) (index : ℕ) (subtask : Subtask) : Transfer :=
  ⟨c.task, index, subtask, c.source subtask, s.log.length⟩

/-- The call after a turn of the loop. -/
def nextCall (media : Media) (s : State) (c : Call) (subtask : Subtask)
    (rest : List (ℕ × Subtask)) : Call :=
  { c with
    done := c.done ++ [subtask]
    rest := rest
    work := if subtask.write then c.fill subtask
      else if subtask.blocking then
        c.read media subtask fun i => s.disk (subtask.lba * media.blockSize + i)
      else c.work }

lemma accept_call : (accept media s c index subtask rest task).call =
    some (nextCall media s c subtask rest) := by
  unfold accept nextCall
  dsimp only
  split_ifs <;> rfl

lemma accept_log : (accept media s c index subtask rest task).log = s.log := by
  unfold accept
  split_ifs <;> rfl

lemma accept_deviceError :
    (accept media s c index subtask rest task).deviceError = s.deviceError := by
  unfold accept
  split_ifs <;> rfl

lemma accept_inflight : (accept media s c index subtask rest task).inflight =
    if subtask.blocking then s.inflight else s.inflight ++ [transferOf s c index subtask] := by
  unfold accept
  split_ifs <;> rfl

lemma mem_accept_inflight {t : Transfer}
    (h : t ∈ (accept media s c index subtask rest task).inflight) :
    t ∈ s.inflight ∨ subtask.blocking = false ∧ t = transferOf s c index subtask := by
  grind [accept_inflight]

lemma accept_heap : (accept media s c index subtask rest task).heap =
    if subtask.blocking then Function.update s.heap c.task (some (task.destroySubtask index))
    else s.heap := by
  unfold accept
  split_ifs <;> rfl

lemma accept_tasks : (accept media s c index subtask rest task).taskQueue = s.taskQueue ∧
    (accept media s c index subtask rest task).fresh = s.fresh ∧
    (accept media s c index subtask rest task).signalled = s.signalled := by
  unfold accept
  split_ifs <;> exact ⟨rfl, rfl, rfl⟩

end Accept

/-- The step does not reach one of the flaws of the driver. -/
def Careful (media : Media) (s : State) : Event → Prop
  | .call request taskAllocated answers => taskAllocated = true →
    (createSubtaskList media request answers).isSome ∧
      (request.write = true → ∀ t ∈ s.inflight, t.subtask.write = true →
        ∀ a b, t.subtask.Touches media a → Covers request.offset request.bufferSize b →
          a / media.blockSize ≠ b / media.blockSize)
  | .submit status => status.isError = true → ∀ c, s.call = some c →
    ∀ st ∈ c.done, st.blocking = true ∧ st.write = false
  | .finish => True
  | .complete _ _ => True

/-- The states that careful runs reach. -/
inductive Reaches (media : Media) (disk : ℕ → Byte) : State → Prop
  | initial : Reaches media disk (State.initial disk)
  | next {s s' : State} {e : Event} (h : Reaches media disk s) (hcareful : Careful media s e)
    (hstep : step media s e = some s') : Reaches media disk s'

lemma Reaches.invariant {disk : ℕ → Byte} {P : State → Prop} (hini : P (State.initial disk))
    (hstep : ∀ s s' e, P s → Careful media s e → step media s e = some s' → P s')
    (h : Reaches media disk s) : P s := by
  induction h with
  | initial => exact hini
  | next _ hcar h ih => exact hstep _ _ _ ih hcar h

end Edk2.DiskIo
