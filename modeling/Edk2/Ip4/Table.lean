import Edk2.Ip4.Reassemble

/-!
# The assemble table as a map

Every packet has at most one entry in the table, in the bucket of its hash value. So the table is a
map from packets to entries, and `Ip4Reassemble` changes one value of the map.
-/

namespace Edk2.Ip4

open Net

variable {table table' : AssembleTable} {entries : List AssembleEntry} {head head' : Ip4Head}

/-- No packet belongs to both entries. -/
def AssembleEntry.Apart (assemble assemble' : AssembleEntry) : Prop :=
  ∀ head, assemble.matches head → assemble'.matches head = false

/-- No packet has two entries. -/
def AssembleTable.Unique (table : AssembleTable) : Prop :=
  ∀ index, (table.bucket index).Pairwise AssembleEntry.Apart

/-- The entry of a packet. -/
def AssembleTable.lookup (table : AssembleTable) (head : Ip4Head) : Option AssembleEntry :=
  (table.bucket (ip4AssembleHash head)).find? fun assemble => assemble.matches head

/-- The table after the entry of one packet is changed. -/
structure Replaced (table table' : AssembleTable) (head : Ip4Head) (entry : Option AssembleEntry) :
    Prop where
  unique : table'.Unique
  same : table'.lookup head = entry
  other : ∀ head', ¬ head.SamePacket head' → table'.lookup head' = table.lookup head'
  mem : ∀ index, ∀ e ∈ table'.bucket index, e ∈ table.bucket index ∨ entry = some e

lemma Ip4Head.SamePacket.matches_eq (h : head.SamePacket head') (assemble : AssembleEntry) :
    assemble.matches head = assemble.matches head' := by
  obtain ⟨h₁, h₂, h₃, h₄⟩ := h
  simp only [AssembleEntry.matches, h₁, h₂, h₃, h₄]

lemma Ip4Head.SamePacket.lookup_eq (h : head.SamePacket head') (table : AssembleTable) :
    table.lookup head = table.lookup head' := by
  have hhash : ip4AssembleHash head = ip4AssembleHash head' := by
    obtain ⟨h₁, h₂, h₃, h₄⟩ := h
    simp only [ip4AssembleHash, h₁, h₂, h₃, h₄]
  unfold AssembleTable.lookup
  rw [hhash]
  congr 1
  funext assemble
  exact h.matches_eq assemble

lemma AssembleEntry.Apart.congr {assemble assemble' other : AssembleEntry}
    (h : assemble'.matches = assemble.matches) (hapa : assemble.Apart other) :
    assemble'.Apart other := by
  intro head hmat
  rw [h] at hmat
  exact hapa head hmat

lemma find?_toList_append {assemble : AssembleEntry} {entry : Option AssembleEntry}
    (hmat : assemble.matches head)
    (hkey : ∀ e, entry = some e → e.matches = assemble.matches)
    (hapa : ∀ e ∈ entries, assemble.Apart e) :
    (entry.toList ++ entries).find? (fun e => e.matches head) = entry ∧
      ∀ head', ¬ head.SamePacket head' →
        (entry.toList ++ entries).find? (fun e => e.matches head') =
          entries.find? fun e => e.matches head' := by
  have hnone : entries.find? (fun e => e.matches head) = none := by
    apply List.find?_eq_none.mpr
    intro e he
    rw [hapa e he head hmat]
    exact Bool.false_ne_true
  cases entry with
  | none => exact ⟨hnone, fun _ _ => rfl⟩
  | some e =>
    have heq := hkey e rfl
    constructor
    · exact List.find?_cons_of_pos (by rw [heq]; exact hmat)
    · intro head' hoth
      apply List.find?_cons_of_neg
      intro hmat'
      rw [heq] at hmat'
      exact hoth (.of_matches hmat hmat')

lemma updateFirst_find {f : AssembleEntry → Except Halt (Option Packet × Option AssembleEntry)}
    {assemble : AssembleEntry} {result : Option Packet} {entry : Option AssembleEntry}
    (huni : entries.Pairwise AssembleEntry.Apart)
    (hfind : entries.find? (fun e => e.matches head) = some assemble)
    (hrun : f assemble = .ok (result, entry))
    (hkey : ∀ e, entry = some e → e.matches = assemble.matches) :
    ∃ entries', updateFirst head f entries = .ok (result, entries') ∧
      entries'.Pairwise AssembleEntry.Apart ∧
      (∀ e ∈ entries', e ∈ entries ∨ entry = some e) ∧
      entries'.find? (fun e => e.matches head) = entry ∧
      ∀ head', ¬ head.SamePacket head' →
        entries'.find? (fun e => e.matches head') = entries.find? fun e => e.matches head' := by
  induction entries with
  | nil => simp at hfind
  | cons first entries ih =>
    rw [List.pairwise_cons] at huni
    by_cases hmat : first.matches head
    · simp only [List.find?_cons, hmat, Option.some.injEq] at hfind
      subst hfind
      obtain ⟨hsame, hoth⟩ := find?_toList_append hmat hkey huni.1
      refine ⟨entry.toList ++ entries, ?_, ?_, ?_, hsame, ?_⟩
      · simp only [updateFirst, hmat, if_true, hrun, bind, Except.bind, pure, Except.pure]
      · rw [List.pairwise_append]
        refine ⟨by cases entry <;> simp, huni.2, ?_⟩
        intro e he other hmem
        exact (huni.1 other hmem).congr (hkey e (Option.mem_toList.mp he))
      · grind
      · intro head' hdif
        rw [hoth head' hdif]
        symm
        apply List.find?_cons_of_neg
        intro hmat'
        exact hdif (.of_matches hmat hmat')
    · simp only [List.find?_cons, hmat] at hfind
      obtain ⟨entries', hupd, hpai, hmem, hsame, hoth⟩ := ih huni.2 hfind
      refine ⟨first :: entries', ?_, ?_, ?_, ?_, ?_⟩
      · simp only [updateFirst, hmat, Bool.false_eq_true, if_false, hupd, bind, Except.bind,
          pure, Except.pure]
      · rw [List.pairwise_cons]
        refine ⟨?_, hpai⟩
        intro e he
        rcases hmem e he with hold | hnew
        · exact huni.1 e hold
        · intro head' hfst
          rw [hkey e hnew]
          exact huni.1 assemble (List.mem_of_find?_eq_some hfind) head' hfst
      · grind
      · simp only [List.find?_cons, hmat, hsame]
      grind

lemma AssembleTable.Unique.setBucket (h : table.Unique) (index : ℕ)
    (hent : entries.Pairwise AssembleEntry.Apart) : (table.setBucket index entries).Unique := by
  intro i
  unfold AssembleTable.setBucket
  dsimp only
  split_ifs
  · exact hent
  · exact h i

lemma replaced_setBucket {entry : Option AssembleEntry} (h : table.Unique)
    (hent : entries.Pairwise AssembleEntry.Apart)
    (hsame : entries.find? (fun e => e.matches head) = entry)
    (hoth : ∀ head', ¬ head.SamePacket head' → entries.find? (fun e => e.matches head') =
      (table.bucket (ip4AssembleHash head)).find? fun e => e.matches head')
    (hmem : ∀ e ∈ entries, e ∈ table.bucket (ip4AssembleHash head) ∨ entry = some e) :
    Replaced table (table.setBucket (ip4AssembleHash head) entries) head entry := by
  constructor
  · exact h.setBucket _ hent
  · simp only [AssembleTable.lookup, AssembleTable.setBucket, if_true, hsame]
  · grind [AssembleTable.lookup, AssembleTable.setBucket]
  grind [AssembleTable.setBucket]

/-- The entry that a fragment is added to. -/
def AssembleTable.entryFor (table : AssembleTable) (head : Ip4Head) : AssembleEntry :=
  (table.lookup head).getD (ip4CreateAssembleEntry head.dst head.src head.id head.protocol)

lemma matches_entryFor (table : AssembleTable) (head : Ip4Head) :
    (table.entryFor head).matches head := by
  unfold AssembleTable.entryFor
  cases hloo : table.lookup head with
  | none => exact matches_iff.mpr ⟨rfl, rfl, rfl, rfl⟩
  | some assemble => exact List.find?_some (p := fun e : AssembleEntry => e.matches head) hloo

lemma ip4Reassemble_eq {allocations : Allocations} {packet : Packet} {result : Option Packet}
    {entry : Option AssembleEntry} (h : table.Unique)
    (hent : (table.lookup packet.head).isSome ∨ allocations.entry)
    (hrun : reassembleEntry allocations.buffer (table.entryFor packet.head) packet =
      .ok (result, entry))
    (hkey : ∀ e, entry = some e → e.matches = (table.entryFor packet.head).matches) :
    ∃ table', ip4Reassemble allocations table packet = .ok (result, table') ∧
      Replaced table table' packet.head entry := by
  have hmat := matches_entryFor table packet.head
  unfold ip4Reassemble
  dsimp only
  unfold AssembleTable.entryFor at hrun hkey hmat
  unfold AssembleTable.lookup at hrun hkey hent hmat
  cases hfind : (table.bucket (ip4AssembleHash packet.head)).find?
    fun e => e.matches packet.head with
  | none =>
    rw [hfind] at hrun hkey hent hmat
    simp only [Option.getD_none] at hrun hkey hmat
    simp only [Option.isSome_none, Bool.false_eq_true, false_or] at hent
    have hnone := List.find?_eq_none.mp hfind
    have hany : ¬ (table.bucket (ip4AssembleHash packet.head)).any
        (fun e => e.matches packet.head) := by
      rw [List.any_eq_true]
      rintro ⟨e, he, hmatc⟩
      exact hnone e he hmatc
    rw [if_neg hany]
    simp only [hent, Bool.not_true, Bool.false_eq_true, if_false, hrun, bind, Except.bind, pure,
      Except.pure]
    have hapa : ∀ e ∈ table.bucket (ip4AssembleHash packet.head),
        AssembleEntry.Apart (ip4CreateAssembleEntry packet.head.dst packet.head.src packet.head.id
          packet.head.protocol) e := by
      intro e he head' hhea'
      rw [← (Ip4Head.SamePacket.of_matches hmat hhea').matches_eq e]
      exact Bool.eq_false_iff.mpr (hnone e he)
    obtain ⟨hsame, hoth⟩ := find?_toList_append hmat hkey hapa
    refine ⟨_, rfl, replaced_setBucket h ?_ hsame hoth ?_⟩
    · rw [List.pairwise_append]
      refine ⟨by cases entry <;> simp, h _, ?_⟩
      intro e he other hmem
      exact (hapa other hmem).congr (hkey e (Option.mem_toList.mp he))
    grind
  | some assemble =>
    rw [hfind] at hrun hkey
    simp only [Option.getD_some] at hrun hkey
    have hany : (table.bucket (ip4AssembleHash packet.head)).any
        (fun e => e.matches packet.head) := by
      rw [List.any_eq_true]
      exact ⟨assemble, List.mem_of_find?_eq_some hfind,
        List.find?_some (p := fun e : AssembleEntry => e.matches packet.head) hfind⟩
    rw [if_pos hany]
    obtain ⟨entries', hupd, hpai, hmem, hsame, hoth⟩ := updateFirst_find (h _) hfind
      (f := fun assemble => reassembleEntry allocations.buffer assemble packet) hrun hkey
    rw [hupd]
    exact ⟨_, rfl, replaced_setBucket h hpai hsame hoth hmem⟩

end Edk2.Ip4

/-!
## Fragmentation of IPv4 packets

`Ip4Output` cuts a packet into windows of one length that is a multiple of eight bytes, and a last
one with the rest. They are sent from the tail to the head: the frame with number `k` holds the
window with number `num - 1 - k`.
-/

namespace Edk2.Ip4

open Net Window

section Field

variable {mf : Bool} {offset : ℕ}

lemma ip4LastFragment_field (mf : Bool) (offset : ℕ) :
    ip4LastFragment (ip4HeadFragmentField false mf offset) = !mf := by
  grind [BitVec.and_assoc, BitVec.and_or_distrib_right, ip4LastFragment, ip4HeadFragmentField]

lemma offset_field (hlt : offset < 2 ^ 16) (hunit : offset % 8 = 0) :
    ((ip4HeadFragmentField false mf offset &&& ip4HeadOffsetMask).toNat : ℤ) * 8 = offset := by
  have hmask : ip4HeadFragmentField false mf offset &&& ip4HeadOffsetMask =
      BitVec.ofNat 16 (offset / 8) &&& ip4HeadOffsetMask := by
    unfold ip4HeadFragmentField
    rw [BitVec.and_or_distrib_right, BitVec.and_assoc, BitVec.and_self]
    cases mf <;> simp
  have hmod : offset / 8 &&& 8191 = offset / 8 % 8192 := Nat.and_two_pow_sub_one_eq_mod _ 13
  grind

end Field

variable {packet : NetBuf} {mtu : ℕ} {frames : List (BitVec 16 × NetBuf)}

lemma sendFragments_spec (h : packet.WellFormed) (allocation : ℕ → Allocation) (count : ℕ) :
    ∀ index packetLen : ℕ, 0 < packetLen → mtu * count + packetLen ≤ packet.totalSize →
      0 < mtu → ∃ result,
      sendFragments allocation packet mtu count index (mtu * count) packetLen = .ok result ∧
      ((∀ k, (allocation k).Succeeds) → result.isSome) ∧
      ∀ frames, result = some frames → frames.length = count ∧
        ∀ k < count, ∃ nbuf, frames[k]? = some
          (ip4HeadFragmentField false (index + k ≠ 0) (mtu * (count - k)), nbuf) ∧
          nbuf.WellFormed ∧
          nbuf.bytes = window packet.bytes (mtu * (count - k)) (if k = 0 then packetLen else mtu) := by
  induction count with
  | zero =>
    intro index packetLen _ _ _
    refine ⟨some [], rfl, by simp, ?_⟩
    simp
  | succ count ih =>
    intro index packetLen hpos hins hmtu
    have hlt := h.lt
    have hsou : GetFragmentSound packet (mtu * (count + 1)) packetLen ip4MaxHeadLen :=
      getFragmentSound_of_fits h (by omega) (.inl (by omega))
    obtain ⟨first, hfst, -, hmem, hspec⟩ := hsou (allocation index)
    have hnext : mtu * (count + 1) - mtu = mtu * count := by
      rw [Nat.mul_succ]
      omega
    obtain ⟨rest, hrest, hres, hrestS⟩ := ih (index + 1) mtu hmtu
      (by rw [Nat.mul_succ] at hins; omega) hmtu
    cases first with
    | none =>
      refine ⟨none, ?_, ?_, by simp⟩
      · simp only [sendFragments, hfst, bind, Except.bind, pure, Except.pure]
      grind
    | some nbuf =>
      cases rest with
      | none =>
        refine ⟨none, ?_, ?_, by simp⟩
        · simp only [sendFragments, hfst, hnext, hrest, bind, Except.bind, pure, Except.pure]
        · intro hall
          exact absurd (hres hall) (by simp)
      | some frames =>
        refine ⟨some ((ip4HeadFragmentField false (index ≠ 0) (mtu * (count + 1)), nbuf) :: frames),
          ?_, by simp, ?_⟩
        · simp only [sendFragments, hfst, hnext, hrest, bind, Except.bind, pure, Except.pure]
        · intro frames' hfra
          cases hfra
          obtain ⟨hlen, hfram⟩ := hrestS frames rfl
          obtain ⟨hwf, hbyt⟩ := hspec nbuf rfl
          refine ⟨by rw [List.length_cons, hlen], ?_⟩
          intro k hk
          cases k with
          | zero => exact ⟨nbuf, rfl, hwf, hbyt⟩
          | succ k =>
            grind

/-- The length of all fragments but the last one. -/
def fragmentLen (maxPacketSize headLen : ℕ) : ℕ := (maxPacketSize + 20 - headLen) / 8 * 8

/-- The number of fragments. -/
def fragmentNum (totalSize mtu : ℕ) : ℕ := (totalSize + mtu - 1) / mtu

lemma fragmentNum_spec {totalSize : ℕ} (hmtu : 0 < mtu) (hlt : mtu < totalSize) :
    2 ≤ fragmentNum totalSize mtu ∧ mtu * (fragmentNum totalSize mtu - 1) < totalSize ∧
      totalSize ≤ mtu * fragmentNum totalSize mtu := by
  have hdiv := Nat.div_add_mod (totalSize + mtu - 1) mtu
  have hmod := Nat.mod_lt (totalSize + mtu - 1) hmtu
  change mtu * fragmentNum totalSize mtu + _ = _ at hdiv
  grind [Nat.mul_sub_one]

/-- The frames that a packet is split into. -/
structure SplitInto (packet : NetBuf) (mtu : ℕ) (frames : List (BitVec 16 × NetBuf)) : Prop where
  length_eq : frames.length = fragmentNum packet.totalSize mtu
  frame : ∀ k < frames.length, ∃ nbuf,
    frames[k]? = some (ip4HeadFragmentField false (k ≠ 0) (mtu * (frames.length - 1 - k)), nbuf) ∧
      nbuf.WellFormed ∧ nbuf.bytes = window packet.bytes (mtu * (frames.length - 1 - k)) mtu

lemma ip4Fragment_spec (h : packet.WellFormed) (allocation : ℕ → Allocation) (field : BitVec 16)
    {maxPacketSize headLen : ℕ} (hspl : maxPacketSize + 20 < packet.totalSize + headLen)
    (hunit : headLen + 8 ≤ maxPacketSize + 20) :
    ∃ result, ip4Fragment allocation packet field maxPacketSize headLen = .ok result ∧
      ((∀ k, (allocation k).Succeeds) → result.isSome) ∧
      ∀ frames, result = some frames →
        SplitInto packet (fragmentLen maxPacketSize headLen) frames := by
  set mtu := fragmentLen maxPacketSize headLen with hmtu
  have hpos : 0 < mtu := by
    rw [hmtu, fragmentLen]
    omega
  have hsho : mtu < packet.totalSize := by
    rw [hmtu, fragmentLen]
    omega
  obtain ⟨hnum, hlast, hall⟩ := fragmentNum_spec hpos hsho
  set num := fragmentNum packet.totalSize mtu with hnumD
  have hlen := h.length_bytes
  obtain ⟨result, hsend, hmem, hspec⟩ := sendFragments_spec h allocation (num - 1)
    0 (packet.totalSize - (num - 1) * mtu) (by rw [Nat.mul_comm]; omega)
    (by rw [Nat.mul_comm (num - 1)]; omega) hpos
  obtain ⟨first, htrim, hwf, -, hbyt⟩ := trimSound h (packet.totalSize - mtu) false
  unfold ip4Fragment
  rw [if_pos hspl]
  change ∃ result, (sendFragments allocation packet mtu (num - 1) 0 (mtu * (num - 1))
    (packet.totalSize - (num - 1) * mtu) >>= _) = _ ∧ _
  rw [hsend]
  cases result with
  | none =>
    refine ⟨none, rfl, ?_, by simp⟩
    intro hsuc
    exact absurd (hmem hsuc) (by simp)
  | some frames =>
    obtain ⟨hfra, hfram⟩ := hspec frames rfl
    refine ⟨some (frames ++ [(ip4HeadFragmentField false true 0, first)]), ?_, by simp, ?_⟩
    · have htrim : netbufTrim packet (packet.totalSize -
          (maxPacketSize + 20 - headLen) / 8 * 8) false = .ok _ := htrim
      simp only [bind, Except.bind, htrim, pure, Except.pure]
    · intro frames' hfra'
      cases hfra'
      have hcnt : (frames ++ [(ip4HeadFragmentField false true 0, first)]).length = num := by
        rw [List.length_append, hfra, List.length_singleton]
        omega
      refine ⟨hcnt, ?_⟩
      rw [hcnt]
      intro k hk
      by_cases hloop : k < num - 1
      · obtain ⟨nbuf, hget, hnbuf, hdata⟩ := hfram k hloop
        rw [Nat.zero_add] at hget
        refine ⟨nbuf, ?_, hnbuf, ?_⟩
        · rw [List.getElem?_append_left (by omega), hget]
        · rw [hdata]
          split_ifs with hzero
          · -- the last window reaches beyond the end
            subst hzero
            rw [Nat.sub_zero, window_of_le, window_of_le]
            · grind [Nat.mul_succ, Nat.succ_eq_add_one, Nat.sub_add_cancel]
            · rw [Nat.mul_comm (num - 1)]
              omega
          · rfl
      · have hk : k = num - 1 := by omega
        subst hk
        refine ⟨first, ?_, hwf, ?_⟩
        · grind
        simp [hbyt, window_zero, Bool.false_eq_true]
        omega

end Edk2.Ip4
