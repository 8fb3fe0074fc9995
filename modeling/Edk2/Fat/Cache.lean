import Edk2.Base
import Edk2.Lib.Overlay

/-!
# The disk cache of a FAT volume

`EnhancedFatDxe/DiskCache.c` and `FatDiskIo` of `EnhancedFatDxe/Misc.c`, for blocking access. There
is a cache for the FAT and one for the data, each a number of groups with a page in each. The disk
fails as it likes: an access that fails leaves any bytes in the range that it should have filled,
on the disk or in the buffer. What the disk answers is in the state, one answer for each access to
come.
-/

namespace Edk2.Fat

open Overlay

abbrev Byte := UInt8

/-- `CACHE_DATA_TYPE`. -/
inductive CacheType
  | fat
  | data
deriving DecidableEq, Repr

/-- The fields of `FAT_VOLUME` that the cache uses. -/
structure Volume where
  volumeSize : ℕ
  fatPos : ℕ
  fatSize : ℕ
  numFats : ℕ
  rootPos : ℕ
  /-- `FatType == Fat12`. -/
  fat12 : Bool
deriving DecidableEq, Repr

/-- What `FatOpenDevice` makes of a volume. -/
structure Volume.Valid (v : Volume) : Prop where
  numFats : 0 < v.numFats
  rootPos : v.rootPos = v.fatPos + v.numFats * v.fatSize
  volumeSize : v.rootPos ≤ v.volumeSize

/-! ### `FatInitializeDiskCache` -/

section Parameters

variable (v : Volume)

def Volume.pageAlignment : CacheType → ℕ
  | .fat => if v.fat12 then 13 else 15
  | .data => if v.fat12 then 13 else 16

def Volume.pageSize (type : CacheType) : ℕ := 2 ^ v.pageAlignment type

/-- `GroupMask + 1`. -/
def Volume.groupCount : CacheType → ℕ
  | .fat => if v.fat12 then 1 else 16
  | .data => 64

def Volume.baseAddress : CacheType → ℕ
  | .fat => v.fatPos
  | .data => v.rootPos

def Volume.limitAddress : CacheType → ℕ
  | .fat => v.fatPos + v.fatSize
  | .data => v.volumeSize

/-- How often a page is written back. -/
def Volume.writeCount : CacheType → ℕ
  | .fat => v.numFats
  | .data => 1

/-- `PageNo & GroupMask`; the mask is one less than a power of two. -/
def Volume.groupNo (type : CacheType) (pageNo : ℕ) : ℕ := pageNo % v.groupCount type

/-- Where a page is on the disk. -/
def Volume.entryPos (type : CacheType) (pageNo : ℕ) : ℕ :=
  v.baseAddress type + pageNo * v.pageSize type

/-- How much of a page is on the disk. -/
def Volume.realSize (type : CacheType) (pageNo : ℕ) : ℕ :=
  min (v.pageSize type) (v.limitAddress type - v.entryPos type pageNo)

end Parameters

/-! ### The state -/

structure CacheTag where
  pageNo : ℕ
  realSize : ℕ
  dirty : Bool
deriving DecidableEq, Repr

/-- `DISK_CACHE`, and the pages at `CacheBase`. -/
structure DiskCache where
  tag : ℕ → CacheTag
  page : ℕ → ℕ → Byte
  dirty : Bool

/-- What the disk answers to an access, and the bytes that an access leaves if it fails. -/
structure Answer where
  status : EfiStatus
  bytes : ℕ → Byte

structure State where
  disk : ℕ → Byte
  cache : CacheType → DiskCache
  /-- `Volume->DiskError`. -/
  diskError : Bool
  /-- What the disk answers to the accesses to come. -/
  answers : ℕ → Answer

/-- The volume when it was opened. -/
def State.initial (disk : ℕ → Byte) (answers : ℕ → Answer) : State where
  disk := disk
  cache _ := ⟨fun _ => ⟨0, 0, false⟩, fun _ _ => 0, false⟩
  diskError := false
  answers := answers

abbrev Buffer := ℕ → Byte

/-- The tag of a group is written. -/
def State.setTag (s : State) (type : CacheType) (group : ℕ) (tag : CacheTag) : State :=
  { s with
    cache := Function.update s.cache type { s.cache type with
      tag := Function.update (s.cache type).tag group tag } }

/-- The page of a group is written. -/
def State.setPage (s : State) (type : CacheType) (group : ℕ) (page : ℕ → Byte) : State :=
  { s with
    cache := Function.update s.cache type { s.cache type with
      page := Function.update (s.cache type).page group page } }

def State.setDirty (s : State) (type : CacheType) (dirty : Bool) : State :=
  { s with cache := Function.update s.cache type { s.cache type with dirty := dirty } }

/-- The status of `FatDiskIo` is recorded. -/
def State.record (s : State) (status : EfiStatus) : State :=
  { s with diskError := s.diskError || status.isError }

/-- The answer to an access is used up. -/
def State.next (s : State) : State := { s with answers := fun n => s.answers (n + 1) }

/-! ### Access to the disk -/

/-- `FatDiskIo (Volume, ReadDisk, Offset, BufferSize, Buffer, NULL)`. -/
def readDisk (v : Volume) (s : State) (offset size : ℕ) (buffer : Buffer) :
    EfiStatus × State × Buffer :=
  if offset + size ≤ v.volumeSize then
    let answer := s.answers 0
    let bytes := if answer.status.isError then answer.bytes else fun i => s.disk (offset + i)
    (answer.status, s.next.record answer.status, overlay buffer 0 size bytes)
  else (.volumeCorrupted, s.record .volumeCorrupted, buffer)

/-- `FatDiskIo (Volume, WriteDisk, Offset, BufferSize, Buffer, NULL)`. -/
def writeDisk (v : Volume) (s : State) (offset size : ℕ) (buffer : Buffer) :
    EfiStatus × State :=
  if offset + size ≤ v.volumeSize then
    let answer := s.answers 0
    let bytes := if answer.status.isError then answer.bytes else buffer
    (answer.status, { s.next.record answer.status with disk := overlay s.disk offset size bytes })
  else (.volumeCorrupted, s.record .volumeCorrupted)

/-! ### Pages -/

/-- The loop of `FatExchangeCachePage` for a page that is written back. -/
def writeCopies (v : Volume) (size : ℕ) (page : ℕ → Byte) : ℕ → State → ℕ → EfiStatus × State
  | 0, s, _ => (.success, s)
  | count + 1, s, entryPos =>
    let (status, s) := writeDisk v s entryPos size page
    if status.isError then (status, s) else writeCopies v size page count s (entryPos + v.fatSize)

/-- `FatExchangeCachePage (Volume, DataType, WriteDisk, CacheTag, NULL)`. -/
def writeBack (v : Volume) (s : State) (type : CacheType) (group : ℕ) : EfiStatus × State :=
  let tag := (s.cache type).tag group
  let page := (s.cache type).page (v.groupNo type tag.pageNo)
  let (status, s) :=
    writeCopies v tag.realSize page (v.writeCount type) s (v.entryPos type tag.pageNo)
  if status.isError then (status, s)
  else (.success, s.setTag type group { tag with dirty := false })

/-- `FatExchangeCachePage (Volume, DataType, ReadDisk, CacheTag, NULL)`. -/
def loadPage (v : Volume) (s : State) (type : CacheType) (group : ℕ) : EfiStatus × State :=
  let tag := (s.cache type).tag group
  let target := v.groupNo type tag.pageNo
  let size := v.realSize type tag.pageNo
  let (status, s, page) :=
    readDisk v s (v.entryPos type tag.pageNo) size ((s.cache type).page target)
  let s := s.setPage type target page
  if status.isError then (status, s)
  else (.success, s.setTag type group ⟨tag.pageNo, size, false⟩)

/-- The page in a group is written back if it has to be. -/
def evictPage (v : Volume) (s : State) (type : CacheType) (group : ℕ) : EfiStatus × State :=
  let tag := (s.cache type).tag group
  if 0 < tag.realSize ∧ tag.dirty then writeBack v s type group else (.success, s)

def fatGetCachePage (v : Volume) (s : State) (type : CacheType) (pageNo : ℕ) : EfiStatus × State :=
  let group := v.groupNo type pageNo
  let tag := (s.cache type).tag group
  if 0 < tag.realSize ∧ tag.pageNo = pageNo then (.success, s)
  else
    let (status, s) := evictPage v s type group
    if status.isError then (status, s)
    else
      let tag := (s.cache type).tag group
      loadPage v (s.setTag type group { tag with pageNo := pageNo }) type group

/-- `FatAccessUnalignedCachePage`; `position` is where `Buffer` points to. -/
def fatAccessUnalignedCachePage (v : Volume) (s : State) (type : CacheType) (write : Bool)
    (pageNo offset length : ℕ) (buffer : Buffer) (position : ℕ) : EfiStatus × State × Buffer :=
  let group := v.groupNo type pageNo
  let (status, s) := fatGetCachePage v s type pageNo
  if status.isError then (status, s, buffer)
  else
    let page := (s.cache type).page group
    if write then
      let s := s.setTag type group { (s.cache type).tag group with dirty := true }
      let s := s.setDirty type true
      let page := overlay page offset length fun i => buffer (position + i)
      (.success, s.setPage type group page, buffer)
    else (.success, s, overlay buffer position length fun i => page (offset + i))

/-! ### Ranges -/

/-- One turn of the loop of `FatFlushDataCacheRange`. -/
def flushDataCachePage (v : Volume) (write : Bool) (startPageNo position : ℕ) (x : State × Buffer)
    (pageNo : ℕ) : State × Buffer :=
  let (s, buffer) := x
  let group := v.groupNo .data pageNo
  let tag := (s.cache .data).tag group
  if 0 < tag.realSize ∧ tag.pageNo = pageNo then
    if write then (s.setTag .data group { tag with realSize := 0 }, buffer)
    else if tag.dirty then
      let start := position + (pageNo - startPageNo) * v.pageSize .data
      (s, overlay buffer start (v.pageSize .data) ((s.cache .data).page group))
    else (s, buffer)
  else (s, buffer)

/-- `FatFlushDataCacheRange`, for `count` pages. -/
def fatFlushDataCacheRange (v : Volume) (s : State) (write : Bool) (startPageNo count : ℕ)
    (buffer : Buffer) (position : ℕ) : State × Buffer :=
  (List.range' startPageNo count).foldl (flushDataCachePage v write startPageNo position)
    (s, buffer)

/-- The access of the aligned data. -/
def accessAligned (v : Volume) (s : State) (write : Bool) (pageNo count : ℕ) (buffer : Buffer)
    (position : ℕ) : EfiStatus × State × Buffer :=
  let entryPos := v.rootPos + pageNo * v.pageSize .data
  let size := count * v.pageSize .data
  if write then
    let (status, s) := writeDisk v s entryPos size fun i => buffer (position + i)
    if status.isError then (status, s, buffer)
    else
      let (s, buffer) := fatFlushDataCacheRange v s true pageNo count buffer position
      (.success, s, buffer)
  else
    let (status, s, bytes) := readDisk v s entryPos size fun i => buffer (position + i)
    let buffer := overlay buffer position size bytes
    if status.isError then (status, s, buffer)
    else
      let (s, buffer) := fatFlushDataCacheRange v s false pageNo count buffer position
      (.success, s, buffer)

/-- The access of the pages from an aligned position on: aligned data and what is left behind it.
There is no result if aligned data of the FAT is accessed. -/
def accessPages (v : Volume) (s : State) (type : CacheType) (write : Bool) (pageNo size : ℕ)
    (buffer : Buffer) (position : ℕ) : Option (EfiStatus × State × Buffer) :=
  let count := size / v.pageSize type
  let overRun := size % v.pageSize type
  let alignedSize := count * v.pageSize type
  if 0 < count ∧ type = .fat then none
  else
    let (status, s, buffer) :=
      if 0 < count then accessAligned v s write pageNo count buffer position
      else (.success, s, buffer)
    if status.isError then some (status, s, buffer)
    else if 0 < overRun then
      some (fatAccessUnalignedCachePage v s type write (pageNo + count) 0 overRun buffer
        (position + alignedSize))
    else some (.success, s, buffer)

def fatAccessCache (v : Volume) (s : State) (type : CacheType) (write : Bool) (offset size : ℕ)
    (buffer : Buffer) : Option (EfiStatus × State × Buffer) :=
  let entryPos := offset - v.baseAddress type
  let pageNo := entryPos / v.pageSize type
  let underRun := entryPos % v.pageSize type
  if 0 < underRun then
    let length := min (v.pageSize type - underRun) size
    let (status, s, buffer) :=
      fatAccessUnalignedCachePage v s type write pageNo underRun length buffer 0
    if status.isError then some (status, s, buffer)
    else accessPages v s type write (pageNo + 1) (size - length) buffer length
  else accessPages v s type write pageNo size buffer 0

/-- `FatDiskIo` for `ReadFat`, `WriteFat`, `ReadData` and `WriteData`. -/
def fatDiskIo (v : Volume) (s : State) (type : CacheType) (write : Bool) (offset size : ℕ)
    (buffer : Buffer) : Option (EfiStatus × State × Buffer) :=
  if offset + size ≤ v.volumeSize then do
    let (status, s, buffer) ← fatAccessCache v s type write offset size buffer
    some (status, s.record status, buffer)
  else some (.volumeCorrupted, s.record .volumeCorrupted, buffer)

/-! ### Flushing -/

/-- The loop of `FatVolumeFlushCache` over the groups of a cache. -/
def flushGroups (v : Volume) (type : CacheType) : List ℕ → State → EfiStatus × State
  | [], s => (.success, s)
  | group :: rest, s =>
    let (status, s) := evictPage v s type group
    if status.isError then (status, s) else flushGroups v type rest s

def flushCache (v : Volume) (s : State) (type : CacheType) : EfiStatus × State :=
  if (s.cache type).dirty then
    let (status, s) := flushGroups v type (List.range (v.groupCount type)) s
    if status.isError then (status, s) else (.success, s.setDirty type false)
  else (.success, s)

def fatVolumeFlushCache (v : Volume) (s : State) : EfiStatus × State :=
  let (status, s) := flushCache v s .fat
  if status.isError then (status, s)
  else
    let (status, s) := flushCache v s .data
    if status.isError then (status, s) else ((s.answers 0).status, s.next)

end Edk2.Fat

/-!
## What the cache and the disk hold

A byte of the volume is in a page of the cache, on the disk, or in both. The specification is the
content that the accesses should see: what was written last, and nothing for the bytes that a
failed write may have changed.
-/

namespace Edk2.Fat

open Overlay

variable {v : Volume} {disk₀ : ℕ → Byte} {s s' : State} {type type' : CacheType} {p a k : ℕ}

/-! ### Addresses -/

/-- The address is one of the FAT, or of the data. -/
def Volume.InRegion (v : Volume) (type : CacheType) (a : ℕ) : Prop :=
  v.baseAddress type ≤ a ∧ a < v.limitAddress type

def Volume.pageOf (v : Volume) (type : CacheType) (a : ℕ) : ℕ :=
  (a - v.baseAddress type) / v.pageSize type

def Volume.offsetOf (v : Volume) (type : CacheType) (a : ℕ) : ℕ :=
  (a - v.baseAddress type) % v.pageSize type

lemma Volume.pageSize_pos (v : Volume) (type : CacheType) : 0 < v.pageSize type :=
  Nat.two_pow_pos _

lemma Volume.entryPos_add_offsetOf (h : v.baseAddress type ≤ a) :
    v.entryPos type (v.pageOf type a) + v.offsetOf type a = a := by
  have hdiv := Nat.div_add_mod' (a - v.baseAddress type) (v.pageSize type)
  unfold entryPos pageOf offsetOf
  omega

lemma Volume.offsetOf_lt (v : Volume) (type : CacheType) (a : ℕ) :
    v.offsetOf type a < v.pageSize type := Nat.mod_lt _ (v.pageSize_pos type)

lemma Volume.offsetOf_lt_realSize (h : v.InRegion type a) :
    v.offsetOf type a < v.realSize type (v.pageOf type a) := by
  have heq := entryPos_add_offsetOf h.1
  have hlt := v.offsetOf_lt type a
  have hlim := h.2
  unfold realSize
  omega

lemma Volume.pageOf_entryPos_add {i : ℕ} (hi : i < v.pageSize type) :
    v.pageOf type (v.entryPos type p + i) = p ∧ v.offsetOf type (v.entryPos type p + i) = i := by
  have hsub : v.entryPos type p + i - v.baseAddress type = i + v.pageSize type * p := by
    unfold entryPos
    rw [Nat.mul_comm]
    omega
  grind [Nat.add_mul_div_left, Nat.add_mul_mod_self_left, Nat.div_eq_of_lt, Nat.mod_eq_of_lt,
    pageOf, offsetOf]

lemma Volume.pageOf_eq_of_covers
    (h : Covers (v.entryPos type p) (v.realSize type p) a) : v.pageOf type a = p := by
  obtain ⟨hle, hlt⟩ := h
  have hi : a - v.entryPos type p < v.pageSize type := by
    unfold realSize at hlt
    omega
  have := (pageOf_entryPos_add (v := v) (p := p) hi).1
  rwa [Nat.add_sub_cancel' hle] at this

lemma Volume.Valid.copy_eq (hv : v.Valid) {k' a' : ℕ} (hk : k < v.writeCount type)
    (hk' : k' < v.writeCount type') (ha : v.InRegion type a) (ha' : v.InRegion type' a')
    (heq : a + k * v.fatSize = a' + k' * v.fatSize) : type = type' ∧ k = k' ∧ a = a' := by
  have hroot := hv.rootPos
  obtain ⟨ha₁, ha₂⟩ := ha
  obtain ⟨ha₁', ha₂'⟩ := ha'
  cases type with
  | fat =>
    have hbou : (k + 1) * v.fatSize ≤ v.numFats * v.fatSize :=
      Nat.mul_le_mul_right _ hk
    rw [Nat.add_mul] at hbou
    cases type' with
    | fat =>
      have hsame : k = k' := by
        rcases Nat.lt_trichotomy k k' with hlt | hsame | hlt
        · have hmul : (k + 1) * v.fatSize ≤ k' * v.fatSize := Nat.mul_le_mul_right _ hlt
          grind [Nat.add_mul, baseAddress, limitAddress]
        · exact hsame
        · have hmul : (k' + 1) * v.fatSize ≤ k * v.fatSize := Nat.mul_le_mul_right _ hlt
          grind [Nat.add_mul, baseAddress, limitAddress]
      subst hsame
      exact ⟨rfl, rfl, Nat.add_right_cancel heq⟩
    | data =>
      grind [baseAddress, limitAddress]
  | data =>
    have hzero : k = 0 := Nat.lt_one_iff.mp hk
    subst hzero
    cases type' with
    | fat =>
      have hbou : (k' + 1) * v.fatSize ≤ v.numFats * v.fatSize :=
        Nat.mul_le_mul_right _ hk'
      grind [Nat.add_mul, baseAddress, limitAddress]
    | data =>
      have hzer' : k' = 0 := Nat.lt_one_iff.mp hk'
      subst hzer'
      exact ⟨rfl, rfl, by omega⟩

/-! ### Pages in the cache -/

/-- The page is in the cache. -/
def State.Cached (v : Volume) (s : State) (type : CacheType) (p : ℕ) : Prop :=
  0 < ((s.cache type).tag (v.groupNo type p)).realSize ∧
    ((s.cache type).tag (v.groupNo type p)).pageNo = p

instance : Decidable (s.Cached v type p) := inferInstanceAs (Decidable (_ ∧ _))

/-- The page is in the cache and has to be written back. -/
def State.DirtyPage (v : Volume) (s : State) (type : CacheType) (p : ℕ) : Prop :=
  s.Cached v type p ∧ ((s.cache type).tag (v.groupNo type p)).dirty = true

instance : Decidable (s.DirtyPage v type p) := inferInstanceAs (Decidable (_ ∧ _))

/-- The byte of a page in the cache. -/
def State.cacheByte (v : Volume) (s : State) (type : CacheType) (a : ℕ) : Byte :=
  (s.cache type).page (v.groupNo type (v.pageOf type a)) (v.offsetOf type a)

lemma dirtyPage_congr (h : s'.cache type = s.cache type) :
    s'.DirtyPage v type p ↔ s.DirtyPage v type p := by
  unfold State.DirtyPage State.Cached
  rw [h]

/-! ### The specification -/

/-- What the accesses should see. -/
structure Spec where
  content : ℕ → Byte
  /-- A write of the byte failed, and none has succeeded since. -/
  unknown : ℕ → Prop
  /-- A write of the byte succeeded. -/
  written : ℕ → Prop

def Spec.initial (disk : ℕ → Byte) : Spec := ⟨disk, fun _ => False, fun _ => False⟩

def Spec.write (spec : Spec) (start size : ℕ) (bytes : ℕ → Byte) : Spec where
  content := overlay spec.content start size bytes
  unknown a := spec.unknown a ∧ ¬Covers start size a
  written a := spec.written a ∨ Covers start size a

def Spec.fail (spec : Spec) (start size : ℕ) : Spec where
  content := spec.content
  unknown a := spec.unknown a ∨ Covers start size a
  written := spec.written

lemma Spec.write_content {spec : Spec} {start size : ℕ} {bytes : ℕ → Byte}
    (h : ¬Covers start size a) : (spec.write start size bytes).content a = spec.content a :=
  overlay_of_not_covers h

/-- The copy of a byte that was written, or was right from the start. -/
def Mirrored (v : Volume) (disk₀ : ℕ → Byte) (spec : Spec) (k a : ℕ) : Prop :=
  spec.written a ∨ disk₀ (a + k * v.fatSize) = disk₀ a

/-- The cache and the disk hold the content. -/
structure Inv (v : Volume) (disk₀ : ℕ → Byte) (s : State) (spec : Spec) : Prop where
  tags : ∀ type g, 0 < ((s.cache type).tag g).realSize →
    v.groupNo type ((s.cache type).tag g).pageNo = g ∧
      ((s.cache type).tag g).realSize = v.realSize type ((s.cache type).tag g).pageNo
  cached : ∀ type a, v.InRegion type a → ¬spec.unknown a → s.Cached v type (v.pageOf type a) →
    s.cacheByte v type a = spec.content a
  disk : ∀ type k a, k < v.writeCount type → v.InRegion type a → ¬spec.unknown a →
    Mirrored v disk₀ spec k a →
    s.DirtyPage v type (v.pageOf type a) ∨ s.disk (a + k * v.fatSize) = spec.content a
  dirty : ∀ type g, 0 < ((s.cache type).tag g).realSize →
    ((s.cache type).tag g).dirty = true → (s.cache type).dirty = true

variable {spec spec' : Spec}

lemma inv_initial (answers : ℕ → Answer) :
    Inv v disk₀ (State.initial disk₀ answers) (Spec.initial disk₀) where
  tags type g h := absurd h (Nat.lt_irrefl 0)
  cached type a _ _ h := absurd h.1 (Nat.lt_irrefl 0)
  disk type k a _ _ _ h := by
    rcases h with h | h
    · exact h.elim
    · exact Or.inr h
  dirty type g h := absurd h (Nat.lt_irrefl 0)

lemma Inv.mono (h : Inv v disk₀ s spec) (hle : ∀ a, ¬spec'.unknown a → ¬spec.unknown a ∧
    spec'.content a = spec.content a ∧ (spec'.written a → spec.written a)) :
    Inv v disk₀ s spec' where
  tags := h.tags
  cached type a ha hkno hcached := by
    obtain ⟨hkno', hcon, -⟩ := hle a hkno
    rw [hcon]
    exact h.cached type a ha hkno' hcached
  disk type k a hk ha hkno hmirror := by
    obtain ⟨hkno', hcon, hwri⟩ := hle a hkno
    rw [hcon]
    exact h.disk type k a hk ha hkno' (hmirror.imp_left hwri)
  dirty := h.dirty

lemma Inv.fail (h : Inv v disk₀ s spec) (start size : ℕ) : Inv v disk₀ s (spec.fail start size) :=
  h.mono fun _ hkno => ⟨fun hu => hkno (Or.inl hu), rfl, fun hw => hw⟩

lemma Inv.disk_frame (h : Inv v disk₀ s spec) (hcac : s'.cache = s.cache)
    (hdisk : ∀ type k a, k < v.writeCount type → v.InRegion type a →
      ¬s.DirtyPage v type (v.pageOf type a) → ¬spec.unknown a →
      s'.disk (a + k * v.fatSize) = s.disk (a + k * v.fatSize)) :
    Inv v disk₀ s' spec where
  tags type g := by
    rw [hcac]
    exact h.tags type g
  cached type a ha hkno hcached := by
    unfold State.Cached at hcached
    rw [hcac] at hcached
    unfold State.cacheByte
    rw [hcac]
    exact h.cached type a ha hkno hcached
  disk type k a hk ha hkno hmirror := by
    rw [dirtyPage_congr (congrFun hcac type)]
    by_cases hdir : s.DirtyPage v type (v.pageOf type a)
    · exact Or.inl hdir
    · refine Or.inr ?_
      rw [hdisk type k a hk ha hdir hkno]
      exact (h.disk type k a hk ha hkno hmirror).resolve_left hdir
  dirty type g := by
    rw [hcac]
    exact h.dirty type g

lemma Inv.congr (h : Inv v disk₀ s spec) (hcac : s'.cache = s.cache) (hdisk : s'.disk = s.disk) :
    Inv v disk₀ s' spec :=
  h.disk_frame hcac fun _ _ _ _ _ _ _ => by rw [hdisk]

end Edk2.Fat
