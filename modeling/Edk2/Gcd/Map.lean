import Edk2.Base
import Edk2.Lib.Segment

/-!
# The GCD maps of the DXE core

The doubly linked list `mGcdMemorySpaceMap` (and `mGcdIoSpaceMap`) is a list of entries; a
`LIST_ENTRY` pointer into it is an index. Searching, splitting and merging follow
`CoreSearchGcdMapEntry`, `CoreInsertGcdMapEntry`, `CoreMergeGcdMapEntry` and
`CoreCleanupGcdMapEntry` of `MdeModulePkg/Core/Dxe/Gcd/Gcd.c`.
-/

namespace Edk2.Gcd

/-- `EFI_GCD_MEMORY_TYPE`; every value from `EfiGcdMemoryTypeMaximum` on is `maximum`. -/
inductive GcdMemoryType
  | nonExistent
  | reserved
  | systemMemory
  | memoryMappedIo
  | persistent
  | moreReliable
  | maximum
deriving DecidableEq, Repr

/-- `EFI_GCD_IO_TYPE`; every value from `EfiGcdIoTypeMaximum` on is `maximum`. -/
inductive GcdIoType
  | nonExistent
  | reserved
  | io
  | maximum
deriving DecidableEq, Repr

/-- The six fields that `CoreMergeGcdMapEntry` compares. -/
structure GcdFields where
  capabilities : BitVec 64
  attributes : BitVec 64
  gcdMemoryType : GcdMemoryType
  gcdIoType : GcdIoType
  imageHandle : Handle
  deviceHandle : Handle
deriving DecidableEq, Repr

/-- `EFI_GCD_MAP_ENTRY` without its signature and its links. -/
structure GcdMapEntry extends GcdFields where
  baseAddress : ℕ
  endAddress : ℕ
deriving DecidableEq, Repr

instance : Segment GcdMapEntry GcdFields where
  lo := GcdMapEntry.baseAddress
  hi := GcdMapEntry.endAddress
  label := GcdMapEntry.toGcdFields

/-- The last address of the range, in `UINT64` arithmetic. -/
def rangeEnd (baseAddress length : ℕ) : ℕ := u64 (baseAddress + length - 1)

/-- The loop of `CoreSearchGcdMapEntry`: `index` is the position of the entry looked at and
`startLink` the latest entry seen that contains `BaseAddress`. -/
def searchLoop (baseAddress length : ℕ) : List GcdMapEntry → ℕ → Option ℕ → Option (ℕ × ℕ)
  | [], _, _ => none
  | entry :: rest, index, startLink =>
    let startLink :=
      if baseAddress ≥ entry.baseAddress ∧ baseAddress ≤ entry.endAddress then some index
      else startLink
    match startLink with
    | some start =>
      if rangeEnd baseAddress length ≥ entry.baseAddress ∧
          rangeEnd baseAddress length ≤ entry.endAddress then
        some (start, index)
      else searchLoop baseAddress length rest (index + 1) (some start)
    | none => searchLoop baseAddress length rest (index + 1) none

/-- `CoreSearchGcdMapEntry`: the positions of `StartLink` and `EndLink`, or `EFI_NOT_FOUND`. All
callers have rejected a zero length, so its `ASSERT (Length != 0)` cannot fail. -/
def coreSearchGcdMapEntry (baseAddress length : ℕ) (map : List GcdMapEntry) : Option (ℕ × ℕ) :=
  searchLoop baseAddress length map 0 none

/-- The entries before `StartLink`, those from `StartLink` to `EndLink`, and those after. -/
def slice (map : List GcdMapEntry) (startLink endLink : ℕ) :
    List GcdMapEntry × List GcdMapEntry × List GcdMapEntry :=
  (map.take startLink, (map.drop startLink).take (endLink + 1 - startLink),
    map.drop (endLink + 1))

/-- The entries that `CoreSearchGcdMapEntry` reports for a range. -/
def coveredEntries (baseAddress length : ℕ) (map : List GcdMapEntry) : List GcdMapEntry :=
  match coreSearchGcdMapEntry baseAddress length map with
  | some (startLink, endLink) => (slice map startLink endLink).2.1
  | none => []

/-! ### Splitting -/

/-- Which of the two pad entries of `CoreAllocateGcdMapEntry` is linked in already
(`Signature != 0`). -/
structure PadEntries where
  topEntry : Bool := false
  bottomEntry : Bool := false
deriving DecidableEq, Repr

/-- What `CoreInsertGcdMapEntry` leaves in the list in place of one entry. -/
structure InsertResult where
  bottom : List GcdMapEntry
  entry : GcdMapEntry
  top : List GcdMapEntry
  pads : PadEntries
deriving DecidableEq, Repr

/-- The first half of `CoreInsertGcdMapEntry`: cut off what lies below the range. -/
def insertBottom (baseAddress : ℕ) (pads : PadEntries) (entry : GcdMapEntry) :
    Except Halt InsertResult :=
  if baseAddress > entry.baseAddress then
    if pads.bottomEntry then .error .assert
    else .ok
      { bottom := [{ entry with endAddress := baseAddress - 1 }]
        entry := { entry with baseAddress := baseAddress }
        top := []
        pads := { pads with bottomEntry := true } }
  else .ok { bottom := [], entry := entry, top := [], pads := pads }

/-- The second half of `CoreInsertGcdMapEntry`: cut off what lies above the range. -/
def insertTop (baseAddress length : ℕ) (r : InsertResult) : Except Halt InsertResult :=
  if rangeEnd baseAddress length < r.entry.endAddress then
    if r.pads.topEntry then .error .assert
    else .ok
      { r with
        top := [{ r.entry with baseAddress := u64 (baseAddress + length) }]
        entry := { r.entry with endAddress := rangeEnd baseAddress length }
        pads := { r.pads with topEntry := true } }
  else .ok r

def coreInsertGcdMapEntry (baseAddress length : ℕ) (pads : PadEntries) (entry : GcdMapEntry) :
    Except Halt InsertResult :=
  (insertBottom baseAddress pads entry).bind (insertTop baseAddress length)

/-- What the update loop leaves: the part cut off below `StartLink`, the list from `StartLink`
to `EndLink`, and the part cut off above `EndLink`. -/
structure UpdateResult where
  bottom : List GcdMapEntry
  run : List GcdMapEntry
  top : List GcdMapEntry
deriving DecidableEq, Repr

/-- The body of the `switch` that rewrites one entry. It reads and writes the merge fields only
and threads the local variable `Attributes`. -/
abbrev Update := BitVec 64 → GcdFields → BitVec 64 × GcdFields

/-- The loop `while (Link != EndLink->ForwardLink)` that splits and rewrites the entries from
`StartLink` to `EndLink`. A pad linked in behind an entry other than `EndLink` is itself visited
next. As the top pad is linked in at most once, `fuel = length + 1` iterations are enough. -/
def updateLoop (update : Update) (baseAddress length : ℕ) :
    ℕ → PadEntries → BitVec 64 → List GcdMapEntry → Except Halt UpdateResult
  | _, _, _, [] => .ok { bottom := [], run := [], top := [] }
  | 0, _, _, _ :: _ => .error .loop
  | fuel + 1, pads, attributes, entry :: rest =>
    (coreInsertGcdMapEntry baseAddress length pads entry).bind fun r =>
      let updated := update attributes r.entry.toGcdFields
      let entry' := { r.entry with toGcdFields := updated.2 }
      match rest with
      | [] => .ok { bottom := r.bottom, run := [entry'], top := r.top }
      | _ :: _ =>
        (updateLoop update baseAddress length fuel r.pads updated.1 (r.top ++ rest)).bind fun u =>
          .ok { bottom := r.bottom, run := entry' :: (u.bottom ++ u.run), top := u.top }

/-! ### Merging -/

/-- `CoreMergeGcdMapEntry (Link, FALSE, Map)`; `before` lists the entries before `Link`, nearest
first. -/
def mergeBackward (before : List GcdMapEntry) (entry : GcdMapEntry) :
    List GcdMapEntry × GcdMapEntry :=
  match before with
  | [] => ([], entry)
  | adjacent :: before =>
    if entry.toGcdFields = adjacent.toGcdFields then
      (before, { entry with baseAddress := adjacent.baseAddress })
    else (adjacent :: before, entry)

/-- `CoreMergeGcdMapEntry (Link, TRUE, Map)`; `after` lists the entries after `Link`. -/
def mergeForward (entry : GcdMapEntry) (after : List GcdMapEntry) : List GcdMapEntry :=
  match after with
  | [] => [entry]
  | adjacent :: after =>
    if entry.toGcdFields = adjacent.toGcdFields then
      { entry with endAddress := adjacent.endAddress } :: after
    else entry :: adjacent :: after

/-- The loop of `CoreCleanupGcdMapEntry` over the entries from `StartLink` to `EndLink`, ending
with the forward merge of `EndLink`. -/
def cleanupLoop (before : List GcdMapEntry) : List GcdMapEntry → List GcdMapEntry →
    List GcdMapEntry
  | [], after => before.reverse ++ after
  | [entry], after =>
    let merged := mergeBackward before entry
    merged.1.reverse ++ mergeForward merged.2 after
  | entry :: next :: rest, after =>
    let merged := mergeBackward before entry
    cleanupLoop (merged.2 :: merged.1) (next :: rest) after

/-- `CoreCleanupGcdMapEntry` on a map in which the list `run` goes from `StartLink` to `EndLink`. -/
def coreCleanupGcdMapEntry (before run after : List GcdMapEntry) : List GcdMapEntry :=
  cleanupLoop before.reverse run after

/-- Split, rewrite and merge the entries from `StartLink` to `EndLink`: the part of
`CoreConvertSpace` and `CoreAllocateSpace` that follows the allocation of the pad entries. -/
def rewriteRange (update : Update) (attributes : BitVec 64)
    (baseAddress length startLink endLink : ℕ) (map : List GcdMapEntry) :
    Except Halt (List GcdMapEntry) :=
  let (before, covered, after) := slice map startLink endLink
  (updateLoop update baseAddress length (covered.length + 1) {} attributes covered).bind fun u =>
    .ok (coreCleanupGcdMapEntry (before ++ u.bottom) u.run (u.top ++ after))

end Edk2.Gcd

/-!
## Searching a tiled GCD map

On a map that tiles an interval, `coreSearchGcdMapEntry` either finds the run of entries from the
one that contains the base address to the one that contains the end address, or the range leaves
the interval or wraps below its first entry.
-/

namespace Edk2.Gcd

open Segment

@[simp] lemma lo_entry (e : GcdMapEntry) : lo e = e.baseAddress := rfl
@[simp] lemma hi_entry (e : GcdMapEntry) : hi e = e.endAddress := rfl
@[simp] lemma label_entry (e : GcdMapEntry) : label e = e.toGcdFields := rfl

lemma contains_iff {e : GcdMapEntry} {a : ℕ} :
    Contains e a ↔ e.baseAddress ≤ a ∧ a ≤ e.endAddress := Iff.rfl

variable {s t i k b n : ℕ} {l map : List GcdMapEntry}

/-- Once `StartLink` is set and the remaining entries lie above the base address, the loop stops
at the entry that contains the end of the range. -/
lemma searchLoop_started (h : Tiles s l t) (hb : b < s) (hs : s ≤ rangeEnd b n)
    (ht : rangeEnd b n < t) :
    ∃ pre f post, l = pre ++ f :: post ∧ Contains f (rangeEnd b n) ∧
      searchLoop b n l i (some k) = some (k, i + pre.length) := by
  induction l generalizing s i with
  | nil =>
    simp only [tiles_nil] at h
    omega
  | cons e l ih =>
    obtain ⟨hlo, hle, h⟩ := h
    simp only [lo_entry, hi_entry] at hlo hle h
    have hne : ¬ (b ≥ e.baseAddress ∧ b ≤ e.endAddress) := by omega
    by_cases hlim : rangeEnd b n ≤ e.endAddress
    · refine ⟨[], e, l, rfl, ⟨by simp only [lo_entry]; omega, hlim⟩, ?_⟩
      grind [searchLoop]
    · obtain ⟨pre, f, post, rfl, hf, hrun⟩ := ih (i := i + 1) h (by omega) (by omega)
      grind [searchLoop, List.length_cons, Option.some.injEq, Prod.mk.injEq]

lemma searchLoop_started_none (h : Tiles s l t) (hb : b < s)
    (hout : rangeEnd b n < s ∨ t ≤ rangeEnd b n) :
    searchLoop b n l i (some k) = none := by
  induction l generalizing s i with
  | nil => rfl
  | cons e l ih =>
    obtain ⟨hlo, hle, h⟩ := h
    simp only [lo_entry, hi_entry] at hlo hle h
    have hlt := h.le
    grind [searchLoop]

lemma searchLoop_start (h : Tiles s l t) (hs : s ≤ b) (ht : b < t) :
    ∃ pre e post, l = pre ++ e :: post ∧ Contains e b ∧
      searchLoop b n l i none =
        if Contains e (rangeEnd b n) then some (i + pre.length, i + pre.length)
        else searchLoop b n post (i + pre.length + 1) (some (i + pre.length)) := by
  induction l generalizing s i with
  | nil =>
    simp only [tiles_nil] at h
    omega
  | cons e l ih =>
    obtain ⟨hlo, hle, h⟩ := h
    simp only [lo_entry, hi_entry] at hlo hle h
    by_cases hb : b ≤ e.endAddress
    · refine ⟨[], e, l, rfl, ⟨by simp only [lo_entry]; omega, hb⟩, ?_⟩
      grind [searchLoop, contains_iff]
    · obtain ⟨pre, f, post, rfl, hf, hrun⟩ := ih (i := i + 1) h (by omega)
      grind [searchLoop, List.length_cons]

lemma searchLoop_none (h : Tiles s l t) (ht : b < s ∨ t ≤ b) : searchLoop b n l i none = none := by
  induction l generalizing s i with
  | nil => rfl
  | cons e l ih =>
    obtain ⟨hlo, hle, h⟩ := h
    simp only [lo_entry, hi_entry] at hlo hle h
    have hlt := h.le
    grind [searchLoop]

/-- The run of entries that a successful search reports. -/
structure Covers (b n : ℕ) (map pre mid post : List GcdMapEntry) : Prop where
  split : map = pre ++ mid ++ post
  ne_nil : mid ≠ []
  first : ∀ e ∈ mid.head?, Contains e b
  last : ∀ e ∈ mid.getLast?, Contains e (rangeEnd b n)

/-- Why a search on a tiling of `[s, t)` fails. -/
def SearchFails (b n t : ℕ) (map : List GcdMapEntry) : Prop :=
  t ≤ b ∨ ∃ e ∈ map, Contains e b ∧
    (rangeEnd b n < e.baseAddress ∨ t ≤ rangeEnd b n)

theorem coreSearchGcdMapEntry_spec (h : Tiles 0 map t) (b n : ℕ) :
    (coreSearchGcdMapEntry b n map = none ∧ SearchFails b n t map) ∨
    ∃ pre mid post, Covers b n map pre mid post ∧
      coreSearchGcdMapEntry b n map = some (pre.length, pre.length + mid.length - 1) := by
  unfold coreSearchGcdMapEntry
  rcases Nat.lt_or_ge b t with hb | hb
  swap
  · exact Or.inl ⟨searchLoop_none h (Or.inr hb), Or.inl hb⟩
  obtain ⟨pre, e, post, rfl, he, hrun⟩ := searchLoop_start (n := n) (i := 0) h (Nat.zero_le _) hb
  rw [hrun]
  obtain ⟨m, -, hlo, hle, hpost⟩ := tiles_append.mp h
  by_cases hin : Contains e (rangeEnd b n)
  · refine Or.inr ⟨pre, [e], post, ⟨by simp, by simp, by simpa using he, by simpa using hin⟩, ?_⟩
    simp [hin]
  rw [if_neg hin]
  simp only [contains_iff] at he hin
  simp only [hi_entry] at hpost
  rcases Nat.lt_or_ge e.endAddress (rangeEnd b n) with habo | hbel
  · rcases Nat.lt_or_ge (rangeEnd b n) t with hlt | hge
    · obtain ⟨pre', f, post', rfl, hf, hrun'⟩ :=
        searchLoop_started (i := pre.length + 1) (k := pre.length) hpost (by omega) habo hlt
      refine Or.inr ⟨pre, e :: (pre' ++ [f]), post', ⟨by simp, by simp, ?_, ?_⟩, ?_⟩
      · simpa [contains_iff] using he
      · intro g hg
        rw [← List.cons_append, List.getLast?_append] at hg
        simp only [List.getLast?_singleton, Option.some_or, Option.mem_some_iff] at hg
        exact hg ▸ hf
      simp [hrun', List.length_cons, List.length_append, List.length_nil,
        Option.some.injEq, Prod.mk.injEq, true_and]
      omega
    · refine Or.inl ⟨searchLoop_started_none hpost (by omega) (Or.inr hge), Or.inr ⟨e, ?_⟩⟩
      exact ⟨by simp, he, Or.inr hge⟩
  · have hlt : rangeEnd b n < e.baseAddress := by omega
    refine Or.inl ⟨searchLoop_started_none hpost (by omega) (Or.inl (by omega)), Or.inr ⟨e, ?_⟩⟩
    exact ⟨by simp, he, Or.inl hlt⟩

lemma slice_append (pre mid post : List GcdMapEntry) (hmid : mid ≠ []) :
    slice (pre ++ mid ++ post) pre.length (pre.length + mid.length - 1) = (pre, mid, post) := by
  grind [List.length_append, slice, Prod.mk.injEq, List.append_assoc, List.drop_left,
    List.take_left]

end Edk2.Gcd
