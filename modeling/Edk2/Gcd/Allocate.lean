import Edk2.Gcd.Wrap
import Edk2.Lib.Align

/-!
# The search of CoreAllocateSpace

What a request asks for, and what the search of `CoreAllocateSpace` finds. One invariant serves
both directions: the ranges that can still be found lie ahead of the link the loop has reached.
-/

namespace Edk2.Gcd

open Segment

/-- The entry is unallocated and of the type that the request names. -/
def Offers (o : GcdOperation) (r : AllocateRequest) (e : GcdMapEntry) : Prop :=
  e.imageHandle = 0 ∧
    if o.onMemory then e.gcdMemoryType = r.gcdMemoryType else e.gcdIoType = r.gcdIoType

/-- The last address that a search of an address space of `bits` bits may use. -/
def AllocateRequest.limit (r : AllocateRequest) (bits : ℕ) : ℕ :=
  if r.gcdAllocateType.bounded then r.baseAddress.getD 0 else 2 ^ bits - 1

/-- The range of the requested length at `b` is aligned, ends at or below the limit and consists
of addresses that are unallocated and of the requested type. -/
structure Fits (o : GcdOperation) (r : AllocateRequest) (limit : ℕ) (map : List GcdMapEntry)
    (b : ℕ) : Prop where
  aligned : 2 ^ r.alignment ∣ b
  below : b + r.length ≤ limit + 1
  offered : ∀ a, b ≤ a → a < b + r.length → ∃ e ∈ map, Contains e a ∧ Offers o r e

/-- `b` comes before `b'` in the direction of the search. -/
def Before (topDown : Bool) (b b' : ℕ) : Prop := if topDown then b' ≤ b else b ≤ b'

/-- The call succeeds with the first fitting range in its direction, or fails if there is none. -/
def FindsBest (env : Environment) (o : GcdOperation) (r : AllocateRequest) (bits : ℕ)
    (s : GcdState) : Prop :=
  ∃ status base s', coreAllocateSpace env o r s = .ok (status, base, s') ∧
    (¬ status.isError → ∃ b, base = some b ∧ Fits o r (r.limit bits) (s.map o) b ∧
      ∀ b', Fits o r (r.limit bits) (s.map o) b' → Before r.gcdAllocateType.topDown b b') ∧
    (status.isError → ∀ b, ¬ Fits o r (r.limit bits) (s.map o) b)

/-- The range at `b` ends in an entry that the test `Entry->BaseAddress + Length > MaxAddress` of
the downward search passes over. -/
def PassedOver (r : AllocateRequest) (limit : ℕ) (map : List GcdMapEntry) (b : ℕ) : Prop :=
  r.gcdAllocateType.topDown ∧
    ∃ e ∈ map, Contains e (b + r.length - 1) ∧ limit < e.baseAddress + r.length

/-- The first aligned address from an entry on. -/
def alignedStart (r : AllocateRequest) (e : GcdMapEntry) : ℕ :=
  alignDown (e.baseAddress + (2 ^ r.alignment - 1)) r.alignment

/-- The range from the aligned start of `e` wraps around `2 ^ 64` and ends in the entry `f` that
contains its start. -/
def WrapsInto (r : AllocateRequest) (e f : GcdMapEntry) : Prop :=
  2 ^ 64 < alignedStart r e + r.length ∧ Contains f (alignedStart r e) ∧
    Contains f (alignedStart r e + r.length - 1 - 2 ^ 64)

/-- The upward search comes to an entry from which the range wraps into an entry on offer, with
its wrapped end within the limit: from every entry on offer before it the range wraps too. -/
def FindsWrapped (o : GcdOperation) (r : AllocateRequest) (limit : ℕ) (map : List GcdMapEntry) :
    Prop :=
  r.gcdAllocateType.topDown = false ∧
    ∃ (i : ℕ) (e : GcdMapEntry), map[i]? = some e ∧ Offers o r e ∧
      (∃ f ∈ map, WrapsInto r e f ∧ Offers o r f) ∧
      alignedStart r e + r.length - 1 - 2 ^ 64 ≤ limit ∧
      ∀ (j : ℕ) (e' : GcdMapEntry), j < i → map[j]? = some e' → Offers o r e' →
        ∃ f ∈ map, WrapsInto r e' f

variable {o : GcdOperation} {r : AllocateRequest} {map : List GcdMapEntry}
  {limit bits t b b' c i j k m n : ℕ} {e f : GcdMapEntry} {link : Option ℕ}

lemma checkEntry_isError_iff (ho : o = .allocateMemory ∨ o = .allocateIo) :
    (coreAllocateSpaceCheckEntry o r e).isError ↔ ¬ Offers o r e := by
  grind [EfiStatus.isError, GcdOperation.onMemory, coreAllocateSpaceCheckEntry, Offers]

lemma lt_of_search_none (h : Tiles 0 map t) (hn : 0 < n)
    (hwrap : b + n ≤ 2 ^ 64) (hs : coreSearchGcdMapEntry b n map = none) : t < b + n := by
  have hend : rangeEnd b n = b + n - 1 := u64_of_lt (by omega)
  rcases coreSearchGcdMapEntry_spec h b n with ⟨-, hfai⟩ | ⟨pre, mid, post, -, hsome⟩
  · rcases hfai with htb | ⟨e, -, hc, hout⟩
    · omega
    · simp only [contains_iff, hend] at hc hout
      omega
  · rw [hs] at hsome
    cases hsome

lemma Covers.meets {pre mid post : List GcdMapEntry} (hcov : Covers b n map pre mid post)
    (h : Tiles 0 map t) (hwrap : b + n ≤ 2 ^ 64) (he : e ∈ mid) :
    e.baseAddress ≤ b + n - 1 ∧ b ≤ e.endAddress := by
  have hend : rangeEnd b n = b + n - 1 := u64_of_lt (by omega)
  obtain ⟨rfl, hne, hfst, hlast⟩ := hcov
  have hsor := (List.pairwise_append.mp (List.pairwise_append.mp h.pairwise).1).2.1
  have hnon : ∀ g ∈ mid, g.baseAddress ≤ g.endAddress := fun g hg =>
    (h.bounds g (by simp [hg])).2.1
  constructor
  · obtain ⟨l, g, rfl⟩ := List.eq_nil_or_concat mid |>.resolve_left hne
    have hg := hlast g (by simp)
    grind [contains_iff, lo_entry, hi_entry]
  · obtain ⟨g, l, rfl⟩ := List.exists_cons_of_ne_nil hne
    have hg := hfst g (by simp)
    rw [contains_iff] at hg
    rcases List.mem_cons.mp he with rfl | hel
    · exact hg.2
    · have := (List.pairwise_cons.mp hsor).1 e hel
      grind [lo_entry, hi_entry]

lemma Covers.exists_contains {pre mid post : List GcdMapEntry}
    (hcov : Covers b n map pre mid post) (h : Tiles 0 map t)
    (hwrap : b + n ≤ 2 ^ 64) {a : ℕ} (hb : b ≤ a) (ha : a < b + n) : ∃ e ∈ mid, Contains e a := by
  have hend : rangeEnd b n = b + n - 1 := u64_of_lt (by omega)
  obtain ⟨rfl, hne, hfst, hlast⟩ := hcov
  obtain ⟨m₂, h₂, -⟩ := tiles_append.mp h
  obtain ⟨m₁, -, hmid⟩ := tiles_append.mp h₂
  obtain ⟨g, hg⟩ := Option.isSome_iff_exists.mp (List.getLast?_isSome.mpr hne)
  have hhi := (hmid.bounds g (List.mem_of_getLast? hg)).2.2
  have hcl := hlast g hg
  obtain ⟨x, l, rfl⟩ := List.exists_cons_of_ne_nil hne
  have hlo := hmid.1
  have hcb := hfst x (by simp)
  rw [hend] at hcl
  simp only [contains_iff, lo_entry, hi_entry] at hlo hhi hcb hcl
  exact hmid.exists_contains (by omega) (by omega)

/-! ### One candidate -/

/-- The address of a range that tells whether the search still comes to it. -/
def decider (r : AllocateRequest) (b : ℕ) : ℕ :=
  if r.gcdAllocateType.topDown then b + r.length - 1 else b

/-- What the search can find: the fitting ranges that its skip test does not pass over. -/
def Findable (o : GcdOperation) (r : AllocateRequest) (limit : ℕ) (map : List GcdMapEntry)
    (b : ℕ) : Prop :=
  Fits o r limit map b ∧ ¬ PassedOver r limit map b

lemma Fits.le (hf : Fits o r limit map b) (h : Tiles 0 map t) (hlen : 0 < r.length) :
    b + r.length ≤ t := by
  obtain ⟨e, he, hc, -⟩ := hf.offered (b + r.length - 1) (by omega) (by omega)
  have := (h.bounds e he).2.2
  simp only [contains_iff, hi_entry] at hc this
  omega

lemma alignedStart_dvd (r : AllocateRequest) (e : GcdMapEntry) :
    2 ^ r.alignment ∣ alignedStart r e := Align.dvd_roundDown _ _

lemma le_alignedStart (r : AllocateRequest) (e : GcdMapEntry) :
    e.baseAddress ≤ alignedStart r e := Align.le_roundDown_add (Nat.two_pow_pos _) _

lemma alignedStart_le (hle : e.baseAddress ≤ b) (hb : 2 ^ r.alignment ∣ b) :
    alignedStart r e ≤ b := Align.roundDown_add_le (Nat.two_pow_pos _) hle hb

lemma alignedStart_lt (hal : r.alignment < 64) (he : e.baseAddress < 2 ^ 52) :
    alignedStart r e < 2 ^ 63 + 2 ^ 52 := by
  have hpow : 2 ^ r.alignment ≤ 2 ^ 63 := Nat.pow_le_pow_right (by decide) (by omega)
  have := alignDown_le (e.baseAddress + (2 ^ r.alignment - 1)) r.alignment
  unfold alignedStart
  omega

lemma allocateCandidate_up (htd : r.gcdAllocateType.topDown = false) (hal : r.alignment < 64)
    (he : e.baseAddress < 2 ^ 52) :
    allocateCandidate r limit c e =
      if rangeEnd (alignedStart r e) r.length > limit then .notFound (alignedStart r e)
      else .range (alignedStart r e) := by
  have hpow : 2 ^ r.alignment ≤ 2 ^ 63 := Nat.pow_le_pow_right (by decide) (by omega)
  have hsum : u64 (e.baseAddress + (2 ^ r.alignment - 1)) =
      e.baseAddress + (2 ^ r.alignment - 1) := u64_of_lt (by omega)
  rw [allocateCandidate, if_neg (by simp [htd]), hsum]
  rfl

lemma allocateCandidate_down (htd : r.gcdAllocateType.topDown = true)
    (he : e.endAddress < 2 ^ 52) (hle : e.baseAddress ≤ e.endAddress) (hlen : 0 < r.length)
    (hlt : r.length < 2 ^ 64) :
    (allocateCandidate r limit c e = .skip ∧ limit < e.baseAddress + r.length) ∨
    (allocateCandidate r limit c e = .notFound c ∧ e.endAddress + 1 < r.length) ∨
    e.baseAddress + r.length ≤ limit ∧ r.length ≤ e.endAddress + 1 ∧
      allocateCandidate r limit c e =
        .range (alignDown (min e.endAddress limit + 1 - r.length) r.alignment) := by
  have hend : u64 (e.endAddress + 1) = e.endAddress + 1 := u64_of_lt (by omega)
  simp only [allocateCandidate, htd, if_true, hend]
  by_cases hskip : u64 (e.baseAddress + r.length) > limit
  · grind [u64]
  rw [if_neg hskip]
  grind [u64_of_lt, u64_of_ge]

lemma bounds_mono (h : Tiles 0 map t) (he : map[i]? = some e) (hf : map[j]? = some f)
    (hij : i ≤ j) : e.baseAddress ≤ f.baseAddress ∧ e.endAddress ≤ f.endAddress := by
  obtain ⟨hi, rfl⟩ := List.getElem?_eq_some_iff.mp he
  obtain ⟨hj, rfl⟩ := List.getElem?_eq_some_iff.mp hf
  rcases hij.lt_or_eq with hlt | rfl
  · have := List.pairwise_iff_getElem.mp h.pairwise i j hi hj hlt
    have hbi := (h.bounds _ (List.getElem_mem hi)).2.1
    have hbj := (h.bounds _ (List.getElem_mem hj)).2.1
    simp only [lo_entry, hi_entry] at this hbi hbj
    omega
  · exact ⟨le_rfl, le_rfl⟩

/-- The ranges the search can find are decided in entries from the link on. -/
def StillAhead (o : GcdOperation) (r : AllocateRequest) (limit : ℕ) (map : List GcdMapEntry)
    (link : Option ℕ) : Prop :=
  ∀ b, Findable o r limit map b → ∀ j f, map[j]? = some f → Contains f (decider r b) →
    ∃ i, link = some i ∧ Before r.gcdAllocateType.topDown i j

lemma decider_lt (hf : Fits o r limit map b) (h : Tiles 0 map t) (hlen : 0 < r.length) :
    decider r b < t := by
  have := hf.le h hlen
  unfold decider
  split <;> omega

lemma StillAhead.exists_entry (hahe : StillAhead o r limit map link) (h : Tiles 0 map t)
    (hlen : 0 < r.length) (hb : Findable o r limit map b) :
    ∃ i, link = some i ∧ ∃ j f, map[j]? = some f ∧ Contains f (decider r b) ∧
      Before r.gcdAllocateType.topDown i j := by
  obtain ⟨f, hf, hc⟩ := h.exists_contains (Nat.zero_le _) (decider_lt hb.1 h hlen)
  obtain ⟨j, hj⟩ := List.mem_iff_getElem?.mp hf
  obtain ⟨i, hi, hij⟩ := hahe b hb j f hj hc
  exact ⟨i, hi, j, f, hj, hc, hij⟩

lemma StillAhead.next (hahe : StillAhead o r limit map (some i)) (he : map[i]? = some e)
    (hnot : ∀ b, Findable o r limit map b → ¬ Contains e (decider r b)) :
    StillAhead o r limit map (nextLink r.gcdAllocateType.topDown map.length i) := by
  intro b hb j f hj hc
  obtain ⟨_, ⟨⟩, hij⟩ := hahe b hb j f hj hc
  grind [Option.some.injEq, Before, Bool.false_eq_true, nextLink]

lemma Fits.not_meets (hf : Fits o r limit map b) (h : Tiles 0 map t) (hlen : 0 < r.length)
    (he : e ∈ map) (hoff : ¬ Offers o r e) : b + r.length ≤ e.baseAddress ∨ e.endAddress < b := by
  by_contra hcon
  simp only [not_or, not_le, not_lt] at hcon
  have hne := (h.bounds e he).2.1
  simp only [lo_entry, hi_entry] at hne
  obtain ⟨f, hfm, hc, hfo⟩ := hf.offered (max b e.baseAddress) (by omega) (by omega)
  have hce : Contains e (max b e.baseAddress) := by
    rw [contains_iff]
    omega
  exact hoff (h.contains_unique hfm he hc hce ▸ hfo)

lemma Fits.decider_offers (hf : Fits o r limit map b) (h : Tiles 0 map t) (hlen : 0 < r.length)
    (he : e ∈ map) (hc : Contains e (decider r b)) : Offers o r e := by
  by_contra hoff
  rw [contains_iff] at hc
  unfold decider at hc
  rcases hf.not_meets h hlen he hoff with hlt | hlt <;> split at hc <;> omega

lemma candidate_spec (h : Tiles 0 map t) (ht : t ≤ 2 ^ 52) (hal : r.alignment < 64)
    (hlen : 0 < r.length) (hlt : r.length < 2 ^ 64)
    (hsize : r.gcdAllocateType.topDown = true ∨ r.length ≤ t)
    (hahe : StillAhead o r limit map (some i)) (he : map[i]? = some e) :
    (allocateCandidate r limit c e = .skip ∧
      ∀ b, Findable o r limit map b → ¬ Contains e (decider r b)) ∨
    (∃ b', allocateCandidate r limit c e = .notFound b' ∧ ∀ b, ¬ Findable o r limit map b) ∨
    ∃ b', allocateCandidate r limit c e = .range b' ∧ b' + r.length ≤ limit + 1 ∧
      2 ^ r.alignment ∣ b' ∧ b' + r.length ≤ 2 ^ 64 ∧ ¬ PassedOver r limit map b' ∧
      (∀ b, Findable o r limit map b → Before r.gcdAllocateType.topDown b' b) ∧
      (r.gcdAllocateType.topDown = true → b' + r.length ≤ t) := by
  have hmem := List.mem_of_getElem? he
  have hbou := h.bounds e hmem
  simp only [lo_entry, hi_entry] at hbou
  cases htd : r.gcdAllocateType.topDown
  · -- upwards: nothing that fits lies below the aligned start
    have hsta := le_alignedStart r e
    have hstop := alignedStart_lt hal (e := e) (by omega)
    have hsho : r.length ≤ t := hsize.resolve_left (by simp [htd])
    have hend : rangeEnd (alignedStart r e) r.length = alignedStart r e + r.length - 1 :=
      u64_of_lt (by omega)
    have hbef : ∀ b, Findable o r limit map b → alignedStart r e ≤ b := by
      intro b hb
      obtain ⟨_, ⟨⟩, j, f, hj, hc, hij⟩ := hahe.exists_entry h hlen hb
      simp only [Before, htd, Bool.false_eq_true, if_false] at hij
      have := (bounds_mono h he hj hij).1
      simp only [decider, htd, Bool.false_eq_true, if_false, contains_iff] at hc
      exact alignedStart_le (by omega) hb.1.aligned
    rw [allocateCandidate_up htd hal (by omega), hend]
    by_cases hover : alignedStart r e + r.length - 1 > limit
    · refine .inr (.inl ⟨_, if_pos hover, fun b hb => ?_⟩)
      have := hbef b hb
      have := hb.1.below
      omega
    · refine .inr (.inr ⟨_, if_neg hover, by omega, alignedStart_dvd r e, by omega, ?_, ?_, ?_⟩)
      · simp [PassedOver, htd]
      · simpa [Before] using hbef
      · simp
  · -- downwards: what is still ahead ends in this entry or below
    have hbel : ∀ b, Findable o r limit map b → b + r.length ≤ e.endAddress + 1 := by
      intro b hb
      obtain ⟨_, ⟨⟩, j, f, hj, hc, hij⟩ := hahe.exists_entry h hlen hb
      simp only [Before, htd, if_true] at hij
      have := (bounds_mono h hj he hij).2
      grind [decider, contains_iff]
    rcases @allocateCandidate_down r limit c e htd (by omega) hbou.2.1 hlen hlt with ⟨heq, hskip⟩ | ⟨heq, hlong⟩ | ⟨hbase, hlong, heq⟩
    · refine .inl ⟨heq, fun b hb hc => hb.2 ⟨htd, e, hmem, ?_, hskip⟩⟩
      simpa only [decider, htd, if_true] using hc
    · grind
    · have hdown := alignDown_le (min e.endAddress limit + 1 - r.length) r.alignment
      refine .inr (.inr ⟨_, heq, by omega, Align.dvd_roundDown _ _, by omega, ?_, ?_, ?_⟩)
      · rintro ⟨-, f, hf, hc, hpass⟩
        rw [contains_iff] at hc
        have hfb := (h.bounds f hf).2.1
        simp only [lo_entry, hi_entry] at hfb
        -- an entry that starts above `e` does not contain an address up to the end of `e`
        obtain rfl : e = f := h.contains_unique (a := f.baseAddress) hmem hf
          (by rw [contains_iff]; omega) (by rw [contains_iff]; omega)
        omega
      · intro b hb
        have hle := hbel b hb
        have hlim := hb.1.below
        simp only [Before, if_true]
        exact Align.le_roundDown (by omega) hb.1.aligned
      · intro _
        omega

lemma Covers.firstFailure {pre mid post : List GcdMapEntry} (hcov : Covers b n map pre mid post)
    (check : GcdMapEntry → EfiStatus) :
    (Gcd.firstFailure check map pre.length (pre.length + mid.length - 1) = none ∧
      ∀ e ∈ mid, ¬ (check e).isError) ∨
    ∃ j e, Gcd.firstFailure check map pre.length (pre.length + mid.length - 1) = some j ∧
      map[j]? = some e ∧ e ∈ mid ∧ (check e).isError := by
  obtain ⟨rfl, hne, -, -⟩ := hcov
  rw [Gcd.firstFailure, slice_append pre mid post hne]
  rcases hd : mid.findIdx? fun entry => (check entry).isError with _ | d
  · grind
  · obtain ⟨hlt, herr, -⟩ := List.findIdx?_eq_some_iff_getElem.mp hd
    refine .inr ⟨d + pre.length, mid[d], rfl, ?_, List.getElem_mem hlt, herr⟩
    grind

lemma StillAhead.resume (h : Tiles 0 map t) (hlen : 0 < r.length) (hj : map[j]? = some e)
    (hoff : ¬ Offers o r e) (hmee : e.baseAddress ≤ c + r.length - 1 ∧ c ≤ e.endAddress)
    (hbest : ∀ b, Findable o r limit map b → Before r.gcdAllocateType.topDown c b) :
    StillAhead o r limit map (some j) := by
  intro b hb k f hk hc
  refine ⟨j, rfl, ?_⟩
  have hnot := hb.1.not_meets h hlen (List.mem_of_getElem? hj) hoff
  have hbef := hbest b hb
  cases htd : r.gcdAllocateType.topDown
  · simp only [Before, decider, htd, Bool.false_eq_true, if_false, contains_iff] at hbef hc ⊢
    by_contra hlt
    have := (bounds_mono h hk hj (by omega)).2
    omega
  · simp only [Before, decider, htd, if_true, contains_iff] at hbef hc ⊢
    by_contra hlt
    have := (bounds_mono h hj hk (by omega)).1
    omega

lemma allocateLoop_best {fuel : ℕ} {found : SearchResult} (h : Tiles 0 map t) (ht : t ≤ 2 ^ 52)
    (ho : o = .allocateMemory ∨ o = .allocateIo) (hal : r.alignment < 64) (hlen : 0 < r.length)
    (hlt : r.length < 2 ^ 64) (hsize : r.gcdAllocateType.topDown = true ∨ r.length ≤ t)
    (hlink : ∀ i ∈ link, i < map.length) (hahe : StillAhead o r limit map link)
    (hrun : allocateLoop o r map limit fuel link c = .ok found) :
    (found.links = none → ∀ b, ¬ Findable o r limit map b) ∧
    (found.links ≠ none → found.baseAddress + r.length ≤ 2 ^ 64 ∧
      Findable o r limit map found.baseAddress ∧
      ∀ b, Findable o r limit map b →
        Before r.gcdAllocateType.topDown found.baseAddress b) := by
  -- every way out without links but the first has no findable range to offer
  have hnone : ∀ base : ℕ, (∀ b, ¬ Findable o r limit map b) →
      (.ok { baseAddress := base, links := none } : Except Halt SearchResult) = .ok found →
      (found.links = none → ∀ b, ¬ Findable o r limit map b) ∧
      (found.links ≠ none → found.baseAddress + r.length ≤ 2 ^ 64 ∧
        Findable o r limit map found.baseAddress ∧
        ∀ b, Findable o r limit map b →
          Before r.gcdAllocateType.topDown found.baseAddress b) := by
    intro base hno heq
    cases heq
    exact ⟨fun _ => hno, fun hne => absurd rfl hne⟩
  have hemp : StillAhead o r limit map none → ∀ b, ¬ Findable o r limit map b := by
    intro hahe b hb
    obtain ⟨_, hi, -⟩ := hahe.exists_entry h hlen hb
    cases hi
  induction fuel generalizing link c with
  | zero =>
    cases link with
    | none => exact hnone _ (hemp hahe) hrun
    | some i => cases hrun
  | succ fuel ih =>
    cases link with
    | none => exact hnone _ (hemp hahe) hrun
    | some i =>
      have hi := hlink i rfl
      have he := List.getElem?_eq_getElem hi
      have hnext := (remaining_nextLink r.gcdAllocateType.topDown map.length hi).2
      simp only [allocateLoop, he] at hrun
      split_ifs at hrun with hche
      · -- the entry itself is not on offer
        refine ih hnext (hahe.next he fun b hb hc => ?_) hrun
        exact (checkEntry_isError_iff ho).mp hche
          (hb.1.decider_offers h hlen (List.getElem_mem hi) hc)
      rcases candidate_spec (c := c) h ht hal hlen hlt hsize hahe he with
        ⟨hcand, hnot⟩ | ⟨b', hcand, hno⟩ | ⟨b', hcand, hlim, hdvd, hwrap, hpass, hbest, hdown⟩
      · simp only [hcand] at hrun
        exact ih hnext (hahe.next he hnot) hrun
      · simp only [hcand] at hrun
        exact hnone _ hno hrun
      simp only [hcand] at hrun
      rcases hs : coreSearchGcdMapEntry b' r.length map with _ | ⟨p, q⟩
      · simp only [hs] at hrun
        have hout := lt_of_search_none h hlen hwrap hs
        refine hnone _ (fun b hb => ?_) hrun
        have hle := hb.1.le h hlen
        grind [Before, Bool.false_eq_true]
      rcases coreSearchGcdMapEntry_spec h b' r.length with ⟨hsn, -⟩ | ⟨pre, mid, post, hcov, hsome⟩
      · rw [hs] at hsn
        cases hsn
      obtain ⟨rfl, rfl⟩ := Prod.mk.inj (Option.some.inj (hs.symm.trans hsome))
      rcases hcov.firstFailure (coreAllocateSpaceCheckEntry o r) with
        ⟨hff, hall⟩ | ⟨d, e, hff, hd, hmid, herr⟩
      · simp only [hs, hff] at hrun
        cases hrun
        have hfits : Fits o r limit map b' := by
          refine ⟨hdvd, hlim, fun a hba hab => ?_⟩
          obtain ⟨e, he, hc⟩ := hcov.exists_contains h hwrap hba hab
          refine ⟨e, by rw [hcov.split]; simp [he], hc, ?_⟩
          by_contra hoff
          exact hall e he ((checkEntry_isError_iff ho).mpr hoff)
        exact ⟨fun hl => (by cases hl), fun _ => ⟨hwrap, ⟨hfits, hpass⟩, hbest⟩⟩
      · simp only [hs, hff] at hrun
        have hdlt : d < map.length := (List.getElem?_eq_some_iff.mp hd).1
        exact ih (by simpa using hdlt) (StillAhead.resume h hlen hd
          ((checkEntry_isError_iff ho).mp herr) (hcov.meets h hwrap hmid) hbest) hrun

/-- From every entry on offer before the link the range wraps into an entry not on offer. -/
def SeenBlocked (o : GcdOperation) (r : AllocateRequest) (map : List GcdMapEntry)
    (link : Option ℕ) : Prop :=
  ∀ j e, map[j]? = some e → (∀ i, link = some i → j < i) → Offers o r e →
    ∃ f ∈ map, WrapsInto r e f ∧ ¬ Offers o r f

lemma WrapsInto.unique {f' : GcdMapEntry} (h : Tiles 0 map t) (hw : WrapsInto r e f)
    (hw' : WrapsInto r e f') (hf : f ∈ map) (hf' : f' ∈ map) : f = f' :=
  h.contains_unique hf hf' hw.2.1 hw'.2.1

lemma alignedStart_mono (hle : e.baseAddress ≤ f.baseAddress) :
    alignedStart r e ≤ alignedStart r f :=
  alignedStart_le (hle.trans (le_alignedStart r f)) (alignedStart_dvd r f)

/-- If the range from the entry the search has come to does not wrap within the limit, the search
cannot find a wrapped range any more. -/
lemma SeenBlocked.not_findsWrapped (hseen : SeenBlocked o r map (some i)) (h : Tiles 0 map t)
    (he : map[i]? = some e) (hoff : Offers o r e)
    (hnot : ∀ f ∈ map, WrapsInto r e f → limit < alignedStart r e + r.length - 1 - 2 ^ 64) :
    ¬ FindsWrapped o r limit map := by
  rintro ⟨-, k, e', he', hoff', ⟨f, hf, hw, hfoff⟩, hlim, hpre⟩
  rcases Nat.lt_or_ge k i with hki | hik
  · obtain ⟨f', hf', hw', hfof'⟩ := hseen k e' he' (fun _ heq => by cases heq; exact hki) hoff'
    exact hfof' (hw.unique h hw' hf hf' ▸ hfoff)
  · have hmono := alignedStart_mono (r := r) (bounds_mono h he he' hik).1
    grind

lemma allocateLoop_wrapped {fuel : ℕ} {found : SearchResult} (h : Tiles 0 map t)
    (ht : t ≤ 2 ^ 52) (ho : o = .allocateMemory ∨ o = .allocateIo) (hal : r.alignment < 64)
    (hlt : r.length < 2 ^ 64) (htd : r.gcdAllocateType.topDown = false) (hbig : t < r.length)
    (hlink : ∀ i ∈ link, i < map.length) (hseen : SeenBlocked o r map link)
    (hrun : allocateLoop o r map limit fuel link c = .ok found) :
    found.links ≠ none ↔ FindsWrapped o r limit map := by
  have hend : SeenBlocked o r map none → ¬ FindsWrapped o r limit map := by
    rintro hseen ⟨-, k, e, he, hoff, ⟨f, hf, hw, hfoff⟩, -, -⟩
    obtain ⟨f', hf', hw', hfof'⟩ := hseen k e he (by simp) hoff
    exact hfof' (hw.unique h hw' hf hf' ▸ hfoff)
  induction fuel generalizing link c with
  | zero =>
    cases link with
    | none =>
      cases hrun
      exact iff_of_false (fun hne => hne rfl) (hend hseen)
    | some i => cases hrun
  | succ fuel ih =>
    cases link with
    | none =>
      cases hrun
      exact iff_of_false (fun hne => hne rfl) (hend hseen)
    | some i =>
      have hi := hlink i rfl
      have he := List.getElem?_eq_getElem hi
      have hnext := (remaining_nextLink r.gcdAllocateType.topDown map.length hi).2
      have hbou := h.bounds _ (List.getElem_mem hi)
      simp only [lo_entry, hi_entry] at hbou
      simp only [allocateLoop, he] at hrun
      split_ifs at hrun with hche
      · refine ih hnext (fun j e hj hjl hoff => ?_) hrun
        have hjlt : j < map.length := (List.getElem?_eq_some_iff.mp hj).1
        rcases Nat.lt_trichotomy j i with hji | rfl | hij
        · exact hseen j e hj (fun _ heq => by cases heq; exact hji) hoff
        · rw [he, Option.some.injEq] at hj
          exact absurd (hj ▸ hoff) ((checkEntry_isError_iff ho).mp hche)
        grind [nextLink]
      have hoff : Offers o r map[i] := by
        by_contra hno
        exact hche ((checkEntry_isError_iff ho).mpr hno)
      have hstop := alignedStart_lt hal (e := map[i]) (by omega)
      rw [allocateCandidate_up htd hal (by omega)] at hrun
      by_cases hover : rangeEnd (alignedStart r map[i]) r.length > limit
      · simp only [if_pos hover] at hrun
        cases hrun
        refine iff_of_false (fun hne => hne rfl) (hseen.not_findsWrapped h he hoff fun f _ hw => ?_)
        rwa [← rangeEnd_wrapped (by omega) hlt hw.1]
      simp only [if_neg hover] at hrun
      rcases Nat.lt_or_ge (2 ^ 64) (alignedStart r map[i] + r.length) with hw | hw
      swap
      · -- a range that does not wrap leaves the space
        rw [search_outside h (by omega) (by omega) hw] at hrun
        cases hrun
        refine iff_of_false (fun hne => hne rfl)
          (hseen.not_findsWrapped h he hoff fun f _ hw' => ?_)
        have := hw'.1
        omega
      have hlast := rangeEnd_wrapped (b := alignedStart r map[i]) (by omega) hlt hw
      rcases search_wrapped h (b := alignedStart r map[i]) (by omega) hlt hw with
        ⟨hs, hno⟩ | ⟨pre, f, post, hmap, hcb, hcl, hs⟩
      · rw [hs] at hrun
        cases hrun
        exact iff_of_false (fun hne => hne rfl) (hseen.not_findsWrapped h he hoff fun f hf hw' =>
          absurd hw'.2.2 (hno f hf hw'.2.1))
      have hf : f ∈ map := by simp [hmap]
      have hcov : Covers (alignedStart r map[i]) r.length map pre [f] post :=
        ⟨hmap, by simp, by simpa using hcb, by simpa [hlast] using hcl⟩
      have hinto : WrapsInto r map[i] f := ⟨hw, hcb, hcl⟩
      simp only [hs] at hrun
      rcases hcov.firstFailure (coreAllocateSpaceCheckEntry o r) with
        ⟨hff, hall⟩ | ⟨d, g, hff, hd, hg, herr⟩
      · simp only [List.length_singleton, Nat.add_sub_cancel] at hff
        simp only [hff] at hrun
        cases hrun
        refine iff_of_true (by simp) ⟨htd, i, map[i], he, hoff, ⟨f, hf, hinto, ?_⟩, by omega, ?_⟩
        · by_contra hno
          exact hall f (by simp) ((checkEntry_isError_iff ho).mpr hno)
        · intro j e' hji hj hoff'
          obtain ⟨f', hf', hw', -⟩ := hseen j e' hj (fun _ heq => by cases heq; exact hji) hoff'
          exact ⟨f', hf', hw'⟩
      · obtain rfl := List.mem_singleton.mp hg
        simp only [List.length_singleton, Nat.add_sub_cancel] at hff
        simp only [hff] at hrun
        have hdlt : d < map.length := (List.getElem?_eq_some_iff.mp hd).1
        refine ih (by simpa using hdlt) (fun j e' hj hjl hoff' => ?_) hrun
        rcases Nat.lt_or_ge j i with hji | hij
        · exact hseen j e' hj (fun _ heq => by cases heq; exact hji) hoff'
        -- the entries jumped over have the same aligned start
        have hlow := (bounds_mono h he hj hij).1
        have hhigh := (bounds_mono h hj hd (hjl d rfl).le).1
        have hsame : alignedStart r e' = alignedStart r map[i] :=
          le_antisymm (alignedStart_le (hhigh.trans hcb.1) (alignedStart_dvd r _))
            (alignedStart_mono hlow)
        refine ⟨g, hf, ?_, (checkEntry_isError_iff ho).mp herr⟩
        rw [WrapsInto, hsame]
        exact hinto

/-! ### The call -/

variable {env : Environment} {s : GcdState} {found : SearchResult}

lemma limit_eq (h : Tiles 0 map (2 ^ bits)) (r : AllocateRequest) :
    (if r.gcdAllocateType.bounded then r.baseAddress.getD 0
      else (map.getLast?.map GcdMapEntry.endAddress).getD 0) = r.limit bits := by
  have hpos := Nat.two_pow_pos bits
  unfold AllocateRequest.limit
  rcases List.eq_nil_or_concat map with rfl | ⟨l, e, rfl⟩
  · simp only [tiles_nil] at h
    omega
  · rw [List.concat_eq_append] at h ⊢
    obtain ⟨m₁, -, -, -, hlast⟩ := tiles_append.mp h
    grind [hi_entry, tiles_nil, List.getLast?_append, List.getLast?_singleton]

lemma allocateSearch_eq (h : Tiles 0 map (2 ^ bits)) (r : AllocateRequest) :
    ∃ i, i < map.length ∧ (∀ j, j < map.length → Before r.gcdAllocateType.topDown i j) ∧
      allocateSearch o r map (r.baseAddress.getD 0) =
        allocateLoop o r map (r.limit bits) map.length (some i) (r.baseAddress.getD 0) := by
  have hne : map ≠ [] := by
    grind [tiles_nil]
  have hpos := List.length_pos_iff.mpr hne
  refine ⟨if r.gcdAllocateType.topDown then map.length - 1 else 0, ?_, ?_, ?_⟩
  · split <;> omega
  · grind [Before]
  · rw [allocateSearch, limit_eq h, if_neg hne]

lemma coreAllocateSpace_failed (hpar : ¬ (allocateParameters r).isError)
    (htype : r.gcdAllocateType ≠ .address)
    (hfnd : allocateSearch o r (s.map o) (r.baseAddress.getD 0) = .ok found)
    (hno : found.links = none ∨ env.padsAvailable = false) :
    ∃ status, coreAllocateSpace env o r s = .ok (status, some found.baseAddress, s) ∧
      status.isError := by
  simp only [coreAllocateSpace, coreAllocateMap, hpar, htype, if_false, hfnd, Except.bind,
    Bool.false_eq_true]
  rcases hl : found.links with _ | ⟨p, q⟩
  · exact ⟨.notFound, by simp, rfl⟩
  · have hpads := hno.resolve_left (by simp [hl])
    exact ⟨.outOfResources, by simp [allocateRange, hpads], rfl⟩

lemma coreAllocateSpace_found {status : EfiStatus} {base : Option ℕ} {s' : GcdState}
    (hpar : ¬ (allocateParameters r).isError) (htype : r.gcdAllocateType ≠ .address)
    (hfnd : allocateSearch o r (s.map o) (r.baseAddress.getD 0) = .ok found)
    (hlin : found.links ≠ none) (hpads : env.padsAvailable = true)
    (hrun : coreAllocateSpace env o r s = .ok (status, base, s')) :
    status = .success ∧ base = some found.baseAddress := by
  obtain ⟨⟨p, q⟩, hl⟩ := Option.ne_none_iff_exists'.mp hlin
  simp only [coreAllocateSpace, coreAllocateMap, hpar, htype, if_false, hfnd, hl,
    Except.bind, Bool.false_eq_true, allocateRange, hpads, not_true] at hrun
  grind

lemma coreAllocateSpace_returns (hbits : bits < 64) (hwf : WellFormed bits (s.map o))
    (hpar : ¬ (allocateParameters r).isError) (htype : r.gcdAllocateType ≠ .address)
    (hfnd : allocateSearch o r (s.map o) (r.baseAddress.getD 0) = .ok found)
    (hlin : ∀ p ∈ found.links, coreSearchGcdMapEntry found.baseAddress r.length (s.map o) = some p)
    (hne : found.links ≠ none) (hwrap : found.baseAddress + r.length ≤ 2 ^ 64)
    (hpads : env.padsAvailable = true) :
    ∃ status base s', coreAllocateSpace env o r s = .ok (status, base, s') := by
  obtain ⟨⟨p, q⟩, hl⟩ := Option.ne_none_iff_exists'.mp hne
  obtain ⟨-, hlen⟩ := allocateParameters_ok hpar
  obtain ⟨map', hrw, -, -⟩ := rewriteRange_wellFormed (u := allocateEntry r) (w := 0) hbits hwf
    hlen hwrap (hlin (p, q) hl)
  refine ⟨.success, some found.baseAddress, s.setMap o map', ?_⟩
  grind [coreAllocateSpace, coreAllocateMap, Except.bind, Bool.false_eq_true, allocateRange]

lemma lt_of_passedOver (h : Tiles 0 map t) (hlen : 0 < r.length)
    (hb : Findable o r limit map b) (hpass : PassedOver r limit map b') :
    b < b' := by
  obtain ⟨htd, e', he', hc', hover⟩ := hpass
  obtain ⟨e, he, hc, -⟩ := hb.1.offered (b + r.length - 1) (by omega) (by omega)
  have hbase : e.baseAddress + r.length ≤ limit := by
    by_contra hlt
    exact hb.2 ⟨htd, e, he, hc, by omega⟩
  rw [contains_iff] at hc hc'
  by_contra hle
  -- the later start of `e'` would lie in `e`
  obtain rfl : e = e' := h.contains_unique (a := e'.baseAddress) he he'
    (by rw [contains_iff]; omega)
    (by have := (h.bounds e' he').2.1; simp only [lo_entry, hi_entry] at this
        rw [contains_iff]; omega)
  omega

/-- In every state of a run without accepted wrapped calls, a search allocation behaves as asked
exactly if no fitting range is passed over by the skip test and none is found that wraps; where
no pad entries can be had it fails, so no range may fit. -/
theorem findsBest_iff (hreach : ReachableUnwrapped m n s) (hbits : o.bits m n ≤ 52)
    (ho : o = .allocateMemory ∨ o = .allocateIo) (hparams : ¬ (allocateParameters r).isError)
    (htype : r.gcdAllocateType ≠ .address) (hlt : r.length < 2 ^ 64) :
    FindsBest env o r (o.bits m n) s ↔
      if env.padsAvailable then
        (∀ b, Fits o r (r.limit (o.bits m n)) (s.map o) b →
          ¬ PassedOver r (r.limit (o.bits m n)) (s.map o) b) ∧
        ¬ FindsWrapped o r (r.limit (o.bits m n)) (s.map o)
      else ∀ b, ¬ Fits o r (r.limit (o.bits m n)) (s.map o) b := by
  obtain ⟨hwf, hbits'⟩ := hreach.stateOk.map_ok o
  obtain ⟨hal, hlen⟩ := allocateParameters_ok hparams
  have ht : 2 ^ o.bits m n ≤ 2 ^ 52 := Nat.pow_le_pow_right (by decide) hbits
  obtain ⟨found, hfound, hlinks⟩ := allocateSearch_ok (o := o) (b := r.baseAddress.getD 0)
    hwf.tiles (ht.trans (by decide)) hal hlen
  obtain ⟨i, hi, hfirst, heq⟩ := allocateSearch_eq (o := o) hwf.tiles r
  have hloop := heq.symm.trans hfound
  have hlink : ∀ k ∈ some i, k < (s.map o).length := by simpa using hi
  -- what the failing ways out say
  have hfail : found.links = none ∨ env.padsAvailable = false →
      (FindsBest env o r (o.bits m n) s ↔ ∀ b, ¬ Fits o r (r.limit (o.bits m n)) (s.map o) b) := by
    intro hno
    obtain ⟨status, hrun, hst⟩ := coreAllocateSpace_failed hparams htype hfound hno
    constructor
    · rintro ⟨status', base, s', hrun', -, herr⟩
      cases hrun.symm.trans hrun'
      exact herr hst
    · exact fun hnone => ⟨status, _, s, hrun, fun hns => absurd hst hns, fun _ => hnone⟩
  by_cases hpads : env.padsAvailable = true
  swap
  · grind
  rw [if_pos hpads]
  by_cases hsize : r.gcdAllocateType.topDown = true ∨ r.length ≤ 2 ^ o.bits m n
  · -- no wrapped range can be found
    have hnowrap : ¬ FindsWrapped o r (r.limit (o.bits m n)) (s.map o) := by
      rintro ⟨htd, k, e, he, -, ⟨f, -, hw, -⟩, -⟩
      have hshort := hsize.resolve_left (by simp [htd])
      have hbound := (hwf.tiles.bounds e (List.mem_of_getElem? he))
      simp only [lo_entry, hi_entry] at hbound
      have := alignedStart_lt hal (e := e) (by omega)
      have := hw.1
      omega
    have hahead : StillAhead o r (r.limit (o.bits m n)) (s.map o) (some i) :=
      fun b _ j f hj _ => ⟨i, rfl, hfirst j (List.getElem?_eq_some_iff.mp hj).1⟩
    obtain ⟨hnone, hsome⟩ := allocateLoop_best hwf.tiles ht ho hal hlen hlt hsize hlink hahead
      hloop
    rw [and_iff_left hnowrap]
    by_cases hl : found.links = none
    · rw [hfail (.inl hl)]
      exact ⟨fun h b hb => absurd hb (h b), fun h b hb => hnone hl b ⟨hb, h b hb⟩⟩
    · obtain ⟨hwrap, hfit, hbest⟩ := hsome hl
      obtain ⟨status, base, s', hrun⟩ := coreAllocateSpace_returns hbits' hwf hparams htype hfound
        hlinks hl hwrap hpads
      obtain ⟨rfl, rfl⟩ := coreAllocateSpace_found hparams htype hfound hl hpads hrun
      constructor
      · rintro ⟨status, base, s'', hrun', hok, -⟩ b hb hpass
        cases hrun.symm.trans hrun'
        obtain ⟨b', hb', hfb', hfirst'⟩ := hok (by decide)
        cases hb'
        have hlt := lt_of_passedOver hwf.tiles hlen hfit hpass
        have hbefore := hfirst' b hb
        simp only [Before, hpass.1, if_true] at hbefore
        omega
      · intro h
        refine ⟨_, _, s', hrun, fun _ => ⟨found.baseAddress, rfl, hfit.1, fun b hb => ?_⟩,
          fun herr => absurd herr (by decide)⟩
        exact hbest b ⟨hb, h b hb⟩
  · -- nothing fits; the upward search may still find something that wraps
    simp only [not_or, not_le, Bool.not_eq_true] at hsize
    have hnofit : ∀ b, ¬ Fits o r (r.limit (o.bits m n)) (s.map o) b := by
      intro b hb
      have := hb.le hwf.tiles hlen
      omega
    have hseen : SeenBlocked o r (s.map o) (some i) := by
      intro k e hk hki
      grind [Before, Bool.false_eq_true]
    have hwrapped := allocateLoop_wrapped hwf.tiles ht ho hal hlt hsize.1 hsize.2 hlink hseen hloop
    rw [and_iff_right fun b hb => absurd hb (hnofit b), ← hwrapped]
    by_cases hl : found.links = none
    · grind
    · refine iff_of_false ?_ (fun hno => hno hl)
      rintro ⟨status, base, s', hrun, hok, -⟩
      obtain ⟨rfl, rfl⟩ := coreAllocateSpace_found hparams htype hfound hl hpads hrun
      obtain ⟨b, -, hb, -⟩ := hok (by decide)
      exact hnofit b hb

/-- A request for one page of system memory from the top down. -/
def onePage : AllocateRequest :=
  { gcdAllocateType := .anySearchTopDown, gcdMemoryType := .systemMemory, alignment := 12
    length := 0x1000, baseAddress := some 0, imageHandle := 1 }

/-- Without a limit the only page of system memory is found. -/
theorem findsBest_onePage : FindsBest {} .allocateMemory onePage 48 afterAdd := by
  refine (findsBest_iff (m := 48) (n := 16) reachableUnwrapped_afterAdd (by decide) (.inl rfl)
    (by decide) (by decide) (by decide)).mpr ?_
  rw [if_pos rfl]
  refine ⟨?_, fun hw => absurd hw.1 (by decide)⟩
  rintro b - ⟨-, e, he, -, hover⟩
  -- no entry starts within a page of the end of the space
  have hall : ∀ e ∈ afterAdd.map .allocateMemory,
      e.baseAddress + onePage.length ≤ onePage.limit 48 := by decide
  exact absurd hover (Nat.not_lt.mpr (hall e he))

/-- With the last address of that page as the limit, the same request is turned down although the
page is free, of the requested type and ends at the limit. -/
theorem not_findsBest_atLimit :
    ∃ r : AllocateRequest, ∃ s, ReachableUnwrapped 48 16 s ∧
      ¬ (allocateParameters r).isError ∧ r.gcdAllocateType = .maxAddressSearchTopDown ∧
      r.length < 2 ^ 64 ∧ r.baseAddress = some 0x1FFF ∧
      Fits .allocateMemory r (r.limit 48) (s.map .allocateMemory) 0x1000 ∧
      coreAllocateSpace {} .allocateMemory r s = .ok (.notFound, some 0x1FFF, s) ∧
      ¬ FindsBest {} .allocateMemory r 48 s := by
  have hfit : Fits .allocateMemory
      { onePage with gcdAllocateType := .maxAddressSearchTopDown, baseAddress := some 0x1FFF }
      0x1FFF (afterAdd.map .allocateMemory) 0x1000 := by
    refine ⟨by decide, by decide, fun a hlo hhi => ?_⟩
    refine ⟨(afterAdd.map .allocateMemory).get ⟨1, by decide⟩, List.get_mem _ _, ?_, rfl, rfl⟩
    exact ⟨hlo, Nat.le_of_lt_succ hhi⟩
  have hrun : coreAllocateSpace {} .allocateMemory
      { onePage with gcdAllocateType := .maxAddressSearchTopDown, baseAddress := some 0x1FFF }
      afterAdd = .ok (.notFound, some 0x1FFF, afterAdd) := by decide
  refine ⟨_, afterAdd, reachableUnwrapped_afterAdd, by decide, rfl, by decide, rfl, hfit, hrun, ?_⟩
  rintro ⟨status, base, s', hrun', -, herr⟩
  cases hrun.symm.trans hrun'
  exact herr rfl _ hfit

end Edk2.Gcd
