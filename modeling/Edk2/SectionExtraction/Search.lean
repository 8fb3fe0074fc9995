import Edk2.Lib.Pick
import Edk2.SectionExtraction.Model

/-!
# The complete expansion of a section stream

What a section stream means, apart from the order in which it is parsed: each section with the
sections in it, as far as it can be expanded, in preorder. `CreateChildNode` makes the node of each
section of a well-formed stream, with the stream of its contents.
-/

namespace Edk2.SectionExtraction

open Align Bytes Pick

variable {p : Protocols} {b b' : Buffer} {auth auth' : BitVec 32} {offset size limit : ℕ}
  {contents : Option (Buffer × BitVec 32)} {l l' : List Section}

/-- A section without an extended size lies at the offset. -/
structure SectionAt (b : Buffer) (offset size : ℕ) : Prop where
  size_eq : sectionSize b offset = size
  header_le : commonHeaderSize ≤ size
  not_extended : size < 0x00FFFFFF
  le_length : offset + size ≤ b.length

/-- What is in a section: the stream with its authentication status, or nothing in a leaf. -/
inductive Contains (p : Protocols) (b : Buffer) (auth : BitVec 32) (offset size : ℕ) :
    Option (Buffer × BitVec 32) → Prop
  /-- Neither compressed nor GUID-defined. -/
  | leaf (h₁ : sectionType b offset ≠ efiSectionCompression)
    (h₂ : sectionType b offset ≠ efiSectionGuidDefined) : Contains p b auth offset size none
  /-- The section holds an empty stream. -/
  | empty (h : sectionType b offset = efiSectionCompression) (hsize : compressionHeaderSize ≤ size)
    (hlength : uncompressedLength b offset = 0) :
    Contains p b auth offset size (some (⟨0, p.pool⟩, auth))
  /-- The section holds the stream as it is. -/
  | stored (h : sectionType b offset = efiSectionCompression)
    (hpos : 0 < uncompressedLength b offset)
    (hsize : compressionHeaderSize + uncompressedLength b offset ≤ size)
    (htype : compressionType b offset = efiNotCompressed) :
    Contains p b auth offset size
      (some (b.slice (offset + compressionHeaderSize) (uncompressedLength b offset), auth))
  /-- The section holds the compressed stream. -/
  | compressed {bytes : ℕ → UInt8} (h : sectionType b offset = efiSectionCompression)
    (hpos : 0 < uncompressedLength b offset) (hsize : compressionHeaderSize ≤ size)
    (htype : compressionType b offset = efiStandardCompression)
    (hinfo : p.getInfo (b.slice (offset + compressionHeaderSize) (size - compressionHeaderSize)) =
      .ok (uncompressedLength b offset))
    (hbytes : p.decompress (b.slice (offset + compressionHeaderSize)
      (size - compressionHeaderSize)) = .ok bytes) :
    Contains p b auth offset size (some (⟨uncompressedLength b offset, bytes⟩, auth))
  /-- A protocol extracts the stream and may authenticate it. -/
  | extracted {extract : Buffer → Except SectionStatus (Buffer × BitVec 32)}
    {stream : Buffer} {status : BitVec 32} (h : sectionType b offset = efiSectionGuidDefined)
    (hprotocol : p.extractSection (bytesAt b.byte (offset + 4) 16) = some extract)
    (hextract : extract (b.slice offset size) = .ok (stream, status)) :
    Contains p b auth offset size (some (stream,
      if authStatusValid b offset then status ||| (auth &&& efiAuthStatusAll) else auth))
  /-- The required protocol is absent. -/
  | required (h : sectionType b offset = efiSectionGuidDefined)
    (hprotocol : p.extractSection (bytesAt b.byte (offset + 4) 16) = none)
    (hrequired : processingRequired b offset = true) : Contains p b auth offset size none
  /-- The stream can be read without the protocol. -/
  | readable (h : sectionType b offset = efiSectionGuidDefined)
    (hprotocol : p.extractSection (bytesAt b.byte (offset + 4) 16) = none)
    (hrequired : processingRequired b offset = false) (hsize : dataOffset b offset ≤ size) :
    Contains p b auth offset size
      (some (b.slice (offset + dataOffset b offset) (size - dataOffset b offset),
        if authStatusValid b offset then auth ||| efiAuthStatusSignedNotTested else auth))

/-- From the offset on the stream expands to the sections, each before its contents; no stream on
the way is longer than `limit`. -/
inductive Expands (p : Protocols) (limit : ℕ) :
    Buffer → BitVec 32 → ℕ → List Section → Prop
  | done {b : Buffer} {auth : BitVec 32} {offset : ℕ} (h : b.length ≤ offset) :
    Expands p limit b auth offset []
  | leaf {b : Buffer} {auth : BitVec 32} {offset size : ℕ} {l : List Section}
    (hlimit : b.length ≤ limit) (h : SectionAt b offset size)
    (hcontents : Contains p b auth offset size none)
    (hrest : Expands p limit b auth (roundUp (offset + size) 4) l) :
    Expands p limit b auth offset (⟨b, auth, offset⟩ :: l)
  | encapsulated {b b' : Buffer} {auth auth' : BitVec 32} {offset size : ℕ} {l l' : List Section}
    (hlimit : b.length ≤ limit) (h : SectionAt b offset size)
    (hcontents : Contains p b auth offset size (some (b', auth')))
    (hstream : Expands p limit b' auth' 0 l')
    (hrest : Expands p limit b auth (roundUp (offset + size) 4) l) :
    Expands p limit b auth offset (⟨b, auth, offset⟩ :: (l' ++ l))

namespace SectionAt

lemma not_section2 (h : SectionAt b offset size) : ¬ IsSection2 b offset := by
  have := h.not_extended
  rw [IsSection2, h.size_eq]
  omega

lemma nodeSize_eq (h : SectionAt b offset size) : nodeSize b offset = size := by
  rw [nodeSize, if_neg h.not_section2, h.size_eq]

lemma headerSize_eq (h : SectionAt b offset size) : headerSize b offset = 4 := by
  rw [headerSize, if_neg h.not_section2]

lemma four_le (h : SectionAt b offset size) : 4 ≤ size := h.header_le

lemma header_le_length (h : SectionAt b offset size) : offset + 4 ≤ b.length := by
  have := h.four_le
  have := h.le_length
  omega

lemma unique {size' : ℕ} (h : SectionAt b offset size) (h' : SectionAt b offset size') :
    size = size' := h.size_eq.symm.trans h'.size_eq

end SectionAt

lemma encapsulatedStream_eq (h : SectionAt b offset size)
    (hc : Contains p b auth offset size contents) :
    encapsulatedStream p b auth offset =
      .ok (contents.map fun c => openSectionStreamEx c.1 c.2) := by
  have hnode := h.nodeSize_eq
  have hhdr := h.headerSize_eq
  have hlt : size < 2 ^ 32 := h.not_extended.trans (by decide)
  have hsou : compressionHeaderSize ≤ size → compressionSource b offset =
      b.slice (offset + compressionHeaderSize) (size - compressionHeaderSize) := by
    intro hle
    rw [compressionSource, hhdr, hnode, sub32_of_le hle hlt]
  unfold encapsulatedStream
  cases hc with
  | leaf h₁ h₂ =>
    rw [if_neg h₁, if_neg h₂]
    rfl
  | empty htype hsize hlen =>
    rw [if_pos htype, compressedStream, hnode, if_neg (by omega), uncompress, hlen]
    rfl
  | stored htype hpos hsize hnot =>
    rw [if_pos htype, compressedStream, hnode, if_neg (by omega), uncompress, if_pos hpos,
      if_pos hnot, hhdr]
    rfl
  | compressed htype hpos hsize hsta hinfo hbyt =>
    rw [if_pos htype, compressedStream, hnode, if_neg (by omega), uncompress, if_pos hpos,
      if_neg (by rw [hsta]; decide), if_pos hsta, hsou hsize, hinfo, hbyt]
    simp only [bind, Except.bind, pure, Except.pure, ne_eq, not_true_eq_false, if_false]
    rfl
  | extracted htype hpro hext =>
    rw [if_neg (by rw [htype]; decide), if_pos htype, guidedStream, sectionDefinitionGuid, hhdr,
      hpro]
    simp only [hnode, hext]
    rfl
  | required htype hpro hreq =>
    rw [if_neg (by rw [htype]; decide), if_pos htype, guidedStream, sectionDefinitionGuid, hhdr,
      hpro]
    simp only [hreq]
    rfl
  | readable htype hpro hreq hsize =>
    rw [if_neg (by rw [htype]; decide), if_pos htype, guidedStream, sectionDefinitionGuid, hhdr,
      hpro]
    simp only [hreq, hnode, sub32_of_le hsize hlt]
    rfl

/-- The child node of a section; the stream in it is a parameter. -/
def childOf (b : Buffer) (offset size : ℕ) (stream : Option StreamNode) : ChildNode :=
  ⟨sectionType b offset, size, offset, stream⟩

lemma createChildNode_eq (h : SectionAt b offset size)
    (hc : Contains p b auth offset size contents) :
    createChildNode p b auth offset =
      .ok (childOf b offset size (contents.map fun c => openSectionStreamEx c.1 c.2)) := by
  rw [createChildNode, encapsulatedStream_eq h hc, h.nodeSize_eq]
  rfl

/-- The section has the type and the GUID. -/
def Section.matches (q : Query) (found : Section) : Bool :=
  if q.type = efiSectionAll then true
  else if sectionType found.buffer found.offset ≠ q.type then false
  else if q.type ≠ efiSectionGuidDefined then true
  else
    match q.definitionGuid with
    | none => true
    | some guid => bytesAt found.buffer.byte (found.offset + 4) 16 = guid

lemma childIsType_childOf (auth : BitVec 32) (h : SectionAt b offset size) (q : Query)
    (stream : Option StreamNode) :
    childIsType b (childOf b offset size stream) q = Section.matches q ⟨b, auth, offset⟩ := by
  unfold childIsType childOf
  simp only [sectionDefinitionGuid, h.headerSize_eq]
  rfl

/-- The bytes of a section behind its header, copied to a buffer. -/
def Section.reply (buffer : Option ℕ) (found : Section) : Reply :=
  copySection buffer found.buffer (found.offset + 4)
    (sectionSize found.buffer found.offset - 4) found.authenticationStatus

/-- The answer to a request, from the stream and its complete expansion. -/
def Answers (b : Buffer) (auth : BitVec 32) (l : List Section) (request : Request)
    (reply : Except SectionStatus Reply) : Prop :=
  match request.type with
  | none => reply = .ok (copySection request.buffer b 0 b.length auth)
  | some type =>
    match (l.filter (Section.matches ⟨type, request.definitionGuid⟩))[request.sectionInstance]? with
    | some found => reply = .ok (found.reply request.buffer)
    | none => ∃ status, reply = .error status ∧ status.isError = true

end Edk2.SectionExtraction

/-!
## The search in a lazily parsed stream

The children that have been parsed are a part of the complete expansion, and a search parses as
many more as it needs. So it finds what a search in the complete expansion finds, whatever was
parsed before, as long as the offsets in the streams fit into 32 bits.
-/

namespace Edk2.SectionExtraction

open Align Bytes Pick

variable {p : Protocols} {b b' : Buffer} {auth auth' : BitVec 32} {offset size limit n count : ℕ}
  {contents contents' : Option (Buffer × BitVec 32)} {l l' : List Section} {q : Query}
  {children rest : Children} {child : ChildNode} {stream : Option StreamNode}
  {found : Found} {error : SectionStatus}

/-- The greatest length for which all offsets fit. -/
abbrev offsetLimit : ℕ := 2 ^ 32 - 4

/-- The children that have been parsed from the offset on are right. -/
inductive Built (p : Protocols) : Buffer → BitVec 32 → ℕ → Children → Prop
  | nil {b : Buffer} {auth : BitVec 32} {offset : ℕ} : Built p b auth offset []
  | leaf {b : Buffer} {auth : BitVec 32} {offset size : ℕ} {rest : Children}
    (h : SectionAt b offset size) (hcontents : Contains p b auth offset size none)
    (hrest : Built p b auth (roundUp (offset + size) 4) rest) :
    Built p b auth offset (childOf b offset size none :: rest)
  | encapsulated {b b' : Buffer} {auth auth' : BitVec 32} {offset size : ℕ}
    {rest children : Children} (h : SectionAt b offset size)
    (hcontents : Contains p b auth offset size (some (b', auth')))
    (hstream : Built p b' auth' 0 children)
    (hrest : Built p b auth (roundUp (offset + size) 4) rest) :
    Built p b auth offset (childOf b offset size (some (.mk b' auth' children)) :: rest)

lemma Contains.unique (h : SectionAt b offset size) (hc : Contains p b auth offset size contents)
    (hc' : Contains p b auth offset size contents') : contents = contents' := by
  have heq := (encapsulatedStream_eq h hc).symm.trans (encapsulatedStream_eq h hc')
  rcases contents with _ | ⟨b, auth⟩ <;> rcases contents' with _ | ⟨b', auth'⟩
  · rfl
  · cases heq
  · cases heq
  · cases heq
    rfl

/-- The result of a search agrees with what was picked from the expansion. -/
def Agrees (found : Found) (count : ℕ) : Option Section × ℕ → Prop
  | (some x, _) => found = .child x ∧ count = 0
  | (none, n) => (∃ status, found = .error status ∧ status.isError = true) ∧ count = n

/-- From the offset on the search in the children finds what the expansion contains. -/
def Searches (p : Protocols) (b : Buffer) (auth : BitVec 32) (offset : ℕ) (l : List Section) :
    Prop :=
  ∀ (q : Query) (child : ChildNode) (rest : Children) (error : SectionStatus) (count : ℕ),
    Built p b auth offset (child :: rest) → error.isError = true → 0 < count → count < 2 ^ 64 →
    ∃ fuel child' rest' found count',
      (∀ k, fuel ≤ k → searchChildren p q k b auth child rest error count =
        .ok ⟨found, count', child' :: rest'⟩) ∧
      Built p b auth offset (child' :: rest') ∧
      Agrees found count' (pick (Section.matches q) l count)

/-- The search in the stream finds what its expansion contains. -/
def Finds (p : Protocols) (b : Buffer) (auth : BitVec 32) (l : List Section) : Prop :=
  ∀ (q : Query) (children : Children) (count : ℕ),
    Built p b auth 0 children → 0 < count → count < 2 ^ 64 →
    ∃ fuel children' found count',
      (∀ k, fuel ≤ k → findChildNode p q k (.mk b auth children) count =
        .ok ⟨found, count', .mk b auth children'⟩) ∧
      Built p b auth 0 children' ∧ Agrees found count' (pick (Section.matches q) l count)

lemma exists_createChildNode (h : SectionAt b offset size)
    (hc : Contains p b auth offset size contents) :
    ∃ child, createChildNode p b auth offset = .ok child ∧ Built p b auth offset [child] := by
  refine ⟨_, createChildNode_eq h hc, ?_⟩
  rcases contents with _ | ⟨b', auth'⟩
  · exact .leaf h hc .nil
  · exact .encapsulated h hc .nil .nil

lemma Expands.cases_next (h : Expands p limit b auth offset l) :
    (b.length ≤ offset ∧ l = []) ∨
      ∃ size contents, SectionAt b offset size ∧ Contains p b auth offset size contents := by
  cases h with
  | done h => exact .inl ⟨h, rfl⟩
  | leaf _ h hc _ => exact .inr ⟨_, _, h, hc⟩
  | encapsulated _ h hc _ _ => exact .inr ⟨_, _, h, hc⟩

lemma nextChildOffset_childOf (h : SectionAt b offset size) (hb : b.length ≤ offsetLimit) :
    nextChildOffset (childOf b offset size stream) = roundUp (offset + size) 4 := by
  have hle := h.le_length
  simp only [nextChildOffset, childOf, roundUp]
  unfold offsetLimit at hb
  rw [u32_of_lt (by omega : offset + size < 2 ^ 32), u32_of_lt (by omega)]
  omega

lemma searchNext_spec (q : Query) (stream : Option StreamNode) (hb : b.length ≤ offsetLimit)
    (h : SectionAt b offset size)
    (hexp : Expands p limit b auth (roundUp (offset + size) 4) l)
    (hsea : Searches p b auth (roundUp (offset + size) 4) l)
    (hrest : Built p b auth (roundUp (offset + size) 4) rest) (herr : error.isError = true)
    (hpos : 0 < count) (hlt : count < 2 ^ 64) :
    ∃ fuel rest' found count',
      (∀ k, fuel ≤ k → searchNext p b auth rest (searchChildren p q k b auth)
        (childOf b offset size stream) error count =
          .ok ⟨found, count', childOf b offset size stream :: rest'⟩) ∧
      Built p b auth (roundUp (offset + size) 4) rest' ∧
      Agrees found count' (pick (Section.matches q) l count) := by
  cases rest with
  | cons next rest =>
    obtain ⟨fuel, next', rest', found, count', hrun, hbui, hagr⟩ :=
      hsea q next rest error count hrest herr hpos hlt
    refine ⟨fuel, next' :: rest', found, count', fun k hk => ?_, hbui, hagr⟩
    simp only [searchNext, hrun k hk]
    rfl
  | nil =>
    have hfit := h.header_le_length
    unfold offsetLimit at hb
    have hsub : sub64 b.length commonHeaderSize = b.length - 4 :=
      sub64_of_le (by simp only [commonHeaderSize]; omega) (by omega)
    simp only [searchNext, nextChildOffset_childOf h hb, hsub]
    rcases hexp.cases_next with ⟨hend, rfl⟩ | ⟨size', contents, hnext, hc⟩
    · refine ⟨0, [], .error error, count, fun k _ => ?_, .nil, ⟨error, rfl, herr⟩, rfl⟩
      rw [if_neg (by omega), if_pos herr]
      rfl
    · have hfit' := hnext.header_le_length
      obtain ⟨next, hcre, hbui⟩ := exists_createChildNode hnext hc
      obtain ⟨fuel, next', rest', found, count', hrun, hbui', hagr⟩ :=
        hsea q next [] error count hbui herr hpos hlt
      refine ⟨fuel, next' :: rest', found, count', fun k hk => ?_, hbui', hagr⟩
      rw [if_pos (by omega), hcre]
      simp only [hrun k hk]
      rfl

/-! ### The search -/

lemma Searches.finds (h : Expands p limit b auth 0 l) (hsea : Searches p b auth 0 l) :
    Finds p b auth l := by
  intro q children count hbui hpos hlt
  rcases h.cases_next with ⟨hend, rfl⟩ | ⟨size, contents, hat, hc⟩
  · refine ⟨1, children, .error .notFound, count, fun k hk => ?_, hbui, ⟨_, rfl, rfl⟩, rfl⟩
    obtain ⟨k, rfl⟩ := Nat.exists_eq_add_of_le' hk
    cases children <;> simp only [findChildNode, if_pos (show b.length = 0 by omega)] <;> rfl
  have hfit := hat.header_le_length
  cases children with
  | cons child rest =>
    obtain ⟨fuel, child', rest', found, count', hrun, hbui', hagr⟩ :=
      hsea q child rest .notFound count hbui rfl hpos hlt
    refine ⟨fuel + 1, child' :: rest', found, count', fun k hk => ?_, hbui', hagr⟩
    obtain ⟨k, rfl⟩ := Nat.exists_eq_add_of_le' (Nat.le_of_add_left_le hk)
    simp only [findChildNode, if_neg (show b.length ≠ 0 by omega), hrun k (by omega)]
    rfl
  | nil =>
    obtain ⟨child, hcre, hbui₁⟩ := exists_createChildNode hat hc
    obtain ⟨fuel, child', rest', found, count', hrun, hbui', hagr⟩ :=
      hsea q child [] .notFound count hbui₁ rfl hpos hlt
    refine ⟨fuel + 1, child' :: rest', found, count', fun k hk => ?_, hbui', hagr⟩
    obtain ⟨k, rfl⟩ := Nat.exists_eq_add_of_le' (Nat.le_of_add_left_le hk)
    simp only [findChildNode, if_neg (show b.length ≠ 0 by omega),
      if_neg (show ¬ b.length < commonHeaderSize by simp only [commonHeaderSize]; omega),
      hcre, hrun k (by omega)]
    rfl

lemma searchChildren_found (hmat : childIsType b child q = true) (hcnt : sub64 count 1 = 0)
    (k : ℕ) :
    searchChildren p q (k + 1) b auth child rest error count =
      .ok ⟨.child ⟨b, auth, child.offsetInStream⟩, 0, child :: rest⟩ := by
  rw [searchChildren]
  simp only [hmat, hcnt, if_true, true_and]
  rfl

lemma searchChildren_next {count' : ℕ}
    (hcnt : count' = if childIsType b child q then sub64 count 1 else count)
    (hnot : ¬ (childIsType b child q = true ∧ count' = 0)) (k : ℕ) :
    searchChildren p q (k + 1) b auth child rest error count =
      searchEncapsulated (findChildNode p q k) q child rest error count'
        (searchNext p b auth rest (searchChildren p q k b auth)) := by
  subst hcnt
  rw [searchChildren]
  simp only [if_neg hnot]

lemma sub64_one (hpos : 0 < count) (hlt : count < 2 ^ 64) : sub64 count 1 = count - 1 :=
  sub64_of_le hpos hlt

lemma pick_child (auth : BitVec 32) (h : SectionAt b offset size) (q : Query)
    (stream : Option StreamNode) (l : List Section) (hpos : 0 < count) (hlt : count < 2 ^ 64) :
    (childIsType b (childOf b offset size stream) q = true ∧ sub64 count 1 = 0 ∧
        pick (Section.matches q) (⟨b, auth, offset⟩ :: l) count = (some ⟨b, auth, offset⟩, 0)) ∨
      ∃ count', count' = (if childIsType b (childOf b offset size stream) q then sub64 count 1
          else count) ∧
        ¬ (childIsType b (childOf b offset size stream) q = true ∧ count' = 0) ∧
        0 < count' ∧ count' < 2 ^ 64 ∧
        pick (Section.matches q) (⟨b, auth, offset⟩ :: l) count =
          pick (Section.matches q) l count' := by
  rw [childIsType_childOf auth h, sub64_one hpos hlt]
  by_cases hmat : Section.matches q ⟨b, auth, offset⟩ = true
  · by_cases hlast : count - 1 = 0
    · exact .inl ⟨hmat, hlast, pick_cons_found hmat hlast⟩
    · grind [pick_cons_next]
  · grind [pick_cons_of_neg]

lemma searches_leaf (hb : b.length ≤ offsetLimit) (h : SectionAt b offset size)
    (hc : Contains p b auth offset size none)
    (hexp : Expands p limit b auth (roundUp (offset + size) 4) l)
    (hsea : Searches p b auth (roundUp (offset + size) 4) l) :
    Searches p b auth offset (⟨b, auth, offset⟩ :: l) := by
  intro q child rest error count hbui herr hpos hlt
  obtain ⟨rfl, hrest⟩ : child = childOf b offset size none ∧
      Built p b auth (roundUp (offset + size) 4) rest := by
    cases hbui with
    | leaf h' hc' hrest =>
      cases h.unique h'
      exact ⟨rfl, hrest⟩
    | encapsulated h' hc' _ _ =>
      cases h.unique h'
      cases hc.unique h hc'
  rcases pick_child auth h q none l hpos hlt with
    ⟨hmat, hlast, hpick⟩ | ⟨count', hcnt, hnot, hpos', hlt', hpick⟩
  · refine ⟨1, _, rest, .child ⟨b, auth, offset⟩, 0, fun k hk => ?_, hbui, ?_⟩
    · obtain ⟨k, rfl⟩ := Nat.exists_eq_add_of_le' hk
      exact searchChildren_found hmat hlast k
    · rw [hpick]
      exact ⟨rfl, rfl⟩
  · -- the error status may change, but stays an error
    obtain ⟨error', herr', hstep⟩ : ∃ error' : SectionStatus, error'.isError = true ∧
        ∀ k, searchEncapsulated (findChildNode p q k) q (childOf b offset size none) rest error
          count' (searchNext p b auth rest (searchChildren p q k b auth)) =
            searchNext p b auth rest (searchChildren p q k b auth) (childOf b offset size none)
              error' count' := by
      by_cases hgui : (childOf b offset size none).type = efiSectionGuidDefined ∧
          q.type ≠ efiSectionGuidDefined
      · exact ⟨.protocolError, rfl, fun k => if_pos hgui⟩
      · exact ⟨error, herr, fun k => if_neg hgui⟩
    obtain ⟨fuel, rest', found, count₂, hrun, hbui', hagr⟩ :=
      searchNext_spec q none hb h hexp hsea hrest herr' hpos' hlt'
    refine ⟨fuel + 1, _, rest', found, count₂, fun k hk => ?_, .leaf h hc hbui', hpick ▸ hagr⟩
    obtain ⟨k, rfl⟩ := Nat.exists_eq_add_of_le' (Nat.le_of_add_left_le hk)
    rw [searchChildren_next hcnt hnot, hstep]
    exact hrun k (by omega)

lemma searches_encapsulated (hb : b.length ≤ offsetLimit) (h : SectionAt b offset size)
    (hc : Contains p b auth offset size (some (b', auth'))) (hfin : Finds p b' auth' l')
    (hexp : Expands p limit b auth (roundUp (offset + size) 4) l)
    (hsea : Searches p b auth (roundUp (offset + size) 4) l) :
    Searches p b auth offset (⟨b, auth, offset⟩ :: (l' ++ l)) := by
  intro q child rest error count hbui herr hpos hlt
  obtain ⟨children, rfl, hstr, hrest⟩ : ∃ children,
      child = childOf b offset size (some (.mk b' auth' children)) ∧
      Built p b' auth' 0 children ∧ Built p b auth (roundUp (offset + size) 4) rest := by
    cases hbui with
    | leaf h' hc' hrest =>
      cases h.unique h'
      cases hc.unique h hc'
    | encapsulated h' hc' hstr hrest =>
      cases h.unique h'
      cases hc.unique h hc'
      exact ⟨_, rfl, hstr, hrest⟩
  rcases pick_child auth h q (some (.mk b' auth' children)) (l' ++ l) hpos hlt with
    ⟨hmat, hlast, hpick⟩ | ⟨count', hcnt, hnot, hpos', hlt', hpick⟩
  · refine ⟨1, _, rest, .child ⟨b, auth, offset⟩, 0, fun k hk => ?_, hbui, ?_⟩
    · obtain ⟨k, rfl⟩ := Nat.exists_eq_add_of_le' hk
      exact searchChildren_found hmat hlast k
    · rw [hpick]
      exact ⟨rfl, rfl⟩
  obtain ⟨fuel₁, children', found₁, count₁, hrun₁, hbui₁, hagr₁⟩ :=
    hfin q children count' hstr hpos' hlt'
  rcases hpic : pick (Section.matches q) l' count' with ⟨_ | x, n⟩
  · -- not in the stream: the counter goes on with the next section
    rw [hpic] at hagr₁
    obtain ⟨⟨status, rfl, hst⟩, rfl⟩ := hagr₁
    have hnone : (pick (Section.matches q) l' count').1 = none := by rw [hpic]
    have hpos₁ := pick_snd_pos hpos' hnone
    have hle₁ : (pick (Section.matches q) l' count').2 ≤ count' := pick_snd_le
    have happ : pick (Section.matches q) (l' ++ l) count' =
        pick (Section.matches q) l (pick (Section.matches q) l' count').2 :=
      pick_append_of_none hnone
    rw [hpic] at hpos₁ hle₁ happ
    dsimp only at hpos₁ hle₁ happ
    obtain ⟨fuel₂, rest', found, count₂, hrun₂, hbui₂, hagr₂⟩ :=
      searchNext_spec q (some (.mk b' auth' children')) hb h hexp hsea hrest hst hpos₁ (by omega)
    refine ⟨fuel₁ + fuel₂ + 1, _, rest', found, count₂, fun k hk => ?_,
      .encapsulated h hc hbui₁ hbui₂, ?_⟩
    · obtain ⟨k, rfl⟩ := Nat.exists_eq_add_of_le' (Nat.le_of_add_left_le hk)
      rw [searchChildren_next hcnt hnot]
      have hfind := hrun₁ k (by omega)
      simp only [searchEncapsulated, childOf] at hfind ⊢
      rw [hfind]
      simp only [bind, Except.bind, afterEncapsulated, if_neg hpos₁.ne']
      exact hrun₂ k (by omega)
    · rw [hpick, happ]
      exact hagr₂
  · -- found in the stream
    rw [hpic] at hagr₁
    obtain ⟨rfl, rfl⟩ := hagr₁
    refine ⟨fuel₁ + 1, childOf b offset size (some (.mk b' auth' children')), rest, .child x, 0,
      fun k hk => ?_, .encapsulated h hc hbui₁ hrest, ?_⟩
    · obtain ⟨k, rfl⟩ := Nat.exists_eq_add_of_le' (Nat.le_of_add_left_le hk)
      rw [searchChildren_next hcnt hnot]
      have hfind := hrun₁ k (by omega)
      simp only [searchEncapsulated, childOf] at hfind ⊢
      rw [hfind]
      rfl
    · rw [hpick, pick_append_of_some (by rw [hpic])]
      exact ⟨rfl, rfl⟩

lemma Expands.searches (h : Expands p offsetLimit b auth offset l) :
    Searches p b auth offset l := by
  induction h with
  | done hend =>
    intro q child rest error count hbui
    cases hbui with
    | leaf hat _ _ =>
      have := hat.header_le_length
      omega
    | encapsulated hat _ _ _ =>
      have := hat.header_le_length
      omega
  | leaf hb hat hc hrest ih => exact searches_leaf hb hat hc hrest ih
  | encapsulated hb hat hc hstr hrest ihstream ihrest =>
    exact searches_encapsulated hb hat hc (ihstream.finds hstr) hrest ihrest

end Edk2.SectionExtraction
