import Edk2.SectionExtraction.Search

/-!
# Sequences of requests

The answers of `GetSection` do not depend on the requests before, as long as no stream is longer
than the greatest length for which all offsets fit. In a longer stream `NextChildOffset` wraps
around, and the stream is parsed again from its start.
-/

namespace Edk2.SectionExtraction

open Align Bytes Pick

variable {p : Protocols} {b : Buffer} {auth : BitVec 32} {offset limit k : ℕ} {l : List Section}
  {children : Children} {request : Request}

lemma Expands.sectionAt (h : Expands p limit b auth offset l) :
    ∀ x ∈ l, ∃ size, SectionAt x.buffer x.offset size := by
  induction h with
  | done _ => simp
  | leaf _ hat _ _ ih =>
    grind
  | encapsulated _ hat _ _ _ ihstream ihrest =>
    grind

lemma returnSection_eq {x : Section} {size : ℕ} (h : SectionAt x.buffer x.offset size) :
    returnSection request x = .ok (.ok (x.reply request.buffer)) := by
  have hlt : size < 2 ^ 64 := h.not_extended.trans (by decide)
  rw [returnSection, if_neg h.not_section2, Section.reply, h.size_eq, sub64_of_le h.four_le hlt]
  rfl

lemma getSection_spec (h : Expands p offsetLimit b auth 0 l) (hbui : Built p b auth 0 children)
    (hins : request.sectionInstance < 2 ^ 64 - 1) :
    ∃ fuel reply children',
      (∀ k, fuel ≤ k → getSection p k request (.mk b auth children) =
        .ok (reply, .mk b auth children')) ∧
      Built p b auth 0 children' ∧ Answers b auth l request reply := by
  rcases request with ⟨type, guid, sectionInstance, buffer, ffs3⟩
  dsimp only at hins
  cases type with
  | none => exact ⟨0, _, children, fun k _ => rfl, hbui, rfl⟩
  | some type =>
    have hcnt : u64 (sectionInstance + 1) = sectionInstance + 1 := u64_of_lt (by omega)
    obtain ⟨fuel, children', found, count', hrun, hbui', hagr⟩ :=
      (h.searches.finds h) ⟨type, guid⟩ children (sectionInstance + 1) hbui (Nat.succ_pos _)
        (by omega)
    have hpick := pick_fst_succ (Section.matches ⟨type, guid⟩) l sectionInstance
    rcases hpic : pick (Section.matches ⟨type, guid⟩) l (sectionInstance + 1) with ⟨_ | x, n⟩
    · rw [hpic] at hagr hpick
      obtain ⟨⟨status, rfl, hst⟩, -⟩ := hagr
      refine ⟨fuel, .error status, children', fun k hk => ?_, hbui', ?_⟩
      · simp only [getSection, hcnt, hrun k hk]
        rfl
      · simp only [Answers, ← hpick]
        exact ⟨status, rfl, hst⟩
    · rw [hpic] at hagr hpick
      obtain ⟨rfl, -⟩ := hagr
      have hmem : x ∈ l := (List.mem_filter.mp (List.mem_of_getElem? hpick.symm)).1
      obtain ⟨size, hat⟩ := h.sectionAt x hmem
      refine ⟨fuel, .ok (x.reply buffer), children', fun k hk => ?_, hbui', ?_⟩
      · simp only [getSection, hcnt, hrun k hk]
        simp only [bind, Except.bind, returnSection_eq hat]
        rfl
      · simp only [Answers, ← hpick]

/-- The sequence of requests is answered from the complete expansion. -/
def AnswersAll (p : Protocols) (b : Buffer) (auth : BitVec 32) (l : List Section)
    (requests : List Request) : Prop :=
  ∃ fuel, ∀ k, fuel ≤ k → ∃ replies,
    getSections p k requests (openSectionStreamEx b auth) = .ok replies ∧
      List.Forall₂ (Answers b auth l) requests replies

lemma getSections_spec {requests : List Request} (h : Expands p offsetLimit b auth 0 l)
    (hbui : Built p b auth 0 children)
    (hins : ∀ r ∈ requests, r.sectionInstance < 2 ^ 64 - 1) :
    ∃ fuel replies, (∀ k, fuel ≤ k → getSections p k requests (.mk b auth children) =
      .ok replies) ∧ List.Forall₂ (Answers b auth l) requests replies := by
  induction requests generalizing children with
  | nil => exact ⟨0, [], fun _ _ => rfl, .nil⟩
  | cons request requests ih =>
    obtain ⟨fuel₁, reply, children', hrun₁, hbui', hans⟩ :=
      getSection_spec h hbui (hins request List.mem_cons_self)
    obtain ⟨fuel₂, replies, hrun₂, hall⟩ :=
      ih hbui' fun r hr => hins r (List.mem_cons_of_mem request hr)
    refine ⟨max fuel₁ fuel₂, reply :: replies, fun k hk => ?_, .cons hans hall⟩
    simp only [getSections, hrun₁ k (le_of_max_le_left hk), bind, Except.bind,
      hrun₂ k (le_of_max_le_right hk)]
    rfl

/-- Whatever requests came before, each is answered from the complete expansion of the stream. -/
theorem answersAll_of_expands (p : Protocols) (b : Buffer) (auth : BitVec 32) (l : List Section)
    (requests : List Request) (h : Expands p offsetLimit b auth 0 l)
    (hinstance : ∀ r ∈ requests, r.sectionInstance < 2 ^ 64 - 1) :
    AnswersAll p b auth l requests := by
  obtain ⟨fuel, replies, hrun, hall⟩ := getSections_spec h .nil hinstance
  exact ⟨fuel, fun k hk => ⟨replies, hrun k hk, hall⟩⟩

/-- A compressed section that holds a raw section as it is, and a raw section behind it. -/
def sampleBytes : List UInt8 :=
  [17, 0, 0, 1, 8, 0, 0, 0, 0, 8, 0, 0, 0x19, 1, 2, 3, 4, 0, 0, 0, 6, 0, 0, 0x19, 5, 6]

def sampleStream : Buffer := ⟨26, fun i => sampleBytes.getD i 0⟩

/-- No protocol is installed. -/
def noProtocols : Protocols where
  getInfo _ := .error .invalidParameter
  decompress _ := .error .invalidParameter
  extractSection _ := none
  pool _ := 0

lemma expands_sampleStream :
    Expands noProtocols offsetLimit sampleStream 0 0
      [⟨sampleStream, 0, 0⟩, ⟨sampleStream.slice 9 8, 0, 0⟩, ⟨sampleStream, 0, 20⟩] := by
  have hcom : SectionAt sampleStream 0 17 :=
    ⟨by decide, by decide, by decide, by decide⟩
  have hinn : SectionAt (sampleStream.slice 9 8) 0 8 :=
    ⟨by decide, by decide, by decide, by decide⟩
  have hraw : SectionAt sampleStream 20 6 := ⟨by decide, by decide, by decide, by decide⟩
  have hstr : Expands noProtocols offsetLimit (sampleStream.slice 9 8) 0 0
      [⟨sampleStream.slice 9 8, 0, 0⟩] :=
    .leaf (by decide) hinn (.leaf (by decide) (by decide)) (.done (by decide))
  refine .encapsulated (by decide) hcom
    (.stored (by decide) (by decide) (by decide) (by decide)) hstr ?_
  exact .leaf (by decide) hraw (.leaf (by decide) (by decide)) (.done (by decide))

/-- The second raw section is found first, then the first one. -/
theorem answersAll_sampleStream :
    AnswersAll noProtocols sampleStream 0
      [⟨sampleStream, 0, 0⟩, ⟨sampleStream.slice 9 8, 0, 0⟩, ⟨sampleStream, 0, 20⟩]
      [⟨some 0x19, none, 1, none, false⟩, ⟨some 0x19, none, 0, none, false⟩] :=
  answersAll_of_expands _ _ _ _ _ expands_sampleStream (by decide)

lemma searchEncapsulated_mono {q : Query} {child : ChildNode} {rest : Children}
    {error : SectionStatus} {count : ℕ}
    {find find' : StreamNode → ℕ → Except Halt (Searched StreamNode)}
    {next next' : ChildNode → SectionStatus → ℕ → Except Halt (Searched Children)}
    {r : Searched Children} (hfind : ∀ s n r, find s n = .ok r → find' s n = .ok r)
    (hnext : ∀ c e n r, next c e n = .ok r → next' c e n = .ok r)
    (h : searchEncapsulated find q child rest error count next = .ok r) :
    searchEncapsulated find' q child rest error count next' = .ok r := by
  unfold searchEncapsulated at h ⊢
  rcases hstr : child.encapsulatedStream with _ | stream
  · simp only [hstr] at h ⊢
    split_ifs at h ⊢ <;> exact hnext _ _ _ _ h
  · simp only [hstr] at h ⊢
    rcases hrun : find stream count with e | r'
    · rw [hrun] at h
      cases h
    · rw [hrun] at h
      rw [hfind _ _ _ hrun]
      change afterEncapsulated child rest next r' = .ok r at h
      change afterEncapsulated child rest next' r' = .ok r
      unfold afterEncapsulated at h ⊢
      dsimp only at h ⊢
      split_ifs at h ⊢
      · exact h
      · grind

lemma map_mono {α β : Type} {x x' : Except Halt α} {f : α → β} {r : β}
    (hx : ∀ a, x = .ok a → x' = .ok a) (h : x.map f = .ok r) : x'.map f = .ok r := by
  rcases x with e | a
  · cases h
  · rw [hx a rfl]
    exact h

lemma searchNext_mono {rest : Children} {child : ChildNode} {error : SectionStatus} {count : ℕ}
    {search search' : ChildNode → Children → SectionStatus → ℕ → Except Halt (Searched Children)}
    {r : Searched Children}
    (hsea : ∀ c l e n r, search c l e n = .ok r → search' c l e n = .ok r)
    (h : searchNext p b auth rest search child error count = .ok r) :
    searchNext p b auth rest search' child error count = .ok r := by
  cases rest with
  | cons next rest => exact map_mono (hsea next rest error count) h
  | nil =>
    grind [searchNext, map_mono]

lemma search_mono (p : Protocols) (q : Query) (k : ℕ) :
    (∀ stream count r, findChildNode p q k stream count = .ok r →
      findChildNode p q (k + 1) stream count = .ok r) ∧
    (∀ b auth child rest error count r, searchChildren p q k b auth child rest error count =
      .ok r → searchChildren p q (k + 1) b auth child rest error count = .ok r) := by
  induction k with
  | zero =>
    refine ⟨fun stream count r h => ?_, fun b auth child rest error count r h => ?_⟩
    · unfold findChildNode at h
      cases h
    · unfold searchChildren at h
      cases h
  | succ k ih =>
    refine ⟨fun stream count r h => ?_, fun b auth child rest error count r h => ?_⟩
    · obtain ⟨b, auth, children⟩ := stream
      unfold findChildNode at h ⊢
      by_cases hemp : b.length = 0
      · rw [if_pos hemp] at h ⊢
        exact h
      rw [if_neg hemp] at h ⊢
      cases children with
      | cons child rest => exact map_mono (ih.2 b auth child rest .notFound count) h
      | nil =>
        simp only at h ⊢
        by_cases hsho : b.length < commonHeaderSize
        · rw [if_pos hsho] at h ⊢
          exact h
        rw [if_neg hsho] at h ⊢
        rcases hcre : createChildNode p b auth 0 with status | child
        · rw [hcre] at h
          exact h
        · rw [hcre] at h
          exact map_mono (ih.2 b auth child [] .notFound count) h
    · unfold searchChildren at h ⊢
      generalize (if childIsType b child q = true then sub64 count 1 else count) = count' at h ⊢
      by_cases hfnd : childIsType b child q = true ∧ count' = 0
      · rw [if_pos hfnd] at h ⊢
        exact h
      · rw [if_neg hfnd] at h ⊢
        exact searchEncapsulated_mono ih.1 (fun c e n r hr => searchNext_mono (ih.2 b auth) hr) h

lemma getSection_mono {stream : StreamNode} {r : Except SectionStatus Reply × StreamNode}
    (h : getSection p k request stream = .ok r) : getSection p (k + 1) request stream = .ok r := by
  unfold getSection at h ⊢
  rcases htype : request.type with _ | type
  · simp only [htype] at h ⊢
    exact h
  · simp only [htype] at h ⊢
    rcases hrun : findChildNode p ⟨type, request.definitionGuid⟩ k stream
      (u64 (request.sectionInstance + 1)) with e | r'
    · rw [hrun] at h
      cases h
    · rw [hrun] at h
      rw [(search_mono p _ k).1 _ _ _ hrun]
      exact h

lemma getSections_succ {requests : List Request} {stream : StreamNode} {m : ℕ}
    {replies : List (Except SectionStatus Reply)}
    (h : getSections p m requests stream = .ok replies) :
    getSections p (m + 1) requests stream = .ok replies := by
  induction requests generalizing stream replies with
  | nil => exact h
  | cons request requests ih =>
    unfold getSections at h ⊢
    rcases hrun : getSection p m request stream with e | ⟨reply, stream'⟩
    · rw [hrun] at h
      cases h
    · rw [hrun] at h
      rw [getSection_mono hrun]
      simp only [bind, Except.bind] at h ⊢
      rcases hrest : getSections p m requests stream' with e | rest
      · rw [hrest] at h
        cases h
      · rw [hrest] at h
        rw [ih hrest]
        exact h

lemma getSections_mono {requests : List Request} {stream : StreamNode} {k k' : ℕ}
    {replies : List (Except SectionStatus Reply)} (hle : k ≤ k')
    (h : getSections p k requests stream = .ok replies) :
    getSections p k' requests stream = .ok replies := by
  induction hle with
  | refl => exact h
  | step _ ih => exact getSections_succ ih

/-- 512 raw sections of eight megabytes each. -/
def longStream : Buffer :=
  ⟨2 ^ 32, fun i => if i % 2 ^ 23 = 2 then 0x80 else if i % 2 ^ 23 = 3 then 0x19 else 0⟩

/-- The last `n` of the sections. -/
def lastSections : ℕ → List Section
  | 0 => []
  | n + 1 => ⟨longStream, 0, 2 ^ 23 * (511 - n)⟩ :: lastSections n

lemma length_lastSections (n : ℕ) : (lastSections n).length = n := by
  induction n with
  | zero => rfl
  | succ n ih => rw [lastSections, List.length_cons, ih]

lemma byte_longStream (k i : ℕ) : longStream.byte (2 ^ 23 * k + i) = longStream.byte i := by
  simp only [longStream, Nat.mul_add_mod]

lemma value_longStream (k i size : ℕ) :
    longStream.value (2 ^ 23 * k + i) size = longStream.value i size := by
  unfold Buffer.value
  congr 1
  apply List.map_congr_left
  intro j _
  rw [Nat.add_assoc, byte_longStream]

lemma sectionAt_longStream {k : ℕ} (hk : k < 512) : SectionAt longStream (2 ^ 23 * k) (2 ^ 23) := by
  refine ⟨?_, by decide, by decide, ?_⟩
  · exact (value_longStream k 0 3).trans (by decide)
  · simp only [longStream]
    omega

lemma expands_longStream {n : ℕ} (hn : n ≤ 512) :
    Expands noProtocols (2 ^ 64 - 1) longStream 0 (2 ^ 23 * (512 - n)) (lastSections n) := by
  induction n with
  | zero => exact .done (by decide)
  | succ n ih =>
    have htype : sectionType longStream (2 ^ 23 * (511 - n)) = 0x19 :=
      (value_longStream _ 3 1).trans (by decide)
    have hnext : roundUp (2 ^ 23 * (511 - n) + 2 ^ 23) 4 = 2 ^ 23 * (512 - n) := by
      unfold roundUp
      omega
    have hsta : 512 - (n + 1) = 511 - n := by omega
    rw [hsta, lastSections]
    refine .leaf (by decide) (sectionAt_longStream (by omega)) (.leaf ?_ ?_) ?_
    · rw [htype]
      decide
    · rw [htype]
      decide
    · rw [hnext]
      exact ih (by omega)

/-- The request for a section behind the last one. -/
def behindLast : Request := ⟨some efiSectionAll, none, 512, some 0, false⟩

set_option maxRecDepth 20000 in
/-- The search starts again from the first section. -/
theorem not_answersAll_longStream :
    Expands noProtocols (2 ^ 64 - 1) longStream 0 0 (lastSections 512) ∧
      ¬ AnswersAll noProtocols longStream 0 (lastSections 512) [behindLast] := by
  refine ⟨expands_longStream le_rfl, ?_⟩
  rintro ⟨fuel, hall⟩
  obtain ⟨replies, hrun, hanswers⟩ := hall (max fuel 520) (le_max_left _ _)
  have hfound : ((getSections noProtocols 520 [behindLast]
      (openSectionStreamEx longStream 0)).map (List.map Except.isOk)).toOption = some [true] := by
    decide
  have hnone :
      ((lastSections 512).filter (Section.matches ⟨efiSectionAll, none⟩))[512]? = none := by
    refine List.getElem?_eq_none ((List.length_filter_le _ _).trans ?_)
    rw [length_lastSections]
  rcases hshort : getSections noProtocols 520 [behindLast] (openSectionStreamEx longStream 0) with
    e | replies'
  · rw [hshort] at hfound
    cases hfound
  · rw [getSections_mono (le_max_right fuel 520) hshort] at hrun
    cases hrun
    cases hanswers with
    | cons hanswer hrest =>
      cases hrest
      simp only [Answers, behindLast, hnone] at hanswer
      obtain ⟨status, rfl, -⟩ := hanswer
      rw [hshort] at hfound
      cases hfound

end Edk2.SectionExtraction
