import Edk2.Auth.Update

/-!
# Databases of certificates as lists of nodes

`encodeDb` is the layout of a database. `FindCertsFromDb` finds the node of a variable in it, and
the data that `InsertCertsToDb` and `DeleteCertsFromDb` write is the layout of the database with one
more node, or with one node less.
-/

namespace Edk2.Auth

open Variable (Bytes word readBytes)

section Reading

variable (beyond : Bytes) (a b c : List UInt8)

lemma readBytes_pointer : readBytes (pointer beyond (a ++ b ++ c)) a.length b.length = b := by
  apply List.ext_getElem
  · simp
  · grind [Variable.readBytes, pointer, List.getElem_append_left]

@[simp] lemma length_le32 (n : ℕ) : (le32 n).length = 4 := rfl

/-- The number that bytes stand for. -/
def ofBytes : List UInt8 → ℕ
  | [] => 0
  | byte :: bytes => byte.toNat + 2 ^ 8 * ofBytes bytes

lemma word_eq_ofBytes (bytes : Bytes) (offset n : ℕ) :
    word bytes offset n = ofBytes (readBytes bytes offset n) := by
  induction n generalizing offset with
  | zero => rfl
  | succ n ih =>
    rw [Nat.add_comm n 1, Variable.readBytes_add, Nat.add_comm 1 n, word, ih]
    rfl

lemma ofBytes_le32 {n : ℕ} (h : n < 2 ^ 32) : ofBytes (le32 n) = n := by
  simp only [le32, ofBytes, UInt8.toNat_ofNat']
  omega

lemma word_four (bytes : Bytes) (offset : ℕ) :
    word bytes offset 4 = (bytes offset).toNat + 2 ^ 8 * (bytes (offset + 1)).toNat +
      2 ^ 16 * (bytes (offset + 2)).toNat + 2 ^ 24 * (bytes (offset + 3)).toNat := by
  simp only [word, Nat.add_assoc, Nat.reduceAdd]
  omega

lemma word_lt (bytes : Bytes) (offset : ℕ) : word bytes offset 4 < 2 ^ 32 := by
  rw [word_four]
  have h₀ := (bytes offset).toNat_lt
  have h₁ := (bytes (offset + 1)).toNat_lt
  have h₂ := (bytes (offset + 2)).toNat_lt
  have h₃ := (bytes (offset + 3)).toNat_lt
  omega

lemma le32_word (bytes : Bytes) (offset : ℕ) :
    le32 (word bytes offset 4) = readBytes bytes offset 4 := by
  have h₀ := (bytes offset).toNat_lt
  have h₁ := (bytes (offset + 1)).toNat_lt
  have h₂ := (bytes (offset + 2)).toNat_lt
  have h₃ := (bytes (offset + 3)).toNat_lt
  have hread : readBytes bytes offset 4 =
      [bytes offset, bytes (offset + 1), bytes (offset + 2), bytes (offset + 3)] := rfl
  rw [hread, word_four, le32]
  simp only [List.cons.injEq, and_true, ← UInt8.toNat_inj, UInt8.toNat_ofNat']
  omega

lemma word_pointer {n : ℕ} (h : n < 2 ^ 32) :
    word (pointer beyond (a ++ le32 n ++ c)) a.length 4 = n := by
  have hread := readBytes_pointer beyond a (le32 n) c
  rw [length_le32] at hread
  rw [word_eq_ofBytes, hread, ofBytes_le32 h]

end Reading

/-- A node of the database. -/
structure Node where
  key : Key
  cert : List UInt8

/-- The bytes of a node. -/
def Node.bytes (node : Node) : List UInt8 := certNode node.key node.cert

lemma length_bytes_name (name : Name) : (Name.bytes name).length = 2 * name.length := by
  unfold Name.bytes
  induction name with
  | nil => rfl
  | cons c name ih =>
    simp [List.flatMap_cons, ih, List.length_cons]
    omega

lemma Name.bytes_cons (c : UInt8 × UInt8) (name : Name) :
    Name.bytes (c :: name) = c.1 :: c.2 :: Name.bytes name := rfl

lemma Name.bytes_injective {name name' : Name} (h : Name.bytes name = Name.bytes name') :
    name = name' := by
  induction name generalizing name' with
  | nil =>
    cases name' with
    | nil => rfl
    | cons c' name' => cases h
  | cons c name ih =>
    cases name' with
    | nil => cases h
    | cons c' name' =>
      grind [Name.bytes_cons, Prod.ext]

lemma Node.length_bytes (node : Node) :
    node.bytes.length = 28 + 2 * node.key.name.length + node.cert.length := by
  simp only [Node.bytes, certNode, List.length_append, length_bytes_name, length_le32,
    node.key.guid.length_bytes]

/-- What is read from a node that stands somewhere in the memory. -/
structure IsNode (data : Bytes) (offset : ℕ) (node : Node) : Prop where
  guid : readBytes data offset guidSize = node.key.guid.bytes
  nodeSize : word data (offset + 16) 4 = node.bytes.length
  nameSize : word data (offset + 20) 4 = node.key.name.length
  certSize : word data (offset + 24) 4 = node.cert.length
  name : readBytes data (offset + 28) (2 * node.key.name.length) = node.key.name.bytes

lemma isNode_pointer (beyond : Bytes) (a c : List UInt8) (node : Node)
    (h : node.bytes.length < 2 ^ 32) :
    IsNode (pointer beyond (a ++ node.bytes ++ c)) a.length node := by
  have hlen := node.length_bytes
  have hguid := node.key.guid.length_bytes
  -- each field stands between what comes before it and what comes after it
  constructor
  · grind [Node.bytes, certNode, List.append_assoc, readBytes_pointer]
  · grind [Node.bytes, certNode, List.append_assoc, word_pointer]
  · have := word_pointer beyond (a ++ node.key.guid.bytes ++
        le32 (28 + node.cert.length + 2 * node.key.name.length))
      (le32 node.cert.length ++ node.key.name.bytes ++ node.cert ++ c)
      (n := node.key.name.length) (by omega)
    simpa [Node.bytes, certNode, hguid, List.append_assoc, Nat.add_assoc] using this
  · have := word_pointer beyond (a ++ node.key.guid.bytes ++
        le32 (28 + node.cert.length + 2 * node.key.name.length) ++ le32 node.key.name.length)
      (node.key.name.bytes ++ node.cert ++ c) (n := node.cert.length) (by omega)
    simpa [Node.bytes, certNode, hguid, List.append_assoc, Nat.add_assoc] using this
  · grind [Node.bytes, certNode, List.append_assoc, Nat.add_assoc, length_bytes_name,
      readBytes_pointer]

lemma IsNode.key_iff {data : Bytes} {offset : ℕ} {node : Node} (h : IsNode data offset node)
    (key : Key) : node.key = key ↔ readBytes data offset guidSize = key.guid.bytes ∧
      word data (offset + 20) 4 = key.name.length ∧
      readBytes data (offset + 28) (2 * word data (offset + 20) 4) = key.name.bytes := by
  rw [h.guid, h.nameSize, h.name]
  constructor
  · rintro rfl
    exact ⟨rfl, rfl, rfl⟩
  · rintro ⟨hguid, -, hname⟩
    exact Key.ext (Name.bytes_injective hname) (Guid.ext hguid)

/-- The place of a node at an offset. -/
def Node.place (node : Node) (offset : ℕ) : CertPlace where
  certOffset := offset + 28 + 2 * node.key.name.length
  certDataSize := node.cert.length
  certNodeOffset := offset
  certNodeSize := node.bytes.length

lemma findCertsLoop_node {key : Key} {data : Bytes} {dataSize fuel offset : ℕ} {node : Node}
    (h : IsNode data offset node) (hend : offset + node.bytes.length ≤ dataSize)
    (hsize : dataSize < 2 ^ 32) :
    findCertsLoop key data dataSize (fuel + 1) offset =
      if node.key = key then .ok (.ok (node.place offset))
      else findCertsLoop key data dataSize fuel (offset + node.bytes.length) := by
  have hlen := node.length_bytes
  have hkey := h.key_iff key
  rw [findCertsLoop, if_pos (by omega)]
  simp only [h.nodeSize, h.nameSize, h.certSize] at hkey ⊢
  rw [u32_of_lt (by unfold nodeHeaderSize; omega : offset + nodeHeaderSize < 2 ^ 32)]
  by_cases hguid : readBytes data offset guidSize = key.guid.bytes
  · rw [if_pos hguid, if_neg (by unfold nodeHeaderSize; omega)]
    by_cases hname : node.key.name.length = key.name.length ∧
        readBytes data (offset + 28) (2 * node.key.name.length) = key.name.bytes
    · rw [if_pos hname, if_pos (hkey.mpr ⟨hguid, hname⟩), u32_of_lt (by
        unfold nodeHeaderSize; omega)]
      rfl
    · rw [if_neg hname, if_neg (fun heq => hname (hkey.mp heq).2), u32_of_lt (by
        unfold nodeHeaderSize; omega)]
      congr 1
      unfold nodeHeaderSize
      omega
  · rw [if_neg hguid, if_neg (fun heq => hguid (hkey.mp heq).1), u32_of_lt (by omega)]

/-! ### Databases -/

/-- The bytes of the nodes one after the other. -/
def nodesBytes (nodes : List Node) : List UInt8 := nodes.flatMap Node.bytes

/-- The database with these nodes. -/
def encodeDb (nodes : List Node) : List UInt8 :=
  le32 (4 + (nodesBytes nodes).length) ++ nodesBytes nodes

@[simp] lemma nodesBytes_nil : nodesBytes [] = [] := rfl

@[simp] lemma nodesBytes_cons (node : Node) (nodes : List Node) :
    nodesBytes (node :: nodes) = node.bytes ++ nodesBytes nodes := List.flatMap_cons

@[simp] lemma nodesBytes_append (nodes nodes' : List Node) :
    nodesBytes (nodes ++ nodes') = nodesBytes nodes ++ nodesBytes nodes' := List.flatMap_append

lemma length_encodeDb (nodes : List Node) :
    (encodeDb nodes).length = 4 + (nodesBytes nodes).length := by
  simp [encodeDb]

lemma findCertsLoop_skip {key : Key} (beyond : Bytes) (front back : List UInt8) (fuel : ℕ)
    (nodes : List Node) (hoth : ∀ node ∈ nodes, node.key ≠ key)
    (hsize : (front ++ nodesBytes nodes ++ back).length < 2 ^ 32) :
    findCertsLoop key (pointer beyond (front ++ nodesBytes nodes ++ back))
        (front ++ nodesBytes nodes ++ back).length (fuel + nodes.length) front.length =
      findCertsLoop key (pointer beyond (front ++ nodesBytes nodes ++ back))
        (front ++ nodesBytes nodes ++ back).length fuel (front ++ nodesBytes nodes).length := by
  induction nodes generalizing front with
  | nil => simp
  | cons node nodes ih =>
    have hspl : front ++ nodesBytes (node :: nodes) ++ back =
        (front ++ node.bytes) ++ nodesBytes nodes ++ back := by simp
    have hlen : front.length + node.bytes.length ≤
        (front ++ nodesBytes (node :: nodes) ++ back).length := by
      simp only [nodesBytes_cons, List.length_append]
      omega
    have hnode : IsNode (pointer beyond (front ++ nodesBytes (node :: nodes) ++ back)) front.length
        node := by
      have := isNode_pointer beyond front (nodesBytes nodes ++ back) node (by omega)
      simpa using this
    rw [List.length_cons, ← Nat.add_assoc, findCertsLoop_node hnode hlen hsize,
      if_neg (hoth node List.mem_cons_self), hspl]
    rw [hspl] at hsize
    have hrest := ih _ (fun n hn => hoth n (List.mem_cons_of_mem _ hn)) hsize
    rw [← List.length_append, hrest]
    simp

lemma findCertsFromDb_eq (answers : Answers) (key : Key) {nodes : List Node}
    (hsize : (encodeDb nodes).length < 2 ^ 32) :
    findCertsFromDb answers key (encodeDb nodes) =
      findCertsLoop key (pointer answers.beyond (encodeDb nodes)) (encodeDb nodes).length
        ((encodeDb nodes).length + 1) 4 := by
  have hlen := length_encodeDb nodes
  have hword : word (pointer answers.beyond (encodeDb nodes)) 0 4 = (encodeDb nodes).length := by
    have := word_pointer answers.beyond [] (nodesBytes nodes)
      (n := 4 + (nodesBytes nodes).length) (by omega)
    rw [hlen]
    exact this
  unfold findCertsFromDb
  simp only
  rw [if_neg (by omega), hword, u32_of_lt hsize, if_neg (by simp)]

lemma length_le_nodesBytes (nodes : List Node) : nodes.length ≤ (nodesBytes nodes).length := by
  induction nodes with
  | nil => simp
  | cons node nodes ih =>
    have := node.length_bytes
    simp only [List.length_cons, nodesBytes_cons, List.length_append]
    omega

lemma findCertsFromDb_notFound (answers : Answers) {key : Key} {nodes : List Node}
    (hsize : (encodeDb nodes).length < 2 ^ 32) (hoth : ∀ node ∈ nodes, node.key ≠ key) :
    findCertsFromDb answers key (encodeDb nodes) = .ok (.error .notFound) := by
  have hcnt := length_le_nodesBytes nodes
  have hlen := length_encodeDb nodes
  obtain ⟨fuel, hfuel⟩ : ∃ fuel, (encodeDb nodes).length + 1 = fuel + 1 + nodes.length :=
    ⟨(encodeDb nodes).length - nodes.length, by omega⟩
  have hskip := findCertsLoop_skip answers.beyond (le32 (4 + (nodesBytes nodes).length)) []
    (fuel + 1) nodes hoth
    (by simpa [encodeDb] using hsize)
  rw [findCertsFromDb_eq answers key hsize, hfuel]
  simp only [List.append_nil, length_le32] at hskip
  change findCertsLoop key (pointer answers.beyond (encodeDb nodes)) (encodeDb nodes).length
    (fuel + 1 + nodes.length) 4 = _ at hskip
  rw [hskip, findCertsLoop, if_neg]
  simp

lemma findCertsFromDb_found (answers : Answers) {node : Node} {before after : List Node}
    (hsize : (encodeDb (before ++ node :: after)).length < 2 ^ 32)
    (hoth : ∀ n ∈ before, n.key ≠ node.key) :
    findCertsFromDb answers node.key (encodeDb (before ++ node :: after)) =
      .ok (.ok (node.place (4 + (nodesBytes before).length))) := by
  have hcnt := length_le_nodesBytes (before ++ node :: after)
  have hlen := length_encodeDb (before ++ node :: after)
  rw [List.length_append, List.length_cons] at hcnt
  obtain ⟨fuel, hfuel⟩ : ∃ fuel,
      (encodeDb (before ++ node :: after)).length + 1 = fuel + 1 + before.length :=
    ⟨(encodeDb (before ++ node :: after)).length - before.length, by omega⟩
  have hspl : encodeDb (before ++ node :: after) =
      le32 (4 + (nodesBytes (before ++ node :: after)).length) ++ nodesBytes before ++
        (node.bytes ++ nodesBytes after) := by simp [encodeDb]
  have hskip := findCertsLoop_skip answers.beyond
    (le32 (4 + (nodesBytes (before ++ node :: after)).length))
    (node.bytes ++ nodesBytes after) (fuel + 1) before hoth (by rw [← hspl]; exact hsize)
  have hnode := isNode_pointer answers.beyond
    (le32 (4 + (nodesBytes (before ++ node :: after)).length) ++ nodesBytes before)
    (nodesBytes after) node (by simp [hlen] at hsize; omega)
  rw [List.append_assoc _ node.bytes, ← hspl, List.length_append, length_le32] at hnode
  rw [← hspl, length_le32, List.length_append, length_le32] at hskip
  have hend : 4 + (nodesBytes before).length + node.bytes.length ≤
      (encodeDb (before ++ node :: after)).length := by
    simp only [hlen, nodesBytes_append, nodesBytes_cons, List.length_append]
    omega
  rw [findCertsFromDb_eq answers node.key hsize, hfuel, hskip,
    findCertsLoop_node hnode hend hsize, if_pos rfl]

lemma encodeDb_insert (nodes : List Node) (node : Node) :
    le32 ((encodeDb nodes).length + node.bytes.length) ++ (encodeDb nodes).drop 4 ++ node.bytes =
      encodeDb (nodes ++ [node]) := by
  have hdrop : (encodeDb nodes).drop 4 = nodesBytes nodes := by
    unfold encodeDb
    exact List.drop_left' (length_le32 _)
  rw [hdrop, length_encodeDb]
  simp [encodeDb, Nat.add_assoc]

lemma withoutNode_encodeDb (before after : List Node) (node : Node) :
    withoutNode (encodeDb (before ++ node :: after))
        (node.place (4 + (nodesBytes before).length)) = encodeDb (before ++ after) := by
  have hspl : encodeDb (before ++ node :: after) =
      le32 (4 + (nodesBytes (before ++ node :: after)).length) ++ nodesBytes before ++
        (node.bytes ++ nodesBytes after) := by simp [encodeDb]
  have htake : ((encodeDb (before ++ node :: after)).take
      (4 + (nodesBytes before).length)).drop 4 = nodesBytes before := by
    rw [hspl, List.take_left' (by simp), List.drop_left' (length_le32 _)]
  have hdrop : (encodeDb (before ++ node :: after)).drop
      (4 + (nodesBytes before).length + node.bytes.length) = nodesBytes after := by
    rw [hspl, ← List.append_assoc, List.drop_left' (by simp [Nat.add_assoc])]
  have hsize : (encodeDb (before ++ node :: after)).length - node.bytes.length =
      4 + (nodesBytes (before ++ after)).length := by
    rw [length_encodeDb]
    simp only [nodesBytes_append, nodesBytes_cons, List.length_append]
    omega
  unfold withoutNode Node.place
  dsimp only
  rw [htake, hdrop, hsize]
  simp [encodeDb]

end Edk2.Auth
