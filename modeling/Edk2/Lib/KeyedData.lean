import Mathlib.Algebra.BigOperators.Group.List.Basic
import Mathlib.Algebra.Order.Group.Nat
import Mathlib.Algebra.Ring.Int.Defs
import Mathlib.Algebra.Ring.Nat
import Mathlib.Data.List.Nodup

/-!
# Data collected by keys

Items carry a key and some data. Collected, the data of each key forms one segment, in the order of
the items, and the segments follow each other in the order of the keys. While items come in one by
one, each segment is filled from its front: the data of the next item goes where the segment starts
plus what the key has so far.
-/

namespace KeyedData

variable {κ β : Type*} [DecidableEq κ] {items done : List (κ × List β)} {keys pre post : List κ}
  {k : κ} {data : List β} {filler : β} {len : κ → ℕ}

/-- The data of a key. -/
def dataOf (items : List (κ × List β)) (k : κ) : List β :=
  (items.filter fun item => item.1 = k).flatMap Prod.snd

/-- Where the segment of a key starts. -/
def startOf (len : κ → ℕ) (keys : List κ) (k : κ) : ℕ :=
  ((keys.takeWhile fun k' => k' ≠ k).map len).sum

/-- The segments, filled up with what is not there yet. -/
def layout (len : κ → ℕ) (filler : β) (keys : List κ) (items : List (κ × List β)) : List β :=
  keys.flatMap fun k => dataOf items k ++ List.replicate (len k - (dataOf items k).length) filler

lemma dataOf_cons (item : κ × List β) :
    dataOf (item :: items) k = (if item.1 = k then item.2 else []) ++ dataOf items k := by
  grind [dataOf]

lemma dataOf_append (items items' : List (κ × List β)) :
    dataOf (items ++ items') k = dataOf items k ++ dataOf items' k := by
  unfold dataOf
  rw [List.filter_append, List.flatMap_append]

lemma dataOf_snoc (item : κ × List β) :
    dataOf (done ++ [item]) k = dataOf done k ++ if item.1 = k then item.2 else [] := by
  rw [dataOf_append, dataOf_cons]
  exact congrArg _ (List.append_nil _)

lemma dataOf_snoc_self : dataOf (done ++ [(k, data)]) k = dataOf done k ++ data := by
  rw [dataOf_snoc, if_pos rfl]

lemma dataOf_snoc_of_ne {k' : κ} (h : k' ≠ k) :
    dataOf (done ++ [(k', data)]) k = dataOf done k := by
  rw [dataOf_snoc, if_neg h, List.append_nil]

/-- A key that no item carries has no data. -/
lemma dataOf_eq_nil (h : ∀ item ∈ items, item.1 = k → item.2 = []) : dataOf items k = [] := by
  grind [List.flatMap_eq_nil_iff, dataOf]

omit [DecidableEq κ] in
/-- The keys before and behind a key. -/
lemma split_keys (hnod : keys.Nodup) (hk : k ∈ keys) :
    ∃ pre post, keys = pre ++ k :: post ∧ k ∉ pre ∧ k ∉ post := by
  obtain ⟨pre, post, rfl⟩ := List.append_of_mem hk
  grind

/-- A value that only one key has. -/
lemma sum_single (hnod : keys.Nodup) (hk : k ∈ keys) (n : ℕ) :
    (keys.map fun k' => if k = k' then n else 0).sum = n := by
  obtain ⟨pre, post, rfl, hne⟩ := split_keys hnod hk
  have hzero : ∀ keys : List κ, k ∉ keys →
      (keys.map fun k' => if k = k' then n else 0).sum = 0 := by
    intro keys hkeys
    refine List.sum_eq_zero fun m hm => ?_
    obtain ⟨k', hk', rfl⟩ := List.mem_map.mp hm
    refine if_neg ?_
    rintro rfl
    exact hkeys hk'
  grind

/-- All the data lies in the segments. -/
lemma sum_dataOf (hnod : keys.Nodup) (hkeys : ∀ item ∈ items, item.1 ∈ keys) :
    (keys.map fun k => (dataOf items k).length).sum = (items.flatMap Prod.snd).length := by
  induction items with
  | nil => simp [dataOf]
  | cons item items ih =>
    rw [List.forall_mem_cons] at hkeys
    have hlen : ∀ k, (dataOf (item :: items) k).length =
        (if item.1 = k then item.2.length else 0) + (dataOf items k).length := by
      intro k
      rw [dataOf_cons, List.length_append]
      split_ifs <;> rfl
    simp only [hlen]
    rw [List.sum_map_add, sum_single hnod hkeys.1, ih hkeys.2, List.flatMap_cons,
      List.length_append]

lemma takeWhile_ne (h : k ∉ pre) : (pre ++ k :: post).takeWhile (fun k' => k' ≠ k) = pre := by
  grind [List.takeWhile_append_of_pos, List.takeWhile_cons_of_neg]

lemma startOf_split (h : k ∉ pre) : startOf len (pre ++ k :: post) k = (pre.map len).sum := by
  unfold startOf
  rw [takeWhile_ne h]

lemma startOf_cons {k' : κ} :
    startOf len (k :: keys) k' = if k = k' then 0 else len k + startOf len keys k' := by
  grind [List.takeWhile_cons_of_neg, List.takeWhile_cons_of_pos, startOf]

/-- Lengths that are only known modulo some number. -/
lemma startOf_mod (m : ℕ) : startOf (fun k => len k % m) keys k % m = startOf len keys k % m := by
  induction keys with
  | nil => rfl
  | cons k' keys ih =>
    rw [startOf_cons, startOf_cons]
    split_ifs
    · rfl
    · rw [Nat.add_mod, Nat.mod_mod, ih, ← Nat.add_mod]

/-- Every place in front of the end lies in some segment. -/
lemma exists_segment {n : ℕ} (hnod : keys.Nodup) (h : n < (keys.map len).sum) :
    ∃ k ∈ keys, startOf len keys k ≤ n ∧ n < startOf len keys k + len k := by
  induction keys generalizing n with
  | nil => exact absurd h (Nat.not_lt_zero n)
  | cons k keys ih =>
    rw [List.map_cons, List.sum_cons] at h
    rw [List.nodup_cons] at hnod
    rcases Nat.lt_or_ge n (len k) with hlt | hge
    · grind [startOf_cons]
    · obtain ⟨k', hk', hle, hlt⟩ := ih hnod.2 (show n - len k < _ by omega)
      grind [startOf_cons]

lemma layout_append (pre post : List κ) :
    layout len filler (pre ++ post) items = layout len filler pre items ++
      layout len filler post items :=
  List.flatMap_append

lemma length_layout (hfits : ∀ k ∈ keys, (dataOf items k).length ≤ len k) :
    (layout len filler keys items).length = (keys.map len).sum := by
  induction keys with
  | nil => rfl
  | cons k keys ih =>
    rw [List.forall_mem_cons] at hfits
    have hseg : (dataOf items k ++
        List.replicate (len k - (dataOf items k).length) filler).length = len k := by
      rw [List.length_append, List.length_replicate, Nat.add_sub_of_le hfits.1]
    rw [List.map_cons, List.sum_cons, ← ih hfits.2, ← hseg, ← List.length_append]
    rfl

/-- Without items there is only filler. -/
lemma layout_nil : layout len filler keys [] = List.replicate (keys.map len).sum filler := by
  induction keys with
  | nil => rfl
  | cons k keys ih =>
    rw [List.map_cons, List.sum_cons, List.replicate_add, ← ih]
    rfl

/-- An item without data changes nothing. -/
lemma layout_snoc_nil :
    layout len filler keys (done ++ [(k, [])]) = layout len filler keys done := by
  grind [dataOf_snoc, layout]

/-- Data of other keys leaves segments alone. -/
lemma layout_snoc_of_notMem (h : k ∉ keys) :
    layout len filler keys (done ++ [(k, data)]) = layout len filler keys done := by
  refine List.flatMap_congr fun k' hk' => ?_
  rw [dataOf_snoc_of_ne]
  rintro rfl
  exact h hk'

lemma layout_cons : layout len filler (k :: keys) items =
    dataOf items k ++ (List.replicate (len k - (dataOf items k).length) filler ++
      layout len filler keys items) :=
  List.append_assoc _ _ _

/-- Writing over the front of a filler. -/
lemma write_filler {front segment back : List β} {n : ℕ} (h : data.length ≤ n) :
    (front ++ (segment ++ (List.replicate n filler ++ back))).take
          (front.length + segment.length) ++ data ++
        (front ++ (segment ++ (List.replicate n filler ++ back))).drop
          (front.length + segment.length + data.length) =
      front ++ (segment ++ data ++ (List.replicate (n - data.length) filler ++ back)) := by
  have hdrop : (List.replicate n filler ++ back).drop data.length =
      List.replicate (n - data.length) filler ++ back := by
    rw [List.drop_append_of_le_length (by simpa using h), List.drop_replicate]
  rw [← List.append_assoc front, ← List.length_append, List.take_left, ← List.drop_drop,
    List.drop_left, hdrop, List.append_assoc, List.append_assoc, List.append_assoc]

/-- The next data of a key fills up its segment. -/
lemma layout_snoc (hnod : keys.Nodup) (hk : k ∈ keys)
    (hfits : ∀ k ∈ keys, (dataOf done k).length ≤ len k)
    (hroom : (dataOf done k).length + data.length ≤ len k) :
    startOf len keys k + (dataOf done k).length + data.length ≤
        (layout len filler keys done).length ∧
      layout len filler keys (done ++ [(k, data)]) =
        (layout len filler keys done).take (startOf len keys k + (dataOf done k).length) ++ data ++
          (layout len filler keys done).drop
            (startOf len keys k + (dataOf done k).length + data.length) := by
  obtain ⟨pre, post, rfl, hpre, hpost⟩ := split_keys hnod hk
  have hsta : startOf len (pre ++ k :: post) k = (layout len filler pre done).length := by
    rw [startOf_split hpre, length_layout fun k hk => hfits k (List.mem_append_left _ hk)]
  have hlen : (dataOf (done ++ [(k, data)]) k).length = (dataOf done k).length + data.length := by
    rw [dataOf_snoc_self, List.length_append]
  rw [layout_append, layout_append, layout_cons, layout_cons, layout_snoc_of_notMem hpre,
    layout_snoc_of_notMem hpost, hlen, dataOf_snoc_self, hsta, write_filler (by omega),
    Nat.sub_sub]
  simp [List.length_append, List.length_replicate]
  omega

/-- In the end the segments are full. -/
lemma window_layout (hnod : keys.Nodup) (hk : k ∈ keys)
    (hlen : ∀ k ∈ keys, len k = (dataOf items k).length) :
    ((layout len filler keys items).drop (startOf len keys k)).take (len k) = dataOf items k := by
  obtain ⟨pre, post, rfl, hpre, -⟩ := split_keys hnod hk
  have hsta : startOf len (pre ++ k :: post) k = (layout len filler pre items).length := by
    rw [startOf_split hpre, length_layout fun k hk => (hlen k (List.mem_append_left _ hk)).ge]
  rw [layout_append, layout_cons, hsta, List.drop_left, hlen k hk, List.take_left]

end KeyedData
