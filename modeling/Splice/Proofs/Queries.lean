import Splice.Proofs.Cutting
import Splice.Query

/-!
# `Splice.Proofs.Queries` — what a query string says

A query string is read by cutting it up: at the ampersands into pairs, a pair at its first equals
sign into a key and a text, and the key at its brackets into the keys of nested maps. If no key
holds one of these marks, and no text an ampersand, then this gives back the leaves of the map: the
values in it that are neither maps nor lists, with the keys on the way to them, in the order of the
map. Only a map without leaves has no pairs, and its query string is empty.

## Contents
- `Leaf`, `leavesOf`, `leaves`: the values of a map that are neither maps nor lists.
- `keyOf`, `Leaf.write`: the pair of a leaf; `encode_eq` says that the pairs of its leaves make up
  the query string of a map.
- `decodeKey`, `decodePair`, `decode`: cutting a query string up.
- `Leaf.Plain`, `decodeKey_keyOf`, `decodePair_write`: the pair of a leaf gives back the leaf.
- `decode_encode`: the query string of a map gives back its leaves.
-/

namespace Splice.Query

/-! ## Leaves -/

/-- A value that is neither a map nor a list: the keys on the way to it, of which there is at least
one, and what is written for it. -/
structure Leaf where
  /-- The key in the outermost map. -/
  key : String
  /-- The keys in the maps within it, the outer ones first. -/
  inner : List String
  text : String
  deriving DecidableEq, Repr

/-- The keys on the way to a leaf. -/
def Leaf.path (leaf : Leaf) : List String := leaf.key :: leaf.inner

/-- What is written for a leaf: nothing for null, and any other value as it is displayed. -/
def leafText : Value → String
  | .null => ""
  | value => value.display

mutual

/-- The leaves of a value with these keys on the way to it, from left to right. -/
def leavesOf (key : String) (inner : List String) : Value → List Leaf
  | .map entries => leavesUnder key inner entries
  | .list items => leavesEach key inner items
  | value => [{ key, inner, text := leafText value }]

/-- The leaves of the values of a map, each of which has one more key. -/
def leavesUnder (key : String) (inner : List String) : List (String × Value) → List Leaf
  | [] => []
  | (child, value) :: entries =>
    leavesOf key (inner ++ [child]) value ++ leavesUnder key inner entries

/-- The leaves of the values of a list, which have the keys of the list. -/
def leavesEach (key : String) (inner : List String) : List Value → List Leaf
  | [] => []
  | value :: values => leavesOf key inner value ++ leavesEach key inner values

end

/-- The leaves of a map. -/
def leaves (entries : Table Value) : List Leaf :=
  entries.flatMap fun (key, value) => leavesOf key [] value

/-! ## The pairs of leaves -/

/-- A key with the keys of nested maps in brackets behind it. -/
def keyOf (key : String) (inner : List String) : String :=
  key ++ String.join (inner.map fun child => "[" ++ child ++ "]")

/-- The pair of a leaf. -/
def Leaf.write (leaf : Leaf) : String := keyOf leaf.key leaf.inner ++ "=" ++ leaf.text

variable {leaf : Leaf} {key : String} {inner : List String}

theorem keyOf_nil (key : String) : keyOf key [] = key := by
  simp [keyOf]

theorem keyOf_concat (key : String) (inner : List String) (child : String) :
    keyOf key (inner ++ [child]) = keyOf key inner ++ "[" ++ child ++ "]" := by
  simp [keyOf, String.append_assoc]

mutual

/-- The pairs of a value are those of its leaves. -/
theorem pairs_eq (key : String) (inner : List String) (value : Value) :
    pairs (keyOf key inner) value = (leavesOf key inner value).map Leaf.write := by
  match value with
  | .map entries => exact pairsUnder_eq key inner entries
  | .list items => exact pairsEach_eq key inner items
  | .null =>
    show [keyOf key inner ++ "="] = [keyOf key inner ++ "=" ++ ""]
    rw [String.append_empty]
  | .boolean _ | .integer _ | .float _ | .text _ | .function _ | .ofClass .. | .object ..
  | .deferred .. => rfl

theorem pairsUnder_eq (key : String) (inner : List String) (entries : List (String × Value)) :
    pairsUnder (keyOf key inner) entries = (leavesUnder key inner entries).map Leaf.write := by
  match entries with
  | [] => rfl
  | (child, value) :: entries =>
    rw [pairsUnder, leavesUnder, ← keyOf_concat, pairs_eq key (inner ++ [child]) value,
      pairsUnder_eq key inner entries, List.map_append]

theorem pairsEach_eq (key : String) (inner : List String) (items : List Value) :
    pairsEach (keyOf key inner) items = (leavesEach key inner items).map Leaf.write := by
  match items with
  | [] => rfl
  | value :: values =>
    rw [pairsEach, leavesEach, pairs_eq key inner value, pairsEach_eq key inner values,
      List.map_append]

end

/-- A query string is made of the pairs of the leaves. -/
theorem encode_eq (entries : Table Value) :
    encode entries = "&".intercalate ((leaves entries).map Leaf.write) := by
  have hpairs : (entries.flatMap fun (key, value) => pairs key value) =
      (leaves entries).map Leaf.write := by
    unfold leaves
    rw [List.map_flatMap]
    congr 1
    funext ⟨key, value⟩
    have hpair := pairs_eq key [] value
    rwa [keyOf_nil] at hpair
  rw [encode, hpairs]

/-! ## Cutting up -/

/-- The keys in the key of a pair: what stands in front of the first bracket, and what stands in
brackets behind it. -/
def decodeKey (cs : List Char) : String × List String :=
  match cs.splitOn '[' with
  | [] => ("", [])
  | first :: inner =>
    (String.ofList first, inner.map fun piece => String.ofList (piece.takeWhile (· != ']')))

/-- The leaf of a pair, which is cut at its first equals sign. -/
def decodePair (cs : List Char) : Leaf :=
  let (key, inner) := decodeKey (cs.takeWhile (· != '='))
  { key, inner, text := String.ofList ((cs.dropWhile (· != '=')).drop 1) }

/-- The leaves of a query string, which is cut at its ampersands. -/
def decode (text : String) : List Leaf := (text.toList.splitOn '&').map decodePair

/-- No mark stands in a key, and no ampersand in the text. -/
structure Leaf.Plain (leaf : Leaf) : Prop where
  path : ∀ key ∈ leaf.path, ∀ mark ∈ ['&', '=', '[', ']'], mark ∉ key.toList
  text : '&' ∉ leaf.text.toList

theorem intercalate_cons (mark : Char) (first : List Char) (pieces : List (List Char)) :
    [mark].intercalate (first :: pieces) = first ++ pieces.flatMap (mark :: ·) := by
  induction pieces generalizing first with
  | nil => simp
  | cons piece pieces ih =>
    rw [List.intercalate_cons_cons, ih piece]
    simp

/-- A key falls into its parts where a bracket opens. -/
theorem toList_keyOf (key : String) (inner : List String) :
    (keyOf key inner).toList =
      ['['].intercalate (key.toList :: inner.map fun child => child.toList ++ [']']) := by
  rw [intercalate_cons, keyOf, String.toList_append]
  simp [List.flatMap_def, Function.comp_def]

/-- Keys without brackets are found again. -/
theorem decodeKey_keyOf (h : ∀ name ∈ key :: inner, '[' ∉ name.toList ∧ ']' ∉ name.toList) :
    decodeKey (keyOf key inner).toList = (key, inner) := by
  have hpieces : ∀ piece ∈ key.toList :: inner.map (fun child => child.toList ++ [']']),
      '[' ∉ piece := by
    intro piece hpiece
    rcases List.mem_cons.1 hpiece with rfl | hpiece
    · exact (h key (List.mem_cons_self ..)).1
    · obtain ⟨child, hchild, rfl⟩ := List.mem_map.1 hpiece
      have hopen : '[' ∉ child.toList := (h child (List.mem_cons_of_mem _ hchild)).1
      simp [hopen]
  have hsplit : (keyOf key inner).toList.splitOn '[' =
      key.toList :: inner.map fun child => child.toList ++ [']'] := by
    rw [toList_keyOf]
    exact List.splitOn_intercalate '[' hpieces (List.cons_ne_nil _ _)
  have hinner : ∀ child ∈ inner,
      String.ofList ((child.toList ++ [']']).takeWhile (· != ']')) = child := by
    intro child hchild
    have hclose : ']' ∉ child.toList := (h child (List.mem_cons_of_mem _ hchild)).2
    rw [(span_mark hclose []).1, String.ofList_toList]
  unfold decodeKey
  rw [hsplit]
  dsimp only
  rw [String.ofList_toList, List.map_map]
  congr 1
  calc inner.map _ = inner.map id := List.map_congr_left hinner
    _ = inner := List.map_id inner

/-- The mark stands in none of the keys of a leaf. -/
theorem mark_notMem_keyOf {mark : Char} (h : ∀ name ∈ key :: inner, mark ∉ name.toList)
    (hmark : mark ≠ '[' ∧ mark ≠ ']') : mark ∉ (keyOf key inner).toList := by
  rw [toList_keyOf, intercalate_cons]
  intro hmem
  rcases List.mem_append.1 hmem with hmem | hmem
  · exact h key (List.mem_cons_self ..) hmem
  · obtain ⟨piece, hpiece, hmem⟩ := List.mem_flatMap.1 hmem
    obtain ⟨child, hchild, rfl⟩ := List.mem_map.1 hpiece
    have hnot : mark ∉ child.toList := h child (List.mem_cons_of_mem _ hchild)
    simp [hnot, hmark] at hmem

/-- The pair of a leaf gives back the leaf. -/
theorem decodePair_write (h : leaf.Plain) : decodePair leaf.write.toList = leaf := by
  obtain ⟨key, inner, text⟩ := leaf
  have hkey : '=' ∉ (keyOf key inner).toList := by
    apply mark_notMem_keyOf _ (by decide)
    intro name hname
    exact h.path name hname '=' (by simp)
  have hwrite : (Leaf.write ⟨key, inner, text⟩).toList =
      (keyOf key inner).toList ++ '=' :: text.toList := by
    simp [Leaf.write]
  obtain ⟨htake, hdrop⟩ := span_mark hkey text.toList
  have hdecode : decodeKey (keyOf key inner).toList = (key, inner) := by
    apply decodeKey_keyOf
    intro name hname
    exact ⟨h.path name hname '[' (by simp), h.path name hname ']' (by simp)⟩
  unfold decodePair
  rw [hwrite, htake, hdrop, hdecode]
  simp

/-- No ampersand stands in the pair of a leaf. -/
theorem ampersand_notMem_write (h : leaf.Plain) : '&' ∉ leaf.write.toList := by
  have hkey : '&' ∉ (keyOf leaf.key leaf.inner).toList := by
    apply mark_notMem_keyOf _ (by decide)
    intro name hname
    exact h.path name hname '&' (by simp)
  have htext := h.text
  simp [Leaf.write, hkey, htext]

/-- **The query string of a map gives back its leaves,** if no mark stands in the keys on the way to
them, and no ampersand in what is written for them. The query string of a map without leaves is
empty. -/
theorem decode_encode {entries : Table Value} (h : ∀ leaf ∈ leaves entries, leaf.Plain) :
    (leaves entries = [] → encode entries = "") ∧
    (leaves entries ≠ [] → decode (encode entries) = leaves entries) := by
  rw [encode_eq]
  refine ⟨?_, ?_⟩
  · intro hnil
    rw [hnil]
    rfl
  · intro hne
    have htext : ("&".intercalate ((leaves entries).map Leaf.write)).toList =
        ['&'].intercalate ((leaves entries).map fun leaf => leaf.write.toList) := by
      rw [String.toList_intercalate, List.map_map]
      rfl
    have hpieces : ∀ piece ∈ (leaves entries).map (fun leaf => leaf.write.toList),
        '&' ∉ piece := by
      intro piece hpiece
      obtain ⟨leaf, hleaf, rfl⟩ := List.mem_map.1 hpiece
      exact ampersand_notMem_write (h leaf hleaf)
    have hmap : (leaves entries).map (fun leaf => leaf.write.toList) ≠ [] := by
      simpa using hne
    unfold decode
    rw [htext, List.splitOn_intercalate '&' hpieces hmap, List.map_map]
    calc (leaves entries).map _ = (leaves entries).map id :=
          List.map_congr_left fun leaf hleaf => decodePair_write (h leaf hleaf)
      _ = leaves entries := List.map_id _

/-- A map with an empty key, a list of maps and lists, and nothing at all under some keys. -/
def payload : Table Value :=
  [("page", .null), ("", .map [("", .text "x=[y]")]), ("none", .map []),
    ("key", .list [.map [("c", .boolean true)], .list [.text "", .boolean false], .map []])]

theorem decode_encode_payload :
    let expected : List Leaf :=
      [⟨"page", [], ""⟩, ⟨"", [""], "x=[y]"⟩, ⟨"key", ["c"], "true"⟩, ⟨"key", [], ""⟩,
        ⟨"key", [], "false"⟩]
    (∀ leaf ∈ leaves payload, leaf.Plain) ∧ leaves payload = expected ∧
      decode (encode payload) = expected := by
  intro expected
  have hleaves : leaves payload = expected := rfl
  have hplain : ∀ leaf ∈ leaves payload, leaf.Plain := by
    rw [hleaves]
    intro leaf hleaf
    simp only [expected, List.mem_cons, List.not_mem_nil, or_false] at hleaf
    rcases hleaf with rfl | rfl | rfl | rfl | rfl <;> exact ⟨by simp [Leaf.path], by decide⟩
  have hne : leaves payload ≠ [] := by
    rw [hleaves]
    exact List.cons_ne_nil _ _
  refine ⟨hplain, hleaves, ?_⟩
  rw [← hleaves]
  exact (decode_encode hplain).2 hne

end Splice.Query
