import Mathlib.Data.List.Perm.Subperm
import Mathlib.Logic.Relation
import Splice.Proofs.Chains
import Splice.Proofs.Floats
import Splice.Proofs.Nesting
import Splice.Value.Equality

/-!
# `Splice.Proofs.Equality` — the laws of equality

Equality looks for the entries of one map in the other and for nothing in the other direction. Since
no map has a key twice, that is enough: two maps of one size, of which one has all the keys of the
other, have the same keys. So equality is symmetric and does not see the order of entries. A value
is equal to itself unless some float in it is no number. Between values that are equal to a third
one, floats are the only trouble: two integers can be equal to one float and not to each other.

## Contents
- `Function.same_comm`, `same_self`, `same_trans`: functions that are one and the same.
- `equal_list_iff`, `equal_map_iff`: when two lists or two maps are equal.
- `exists_mem_of_equal_map`, `equal_symm`, `equal_comm`: equality in the other direction.
- `equal_self_iff`: when a value is equal to itself.
- `equal_trans`: equality through a value without floats.
- `Reorders`, `equal_of_reorders`, `equal_of_reordered`: the entries of maps in another order.
- `equality_laws`: all of this in one place.
-/

namespace Splice

/-! ## Functions -/

namespace Function

variable {f g h : Function}

theorem same_comm (f g : Function) : f.same g = g.same f := by
  cases f <;> cases g <;> simp [same, Bool.beq_comm]

@[simp] theorem same_self (f : Function) : f.same f = true := by
  cases f <;> simp [same]

theorem same_trans (hfg : f.same g = true) (hgh : g.same h = true) : f.same h = true := by
  cases f <;> cases g <;> cases h <;> simp_all [same]

end Function

/-! ## Tables -/

theorem Table.mem_of_lookup_eq_some {α : Type} {table : Table α} {key : String} {a : α}
    (h : table.lookup key = some a) : (key, a) ∈ table := by
  obtain ⟨before, after, rfl, -⟩ := List.lookup_eq_some_iff.1 h
  exact List.mem_append_right _ (List.mem_cons_self ..)

/-- Of two tables of one size, the first without repeated keys, neither has a key that the other
does not have if the second has all keys of the first. -/
theorem Table.keys_subset_of_length {α β : Type} {xs : Table α} {ys : Table β}
    (hxs : xs.keys.Nodup) (hlength : xs.length = ys.length) (h : xs.keys ⊆ ys.keys) :
    ys.keys ⊆ xs.keys := by
  have hkeys : ys.keys.length = xs.keys.length := by
    rw [keys, keys, List.length_map, List.length_map, hlength]
  exact ((List.subperm_of_subset hxs h).perm_of_length_le (Nat.le_of_eq hkeys)).symm.subset

namespace Value

open Decimal (beq_comm beq_trans beq_self_iff)

variable {u v w : Value} {us vs ws : List Value} {xs ys zs : Table Value}

/-! ## Lists and maps -/

theorem equalItems_iff :
    equalItems vs ws = true ↔ List.Forall₂ (fun v w => v.equal w = true) vs ws := by
  induction vs generalizing ws with
  | nil => cases ws <;> simp [equalItems]
  | cons v vs ih => cases ws <;> simp [equalItems, ih]

theorem equalEntries_eq_all (xs ys : Table Value) :
    equalEntries xs ys = xs.all fun entry => (ys.lookup entry.1).any entry.2.equal := by
  induction xs with
  | nil => rfl
  | cons entry xs ih =>
    obtain ⟨key, v⟩ := entry
    rw [equalEntries, ih, List.all_cons]
    cases ys.lookup key <;> rfl

/-- Two lists of one length are equal if they have equal items at every position. -/
theorem equal_list_iff : (list vs).equal (list ws) = true ↔
    vs.length = ws.length ∧
      ∀ i (hv : i < vs.length) (hw : i < ws.length), vs[i].equal ws[i] = true := by
  rw [equal, equalItems_iff, List.forall₂_iff_get]
  rfl

theorem equal_map (xs ys : Table Value) : (map xs).equal (map ys) =
    (xs.length == ys.length &&
      xs.all fun entry => (ys.lookup entry.1).any entry.2.equal) := by
  rw [equal, equalEntries_eq_all]

/-- Two maps of one size are equal if the second has an equal value under every key of the first. -/
theorem equal_map_iff : (map xs).equal (map ys) = true ↔
    xs.length = ys.length ∧
      ∀ entry ∈ xs, ∃ v, ys.lookup entry.1 = some v ∧ entry.2.equal v = true := by
  rw [equal_map, Bool.and_eq_true, beq_iff_eq, List.all_eq_true]
  simp only [Option.any_eq_true]

/-! ## Symmetry -/

/-- The first of two equal maps has an equal value under every key of the second, too. -/
theorem exists_mem_of_equal_map (hxs : xs.keys.Nodup) (hys : ys.keys.Nodup)
    (h : (map xs).equal (map ys) = true) {key : String} (hw : (key, w) ∈ ys) :
    ∃ v, (key, v) ∈ xs ∧ v.equal w = true := by
  obtain ⟨hlength, h⟩ := equal_map_iff.1 h
  have hkeys : xs.keys ⊆ ys.keys := by
    intro key hkey
    obtain ⟨entry, hmem, rfl⟩ := List.mem_map.1 hkey
    obtain ⟨w, hw, -⟩ := h entry hmem
    exact List.mem_map.2 ⟨(entry.1, w), Table.mem_of_lookup_eq_some hw, rfl⟩
  -- the key is one of `xs`, since there are as many of them
  have hkey : key ∈ xs.keys :=
    Table.keys_subset_of_length hxs hlength hkeys (List.mem_map_of_mem hw)
  obtain ⟨⟨key, v⟩, hv, rfl⟩ := List.mem_map.1 hkey
  obtain ⟨w', hw', hequal⟩ := h _ hv
  have hsame : ys.lookup key = some w := (Table.lookup_eq_some_iff_mem hys).2 hw
  obtain rfl : w' = w := Option.some.inj (hw'.symm.trans hsame)
  exact ⟨v, hv, hequal⟩

theorem equal_symm (hv : v.KeysDistinct) (hw : w.KeysDistinct) (h : v.equal w = true) :
    w.equal v = true := by
  induction v using parts_induction generalizing w with
  | h v ih =>
    -- by the clauses of the comparison, the eighth of which is about lists and the ninth about maps
    fun_cases equal v w with
    | case8 vs ws =>
      obtain ⟨hlength, h⟩ := equal_list_iff.1 h
      refine equal_list_iff.2 ⟨hlength.symm, fun i hi hi' => ?_⟩
      have hmem : vs[i] ∈ (list vs).parts := List.getElem_mem hi'
      have hmem' : ws[i] ∈ (list ws).parts := List.getElem_mem hi
      exact ih _ hmem (hv.of_mem_parts hmem) (hw.of_mem_parts hmem') (h i hi' hi)
    | case9 xs ys =>
      refine equal_map_iff.2 ⟨(equal_map_iff.1 h).1.symm, ?_⟩
      rintro ⟨key, w⟩ hmem'
      obtain ⟨v, hmem, hequal⟩ := exists_mem_of_equal_map hv.here hw.here h hmem'
      refine ⟨v, (Table.lookup_eq_some_iff_mem hv.here).2 hmem, ?_⟩
      exact ih v (mem_parts_map hmem) (hv.of_mem_parts (mem_parts_map hmem))
        (hw.of_mem_parts (mem_parts_map hmem')) hequal
    | case4 i y | case5 x j | case6 x y => exact (beq_comm _ _).trans h
    | case10 f g => exact (Function.same_comm _ _).trans h
    | case1 => rfl
    | case14 => simp [equal, *] at h
    | _ => exact BEq.symm h

/-- Equality is symmetric. -/
theorem equal_comm (hv : v.KeysDistinct) (hw : w.KeysDistinct) : v.equal w = w.equal v :=
  Bool.eq_iff_iff.2 ⟨equal_symm hv hw, equal_symm hw hv⟩

/-! ## Reflexivity -/

/-- A value is equal to itself if every float in it is a number, and only then. -/
theorem equal_self_iff (hv : v.KeysDistinct) : v.equal v = true ↔ v.NaNFree := by
  induction v using parts_induction with
  | h v ih =>
    cases v with
    | list vs =>
      have hitem : ∀ w ∈ vs, (w.equal w = true ↔ w.NaNFree) :=
        fun w hw => ih w hw (hv.of_mem_parts hw)
      rw [equal_list_iff, NaNFree, throughout_list]
      constructor
      · rintro ⟨-, h⟩
        refine ⟨trivial, fun w hw => ?_⟩
        obtain ⟨i, hi, rfl⟩ := List.getElem_of_mem hw
        exact (hitem _ hw).1 (h i hi hi)
      · rintro ⟨-, h⟩
        refine ⟨rfl, fun i hi _ => ?_⟩
        exact (hitem _ (List.getElem_mem hi)).2 (h _ (List.getElem_mem hi))
    | map xs =>
      have hentry : ∀ entry ∈ xs, xs.lookup entry.1 = some entry.2 :=
        fun _ hmem => (Table.lookup_eq_some_iff_mem hv.here).2 hmem
      rw [equal_map_iff, NaNFree, throughout_map]
      refine and_congr (iff_of_true rfl trivial) (forall₂_congr fun entry hmem => ?_)
      rw [hentry entry hmem, ← NaNFree, ← ih entry.2 (mem_parts_map hmem)
        (hv.of_mem_parts (mem_parts_map hmem))]
      simp
    | float x =>
      rw [equal, beq_self_iff, NaNFree, throughout_leaf rfl]
    | _ => exact iff_of_true (by simp [equal]) ((throughout_leaf rfl).2 trivial)

/-! ## Transitivity -/

/-- Two values are equal if both are equal to a third one that holds no floats. -/
theorem equal_trans (hv : v.FloatFree) (huv : u.equal v = true) (hvw : v.equal w = true) :
    u.equal w = true := by
  induction u using parts_induction generalizing v w with
  | h u ih =>
    fun_cases equal u v with
    | case8 us vs =>
      cases w with
      | list ws =>
        obtain ⟨hlength, huv⟩ := equal_list_iff.1 huv
        obtain ⟨hlength', hvw⟩ := equal_list_iff.1 hvw
        refine equal_list_iff.2 ⟨hlength.trans hlength', fun i hu hw => ?_⟩
        have hi : i < vs.length := hlength ▸ hu
        exact ih us[i] (List.getElem_mem hu) (hv.of_mem_parts (List.getElem_mem hi))
          (huv i hu hi) (hvw i hi hw)
      | _ => cases hvw
    | case9 xs ys =>
      cases w with
      | map zs =>
        obtain ⟨hlength, huv⟩ := equal_map_iff.1 huv
        obtain ⟨hlength', hvw⟩ := equal_map_iff.1 hvw
        refine equal_map_iff.2 ⟨hlength.trans hlength', fun entry hmem => ?_⟩
        obtain ⟨v, hlookup, huv⟩ := huv entry hmem
        obtain ⟨w, hlookup', hvw⟩ := hvw _ (Table.mem_of_lookup_eq_some hlookup)
        exact ⟨w, hlookup', ih entry.2 (mem_parts_map hmem) (hv.of_lookup hlookup) huv hvw⟩
      | _ => cases hvw
    | case4 i y | case6 x y => exact hv.here.elim
    | case5 x j =>
      cases w with
      | integer k =>
        obtain rfl : j = k := eq_of_beq hvw
        exact huv
      | float z => exact beq_trans huv hvw
      | _ => cases hvw
    | case10 f g =>
      cases w with
      | function h => exact Function.same_trans huv hvw
      | _ => cases hvw
    | case1 => exact hvw
    | case14 => simp [equal, *] at huv
    | case2 | case3 | case7 | case11 | case12 | case13 =>
      obtain rfl := eq_of_beq huv
      cases w <;> exact hvw

/-! ## The order of entries -/

/-- Somewhere in the value, be it in the fields of a class or an instance, the entries of one map
are put in another order. -/
inductive Reorders : Value → Value → Prop
  | here {xs ys : List (String × Value)} (h : xs.Perm ys) : Reorders (map xs) (map ys)
  | item {v w : Value} (before after : List Value) (h : Reorders v w) :
      Reorders (list (before ++ v :: after)) (list (before ++ w :: after))
  | entry {v w : Value} (before after : List (String × Value)) (key : String) (h : Reorders v w) :
      Reorders (map (before ++ (key, v) :: after)) (map (before ++ (key, w) :: after))
  | classField {v w : Value} (identity : Nat) (name : String)
      (before after : List (String × Value)) (key : String)
      (methods : List (String × Function)) (h : Reorders v w) :
      Reorders (ofClass identity name (before ++ (key, v) :: after) methods)
        (ofClass identity name (before ++ (key, w) :: after) methods)
  | objectField {v w : Value} (identity : Nat) (className : String)
      (before after : List (String × Value)) (key : String)
      (methods : List (String × Function)) (h : Reorders v w) :
      Reorders (object identity className (before ++ (key, v) :: after) methods)
        (object identity className (before ++ (key, w) :: after) methods)

/-- Keys stay distinct in another order. -/
theorem KeysDistinct.of_reorders (hv : v.KeysDistinct) (h : Reorders v w) : w.KeysDistinct := by
  induction h with
  | here hperm =>
    obtain ⟨hkeys, hentries⟩ := throughout_map.1 hv
    refine throughout_map.2 ⟨(hperm.map Prod.fst).nodup_iff.1 hkeys, fun entry hmem => ?_⟩
    exact hentries entry (hperm.mem_iff.2 hmem)
  | item before after h ih =>
    obtain ⟨-, hitems⟩ := throughout_list.1 hv
    refine throughout_list.2 ⟨trivial, ?_⟩
    rw [List.forall_mem_append, List.forall_mem_cons] at hitems ⊢
    exact ⟨hitems.1, ih hitems.2.1, hitems.2.2⟩
  | entry before after key h ih =>
    obtain ⟨hkeys, hentries⟩ := throughout_map.1 hv
    refine throughout_map.2 ⟨by simpa [Table.keys] using hkeys, ?_⟩
    rw [List.forall_mem_append, List.forall_mem_cons] at hentries ⊢
    exact ⟨hentries.1, ih hentries.2.1, hentries.2.2⟩
  | classField | objectField => exact (throughout_leaf rfl).2 trivial

/-- The order of entries on the left makes no difference, whatever the keys are. -/
theorem equal_of_reorders (h : Reorders v w) (u : Value) : w.equal u = v.equal u := by
  induction h generalizing u with
  | @here xs ys hperm =>
    cases u with
    | map zs => rw [equal_map, equal_map, hperm.length_eq, hperm.all_eq]
    | _ => rfl
  | item before after h ih =>
    cases u with
    | list us =>
      rw [equal, equal]
      induction before generalizing us with
      | nil =>
        cases us with
        | nil => rfl
        | cons u us => simp only [List.nil_append, equalItems, ih]
      | cons first before ihb =>
        cases us with
        | nil => rfl
        | cons u us => simp only [List.cons_append, equalItems, ihb]
    | _ => rfl
  | entry before after key h ih =>
    cases u with
    | map zs => simp [equal_map, funext ih]
    | _ => rfl
  | classField | objectField => cases u <;> rfl

open Relation (ReflTransGen)

variable {v' w' : Value}

theorem KeysDistinct.of_reordered (hv : v.KeysDistinct) (h : ReflTransGen Reorders v w) :
    w.KeysDistinct := by
  induction h with
  | refl => exact hv
  | tail _ hstep ih => exact ih.of_reorders hstep

theorem equal_of_reordered_left (h : ReflTransGen Reorders v v') (w : Value) :
    v'.equal w = v.equal w := by
  induction h with
  | refl => rfl
  | tail _ hstep ih => exact (equal_of_reorders hstep w).trans ih

/-- Any number of maps in other orders, on both sides, make no difference. -/
theorem equal_of_reordered (hv : v.KeysDistinct) (hw : w.KeysDistinct)
    (hvs : ReflTransGen Reorders v v') (hws : ReflTransGen Reorders w w') :
    v'.equal w' = v.equal w := by
  have hw' : w'.KeysDistinct := hw.of_reordered hws
  calc v'.equal w' = v.equal w' := equal_of_reordered_left hvs w'
    _ = w'.equal v := equal_comm hv hw'
    _ = w.equal v := equal_of_reordered_left hws v
    _ = v.equal w := equal_comm hw hv

/-! ## The laws -/

/-- **Equality is well behaved on nested values.** It is symmetric and does not see the order in
which maps have their entries, a value is equal to itself if and only if every float in it is a
number, and two values that are equal to one without floats are equal to each other. -/
theorem equality_laws :
    (∀ v w : Value, v.KeysDistinct → w.KeysDistinct → v.equal w = w.equal v) ∧
      (∀ v v' w w' : Value, v.KeysDistinct → w.KeysDistinct → ReflTransGen Reorders v v' →
        ReflTransGen Reorders w w' → v'.equal w' = v.equal w) ∧
      (∀ v : Value, v.KeysDistinct → (v.equal v = true ↔ v.NaNFree)) ∧
      (∀ u v w : Value, v.FloatFree → u.equal v = true → v.equal w = true → u.equal w = true) := by
  refine ⟨fun v w hv hw => equal_comm hv hw, ?_, fun v hv => equal_self_iff hv, ?_⟩
  · exact fun v v' w w' hv hw hvs hws => equal_of_reordered hv hw hvs hws
  · exact fun u v w hv huv hvw => equal_trans hv huv hvw

/-- A list with one map in it. -/
def pricedItem : Value := list [map [("count", integer 1), ("price", float (Decimal.ofInt 2))]]

/-- The same with its entries in the other order. -/
def itemPriced : Value := list [map [("price", float (Decimal.ofInt 2)), ("count", integer 1)]]

/-- The same with an integer for the float. -/
def wholePriced : Value := list [map [("price", integer 2), ("count", integer 1)]]

/-- The laws at three lists with a map in each. -/
theorem equality_laws_pricedItem :
    pricedItem.equal wholePriced = wholePriced.equal pricedItem ∧
      itemPriced.equal wholePriced = pricedItem.equal wholePriced ∧
      pricedItem.equal pricedItem = true ∧
      pricedItem.equal itemPriced = true := by
  have hnumber : (Decimal.ofInt 2).isNaN = false := Decimal.isNaN_ofInt 2
  have hpriced : pricedItem.KeysDistinct ∧ pricedItem.NaNFree := by
    simpa [pricedItem, KeysDistinct, NaNFree, Table.keys] using hnumber
  have hwhole : wholePriced.KeysDistinct ∧ wholePriced.FloatFree := by
    simp [wholePriced, KeysDistinct, FloatFree, Table.keys]
  have hreorder : Reorders pricedItem itemPriced := .item [] [] (.here (.swap ..))
  have htwo : (Decimal.ofInt 2 == Decimal.ofInt 2) = true := beq_self_iff.2 hnumber
  have hequal : pricedItem.equal wholePriced = true ∧ wholePriced.equal itemPriced = true := by
    simp [pricedItem, wholePriced, itemPriced, equal, equalItems, equalEntries, List.lookup_cons,
      htwo]
  obtain ⟨hcomm, horder, hself, htrans⟩ := equality_laws
  refine ⟨hcomm _ _ hpriced.1 hwhole.1, ?_, (hself _ hpriced.1).2 hpriced.2, ?_⟩
  · exact horder _ _ _ _ hpriced.1 hwhole.1 (.single hreorder) .refl
  · exact htrans _ _ _ hwhole.2 hequal.1 hequal.2

end Value

end Splice
