import Splice.Proofs.Contents

/-!
# `Splice.Proofs.Nesting` — values inside of values

Lists and maps hold other values, and those may hold others again. What holds of a value and of all
that is nested in it holds throughout the value. The fields of classes and instances are not looked
into.

## Contents
- `Value.parts`, `Value.parts_induction`: the items of a list and the values in a map; induction
  over them.
- `Value.Throughout`: something holds of a value and of all that is nested in it.
- `Value.KeysDistinct`, `Value.NaNFree`, `Value.FloatFree`, `Value.InstanceFree`: the values whose
  maps have no key twice, and those without certain values in them.
-/

namespace Splice.Value

variable {p : Value → Prop} {v w : Value} {items : List Value} {entries : Table Value}
  {key : String}

/-! ## The parts of a value -/

/-- The items of a list, and the values in a map. -/
def parts : Value → List Value
  | list items => items
  | map entries => entries.map Prod.snd
  | _ => []

theorem sizeOf_lt_of_mem_parts (h : w ∈ v.parts) : sizeOf w < sizeOf v := by
  cases v with
  | list items =>
    have hlt : sizeOf w < sizeOf items := List.sizeOf_lt_of_mem h
    simp only [list.sizeOf_spec]
    omega
  | map entries =>
    obtain ⟨entry, hmem, rfl⟩ := List.mem_map.1 h
    have hlt := List.sizeOf_lt_of_mem hmem
    have hsnd : sizeOf entry.2 < sizeOf entry := by
      obtain ⟨key, w⟩ := entry
      simp only [Prod.mk.sizeOf_spec]
      omega
    simp only [map.sizeOf_spec]
    omega
  | _ => exact absurd h List.not_mem_nil

/-- What holds of a value if it holds of its parts holds of every value. -/
@[elab_as_elim] theorem parts_induction {motive : Value → Prop}
    (h : ∀ v, (∀ w ∈ v.parts, motive w) → motive v) (v : Value) : motive v :=
  h v fun w _hw => parts_induction h w
termination_by sizeOf v
decreasing_by exact sizeOf_lt_of_mem_parts _hw

theorem mem_parts_map {entry : String × Value} (h : entry ∈ entries) :
    entry.2 ∈ (map entries).parts :=
  List.mem_map_of_mem h

/-! ## Throughout a value -/

/-- `p` holds of the value and throughout each of its parts. -/
inductive Throughout (p : Value → Prop) : Value → Prop
  | intro {v : Value} (here : p v) (inside : ∀ w ∈ v.parts, Throughout p w) : Throughout p v

namespace Throughout

theorem here (h : v.Throughout p) : p v := by
  obtain ⟨hv, -⟩ := h
  exact hv

theorem of_mem_parts (h : v.Throughout p) (hw : w ∈ v.parts) : w.Throughout p := by
  obtain ⟨-, hinside⟩ := h
  exact hinside w hw

/-- The value under a key of a map is one of the parts. -/
theorem of_lookup (h : (map entries).Throughout p) (hw : entries.lookup key = some w) :
    w.Throughout p := by
  obtain ⟨entry, hmem, rfl⟩ := mem_of_lookup hw
  exact h.of_mem_parts (mem_parts_map hmem)

end Throughout

theorem throughout_iff : v.Throughout p ↔ p v ∧ ∀ w ∈ v.parts, w.Throughout p :=
  ⟨fun h => ⟨h.here, fun _ hw => h.of_mem_parts hw⟩, fun h => ⟨h.1, h.2⟩⟩

@[simp] theorem throughout_list : (list items).Throughout p ↔
    p (list items) ∧ ∀ w ∈ items, w.Throughout p :=
  throughout_iff

@[simp] theorem throughout_map : (map entries).Throughout p ↔
    p (map entries) ∧ ∀ entry ∈ entries, entry.2.Throughout p := by
  rw [throughout_iff, parts, List.forall_mem_map]

/-- Nothing is nested in a value without parts. -/
theorem throughout_leaf (h : v.parts = []) : v.Throughout p ↔ p v := by
  rw [throughout_iff, h]
  exact and_iff_left fun w hw => absurd hw List.not_mem_nil

@[simp] theorem throughout_null : null.Throughout p ↔ p null := throughout_leaf rfl

@[simp] theorem throughout_integer {i : Int64} : (integer i).Throughout p ↔ p (integer i) :=
  throughout_leaf rfl

@[simp] theorem throughout_float {x : Float} : (float x).Throughout p ↔ p (float x) :=
  throughout_leaf rfl

@[simp] theorem throughout_text {s : String} : (text s).Throughout p ↔ p (text s) :=
  throughout_leaf rfl

/-! ## What is not in a value -/

/-- No map in the value has a key twice. -/
def KeysDistinct (v : Value) : Prop :=
  v.Throughout fun
    | map entries => (Table.keys entries).Nodup
    | _ => True

/-- Every float in the value is a number. -/
def NaNFree (v : Value) : Prop :=
  v.Throughout fun
    | float x => x.isNaN = false
    | _ => True

/-- No float is in the value. -/
def FloatFree (v : Value) : Prop :=
  v.Throughout fun
    | float _ => False
    | _ => True

/-- No instance of a class is in the value. -/
def InstanceFree (v : Value) : Prop :=
  v.Throughout fun
    | object .. => False
    | _ => True

end Splice.Value
