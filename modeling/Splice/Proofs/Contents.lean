import Splice.Eval

/-!
# `Splice.Proofs.Contents` — what values hold

Functions and deferred trees can stand deep inside of values: in lists and maps, and in the fields
and methods of classes and instances. No builtin function makes any. What it returns is plain, or a
part of its arguments.

## Contents
- `Value.Everywhere`: something holds of every function and deferred tree in a value.
- `Value.everywhere_and`: two things that hold everywhere.
- `Value.HostFunctionsIn`, `Context.HostFunctionsIn`: which functions of the host a value, or a
  chain of scopes, holds.
- `Context.lookup?_withBuiltins`: what a name is bound to, in front of the builtin functions.
- `everywhere_ofJson`, `everywhere_pathLookup`, `everywhere_property`: data, and parts of values.
- `Action.Confined`: an action that deals with nothing but its arguments, and what it returns.
- `Builtin.confined_action`: every builtin function is confined to what its arguments hold.
-/

namespace Splice

namespace Value

/-! ## Everywhere in a value -/

mutual

/-- `p` holds of every function and of every deferred tree in the value, however deep it stands. -/
def Everywhere (p : Value → Prop) : Value → Prop
  | null | boolean _ | integer _ | float _ | text _ => True
  | list items => EverywhereItems p items
  | map entries => EverywhereEntries p entries
  | function f => p (function f)
  | ofClass _ _ fields methods =>
    EverywhereEntries p fields ∧ ∀ method ∈ methods, p (function method.2)
  | object _ _ fields methods =>
    EverywhereEntries p fields ∧ ∀ method ∈ methods, p (function method.2)
  | deferred identity node => p (deferred identity node)

/-- `p` holds everywhere in each of the values. -/
def EverywhereItems (p : Value → Prop) : List Value → Prop
  | [] => True
  | item :: items => item.Everywhere p ∧ EverywhereItems p items

/-- `p` holds everywhere in the value under each of the keys. -/
def EverywhereEntries (p : Value → Prop) : List (String × Value) → Prop
  | [] => True
  | (_, item) :: entries => item.Everywhere p ∧ EverywhereEntries p entries

end

/-- Every function of the host in the value has one of the given identities. -/
def HostFunctionsIn (identities : Nat → Prop) (v : Value) : Prop :=
  v.Everywhere fun
    | function (.host identity _ _) => identities identity
    | _ => True

variable {p : Value → Prop}

theorem everywhereItems_iff {items : List Value} :
    EverywhereItems p items ↔ ∀ v ∈ items, v.Everywhere p := by
  induction items with
  | nil => simp [EverywhereItems]
  | cons item items ih => simp [EverywhereItems, ih]

theorem everywhereEntries_iff {entries : List (String × Value)} :
    EverywhereEntries p entries ↔ ∀ entry ∈ entries, entry.2.Everywhere p := by
  induction entries with
  | nil => simp [EverywhereEntries]
  | cons entry entries ih => simp [EverywhereEntries, ih]

mutual

/-- Two things hold everywhere in a value if both of them do. -/
theorem everywhere_and {q : Value → Prop} (v : Value) :
    v.Everywhere (fun w => p w ∧ q w) ↔ v.Everywhere p ∧ v.Everywhere q := by
  match v with
  | .null | .boolean _ | .integer _ | .float _ | .text _ => simp [Everywhere]
  | .function _ | .deferred _ _ => simp [Everywhere]
  | .list items => simp only [Everywhere, everywhereItems_and items]
  | .map entries => simp only [Everywhere, everywhereEntries_and entries]
  | .ofClass _ _ fields methods | .object _ _ fields methods =>
    simp only [Everywhere, everywhereEntries_and fields, forall_and]
    exact and_and_and_comm

theorem everywhereItems_and {q : Value → Prop} (items : List Value) :
    EverywhereItems (fun w => p w ∧ q w) items ↔
      EverywhereItems p items ∧ EverywhereItems q items := by
  match items with
  | [] => simp [EverywhereItems]
  | item :: items =>
    simp only [EverywhereItems, everywhere_and item, everywhereItems_and items]
    exact and_and_and_comm

theorem everywhereEntries_and {q : Value → Prop} (entries : List (String × Value)) :
    EverywhereEntries (fun w => p w ∧ q w) entries ↔
      EverywhereEntries p entries ∧ EverywhereEntries q entries := by
  match entries with
  | [] => simp [EverywhereEntries]
  | (_, item) :: entries =>
    simp only [EverywhereEntries, everywhere_and item, everywhereEntries_and entries]
    exact and_and_and_comm

end

theorem everywhere_list {items : List Value} :
    (list items).Everywhere p ↔ ∀ v ∈ items, v.Everywhere p := by
  rw [Everywhere, everywhereItems_iff]

theorem everywhere_map {entries : List (String × Value)} :
    (map entries).Everywhere p ↔ ∀ entry ∈ entries, entry.2.Everywhere p := by
  rw [Everywhere, everywhereEntries_iff]

theorem everywhere_ofOption {found : Option Value} (h : ∀ v ∈ found, v.Everywhere p) :
    (ofOption found).Everywhere p := by
  cases found with
  | none => trivial
  | some v => exact h v rfl

theorem everywhere_ofOption_map {α : Type} {found : Option α} {f : α → Value}
    (h : ∀ a, (f a).Everywhere p) : (ofOption (found.map f)).Everywhere p := by
  refine everywhere_ofOption fun v hv => ?_
  obtain ⟨a, -, rfl⟩ := Option.map_eq_some_iff.1 hv
  exact h a

/-- What a table binds a key to stands in the table. -/
theorem mem_of_lookup {α : Type} {table : Table α} {key : String} {a : α}
    (h : table.lookup key = some a) : ∃ entry ∈ table, entry.2 = a := by
  induction table with
  | nil => cases h
  | cons entry table ih =>
    obtain ⟨k, b⟩ := entry
    rw [List.lookup_cons] at h
    split at h
    · cases h
      exact ⟨(k, a), List.mem_cons_self .., rfl⟩
    · obtain ⟨found, hmem, hfound⟩ := ih h
      exact ⟨found, List.mem_cons_of_mem _ hmem, hfound⟩

theorem everywhere_lookup {entries : Table Value} {key : String} {v : Value}
    (h : ∀ entry ∈ entries, entry.2.Everywhere p) (hv : entries.lookup key = some v) :
    v.Everywhere p := by
  obtain ⟨entry, hmem, rfl⟩ := mem_of_lookup hv
  exact h entry hmem

/-! ## Data -/

mutual

/-- Data holds neither functions nor deferred trees. -/
theorem everywhere_ofJson (json : Json) : (ofJson json).Everywhere p := by
  match json with
  | .null => trivial
  | .boolean b => trivial
  | .number (.integer i) => trivial
  | .number (.float x) => trivial
  | .text s => trivial
  | .array items => exact everywhere_ofJsonItems items
  | .object entries => exact everywhere_ofJsonEntries entries

theorem everywhere_ofJsonItems (items : List Json) : EverywhereItems p (ofJsonItems items) := by
  match items with
  | [] => trivial
  | item :: items => exact ⟨everywhere_ofJson item, everywhere_ofJsonItems items⟩

theorem everywhere_ofJsonEntries (entries : List (String × Json)) :
    EverywhereEntries p (ofJsonEntries entries) := by
  match entries with
  | [] => trivial
  | (_, item) :: entries => exact ⟨everywhere_ofJson item, everywhere_ofJsonEntries entries⟩

end

/-! ## Parts of a value -/

/-- A step of a path leads to a part. -/
theorem everywhere_step {step : Path.Step} {v w : Value} (hv : v.Everywhere p)
    (h : step.apply? v = some w) : w.Everywhere p := by
  unfold Path.Step.apply? at h
  split at h
  · exact everywhere_lookup (everywhere_map.1 hv) h
  · exact everywhere_list.1 hv w (List.mem_of_getElem? h)
  · cases h

/-- A path leads to a part of a part, and so on. -/
theorem everywhere_follow {steps : List Path.Step} {v w : Value} (hv : v.Everywhere p)
    (h : Path.follow? steps v = some w) : w.Everywhere p := by
  induction steps generalizing v with
  | nil =>
    cases h
    exact hv
  | cons step steps ih =>
    rw [Path.follow?, List.foldlM_cons] at h
    obtain ⟨u, hu, hrest⟩ := Option.bind_eq_some_iff.1 h
    exact ih (everywhere_step hv hu) hrest

theorem everywhere_pathLookup {root w : Value} {path : String} (hroot : root.Everywhere p)
    (h : Path.lookup root path = some w) : w.Everywhere p := by
  obtain ⟨steps, -, hsteps⟩ := Option.bind_eq_some_iff.1 h
  exact everywhere_follow hroot hsteps

/-- So does a name of a property. -/
theorem everywhere_property {name : String} {v w : Value} (hv : v.Everywhere p)
    (h : v.property name = .ok w) : w.Everywhere p := by
  cases v with
  | null =>
    cases h
    trivial
  | map entries =>
    rw [property] at h
    cases hentry : entries.lookup name with
    | none =>
      rw [hentry] at h
      cases h
    | some u =>
      rw [hentry] at h
      cases h
      exact everywhere_lookup (everywhere_map.1 hv) hentry
  | object identity className fields methods =>
    obtain ⟨hfields, hmethods⟩ := hv
    rw [property, Instance.property?] at h
    cases hfield : fields.lookup name with
    | some u =>
      simp only [hfield] at h
      cases h
      exact everywhere_lookup (everywhereEntries_iff.1 hfields) hfield
    | none =>
      simp only [hfield] at h
      cases hmethod : methods.lookup name with
      | none =>
        rw [hmethod] at h
        cases h
      | some f =>
        rw [hmethod] at h
        cases h
        obtain ⟨method, hmem, rfl⟩ := mem_of_lookup hmethod
        exact hmethods method hmem
  | _ => cases h

end Value

/-- Every function of the host that a chain of scopes binds, however deep it stands, has one of the
given identities. -/
def Context.HostFunctionsIn (identities : Nat → Prop) (c : Context) : Prop :=
  ∀ scope ∈ c.scopes, ∀ binding ∈ scope.bindings, binding.2.HostFunctionsIn identities

namespace Context

variable {identities : Nat → Prop} {c : Context} {key : String}

/-- The builtin functions answer only for names that the host does not bind. -/
theorem lookup?_withBuiltins (c : Context) (key : String) :
    (withBuiltins (some c)).lookup? key = (c.lookup? key).or (Catalogue.bindings.lookup key) := by
  have hbuiltins : (ofScope Catalogue.scope).lookup? key = Catalogue.bindings.lookup key := by
    simp [lookup?, ofScope, scopes, Catalogue.scope]
  rw [withBuiltins, lookup?_withTail, hbuiltins]

/-- Nothing but builtin functions is bound in their scope. -/
theorem eq_builtin_of_mem_bindings {binding : String × Value}
    (h : binding ∈ Catalogue.bindings) : ∃ b, binding.2 = .function (.builtin b) := by
  obtain ⟨b, -, hname⟩ := List.mem_flatMap.1 h
  obtain ⟨name, -, rfl⟩ := List.mem_map.1 hname
  exact ⟨b, rfl⟩

/-- No builtin function is deferred. -/
theorem lookup?_withBuiltins_eq_deferred_iff {identity : Nat} {body : Node} :
    (withBuiltins (some c)).lookup? key = some (.deferred identity body) ↔
      c.lookup? key = some (.deferred identity body) := by
  rw [lookup?_withBuiltins, Option.or_eq_some_iff]
  constructor
  · rintro (h | ⟨-, h⟩)
    · exact h
    · obtain ⟨entry, hmem, hentry⟩ := Value.mem_of_lookup h
      obtain ⟨b, hb⟩ := eq_builtin_of_mem_bindings hmem
      rw [hb] at hentry
      cases hentry
  · exact .inl

theorem hostFunctionsIn_lookup {v : Value} (hc : c.HostFunctionsIn identities)
    (h : c.lookup? key = some v) : v.HostFunctionsIn identities := by
  obtain ⟨scope, hscope, hv⟩ := List.exists_of_findSome?_eq_some h
  exact Value.everywhere_lookup (hc scope hscope) hv

/-- The builtin functions behind a chain of scopes are not functions of the host. -/
theorem hostFunctionsIn_withBuiltins (hc : c.HostFunctionsIn identities) :
    (withBuiltins (some c)).HostFunctionsIn identities := by
  intro scope hscope binding hbinding
  have hscope : scope ∈ c.scopes ++ [Catalogue.scope] := hscope
  rcases List.mem_append.1 hscope with hscope | hscope
  · exact hc scope hscope binding hbinding
  · cases List.mem_singleton.1 hscope
    obtain ⟨b, hb⟩ := eq_builtin_of_mem_bindings hbinding
    rw [hb]
    trivial

end Context

open Value (Everywhere)

/-! ## Confined actions -/

namespace Action

/-- The action deals with nothing but its arguments: it evaluates no other trees and does not ask
for the scopes. If its arguments are `p`, its result is `q`. -/
def Confined {α : Type} (p : Value → Prop) (q : α → Prop) : Action α → Prop
  | done result => q result
  | fail _ => True
  | argument _ next => ∀ v, p v → (next v).Confined p q
  | evaluate _ _ => False
  | emit _ next => next.Confined p q
  | tally _ next => ∀ n, (next n).Confined p q
  | context _ => False

variable {α β : Type} {p : Value → Prop} {q : α → Prop} {q' : β → Prop}

theorem Confined.bind {x : Action α} {f : α → Action β} (hx : x.Confined p q)
    (hf : ∀ a, q a → (f a).Confined p q') : (x.bind f).Confined p q' := by
  induction x with
  | done result => exact hf result hx
  | fail error => trivial
  | argument position next ih => exact fun v hv => ih v (hx v hv)
  | evaluate node next ih => exact hx.elim
  | emit label next ih => exact ih hx
  | tally identity next ih => exact fun n => ih n (hx n)
  | context next ih => exact hx.elim

variable {function : String} {expected : Expectation} {found position : Nat}

/-- What comes behind a check of the number of arguments. -/
theorem confined_expect {rest : Unit → Action β} (h : (rest ()).Confined p q') :
    ((expect function expected found).bind rest).Confined p q' := by
  unfold expect
  split
  · exact h
  · trivial

/-- What comes behind the value of an argument. -/
theorem confined_read {rest : Value → Action β} (h : ∀ v, p v → (rest v).Confined p q') :
    ((read position).bind rest).Confined p q' := h

theorem confined_readFrom (n : Nat) :
    (readFrom position n).Confined p fun vs => ∀ v ∈ vs, p v := by
  induction n generalizing position with
  | zero => exact fun v hv => absurd hv List.not_mem_nil
  | succ n ih =>
    intro v hv
    show ((readFrom (position + 1) n).bind fun vs => done (v :: vs)).Confined p _
    refine Confined.bind ih fun vs hvs => ?_
    intro w hw
    rcases List.mem_cons.1 hw with rfl | hw
    · exact hv
    · exact hvs w hw

/-- What comes behind the values of all arguments. -/
theorem confined_readAll {rest : List Value → Action β}
    (h : ∀ vs, (∀ v ∈ vs, p v) → (rest vs).Confined p q') :
    ((readAll found).bind rest).Confined p q' :=
  Confined.bind (confined_readFrom found) h

/-- What comes behind a check of the number of arguments and the first of them. -/
theorem confined_unary {rest : Value → Action β} (h : ∀ v, p v → (rest v).Confined p q') :
    ((expect function expected found).bind fun _ => (read 0).bind rest).Confined p q' :=
  confined_expect (confined_read h)

/-- What comes behind a check of the number of arguments and the first two of them. -/
theorem confined_binary {rest : Value → Value → Action β}
    (h : ∀ v w, p v → p w → (rest v w).Confined p q') :
    ((expect function expected found).bind fun _ =>
      (read 0).bind fun v => (read 1).bind (rest v)).Confined p q' :=
  confined_unary fun v hv => confined_read fun w hw => h v w hv hw

end Action

/-! ## The builtin functions -/

namespace Catalogue

open Splice.Action (confined_expect confined_read confined_unary confined_binary confined_readAll)

variable {p : Value → Prop} {found : Nat}

/-- A choice is one of the arguments, or null. -/
theorem confined_chooseFrom (position n : Nat) :
    (chooseFrom position n).Confined (Everywhere p) (Everywhere p) := by
  induction position, n using chooseFrom.induct with
  | case1 position => trivial
  | case2 position => exact fun v hv => hv
  | case3 position n ih =>
    intro condition _
    -- the condition only decides; what is returned is a value behind this one or a later one
    show (if condition.bool? = some true then Action.read (position + 1)
      else chooseFrom (position + 2) n).Confined _ _
    split
    · exact fun v hv => hv
    · exact ih

theorem confined_either : (either found).Confined (Everywhere p) (Everywhere p) := by
  refine confined_binary fun left right hl hr => ?_
  rw [Action.pure_eq, Action.Confined]
  split
  · trivial
  · exact hr
  · exact hl

/-- An item of a list stands in the list. -/
theorem everywhere_of_mem_list? {v w : Value} {items : List Value} (hv : v.Everywhere p)
    (hitems : v.list? = some items) (hw : w ∈ items) : w.Everywhere p := by
  cases v with
  | list vs =>
    cases hitems
    exact Value.everywhere_list.1 hv w hw
  | _ => cases hitems

theorem confined_itemAt : (itemAt found).Confined (Everywhere p) (Everywhere p) := by
  refine confined_binary fun items position hitems _ => ?_
  split
  · next vs i hvs _ =>
    refine Value.everywhere_ofOption fun w hw => ?_
    exact everywhere_of_mem_list? hitems hvs (List.mem_of_getElem? hw)
  · trivial

/-- An item that is picked out of a list, if there is one. -/
theorem everywhere_pick {pick : List Value → Option Value} {v : Value}
    (hpick : ∀ items w, pick items = some w → w ∈ items) (hv : v.Everywhere p) :
    (Value.ofOption (v.list?.bind pick)).Everywhere p := by
  refine Value.everywhere_ofOption fun w hw => ?_
  obtain ⟨items, hitems, hw⟩ := Option.bind_eq_some_iff.1 hw
  exact everywhere_of_mem_list? hv hitems (hpick items w hw)

theorem confined_part {b : Builtin} {leave : Nat → List Value → List Value}
    (hleave : ∀ n items, leave n items ⊆ items) :
    (part b leave found).Confined (Everywhere p) (Everywhere p) := by
  refine confined_unary fun items hitems => ?_
  split
  · trivial
  · next vs hvs =>
    refine confined_read fun count _ => ?_
    dsimp only
    split
    · next n _ =>
      refine Value.everywhere_list.2 fun w hw => ?_
      exact everywhere_of_mem_list? hitems hvs (hleave n vs hw)
    · trivial

theorem confined_reversed : (reversed found).Confined (Everywhere p) (Everywhere p) := by
  refine confined_unary fun items hitems => ?_
  rw [Action.pure_eq, Action.Confined]
  split
  · next vs hvs =>
    refine Value.everywhere_list.2 fun w hw => ?_
    exact everywhere_of_mem_list? hitems hvs (List.mem_reverse.1 hw)
  · trivial

/-- The data that a path starts from is read from a text, or is an argument. -/
theorem everywhere_root {v root : Value} (hv : v.Everywhere p) (h : root? v = some root) :
    root.Everywhere p := by
  unfold root? at h
  split at h
  · cases h
  · split at h
    · cases h
      exact Value.everywhere_ofJson _
    · cases h
  · cases h
    exact hv

theorem confined_dataAt : (dataAt found).Confined (Everywhere p) (Everywhere p) := by
  refine confined_binary fun source path hsource _ => ?_
  split
  · next name root _ hroot =>
    refine Value.everywhere_ofOption fun w hw => ?_
    exact Value.everywhere_pathLookup (everywhere_root hsource hroot) hw
  · trivial

theorem confined_substring : (substring found).Confined (Everywhere p) (Everywhere p) := by
  refine confined_binary fun source start hsource _ => ?_
  refine confined_read fun stop _ => ?_
  split
  · exact Value.everywhere_ofOption_map fun s => trivial
  · trivial
  · dsimp only
    split <;> trivial

theorem confined_operands (b : Builtin) :
    (operands b found).Confined (Everywhere p) fun _ => True := by
  refine confined_binary fun left right _ _ => ?_
  split <;> trivial

theorem confined_clamp : (clamp found).Confined (Everywhere p) (Everywhere p) := by
  refine confined_binary fun v low _ _ => ?_
  refine confined_read fun high _ => ?_
  split
  · split <;> trivial
  · trivial

theorem confined_formatNumber : (formatNumber found).Confined (Everywhere p) (Everywhere p) := by
  unfold formatNumber
  split
  · trivial
  · refine confined_read fun v _ => ?_
    split
    · trivial
    · exact confined_read fun pattern _ => trivial

end Catalogue

open Splice.Action (confined_unary confined_binary confined_readAll confined_expect) in
open Catalogue in
/-- **A builtin function is confined to its arguments.** It evaluates no other trees and does not
ask for the scopes, and what holds everywhere in its arguments holds everywhere in its result. -/
theorem Builtin.confined_action (b : Builtin) (found : Nat) (p : Value → Prop) :
    (b.action found).Confined (Everywhere p) (Everywhere p) := by
  cases b with
  | isEqual | isNotEqual => exact confined_binary fun _ _ _ _ => trivial
  | isNull | isNotNull | isEmpty => exact confined_unary fun _ _ => trivial
  | choose => exact confined_expect (confined_chooseFrom 0 found)
  | gt | gte | lt | lte | modulo =>
    refine confined_binary fun left right _ _ => ?_
    split <;> trivial
  | not | ceil | floor | abs | qsEncode =>
    refine confined_unary fun v _ => ?_
    rw [Action.pure_eq, Action.Confined]
    split <;> trivial
  | or => exact confined_either
  | and =>
    refine confined_binary fun left right _ _ => ?_
    rw [Action.pure_eq, Action.Confined]
    split <;> trivial
  | sum | multiply | concat => exact confined_readAll fun _ _ => trivial
  | diff => exact (confined_operands .diff).bind fun _ _ => trivial
  | divide =>
    refine (confined_operands .divide).bind fun operands _ => ?_
    obtain ⟨x, y⟩ := operands
    dsimp only
    split <;> trivial
  | clamp => exact confined_clamp
  | substring => exact confined_substring
  | jsonGet => exact confined_dataAt
  | isoFormat =>
    refine confined_binary fun timestamp pattern _ _ => ?_
    split
    · exact Value.everywhere_ofOption_map fun s => trivial
    · trivial
  | contains => exact confined_binary fun _ _ _ _ => trivial
  | elementAt => exact confined_itemAt
  | firstElement =>
    exact confined_unary fun v hv => everywhere_pick (fun _ _ hw => List.mem_of_head? hw) hv
  | lastElement =>
    exact confined_unary fun v hv => everywhere_pick (fun _ _ hw => List.mem_of_getLast? hw) hv
  | skip => exact confined_part fun n items => List.drop_subset n items
  | take => exact confined_part fun n items => List.take_subset n items
  | reversed => exact confined_reversed
  | numberFormat => exact confined_formatNumber
  | toInt | length =>
    exact confined_unary fun v _ => Value.everywhere_ofOption_map fun n => trivial

end Splice
