import Splice.Proofs.Contents
import Splice.Proofs.Runs

/-!
# `Splice.Proofs.Chains` — the algebra of scopes

Chains of scopes are put one behind the other, and names are bound in their innermost scopes. What
a chain answers for a name follows from where its scopes stand: the innermost scope that binds the
name gives the answer, be it null. The builtin functions stand behind all scopes of the host.

## Contents
- `Resolves`, `Unbound`, `lookup?_eq_some_iff`, `lookup?_eq_none_iff`: look-up by the place of
  scopes.
- `enclosing?_withTail`, `lookup?_eq_or_enclosing`: chains taken apart at the innermost scope.
- `withTail_assoc`, `scopeNames_withTail`, `depth_withTail`: putting chains together.
- `Catalogue.lookup_bindings_eq_some_iff`: the names of the builtin functions.
- `Context.hostScopes`, `eval_reference_of_resolves`, `eval_reference_of_builtin`: what a name
  comes to in an evaluation.
- `chain_algebra`: all of this in one place.
-/

namespace Splice

/-! ## Tables without repeated keys -/

/-- In a table without repeated keys, a key is bound to whatever it stands with. -/
theorem Table.lookup_eq_some_iff_mem {α : Type} {table : Table α} {key : String} {a : α}
    (h : table.keys.Nodup) : table.lookup key = some a ↔ (key, a) ∈ table := by
  induction table with
  | nil => simp
  | cons entry table ih =>
    obtain ⟨k, b⟩ := entry
    have hkeys : k ∉ Table.keys table ∧ (Table.keys table).Nodup := List.nodup_cons.1 h
    by_cases hk : key = k
    · subst hk
      have hnot : (key, a) ∉ table := by
        intro hmem
        exact hkeys.1 (List.mem_map_of_mem hmem)
      simp [hnot, eq_comm]
    · have hne : (key == k) = false := by simpa using hk
      simp [List.lookup_cons, hne, hk, ih hkeys.2]

namespace Context

variable {a b c : Context} {key other : String} {v : Value}

/-! ## Look-up by the place of scopes -/

/-- The innermost of the scopes that bind the name binds it to the value. -/
def Resolves (scopes : List Scope) (key : String) (v : Value) : Prop :=
  ∃ inner scope outer, scopes = inner ++ scope :: outer ∧
    (∀ s ∈ inner, s.bindings.lookup key = none) ∧ scope.bindings.lookup key = some v

/-- None of the scopes binds the name. -/
def Unbound (scopes : List Scope) (key : String) : Prop :=
  ∀ scope ∈ scopes, scope.bindings.lookup key = none

variable {scopes : List Scope}

theorem findSome?_lookup_eq_some_iff :
    (scopes.findSome? fun scope => scope.bindings.lookup key) = some v ↔
      Resolves scopes key v := by
  rw [List.findSome?_eq_some_iff]
  constructor
  · rintro ⟨inner, scope, outer, hscopes, hv, hinner⟩
    exact ⟨inner, scope, outer, hscopes, hinner, hv⟩
  · rintro ⟨inner, scope, outer, hscopes, hinner, hv⟩
    exact ⟨inner, scope, outer, hscopes, hv, hinner⟩

theorem findSome?_lookup_eq_none_iff :
    (scopes.findSome? fun scope => scope.bindings.lookup key) = none ↔ Unbound scopes key := by
  rw [List.findSome?_eq_none_iff]
  rfl

theorem lookup?_eq_some_iff : c.lookup? key = some v ↔ Resolves c.scopes key v :=
  findSome?_lookup_eq_some_iff

theorem lookup?_eq_none_iff : c.lookup? key = none ↔ Unbound c.scopes key :=
  findSome?_lookup_eq_none_iff

/-! ## Chains taken apart at the innermost scope -/

/-- A name that the innermost scope does not bind is looked up in what encloses the scope. -/
theorem lookup?_eq_or_enclosing (c : Context) (key : String) :
    c.lookup? key = (c.innermost.bindings.lookup key).or
      (c.enclosing?.bind fun enclosing => enclosing.lookup? key) := by
  obtain ⟨innermost, outer⟩ := c
  rw [lookup?, scopes, List.findSome?_cons]
  cases hv : innermost.bindings.lookup key with
  | some v => rfl
  | none =>
    cases outer with
    | nil => rfl
    | cons scope outer => rfl

/-- Behind the innermost scope, the tail is put behind what encloses the scope, if anything does. -/
theorem enclosing?_withTail (a b : Context) :
    (a.withTail b).enclosing? =
      some (a.enclosing?.elim b fun enclosing => enclosing.withTail b) := by
  obtain ⟨innermost, outer⟩ := a
  cases outer with
  | nil => rfl
  | cons scope outer => rfl

/-! ## Chains put together -/

@[simp] theorem scopeNames_withTail (a b : Context) :
    (a.withTail b).scopeNames = a.scopeNames ++ b.scopeNames := by
  simp [scopeNames]

@[simp] theorem depth_withTail (a b : Context) : (a.withTail b).depth = a.depth + b.depth := by
  simp [depth]

/-- A chain is its scopes. -/
theorem ext_scopes (h : a.scopes = b.scopes) : a = b := by
  obtain ⟨innermost, outer⟩ := a
  obtain ⟨innermost', outer'⟩ := b
  cases List.cons.inj h with
  | intro hinnermost houter =>
    subst hinnermost
    subst houter
    rfl

/-- It does not matter which of two tails is put in its place first. -/
theorem withTail_assoc (a b c : Context) :
    (a.withTail b).withTail c = a.withTail (b.withTail c) := by
  apply ext_scopes
  simp only [scopes_withTail, List.append_assoc]

/-- Names that the chain binds keep their values in front of a tail, and null is a value. -/
theorem lookup?_withTail_of_some (h : a.lookup? key = some v) :
    (a.withTail b).lookup? key = some v := by
  rw [lookup?_withTail, h, Option.some_or]

/-- The tail answers for the other names. -/
theorem lookup?_withTail_of_none (h : a.lookup? key = none) :
    (a.withTail b).lookup? key = b.lookup? key := by
  rw [lookup?_withTail, h, Option.none_or]

@[simp] theorem depth_define : (a.define key v).depth = a.depth := rfl

end Context

/-! ## The builtin functions -/

namespace Catalogue

/-- No two builtin functions have a name in common. -/
theorem keys_bindings_nodup : (Table.keys bindings).Nodup := by
  have hkeys : Table.keys bindings = Builtin.all.flatMap fun b => b.name :: b.aliases := by
    simp [Table.keys, bindings, List.map_flatMap, Function.comp_def]
  rw [hkeys]
  decide +kernel

/-- A builtin function is bound to its own name and to its other ones, and nothing else is bound. -/
theorem lookup_bindings_eq_some_iff {key : String} {v : Value} :
    bindings.lookup key = some v ↔
      ∃ b : Builtin, key ∈ b.name :: b.aliases ∧ v = .function (.builtin b) := by
  rw [Table.lookup_eq_some_iff_mem keys_bindings_nodup]
  constructor
  · intro hmem
    obtain ⟨b, -, hentry⟩ := List.mem_flatMap.1 hmem
    obtain ⟨name, hname, heq⟩ := List.mem_map.1 hentry
    cases heq
    exact ⟨b, hname, rfl⟩
  · rintro ⟨b, hname, rfl⟩
    exact List.mem_flatMap.2 ⟨b, b.mem_all, List.mem_map.2 ⟨key, hname, rfl⟩⟩

theorem lookup_bindings_eq_none_iff {key : String} :
    bindings.lookup key = none ↔ ∀ b : Builtin, key ∉ b.name :: b.aliases := by
  rw [Option.eq_none_iff_forall_ne_some]
  constructor
  · intro h b hname
    exact h _ (lookup_bindings_eq_some_iff.2 ⟨b, hname, rfl⟩)
  · intro h v hv
    obtain ⟨b, hname, -⟩ := lookup_bindings_eq_some_iff.1 hv
    exact h b hname

end Catalogue

/-! ## Names in an evaluation -/

/-- What a name comes to that is bound to a value: the value, or that of a deferred tree. -/
def Value.demand (host : Host) (scopes : Context) (depth : Nat) : Value → EvalM Value
  | .deferred _ body => eval host scopes depth body
  | v => return v

/-- The scopes of the host, the innermost first. -/
def Context.hostScopes (context : Option Context) : List Scope := context.elim [] scopes

variable {host : Host} {scopes : Context} {depth : Nat} {context : Option Context} {key : String}
  {v : Value} {line : Int}

namespace Context

@[simp] theorem scopes_withBuiltins (context : Option Context) :
    (withBuiltins context).scopes = hostScopes context ++ [Catalogue.scope] := by
  cases context with
  | none => rfl
  | some c => rfl

theorem lookup?_withBuiltins_eq_or (context : Option Context) (key : String) :
    (withBuiltins context).lookup? key =
      ((hostScopes context).findSome? fun scope => scope.bindings.lookup key).or
        (Catalogue.bindings.lookup key) := by
  simp [lookup?, List.findSome?_append, Catalogue.scope]

/-- A name that the host binds is bound to what the innermost of its scopes says. -/
theorem lookup?_withBuiltins_of_resolves (h : Resolves (hostScopes context) key v) :
    (withBuiltins context).lookup? key = some v := by
  rw [lookup?_withBuiltins_eq_or, findSome?_lookup_eq_some_iff.2 h, Option.some_or]

/-- The builtin functions answer for all other names. -/
theorem lookup?_withBuiltins_of_unbound (h : Unbound (hostScopes context) key) :
    (withBuiltins context).lookup? key = Catalogue.bindings.lookup key := by
  rw [lookup?_withBuiltins_eq_or, findSome?_lookup_eq_none_iff.2 h, Option.none_or]

end Context

theorem eval_reference_of_lookup {name : Token} (h : scopes.lookup? name.lexeme = some v) :
    eval host scopes (depth + 1) (.reference name) = v.demand host scopes depth := by
  rw [eval, h]
  cases v <;> rfl

/-- A name that the host binds comes to what the innermost scope binds it to, whatever builtin
functions there are. -/
theorem eval_reference_of_resolves (h : Context.Resolves (Context.hostScopes context) key v) :
    eval host (Context.withBuiltins context) (depth + 1) (.reference ⟨.identifier, key, line⟩) =
      v.demand host (Context.withBuiltins context) depth :=
  eval_reference_of_lookup (Context.lookup?_withBuiltins_of_resolves h)

/-- Another name comes to the builtin function with this name. -/
theorem eval_reference_of_builtin (h : Context.Unbound (Context.hostScopes context) key)
    {b : Builtin} (hname : key ∈ b.name :: b.aliases) :
    eval host (Context.withBuiltins context) (depth + 1) (.reference ⟨.identifier, key, line⟩) =
      pure (.function (.builtin b)) := by
  have hlookup : (Context.withBuiltins context).lookup? key = some (.function (.builtin b)) := by
    rw [Context.lookup?_withBuiltins_of_unbound h]
    exact Catalogue.lookup_bindings_eq_some_iff.2 ⟨b, hname, rfl⟩
  have hdemand : eval host (Context.withBuiltins context) (depth + 1)
      (.reference ⟨.identifier, key, line⟩) =
      (Value.function (.builtin b)).demand host (Context.withBuiltins context) depth :=
    eval_reference_of_lookup hlookup
  exact hdemand

/-- A name that is not one of a builtin function either is an error. -/
theorem eval_reference_of_unbound (h : Context.Unbound (Context.hostScopes context) key)
    (hnone : ∀ b : Builtin, key ∉ b.name :: b.aliases) :
    eval host (Context.withBuiltins context) (depth + 1) (.reference ⟨.identifier, key, line⟩) =
      EvalM.fail (.undefinedVariable key line) := by
  have hlookup : (Context.withBuiltins context).lookup? key = none := by
    rw [Context.lookup?_withBuiltins_of_unbound h]
    exact Catalogue.lookup_bindings_eq_none_iff.2 hnone
  rw [eval, hlookup]

/-! ## The algebra -/

/-- **Chains of scopes and what they answer.** A tail stands behind all scopes of a chain and
answers only for names that none of them binds; a name bound to null is bound. Tails may be put
together in any order. To bind a name changes the answer for this name alone. In an evaluation, a
name comes to what the innermost scope of the host binds it to, and to the builtin function of this
name only if no scope of the host binds it. -/
theorem chain_algebra (a b c : Context) (key : String) (v : Value) :
    ((a.withTail b).scopes = a.scopes ++ b.scopes ∧
      (a.withTail b).scopeNames = a.scopeNames ++ b.scopeNames ∧
      (a.withTail b).depth = a.depth + b.depth ∧
      (a.withTail b).enclosing? =
        some (a.enclosing?.elim b fun enclosing => enclosing.withTail b)) ∧
    ((∀ w, a.lookup? key = some w ↔ Context.Resolves a.scopes key w) ∧
      (a.lookup? key = none ↔ Context.Unbound a.scopes key) ∧
      (∀ w, a.lookup? key = some w → (a.withTail b).lookup? key = some w) ∧
      (a.lookup? key = none → (a.withTail b).lookup? key = b.lookup? key)) ∧
    (a.withTail b).withTail c = a.withTail (b.withTail c) ∧
    ((a.define key v).lookup? key = some v ∧
      (∀ other, other ≠ key → (a.define key v).lookup? other = a.lookup? other) ∧
      (a.define key v).scopeNames = a.scopeNames ∧ (a.define key v).depth = a.depth) ∧
    ∀ host context depth line,
      let scopes := Context.withBuiltins context
      let result := eval host scopes (depth + 1) (.reference ⟨.identifier, key, line⟩)
      (∀ w, Context.Resolves (Context.hostScopes context) key w →
        result = w.demand host scopes depth) ∧
      (Context.Unbound (Context.hostScopes context) key →
        (∀ builtin : Builtin, key ∈ builtin.name :: builtin.aliases →
          result = pure (.function (.builtin builtin))) ∧
        ((∀ builtin : Builtin, key ∉ builtin.name :: builtin.aliases) →
          result = EvalM.fail (.undefinedVariable key line))) := by
  refine ⟨⟨?_, ?_, ?_, ?_⟩, ⟨?_, ?_, ?_, ?_⟩, ?_, ⟨?_, ?_, ?_, ?_⟩, ?_⟩
  · exact Context.scopes_withTail
  · exact Context.scopeNames_withTail a b
  · exact Context.depth_withTail a b
  · exact Context.enclosing?_withTail a b
  · intro w
    exact Context.lookup?_eq_some_iff
  · exact Context.lookup?_eq_none_iff
  · intro w hw
    exact Context.lookup?_withTail_of_some hw
  · intro hnone
    exact Context.lookup?_withTail_of_none hnone
  · exact Context.withTail_assoc a b c
  · exact Context.lookup?_define_self
  · intro other hother
    exact Context.lookup?_define_ne hother
  · exact Context.scopeNames_define
  · exact Context.depth_define
  · intro host context depth line scopes result
    refine ⟨?_, ?_⟩
    · intro w hw
      exact eval_reference_of_resolves hw
    · intro hunbound
      refine ⟨?_, ?_⟩
      · intro builtin hname
        exact eval_reference_of_builtin hunbound hname
      · intro hnone
        exact eval_reference_of_unbound hunbound hnone

end Splice
