import Splice.Value
import Splice.Text.Detail

/-!
# `Splice.Scope` — chains of scopes

A name is looked up in a chain of scopes, the innermost first. A chain always has a scope; what lies
behind the innermost one encloses it.

## Contents
- `Scope`, `Context`: a named table of variables, and a chain of them.
- `Context.lookup?`: the binding of a name; a name bound to null is bound.
- `Context.define`, `Context.enclosedBy`, `Context.withTail`: building chains.
- `lookup?_withTail`, `lookup?_define_self`, `lookup?_define_ne`: what they do to look-up.
-/

namespace Splice

/-- A named scope and the values that its variables are bound to. -/
structure Scope where
  name : String
  bindings : Table Value

/-- A chain of scopes. -/
structure Context where
  innermost : Scope
  outer : List Scope

namespace Context

/-- A chain of one scope. -/
def ofScope (scope : Scope) : Context := { innermost := scope, outer := [] }

/-- A chain of one scope without variables. -/
def new (name : String) : Context := ofScope { name, bindings := [] }

/-- The scopes of a chain, the innermost first. -/
def scopes (c : Context) : List Scope := c.innermost :: c.outer

/-- The chain of the given scopes, the innermost first. -/
def ofScopes? : List Scope → Option Context
  | [] => none
  | scope :: outer => some { innermost := scope, outer }

/-- The name of the innermost scope. -/
def name (c : Context) : String := c.innermost.name

/-- The names of the scopes, the innermost first. -/
def scopeNames (c : Context) : List String := c.scopes.map Scope.name

/-- The number of scopes. -/
def depth (c : Context) : Nat := c.scopes.length

/-- The chain that encloses the innermost scope. -/
def enclosing? (c : Context) : Option Context := ofScopes? c.outer

/-- The value that the innermost scope binding a name binds it to. -/
def lookup? (c : Context) (key : String) : Option Value :=
  c.scopes.findSome? fun scope => scope.bindings.lookup key

/-- The chain with a name bound in its innermost scope. -/
def define (c : Context) (key : String) (value : Value) : Context :=
  { c with
    innermost := { c.innermost with bindings := Table.insert key value c.innermost.bindings } }

/-- The innermost scope of a chain, enclosed by another chain and by nothing else. -/
def enclosedBy (c enclosing : Context) : Context := { c with outer := enclosing.scopes }

/-- The chain with another one behind its last scope. -/
def withTail (c tail : Context) : Context := { c with outer := c.outer ++ tail.scopes }

/-- The scope that structured data describes, if it is an object. -/
def ofJson? (name : String) (json : Json) : Option Context :=
  (Value.ofJson json).map?.map fun bindings => ofScope { name, bindings }

/-- The description of a chain of scopes. -/
def detailOf : List Scope → String
  | [] => "None"
  | scope :: outer =>
    Text.applied "Some" (Text.record "Context"
      [("name", Text.quote scope.name),
        ("variables", Text.listed ((Table.keys scope.bindings).map Text.quote)),
        ("enclosing", detailOf outer)])

/-- The chain as a developer sees it: the names of the scopes and of their variables. -/
def detail (c : Context) : String :=
  Text.record "Context"
    [("name", Text.quote c.name),
      ("variables", Text.listed ((Table.keys c.innermost.bindings).map Text.quote)),
      ("enclosing", detailOf c.outer)]

variable {c tail : Context} {key other : String} {v : Value}

@[simp] theorem scopes_withTail : (c.withTail tail).scopes = c.scopes ++ tail.scopes := rfl

/-- The tail answers only for names that the chain before it does not bind. -/
theorem lookup?_withTail :
    (c.withTail tail).lookup? key = (c.lookup? key).or (tail.lookup? key) := by
  simp [lookup?, List.findSome?_append]

@[simp] theorem lookup?_define_self : (c.define key v).lookup? key = some v := by
  simp [lookup?, scopes, define]

theorem lookup?_define_ne (h : other ≠ key) : (c.define key v).lookup? other = c.lookup? other := by
  simp [lookup?, scopes, define, List.findSome?_cons, Table.lookup_insert_ne h]

@[simp] theorem scopeNames_define : (c.define key v).scopeNames = c.scopeNames := rfl

end Context

end Splice
