import Splice.Proofs.Evaluation

/-!
# `Splice.Proofs.Reachability` — the names that matter to a tree

An evaluation asks its scopes for the names in the tree, and for those in the deferred trees that
such names lead to. Unless a function of the host asks for more, no other names matter, nor does it
matter how the scopes are cut, ordered and named, as long as these names have the same bindings.

## Contents
- `Node.names`, `Reaches`: the names in a tree, and those that it leads to.
- `eval_congr`: scopes that agree on enough names give the same evaluations.
- `lookup?_eq_lookup_bindings`: how a chain is cut into scopes does not matter to look-up.
- `eval_eq_of_agree`: only reachable names matter.
-/

namespace Splice

open EvalM (Ensures)

/-! ## Names -/

namespace Node

mutual

/-- The names in a tree. The fields of accesses are none. -/
def names : Node → List String
  | program body => body.names
  | number _ | text _ | boolean _ => []
  | reference name => [name.lexeme]
  | call callee arguments => callee.names ++ namesEach arguments
  | access target _ => target.names
  | template parts => namesEach parts

/-- The names in the trees. -/
def namesEach : List Node → List String
  | [] => []
  | node :: nodes => node.names ++ namesEach nodes

end

theorem names_subset_namesEach {node : Node} {nodes : List Node} (h : node ∈ nodes) :
    node.names ⊆ namesEach nodes := by
  induction nodes with
  | nil => cases h
  | cons first nodes ih =>
    rcases List.mem_cons.1 h with rfl | h
    · exact List.subset_append_left ..
    · exact List.subset_append_of_subset_right _ (ih h)

/-- The names in a part of a tree are names in the tree. -/
theorem names_subset_of_mem_parts {node part : Node} (h : part ∈ node.parts) :
    part.names ⊆ node.names := by
  cases node with
  | program body =>
    cases List.mem_singleton.1 h
    exact List.Subset.refl _
  | call callee arguments =>
    rcases List.mem_cons.1 h with rfl | h
    · exact List.subset_append_left ..
    · exact List.subset_append_of_subset_right _ (names_subset_namesEach h)
  | access target field =>
    cases List.mem_singleton.1 h
    exact List.Subset.refl _
  | template parts => exact names_subset_namesEach h
  | _ => cases h

end Node

/-- The names that a tree leads to under a chain of scopes: those in the tree, and those in the
deferred trees that such names are bound to. -/
inductive Reaches (scopes : Context) (node : Node) : String → Prop
  | occurs {name : String} (h : name ∈ node.names) : Reaches scopes node name
  | through {name other : String} {identity : Nat} {body : Node} (h : Reaches scopes node name)
      (hname : scopes.lookup? name = some (.deferred identity body)) (hother : other ∈ body.names) :
      Reaches scopes node other

/-! ## Scopes that agree -/

variable {host : Host} {scopes scopes' : Context} {identities : Nat → Prop}

/-- **Scopes that agree on some names give the same evaluations of trees of these names**, if no
deferred tree leads out of them. -/
theorem eval_congr (reached : String → Prop) (hhost : host.Confines identities)
    (hscopes : scopes.HostFunctionsIn identities)
    (hagree : ∀ name, reached name → scopes'.lookup? name = scopes.lookup? name)
    (hclosed : ∀ name identity body, reached name →
      scopes.lookup? name = some (.deferred identity body) → ∀ other ∈ body.names, reached other)
    (depth : Nat) (node : Node) (hnode : ∀ name ∈ node.names, reached name) :
    eval host scopes depth node = eval host scopes' depth node := by
  induction depth generalizing node with
  | zero => rfl
  | succ depth ih =>
    have hparts : ∀ part ∈ node.parts, eval host scopes depth part = eval host scopes' depth part :=
      fun part hpart =>
        ih part fun name hname => hnode name (Node.names_subset_of_mem_parts hpart hname)
    have hensures : ∀ part, Ensures (Value.HostFunctionsIn identities) (fun _ => True)
        (eval host scopes depth part) := ensures_eval hhost hscopes depth
    cases node with
    | program body => exact hparts body (List.mem_singleton_self body)
    | number literal => rfl
    | text literal => rfl
    | boolean token => rfl
    | reference name =>
      have hname : reached name.lexeme := hnode _ (List.mem_singleton_self _)
      rw [eval, eval, hagree _ hname]
      -- the names in the deferred tree behind a name are among those agreed on, too
      split
      · rfl
      · next identity body hlookup => exact ih body (hclosed _ identity body hname hlookup)
      · rfl
    | call callee arguments =>
      refine EvalM.bind_congr (hparts callee (List.mem_cons_self ..)) (hensures callee) ?_
      intro called hcalled
      cases called with
      | function f =>
        refine Action.perform_congr (f.confined_action hhost hcalled _) trivial ?_ ?_
        · exact fun argument hmem => hparts argument (List.mem_cons_of_mem _ hmem)
        · exact fun argument _ => hensures argument
      | _ => rfl
    | access target field =>
      refine EvalM.bind_congr (hparts target (List.mem_singleton_self target)) (hensures target) ?_
      exact fun v _ => rfl
    | template parts =>
      have hmap : parts.mapM (eval host scopes depth) = parts.mapM (eval host scopes' depth) :=
        EvalM.mapM_congr_of_mem hparts
      rw [eval, eval, hmap]

/-! ## Chains of scopes -/

namespace Context

variable {c c' : Context} {key : String}

/-- A chain answers as one scope with all its bindings would. -/
theorem lookup?_eq_lookup_bindings (c : Context) (key : String) :
    c.lookup? key = (c.scopes.flatMap Scope.bindings).lookup key := by
  rw [lookup?]
  induction c.scopes with
  | nil => rfl
  | cons scope scopes ih =>
    rw [List.findSome?_cons, List.flatMap_cons, List.lookup_append, ih]
    cases scope.bindings.lookup key <;> rfl

theorem lookup?_withBuiltins_congr (h : c'.lookup? key = c.lookup? key) :
    (withBuiltins (some c')).lookup? key = (withBuiltins (some c)).lookup? key := by
  rw [lookup?_withBuiltins, lookup?_withBuiltins, h]

end Context

/-! ## Only reachable names matter -/

/-- **Only the names that a tree leads to matter to its evaluation**, if the functions of the host
deal with nothing but their arguments. Two chains that bind these names alike, or not at all, give
the same evaluations at every depth. So the scopes may be split, merged and named otherwise, and
other names may be bound, and bound anew. -/
theorem eval_eq_of_agree (hhost : host.Confines identities) {c : Context}
    (hc : c.HostFunctionsIn identities) (node : Node) :
    let scopes := Context.withBuiltins (some c)
    (∀ c', (∀ name, Reaches scopes node name →
        (Context.withBuiltins (some c')).lookup? name = scopes.lookup? name) →
      ∀ depth, eval host scopes depth node =
        eval host (Context.withBuiltins (some c')) depth node) ∧
    (∀ c', c'.scopes.flatMap Scope.bindings = c.scopes.flatMap Scope.bindings →
      ∀ depth, eval host scopes depth node =
        eval host (Context.withBuiltins (some c')) depth node) ∧
    (∀ key v, ¬ Reaches scopes node key →
      ∀ depth, eval host scopes depth node =
        eval host (Context.withBuiltins (some (c.define key v))) depth node) := by
  intro scopes
  have hagree : ∀ c', (∀ name, Reaches scopes node name →
      (Context.withBuiltins (some c')).lookup? name = scopes.lookup? name) →
      ∀ depth, eval host scopes depth node =
        eval host (Context.withBuiltins (some c')) depth node := by
    intro c' h depth
    refine eval_congr (Reaches scopes node) hhost
      (Context.hostFunctionsIn_withBuiltins hc) h ?_ depth node fun name hname => .occurs hname
    exact fun name identity body hname hlookup other hother => .through hname hlookup hother
  refine ⟨hagree, fun c' hbindings => hagree c' fun name _ => ?_, fun key v hkey => ?_⟩
  · apply Context.lookup?_withBuiltins_congr
    rw [Context.lookup?_eq_lookup_bindings, Context.lookup?_eq_lookup_bindings, hbindings]
  · apply hagree
    intro name hname
    apply Context.lookup?_withBuiltins_congr
    apply Context.lookup?_define_ne
    rintro rfl
    exact hkey hname

/-- A host whose functions evaluate their first argument. -/
def pickingHost : Host := { Host.empty with routine := fun _ _ => Action.read 0 }

/-- One scope, with a function of the host and a name that is bound to the tree of another one. -/
def oneScope : Context :=
  .ofScope
    { name := "one"
      bindings :=
        [("pick", .function (.host 0 "pick" 1)),
          ("x", .deferred 0 (.reference ⟨.identifier, "z", 1⟩)), ("z", .text "a"),
          ("other", .text "b")] }

/-- The same names in two scopes, with other ones around them. -/
def twoScopes : Context where
  innermost := { name := "inner", bindings := [("sum", .null), ("z", .text "a")] }
  outer :=
    [{ name := "outer"
       bindings :=
        [("z", .text "b"), ("x", .deferred 0 (.reference ⟨.identifier, "z", 1⟩)),
          ("pick", .function (.host 0 "pick" 1))] }]

/-- A call of the function with the name. -/
def pickX : Node :=
  .call (.reference ⟨.identifier, "pick", 1⟩) [.reference ⟨.identifier, "x", 1⟩]

theorem reaches_pickX {name : String}
    (h : Reaches (Context.withBuiltins (some oneScope)) pickX name) :
    name = "pick" ∨ name = "x" ∨ name = "z" := by
  induction h with
  | @occurs name h =>
    have h : name ∈ ["pick", "x"] := h
    rcases List.mem_cons.1 h with h | h
    · exact .inl h
    · exact .inr (.inl (List.mem_singleton.1 h))
  | through _ hname hother ih =>
    rcases ih with rfl | rfl | rfl
    · cases hname
    · cases hname
      exact .inr (.inr (List.mem_singleton.1 hother))
    · cases hname

theorem eval_eq_of_agree_twoScopes :
    pickingHost.Confines (fun _ => True) ∧ oneScope.HostFunctionsIn (fun _ => True) ∧
      (∀ depth, eval pickingHost (Context.withBuiltins (some oneScope)) depth pickX =
        eval pickingHost (Context.withBuiltins (some twoScopes)) depth pickX) ∧
      (eval pickingHost (Context.withBuiltins (some twoScopes)) 3 pickX).runFrom Journal.new =
        (.ok (.text "a"), Journal.new) := by
  have hhost : pickingHost.Confines fun _ => True := fun _ _ _ v hv => hv
  have hc : oneScope.HostFunctionsIn fun _ => True := by
    intro scope hscope binding hbinding
    cases List.mem_singleton.1 hscope
    simp only [oneScope, Context.ofScope, List.mem_cons, List.not_mem_nil, or_false] at hbinding
    rcases hbinding with rfl | rfl | rfl | rfl <;> trivial
  refine ⟨hhost, hc, ?_, rfl⟩
  apply (eval_eq_of_agree hhost hc pickX).1
  intro name hname
  rcases reaches_pickX hname with rfl | rfl | rfl <;> rfl

end Splice
