import Mathlib.Data.Set.Finite.Basic
import Mathlib.Order.Preorder.Finite
import Mathlib.Order.WellFounded
import Splice.Proofs.Reachability

/-!
# `Splice.Proofs.Termination` — evaluations that end by themselves

The limit of the depth is there for names that are bound to deferred trees which lead back to them.
If no name leads back to itself, it is not needed: every evaluation ends at some depth, and at every
greater one it ends the same. A tree is evaluated with its parts, which are smaller, and with the
deferred trees that its names are bound to, which lie behind them in the order of the bindings.

## Contents
- `Leads`, `exists_chain_iff_exists_cycle`: how names depend on each other.
- `EndsWithin`, `EndsWithin.runFrom_eq`: evaluations that do not reach the limit.
- `endsWithin_succ`, `exists_endsWithin`: one level, and all levels down to the deferred trees.
- `exists_endsWithin_of_acc`: names that no infinite chain starts from.
- `exists_outcome_of_acyclic`: evaluations end if the bindings have no cycles.
-/

namespace Splice

open EvalM (Ensures Within)

/-! ## Names that depend on each other -/

/-- The name is bound to a deferred tree in which the other one occurs. -/
def Leads (c : Context) (name other : String) : Prop :=
  ∃ identity body, c.lookup? name = some (.deferred identity body) ∧ other ∈ body.names

variable {c scopes : Context} {host : Host} {depth depth' : Nat} {node : Node}

/-- Only names that a scope binds lead anywhere. -/
theorem Leads.exists_binding {name other : String} (h : Leads c name other) :
    ∃ identity body, (name, .deferred identity body) ∈ c.scopes.flatMap Scope.bindings ∧
      other ∈ body.names := by
  obtain ⟨identity, body, hlookup, hother⟩ := h
  rw [Context.lookup?_eq_lookup_bindings] at hlookup
  obtain ⟨before, after, hbindings, -⟩ := List.lookup_eq_some_iff.1 hlookup
  refine ⟨identity, body, ?_, hother⟩
  rw [hbindings]
  exact List.mem_append_right _ (List.mem_cons_self ..)

theorem wellFounded_leads
    (h : ¬ ∃ chain : Nat → String, ∀ i, Leads c (chain i) (chain (i + 1))) :
    WellFounded (flip (Leads c)) :=
  wellFounded_iff_isEmpty_descending_chain.2 ⟨fun chain => h ⟨chain.1, chain.2⟩⟩

/-- **Names go on for ever only in a cycle**, as there are finitely many bindings. -/
theorem exists_chain_iff_exists_cycle :
    (∃ chain : Nat → String, ∀ i, Leads c (chain i) (chain (i + 1))) ↔
      ∃ name, Relation.TransGen (Leads c) name name := by
  constructor
  · rintro ⟨chain, h⟩
    have hbound : ∀ i, chain i ∈ (c.scopes.flatMap Scope.bindings).map Prod.fst := by
      intro i
      obtain ⟨identity, body, hbinding, -⟩ := (h i).exists_binding
      exact List.mem_map.2 ⟨_, hbinding, rfl⟩
    -- one of the finitely many names comes twice
    obtain ⟨i, j, hlt, heq⟩ :=
      Set.Finite.exists_lt_map_eq_of_forall_mem hbound (List.finite_toSet _)
    have hpath : Relation.TransGen (Leads c) (chain i) (chain j) :=
      Nat.rel_of_forall_rel_succ_of_lt _ (fun n => .single (h n)) hlt
    exact ⟨chain i, heq ▸ hpath⟩
  · rintro ⟨name, hcycle⟩
    by_contra h
    have hwf : WellFounded (Relation.TransGen (flip (Leads c))) := (wellFounded_leads h).transGen
    exact hwf.irrefl.irrefl name (Relation.transGen_swap.2 hcycle)

/-! ## Evaluations that do not reach the limit -/

/-- With this limit of the depth, the evaluation of the tree ends with a value or an error, from
whatever journal it is run. -/
def EndsWithin (host : Host) (scopes : Context) (depth : Nat) (node : Node) : Prop :=
  Ensures (Value.HostFunctionsIn fun _ => False) (· ≠ .exhausted) (eval host scopes depth node)

/-- The run of an evaluation that does not reach the limit has an outcome. -/
theorem EndsWithin.exists_outcome (h : EndsWithin host scopes depth node) (journal : Journal) :
    ∃ outcome : Except EvalError Value × Journal,
      (eval host scopes depth node).runFrom journal = (outcome.1.mapError .failed, outcome.2) := by
  cases hrun : (eval host scopes depth node).runFrom journal with
  | mk result after =>
    match result, hrun with
    | .ok v, hrun => exact ⟨(.ok v, after), rfl⟩
    | .error (.failed error), hrun => exact ⟨(.error error, after), rfl⟩
    | .error .exhausted, hrun => exact absurd rfl (h.halt hrun)

/-- With a higher limit, it ends the same. -/
theorem EndsWithin.runFrom_eq (hle : depth ≤ depth') (h : EndsWithin host scopes depth node)
    (journal : Journal) :
    (eval host scopes depth' node).runFrom journal =
      (eval host scopes depth node).runFrom journal := by
  obtain ⟨outcome, hrun⟩ := h.exists_outcome journal
  rw [hrun]
  exact (within_eval_of_le hle node).runFrom_eq hrun

theorem EndsWithin.of_le (hle : depth ≤ depth') (h : EndsWithin host scopes depth node) :
    EndsWithin host scopes depth' node := by
  refine ⟨fun hrun => ?_, fun hrun => ?_⟩
  · rw [h.runFrom_eq hle] at hrun
    exact h.value hrun
  · rw [h.runFrom_eq hle] at hrun
    exact h.halt hrun

/-- One limit does for several trees. -/
theorem exists_endsWithin_forall {nodes : List Node}
    (h : ∀ node ∈ nodes, ∃ depth, EndsWithin host scopes depth node) :
    ∃ depth, ∀ node ∈ nodes, EndsWithin host scopes depth node := by
  induction nodes with
  | nil => exact ⟨0, fun node hnode => absurd hnode List.not_mem_nil⟩
  | cons first nodes ih =>
    obtain ⟨depth, hfirst⟩ := h first (List.mem_cons_self ..)
    obtain ⟨depth', hnodes⟩ := ih fun node hnode => h node (List.mem_cons_of_mem _ hnode)
    refine ⟨max depth depth', fun node hnode => ?_⟩
    rcases List.mem_cons.1 hnode with rfl | hnode
    · exact hfirst.of_le (Nat.le_max_left ..)
    · exact (hnodes node hnode).of_le (Nat.le_max_right ..)

/-! ## One level, and all levels -/

/-- No function of the host is called under scopes without any. -/
theorem endsWithin_succ (hscopes : scopes.HostFunctionsIn fun _ => False)
    (hparts : ∀ part ∈ node.parts, EndsWithin host scopes depth part)
    (hbody : ∀ name identity body, node = .reference name →
      scopes.lookup? name.lexeme = some (.deferred identity body) →
      EndsWithin host scopes depth body) :
    EndsWithin host scopes (depth + 1) node := by
  have hhost : host.Confines fun _ => False := fun _ hidentity => hidentity.elim
  refine ensures_eval_succ hhost hscopes (fun error => ?_) hparts hbody
  exact fun h => Halt.noConfusion h

/-- The evaluation of a tree ends if those of the deferred trees do that its names are bound to. -/
theorem exists_endsWithin (hscopes : scopes.HostFunctionsIn fun _ => False)
    (hnames : ∀ name ∈ node.names, ∀ identity body,
      scopes.lookup? name = some (.deferred identity body) →
      ∃ depth, EndsWithin host scopes depth body) :
    ∃ depth, EndsWithin host scopes depth node := by
  induction node using Node.parts_induction with
  | h node ih =>
    obtain ⟨depth, hparts⟩ := exists_endsWithin_forall fun part hpart =>
      ih part hpart fun name hname => hnames name (Node.names_subset_of_mem_parts hpart hname)
    -- only a name has a deferred tree behind it, and then it has no parts
    by_cases hdeferred : ∃ name identity body, node = .reference name ∧
        scopes.lookup? name.lexeme = some (.deferred identity body)
    · obtain ⟨name, identity, body, rfl, hlookup⟩ := hdeferred
      obtain ⟨depth', hbody⟩ := hnames _ (List.mem_singleton_self _) identity body hlookup
      refine ⟨depth' + 1, endsWithin_succ hscopes (fun part hpart => nomatch hpart) ?_⟩
      intro name' identity' body' hname' hlookup'
      cases hname'
      rw [hlookup] at hlookup'
      cases hlookup'
      exact hbody
    · refine ⟨depth + 1, endsWithin_succ hscopes hparts ?_⟩
      intro name identity body hname hlookup
      exact absurd ⟨name, identity, body, hname, hlookup⟩ hdeferred

/-! ## Bindings without cycles -/

/-- A tree that a name is bound to ends if no infinite chain starts from the name. The induction is
on the names behind it. -/
theorem exists_endsWithin_of_acc (hc : c.HostFunctionsIn fun _ => False) {name : String}
    (hname : Acc (flip (Leads c)) name) :
    ∀ identity body, c.lookup? name = some (.deferred identity body) →
      ∃ depth, EndsWithin host (Context.withBuiltins (some c)) depth body := by
  induction hname with
  | intro name _ ih =>
    intro identity body hlookup
    refine exists_endsWithin (Context.hostFunctionsIn_withBuiltins hc) ?_
    intro other hother identity' body' hlookup'
    exact ih other ⟨identity, body, hlookup, hother⟩ identity' body'
      (Context.lookup?_withBuiltins_eq_deferred_iff.1 hlookup')

/-- **Evaluations end if the bindings have no cycles.** If no infinite chain of names leads through
deferred trees, and nothing but builtin functions and classes can be called, then every tree has a
depth at which its evaluation ends with a value or an error, from whatever journal it is run, and
every greater limit of the depth gives the same outcome. -/
theorem exists_outcome_of_acyclic (hc : c.HostFunctionsIn fun _ => False)
    (hacyclic : ¬ ∃ chain : Nat → String, ∀ i, Leads c (chain i) (chain (i + 1)))
    (host : Host) (node : Node) :
    ∃ depth, ∀ journal, ∃ outcome : Except EvalError Value × Journal, ∀ deeper, depth ≤ deeper →
      (eval host (Context.withBuiltins (some c)) deeper node).runFrom journal =
        (outcome.1.mapError .failed, outcome.2) := by
  have hwf := wellFounded_leads hacyclic
  obtain ⟨depth, hends⟩ : ∃ depth, EndsWithin host (Context.withBuiltins (some c)) depth node :=
    exists_endsWithin (Context.hostFunctionsIn_withBuiltins hc) fun name _ identity body hlookup =>
      exists_endsWithin_of_acc hc (hwf.apply name) identity body
        (Context.lookup?_withBuiltins_eq_deferred_iff.1 hlookup)
  refine ⟨depth, fun journal => ?_⟩
  obtain ⟨outcome, hrun⟩ := hends.exists_outcome journal
  exact ⟨outcome, fun deeper hle => (hends.runFrom_eq hle journal).trans hrun⟩

/-- A letter opens with a name that is deferred to another one. -/
def letter : Context :=
  .ofScope
    { name := "letter"
      bindings :=
        [("given", .text "A."), ("name", .deferred 0 (.reference ⟨.identifier, "given", 1⟩)),
          ("opening", .deferred 1
            (.call (.reference ⟨.identifier, "concat", 1⟩)
              [Node.ofText "Dear ", .reference ⟨.identifier, "name", 1⟩]))] }

theorem leads_letter {name other : String} (h : Leads letter name other) :
    name = "name" ∧ other = "given" ∨
      name = "opening" ∧ (other = "concat" ∨ other = "name") := by
  obtain ⟨identity, body, hbinding, hother⟩ := h.exists_binding
  have hbinding : (name, .deferred identity body) ∈ letter.innermost.bindings ++ [] := hbinding
  rw [List.append_nil] at hbinding
  rcases List.mem_cons.1 hbinding with h | hbinding
  · cases h
  rcases List.mem_cons.1 hbinding with h | hbinding
  · cases h
    exact .inl ⟨rfl, List.mem_singleton.1 hother⟩
  · cases List.mem_singleton.1 hbinding
    have hother : other ∈ ["concat", "name"] := hother
    rcases List.mem_cons.1 hother with h | hother
    · exact .inr ⟨rfl, .inl h⟩
    · exact .inr ⟨rfl, .inr (List.mem_singleton.1 hother)⟩

theorem exists_outcome_of_acyclic_letter :
    letter.HostFunctionsIn (fun _ => False) ∧
      (¬ ∃ chain : Nat → String, ∀ i, Leads letter (chain i) (chain (i + 1))) ∧
      ∃ depth, ∀ deeper, depth ≤ deeper →
        (eval Host.empty (Context.withBuiltins (some letter)) deeper
            (.reference ⟨.identifier, "opening", 1⟩)).runFrom Journal.new =
          (.ok (.text "Dear A."), Journal.new) := by
  have hc : letter.HostFunctionsIn fun _ => False := by
    intro scope hscope binding hbinding
    cases List.mem_singleton.1 hscope
    simp only [letter, Context.ofScope, List.mem_cons, List.not_mem_nil, or_false] at hbinding
    rcases hbinding with rfl | rfl | rfl <;> trivial
  have hacyclic : ¬ ∃ chain : Nat → String, ∀ i, Leads letter (chain i) (chain (i + 1)) := by
    rintro ⟨chain, h⟩
    -- the third name of a chain would have to lead on, and cannot
    rcases leads_letter (h 0) with ⟨-, h1⟩ | ⟨-, h1 | h1⟩ <;>
      rcases leads_letter (h 1) with ⟨hname, h2⟩ | ⟨hname, -⟩ <;> simp [h1] at hname
    rcases leads_letter (h 2) with ⟨hname, -⟩ | ⟨hname, -⟩ <;> simp [h2] at hname
  refine ⟨hc, hacyclic, ?_⟩
  obtain ⟨depth, hdepth⟩ := exists_outcome_of_acyclic hc hacyclic Host.empty
    (.reference ⟨.identifier, "opening", 1⟩)
  obtain ⟨outcome, hrun⟩ := hdepth Journal.new
  have hopening : outcome = (.ok (.text "Dear A."), Journal.new) :=
    ComesTo.unique ⟨depth, hrun depth (Nat.le_refl _)⟩ ⟨4, rfl⟩
  refine ⟨depth, fun deeper hle => ?_⟩
  rw [hrun deeper hle, hopening]
  rfl

end Splice
