import Splice.Routine
import Splice.Proofs.Chains
import Splice.Proofs.Evaluation
import Splice.Proofs.Wrapping

/-!
# `Splice.Proofs.Deferral` — deferred trees stay behind their names

A name may be bound to a deferred tree, and to look the name up is to evaluate the tree. If deferred
trees stand nowhere else, no evaluation comes to one, nor to a value that holds one: not what is
looked up, not what is taken out of lists, maps and instances, not what functions return.

A function of the host has to do its part. What it returns must not hold deferred trees, provided
that nothing it evaluates does so. It may return other functions, which can be called in turn, and
so the same is asked of these.

## Contents
- `Value.DeferredFree`, `Value.Settled`: values that hold no deferred trees.
- `Host.Settles`: functions of the host that return none.
- `Routine.Settling`, `Host.settles_ofObjects`: ready-made functions that do so.
- `Context.DefersNamesOnly`: scopes with deferred trees behind names alone.
- `ensures_eval_settled`: the evaluation of a tree, by induction on its depth.
- `deferredFree_of_evaluate`: no value of a tree or of a text holds a deferred tree.
-/

namespace Splice

open EvalM (Ensures)

variable {identities : Nat → Prop} {host : Host} {scopes : Context} {context : Option Context}

/-! ## Values without deferred trees -/

namespace Value

/-- The value itself is not a deferred tree. -/
def Undeferred : Value → Prop
  | deferred .. => False
  | _ => True

/-- The value is not a deferred tree, and none stands in it, however deep. -/
def DeferredFree (v : Value) : Prop := v.Everywhere Undeferred

/-- The value holds no deferred trees, and of the functions of the host none but those with the
given identities. -/
def Settled (identities : Nat → Prop) (v : Value) : Prop :=
  v.DeferredFree ∧ v.HostFunctionsIn identities

/-- A value is settled if everything is that stands in it. -/
theorem settled_eq_everywhere (identities : Nat → Prop) :
    ∃ p, Settled identities = Everywhere p := by
  exact ⟨_, funext fun v => propext (everywhere_and v).symm⟩

theorem settled_builtin (b : Builtin) : (function (.builtin b)).Settled identities :=
  ⟨trivial, trivial⟩

end Value

/-! ## What the host has to do -/

/-- The functions of the host with these identities return settled values, wherever everything that
they evaluate comes to settled values. -/
def Host.Settles (host : Host) (identities : Nat → Prop) (scopes : Context) : Prop :=
  ∀ identity, identities identity →
    ∀ (evaluate : Node → EvalM Value) (arguments : List Node),
      (∀ node, Ensures (Value.Settled identities) (fun _ => True) (evaluate node)) →
      Ensures (Value.Settled identities) (fun _ => True)
        ((host.routine identity arguments.length).perform evaluate scopes arguments)

/-- A ready-made function that returns settled values: it may force a deferred tree, but it must not
return one, nor ask what a name is bound to. -/
def Routine.Settling (identities : Nat → Prop) : Routine → Prop
  | constant v => v.Settled identities
  | force v | traced v => (∃ identity node, v = .deferred identity node) ∨ v.Settled identities
  | lookup => False
  | _ => True

section Performing

variable {evaluate : Node → EvalM Value} {arguments : List Node}

/-- What is confined to settled values ends with one, given arguments that do. -/
theorem ensures_perform_settled {action : Action Value}
    (haction : ∀ p, action.Confined (Value.Everywhere p) (Value.Everywhere p))
    (hargs : ∀ node ∈ arguments,
      Ensures (Value.Settled identities) (fun _ => True) (evaluate node)) :
    Ensures (Value.Settled identities) (fun _ => True)
      (action.perform evaluate scopes arguments) := by
  obtain ⟨p, hp⟩ := Value.settled_eq_everywhere identities
  rw [hp] at hargs ⊢
  exact Action.ensures_perform (haction p) trivial (fun _ => trivial) hargs

/-- To force a value is to evaluate it if it is deferred. -/
theorem ensures_perform_force
    (hevaluate : ∀ node, Ensures (Value.Settled identities) (fun _ => True) (evaluate node))
    {v : Value} (hv : (∃ identity node, v = .deferred identity node) ∨ v.Settled identities) :
    Ensures (Value.Settled identities) (fun _ => True)
      ((Action.force v).perform evaluate scopes arguments) := by
  rcases hv with ⟨identity, node, rfl⟩ | hv
  · exact .bind (hevaluate node) fun w hw => .pure hw
  · cases v with
    | deferred identity node => exact hv.1.elim
    | _ => exact .pure hv

theorem Routine.ensures_perform_action {routine : Routine} (hroutine : routine.Settling identities)
    (hevaluate : ∀ node, Ensures (Value.Settled identities) (fun _ => True) (evaluate node))
    (identity : Nat) (name : String) :
    Ensures (Value.Settled identities) (fun _ => True)
      ((routine.action identity name arguments.length).perform evaluate scopes arguments) := by
  have hargs : ∀ node ∈ arguments,
      Ensures (Value.Settled identities) (fun _ => True) (evaluate node) := by
    intro node _
    exact hevaluate node
  cases routine with
  | constant v => exact .pure hroutine
  | argument position => exact ensures_perform_settled (fun p v hv => hv) hargs
  | all =>
    refine ensures_perform_settled ?_ hargs
    intro p
    refine Action.confined_readAll ?_
    intro vs hvs
    exact Value.everywhere_list.2 hvs
  | count => exact ensures_perform_settled (fun p => trivial) hargs
  | failure message => exact ensures_perform_settled (fun p => trivial) hargs
  | force v => exact ensures_perform_force hevaluate hroutine
  | traced v =>
    refine .bind (.liftM (modify (Journal.emit name))) ?_
    intro _ _
    exact ensures_perform_force hevaluate hroutine
  | tally => exact ensures_perform_settled (fun p n => trivial) hargs
  | lookup => exact hroutine.elim
  | scopes =>
    -- the names of the scopes are texts
    have hnames : (Value.list (scopes.scopeNames.map .text)).Settled identities := by
      constructor
      · refine Value.everywhere_list.2 ?_
        intro v hv
        obtain ⟨name, -, rfl⟩ := List.mem_map.1 hv
        trivial
      · refine Value.everywhere_list.2 ?_
        intro v hv
        obtain ⟨name, -, rfl⟩ := List.mem_map.1 hv
        trivial
    exact .pure hnames
  | expect expected =>
    refine ensures_perform_settled ?_ hargs
    intro p
    exact Action.confined_expect trivial

end Performing

/-- A host settles what its functions return if each of them is one that does. -/
theorem Host.settles_ofObjects {functions : List (Nat × String × Routine)}
    {literals : List (Nat × Supplier)}
    (h : ∀ entry ∈ functions, entry.2.2.Settling identities) :
    (Host.ofObjects functions literals).Settles identities scopes := by
  intro identity _ evaluate arguments hevaluate
  dsimp only [Host.ofObjects]
  split
  · next name routine hlookup =>
    obtain ⟨earlier, later, hfunctions, -⟩ := List.lookup_eq_some_iff.1 hlookup
    have hmem : (identity, name, routine) ∈ functions := by
      rw [hfunctions]
      exact List.mem_append_right earlier (List.mem_cons_self ..)
    exact Routine.ensures_perform_action (h _ hmem) hevaluate identity name
  · exact .pure ⟨trivial, trivial⟩

/-! ## Deferred trees behind names alone -/

/-- Every name of the host is bound to a deferred tree or to a settled value. -/
def Context.DefersNamesOnly (identities : Nat → Prop) (context : Option Context) : Prop :=
  ∀ scope ∈ hostScopes context, ∀ binding ∈ scope.bindings,
    (∃ identity body, binding.2 = .deferred identity body) ∨ binding.2.Settled identities

/-- A name that is not bound to a deferred tree is bound to a settled value. -/
theorem Context.settled_of_lookup? {key : String} {v : Value}
    (hcontext : DefersNamesOnly identities context)
    (hlookup : (withBuiltins context).lookup? key = some v)
    (hnot : ∀ identity body, v ≠ .deferred identity body) : v.Settled identities := by
  obtain ⟨scope, hscope, hv⟩ := List.exists_of_findSome?_eq_some hlookup
  obtain ⟨binding, hbinding, rfl⟩ := Value.mem_of_lookup hv
  rw [scopes_withBuiltins] at hscope
  rcases List.mem_append.1 hscope with hscope | hscope
  · rcases hcontext scope hscope binding hbinding with ⟨identity, body, hdeferred⟩ | hsettled
    · exact absurd hdeferred (hnot identity body)
    · exact hsettled
  · cases List.mem_singleton.1 hscope
    obtain ⟨b, hb⟩ := eq_builtin_of_mem_bindings hbinding
    rw [hb]
    exact Value.settled_builtin b

/-! ## No evaluation comes to a deferred tree -/

/-- A call comes to a settled value if its arguments do, and so does whatever else a function of the
host evaluates. -/
theorem ensures_call_settled {evaluate : Node → EvalM Value} {arguments : List Node}
    (hhost : host.Settles identities scopes) {f : Function}
    (hf : (Value.function f).Settled identities)
    (hevaluate : ∀ node, Ensures (Value.Settled identities) (fun _ => True) (evaluate node)) :
    Ensures (Value.Settled identities) (fun _ => True)
      ((f.action host arguments.length).perform evaluate scopes arguments) := by
  cases f with
  | builtin b =>
    refine ensures_perform_settled ?_ ?_
    · exact b.confined_action arguments.length
    · intro node _
      exact hevaluate node
  | host identity name arity =>
    have hidentity : identities identity := hf.2
    exact hhost identity hidentity evaluate arguments hevaluate

/-- Every tree comes to a settled value, if it comes to any. The induction is on the depth, since
calls and names lead to trees that are no parts of the tree. -/
theorem ensures_eval_settled (hcontext : Context.DefersNamesOnly identities context)
    (hhost : host.Settles identities (Context.withBuiltins context)) (depth : Nat) (node : Node) :
    Ensures (Value.Settled identities) (fun _ => True)
      (eval host (Context.withBuiltins context) depth node) := by
  induction depth generalizing node with
  | zero => exact .throw trivial
  | succ depth ih =>
    obtain ⟨p, hp⟩ := Value.settled_eq_everywhere identities
    have hbound : ∀ key v, (Context.withBuiltins context).lookup? key = some v →
        (∀ identity body, v ≠ .deferred identity body) → v.Everywhere p := by
      intro key v hlookup hnot
      rw [← hp]
      exact Context.settled_of_lookup? hcontext hlookup hnot
    have hcall : ∀ (f : Function) (arguments : List Node), p (.function f) →
        Ensures (Value.Everywhere p) (fun _ => True) ((f.action host arguments.length).perform
          (eval host (Context.withBuiltins context) depth) (Context.withBuiltins context)
          arguments) := by
      intro f arguments hf
      have hsettled : (Value.function f).Settled identities := by
        rw [hp]
        exact hf
      rw [← hp]
      exact ensures_call_settled hhost hsettled ih
    rw [hp] at ih ⊢
    refine ensures_eval_succ_of_calls (fun _ => trivial) ?_ hbound ?_ ?_
    · intro f arguments hf _
      exact hcall f arguments hf
    · intro part _
      exact ih part
    · intro _ _ body _ _
      exact ih body

/-- **Deferred trees never leak.** Let every name of the host be bound to a deferred tree or to a
value that holds none, and let its functions return no deferred trees, provided that nothing they
evaluate comes to one. Then no tree comes to a value that holds a deferred tree at any place, and no
text does so. -/
theorem deferredFree_of_evaluate (hcontext : Context.DefersNamesOnly identities context)
    (hhost : host.Settles identities (Context.withBuiltins context)) :
    (∀ depth node journal v after,
      (eval host (Context.withBuiltins context) depth node).runFrom journal = (.ok v, after) →
      v.DeferredFree) ∧
    ∀ source journal v after, evaluate host context source journal = (.ok v, after) →
      v.DeferredFree := by
  have heval : ∀ depth node journal v after,
      (eval host (Context.withBuiltins context) depth node).runFrom journal = (.ok v, after) →
      v.DeferredFree := by
    intro depth node journal v after hrun
    have hsettled : v.Settled identities :=
      (ensures_eval_settled hcontext hhost depth node).value hrun
    exact hsettled.1
  refine ⟨heval, ?_⟩
  intro source journal v after h
  obtain ⟨node, -, hrun⟩ := evaluate_eq_ok_iff.1 h
  exact heval depthLimit node journal v after hrun

/-- An order with a total that is deferred to the price, a class of rows, and a function of the host
that lists its arguments. -/
def order : Context :=
  .ofScope
    { name := "order"
      bindings :=
        [("price", .integer 5), ("total", .deferred 0 (.reference ⟨.identifier, "price", 1⟩)),
          ("Row", .ofClass 1 "Row" [("size", .integer 2)] []),
          ("pair", .function (.host 2 "pair" 2))] }

/-- The host of the order. -/
def orderHost : Host := Host.ofObjects [(2, "pair", .all)] []

/-- The total of the order and the size of a row, paired. -/
def orderPair : Node :=
  .call (.reference ⟨.identifier, "pair", 1⟩)
    [.reference ⟨.identifier, "total", 1⟩,
      .access (.call (.reference ⟨.identifier, "Row", 1⟩) []) ⟨.identifier, "size", 1⟩]

theorem deferredFree_of_evaluate_order :
    Context.DefersNamesOnly (fun identity => identity = 2) (some order) ∧
    orderHost.Settles (fun identity => identity = 2) (Context.withBuiltins (some order)) ∧
    ∃ v after,
      (eval orderHost (Context.withBuiltins (some order)) 4 orderPair).runFrom Journal.new =
        (.ok v, after) ∧
      v = .list [.integer 5, .integer 2] ∧ v.DeferredFree := by
  have hcontext : Context.DefersNamesOnly (fun identity => identity = 2) (some order) := by
    intro scope hscope binding hbinding
    cases List.mem_singleton.1 hscope
    simp only [order, Context.ofScope, List.mem_cons, List.not_mem_nil, or_false] at hbinding
    rcases hbinding with rfl | rfl | rfl | rfl
    · exact .inr ⟨trivial, trivial⟩
    · exact .inl ⟨_, _, rfl⟩
    · -- the fields of the class are plain, and it has no methods
      refine .inr ⟨⟨⟨trivial, trivial⟩, ?_⟩, ⟨⟨trivial, trivial⟩, ?_⟩⟩
      · intro method hmethod
        exact absurd hmethod List.not_mem_nil
      · intro method hmethod
        exact absurd hmethod List.not_mem_nil
    · exact .inr ⟨trivial, rfl⟩
  have hhost : orderHost.Settles (fun identity => identity = 2)
      (Context.withBuiltins (some order)) := by
    refine Host.settles_ofObjects ?_
    intro entry hentry
    cases List.mem_singleton.1 hentry
    trivial
  have hrun : (eval orderHost (Context.withBuiltins (some order)) 4 orderPair).runFrom
      Journal.new = (.ok (.list [.integer 5, .integer 2]), Journal.new.freshIdentity.2) := rfl
  refine ⟨hcontext, hhost, _, _, hrun, rfl, ?_⟩
  exact (deferredFree_of_evaluate hcontext hhost).1 4 orderPair Journal.new _ _ hrun

end Splice
