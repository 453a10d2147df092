import Splice.Proofs.Contents
import Splice.Proofs.Runs

/-!
# `Splice.Proofs.Evaluation` — evaluations one level deep

To evaluate a tree is to evaluate its parts, one level less deep, and for a name that is bound to a
deferred tree to evaluate that tree. What holds of these evaluations is carried to the tree here,
once for what they end with and once for what two of them have in common. More depth never changes
what an evaluation comes to, and so a tree comes to one outcome at most.

## Contents
- `Action.ensures_perform`, `Action.within_perform`, `Action.perform_congr`: what a function does,
  by what its arguments do.
- `Node.parts`, `Node.SameHead`: the trees right below the head of a tree.
- `Host.Confines`: functions of the host that calls do not lead out of.
- `ensures_eval_succ_of_calls`, `ensures_eval_succ`, `within_eval_succ`: one level of an evaluation;
  `ensures_eval` is the second of them at every depth.
- `within_eval_of_le`: more depth only helps.
- `ComesTo`, `ComesTo.unique`: the outcome of a tree.
-/

namespace Splice

open EvalM (Ensures Within)

variable {α : Type} {host : Host} {scopes scopes' : Context}
  {evaluate evaluate' : Node → EvalM Value} {arguments arguments' : List Node}

/-! ## What a function does -/

namespace EvalM

theorem ensures_argument {p : Value → Prop} {q : Halt → Prop} (hnull : p .null)
    (h : ∀ node ∈ arguments, Ensures p q (evaluate node)) (position : Nat) :
    Ensures p q (argument evaluate arguments position) := by
  unfold argument
  split
  · next node hnode => exact h node (List.mem_of_getElem? hnode)
  · exact .pure hnull

theorem within_argument {alike : EvalError × Journal → EvalError × Journal → Prop}
    (h : List.Forall₂ (fun c d => Within alike (evaluate c) (evaluate' d)) arguments arguments')
    (position : Nat) :
    Within alike (argument evaluate arguments position)
      (argument evaluate' arguments' position) := by
  induction h generalizing position with
  | nil => exact .pure Value.null
  | cons hhead _ ih =>
    cases position with
    | zero => exact hhead
    | succ position => exact ih position

theorem argument_congr (h : ∀ node ∈ arguments, evaluate node = evaluate' node) (position : Nat) :
    argument evaluate arguments position = argument evaluate' arguments position := by
  unfold argument
  split
  · next node hnode => exact h node (List.mem_of_getElem? hnode)
  · rfl

end EvalM

namespace Action

variable {p : Value → Prop} {q : α → Prop} {action : Action α}

/-- A confined action ends with what it is confined to, or with a halt of an argument or of its
own. -/
theorem ensures_perform {stops : Halt → Prop} (hc : action.Confined p q) (hnull : p .null)
    (hfailed : ∀ error, stops (.failed error))
    (hargs : ∀ node ∈ arguments, Ensures p stops (evaluate node)) :
    Ensures q stops (action.perform evaluate scopes arguments) := by
  induction action with
  | done result => exact .pure hc
  | fail error => exact .throw (hfailed error)
  | argument position next ih =>
    exact .bind (EvalM.ensures_argument hnull hargs position) fun v hv => ih v (hc v hv)
  | evaluate node next ih => exact hc.elim
  | emit label next ih => exact .bind (.liftM (modify (Journal.emit label))) fun _ _ => ih hc
  | tally identity next ih =>
    exact .bind (.liftM (modifyGet (Journal.use identity))) fun n _ => ih n (hc n)
  | context next ih => exact hc.elim

/-- An action does the same with arguments that come to the same. -/
theorem within_perform {alike : EvalError × Journal → EvalError × Journal → Prop}
    (hrefl : ∀ outcome, alike outcome outcome)
    (hnodes : ∀ node, Within alike (evaluate node) (evaluate' node))
    (hargs : List.Forall₂ (fun c d => Within alike (evaluate c) (evaluate' d)) arguments arguments')
    (action : Action α) :
    Within alike (action.perform evaluate scopes arguments)
      (action.perform evaluate' scopes arguments') := by
  induction action with
  | done result => exact .pure result
  | fail error => exact .refl hrefl _
  | argument position next ih => exact .bind (EvalM.within_argument hargs position) ih
  | evaluate node next ih => exact .bind (hnodes node) ih
  | emit label next ih => exact .bind (.refl hrefl _) fun _ => ih
  | tally identity next ih => exact .bind (.refl hrefl _) ih
  | context next ih => exact ih scopes

/-- A confined action does not depend on the scopes otherwise than by its arguments. -/
theorem perform_congr (hc : action.Confined p q) (hnull : p .null)
    (hargs : ∀ node ∈ arguments, evaluate node = evaluate' node)
    (hp : ∀ node ∈ arguments, Ensures p (fun _ => True) (evaluate node)) :
    action.perform evaluate scopes arguments = action.perform evaluate' scopes' arguments := by
  induction action with
  | done result => rfl
  | fail error => rfl
  | argument position next ih =>
    exact EvalM.bind_congr (EvalM.argument_congr hargs position)
      (EvalM.ensures_argument hnull hp position) fun v hv => ih v (hc v hv)
  | evaluate node next ih => exact hc.elim
  | emit label next ih =>
    exact EvalM.bind_congr rfl (.liftM (modify (Journal.emit label))) fun _ _ => ih hc
  | tally identity next ih =>
    exact EvalM.bind_congr rfl (.liftM (modifyGet (Journal.use identity))) fun n _ => ih n (hc n)
  | context next ih => exact hc.elim

end Action

/-! ## The parts of a tree -/

namespace Node

/-- The trees right below the head of a tree. -/
def parts : Node → List Node
  | program body => [body]
  | call callee arguments => callee :: arguments
  | access target _ => [target]
  | template parts => parts
  | number _ | text _ | boolean _ | reference _ => []

theorem sizeOf_lt_of_mem_parts {node part : Node} (h : part ∈ node.parts) :
    sizeOf part < sizeOf node := by
  cases node with
  | program body =>
    cases List.mem_singleton.1 h
    simp
  | call callee arguments =>
    rcases List.mem_cons.1 h with rfl | h
    · simp only [call.sizeOf_spec]
      omega
    · have := List.sizeOf_lt_of_mem h
      simp only [call.sizeOf_spec]
      omega
  | access target field =>
    cases List.mem_singleton.1 h
    simp only [access.sizeOf_spec]
    omega
  | template nodes =>
    have : sizeOf part < sizeOf nodes := List.sizeOf_lt_of_mem h
    simp only [template.sizeOf_spec]
    omega
  | _ => cases h

/-- What holds of a tree if it holds of its parts holds of every tree. -/
@[elab_as_elim] theorem parts_induction {motive : Node → Prop}
    (h : ∀ node, (∀ part ∈ node.parts, motive part) → motive node) (node : Node) : motive node :=
  h node fun part _hpart => parts_induction h part
termination_by sizeOf node
decreasing_by exact sizeOf_lt_of_mem_parts _hpart

/-- Two trees have the same head, and their parts are related one by one. -/
inductive SameHead (related : Node → Node → Prop) : Node → Node → Prop
  | program {body body' : Node} (h : related body body') :
      SameHead related (.program body) (.program body')
  | number (literal : Literal Number) : SameHead related (.number literal) (.number literal)
  | text (literal : Literal String) : SameHead related (.text literal) (.text literal)
  | boolean (token : Token) : SameHead related (.boolean token) (.boolean token)
  | reference (name : Token) : SameHead related (.reference name) (.reference name)
  | call {callee callee' : Node} {arguments arguments' : List Node} (h : related callee callee')
      (hs : List.Forall₂ related arguments arguments') :
      SameHead related (.call callee arguments) (.call callee' arguments')
  | access {target target' : Node} (field : Token) (h : related target target') :
      SameHead related (.access target field) (.access target' field)
  | template {parts parts' : List Node} (hs : List.Forall₂ related parts parts') :
      SameHead related (.template parts) (.template parts')

theorem SameHead.refl {related : Node → Node → Prop} (h : ∀ node, related node node)
    (node : Node) : SameHead related node node := by
  have hs : ∀ nodes : List Node, List.Forall₂ related nodes nodes :=
    fun nodes => List.forall₂_same.2 fun node _ => h node
  cases node with
  | program body => exact .program (h body)
  | number literal => exact .number literal
  | text literal => exact .text literal
  | boolean token => exact .boolean token
  | reference name => exact .reference name
  | call callee arguments => exact .call (h callee) (hs arguments)
  | access target field => exact .access field (h target)
  | template parts => exact .template (hs parts)

end Node

/-! ## One level of an evaluation -/

/-- The functions of the host with these identities deal with nothing but their arguments, and what
they return holds no functions of the host but such ones, if their arguments hold no others. -/
def Host.Confines (host : Host) (identities : Nat → Prop) : Prop :=
  ∀ identity, identities identity → ∀ found, (host.routine identity found).Confined
    (Value.HostFunctionsIn identities) (Value.HostFunctionsIn identities)

variable {identities : Nat → Prop} {depth : Nat} {node : Node}

theorem Function.confined_action (hhost : host.Confines identities) {f : Function}
    (hf : (Value.function f).HostFunctionsIn identities) (found : Nat) :
    (f.action host found).Confined (Value.HostFunctionsIn identities)
      (Value.HostFunctionsIn identities) := by
  cases f with
  | builtin b => exact b.confined_action found _
  | host identity name arity => exact hhost identity hf found

/-- What holds everywhere in the values of the parts of a tree, and of the tree that a name is bound
to, holds everywhere in the value of the tree, if it does so for calls and for what names are bound
to otherwise. -/
theorem ensures_eval_succ_of_calls {p : Value → Prop} {stops : Halt → Prop}
    (hfailed : ∀ error, stops (.failed error))
    (hcall : ∀ (f : Function) (arguments : List Node), p (.function f) →
      (∀ argument ∈ arguments,
        Ensures (Value.Everywhere p) stops (eval host scopes depth argument)) →
      Ensures (Value.Everywhere p) stops
        ((f.action host arguments.length).perform (eval host scopes depth) scopes arguments))
    (hbound : ∀ key v, scopes.lookup? key = some v →
      (∀ identity body, v ≠ .deferred identity body) → v.Everywhere p)
    (hparts : ∀ part ∈ node.parts, Ensures (Value.Everywhere p) stops (eval host scopes depth part))
    (hbody : ∀ name identity body, node = .reference name →
      scopes.lookup? name.lexeme = some (.deferred identity body) →
      Ensures (Value.Everywhere p) stops (eval host scopes depth body)) :
    Ensures (Value.Everywhere p) stops (eval host scopes (depth + 1) node) := by
  cases node with
  | program body => exact hparts body (List.mem_singleton_self body)
  | number literal =>
    refine .bind (.liftM (literal.read host.number)) fun number _ => .pure ?_
    cases number <;> trivial
  | text literal => exact .bind (.liftM (literal.read host.text)) fun _ _ => .pure trivial
  | boolean token => exact .pure (Value.everywhere_ofOption_map fun _ => trivial)
  | reference name =>
    rw [eval]
    split
    · exact .throw (hfailed _)
    · next identity body hlookup => exact hbody name identity body rfl hlookup
    · next v hnot hlookup => exact .pure (hbound name.lexeme v hlookup hnot)
  | call callee arguments =>
    refine .bind (hparts callee (List.mem_cons_self ..)) fun called hcalled => ?_
    cases called with
    | function f =>
      refine hcall f arguments hcalled ?_
      exact fun argument hmem => hparts argument (List.mem_cons_of_mem _ hmem)
    | ofClass _ name fields methods =>
      exact .bind (.liftM (modifyGet Journal.freshIdentity)) fun _ _ => .pure hcalled
    | _ => exact .bind (.liftM (callee.settle host)) fun _ _ => .throw (hfailed _)
  | access target field =>
    refine .bind (hparts target (List.mem_singleton_self target)) fun v hv => ?_
    split
    · next property hproperty => exact .pure (Value.everywhere_property hv hproperty)
    · exact .throw (hfailed _)
  | template parts => exact .bind (.mapM hparts) fun _ _ => .pure trivial

/-- What the parts of a tree, and the tree that a name is bound to, end with is what the tree ends
with, if functions of the host are confined. -/
theorem ensures_eval_succ {stops : Halt → Prop} (hhost : host.Confines identities)
    (hscopes : scopes.HostFunctionsIn identities) (hfailed : ∀ error, stops (.failed error))
    (hparts : ∀ part ∈ node.parts,
      Ensures (Value.HostFunctionsIn identities) stops (eval host scopes depth part))
    (hbody : ∀ name identity body, node = .reference name →
      scopes.lookup? name.lexeme = some (.deferred identity body) →
      Ensures (Value.HostFunctionsIn identities) stops (eval host scopes depth body)) :
    Ensures (Value.HostFunctionsIn identities) stops (eval host scopes (depth + 1) node) := by
  refine ensures_eval_succ_of_calls hfailed ?_ ?_ hparts hbody
  · -- what the callee comes to holds no other functions of the host, so its action is confined
    intro f arguments hf hargs
    exact Action.ensures_perform (f.confined_action hhost hf _) trivial hfailed hargs
  · intro key v hlookup _
    exact Context.hostFunctionsIn_lookup hscopes hlookup

/-- No evaluation leads out of the functions of the host that its scopes hold. -/
theorem ensures_eval (hhost : host.Confines identities)
    (hscopes : scopes.HostFunctionsIn identities) (depth : Nat) (node : Node) :
    Ensures (Value.HostFunctionsIn identities) (fun _ => True) (eval host scopes depth node) := by
  induction depth generalizing node with
  | zero => exact .throw trivial
  | succ depth ih =>
    exact ensures_eval_succ hhost hscopes (fun _ => trivial) (fun part _ => ih part)
      fun _ _ body _ _ => ih body

/-- Trees with the same head come to the same if their parts do, and if errors about parts that
cannot be called are alike. -/
theorem within_eval_succ {alike : EvalError × Journal → EvalError × Journal → Prop}
    {related : Node → Node → Prop} {depth' : Nat} {node' : Node}
    (hrefl : ∀ outcome, alike outcome outcome)
    (hcallee : ∀ callee callee' typeName journal, related callee callee' →
      alike (((callee.settle host).map fun c => .invalidCallee c.print typeName).run journal)
        (((callee'.settle host).map fun c => .invalidCallee c.print typeName).run journal))
    (hnodes : ∀ node, Within alike (eval host scopes depth node) (eval host scopes depth' node))
    (hrelated : ∀ node node', related node node' →
      Within alike (eval host scopes depth node) (eval host scopes depth' node'))
    (h : node.SameHead related node') :
    Within alike (eval host scopes (depth + 1) node) (eval host scopes (depth' + 1) node') := by
  cases h with
  | program h => exact hrelated _ _ h
  | number literal => exact .refl hrefl _
  | text literal => exact .refl hrefl _
  | boolean token => exact .refl hrefl _
  | reference name =>
    rw [eval, eval]
    split
    · exact .refl hrefl _
    · exact hnodes _
    · exact .refl hrefl _
  | @call callee callee' arguments arguments' h hs =>
    refine .bind (hrelated _ _ h) fun called => ?_
    -- both call the same, with as many arguments; only an error tells the two callees apart
    cases called with
    | function f =>
      have hargs := hs.imp fun c d => hrelated c d
      dsimp only
      rw [hs.length_eq]
      exact Action.within_perform hrefl hnodes hargs _
    | ofClass _ name fields methods => exact .refl hrefl _
    | _ => exact .fail fun journal => hcallee callee callee' _ journal h
  | access field h =>
    exact .bind (hrelated _ _ h) fun v => .refl hrefl _
  | template hs =>
    have hparts := hs.imp fun c d => hrelated c d
    exact .bind (.mapM hparts) fun values => .pure _

/-! ## More depth -/

theorem within_eval_succ_self (depth : Nat) (node : Node) :
    Within Eq (eval host scopes depth node) (eval host scopes (depth + 1) node) := by
  induction depth generalizing node with
  | zero => exact .exhausted _
  | succ depth ih =>
    have hself : node.SameHead Eq node := .refl (fun _ => rfl) node
    refine within_eval_succ (fun _ => rfl) ?_ ih ?_ hself
    · rintro callee _ typeName journal rfl
      rfl
    · rintro node _ rfl
      exact ih node

/-- More depth never changes what an evaluation comes to. -/
theorem within_eval_of_le {depth' : Nat} (h : depth ≤ depth') (node : Node) :
    Within Eq (eval host scopes depth node) (eval host scopes depth' node) := by
  induction h with
  | refl => exact .refl (fun _ => rfl) _
  | step _ ih => exact ih.trans (within_eval_succ_self _ node)

/-- The outcome of a tree, a value or an error and the journal that is left behind: some depth is
enough for it to be reached. -/
def ComesTo (host : Host) (scopes : Context) (node : Node) (journal : Journal)
    (outcome : Except EvalError Value × Journal) : Prop :=
  ∃ depth, (eval host scopes depth node).runFrom journal =
    (outcome.1.mapError .failed, outcome.2)

theorem mapError_failed_injective {result result' : Except EvalError α}
    (h : result.mapError Halt.failed = result'.mapError Halt.failed) : result = result' := by
  cases result <;> cases result' <;> cases h <;> rfl

/-- A tree comes to one outcome at most. -/
theorem ComesTo.unique {journal : Journal} {outcome outcome' : Except EvalError Value × Journal}
    (h : ComesTo host scopes node journal outcome)
    (h' : ComesTo host scopes node journal outcome') : outcome = outcome' := by
  obtain ⟨depth, hrun⟩ := h
  obtain ⟨depth', hrun'⟩ := h'
  have hmax := (within_eval_of_le (Nat.le_max_left depth depth') node).runFrom_eq hrun
  have hmax' := (within_eval_of_le (Nat.le_max_right depth depth') node).runFrom_eq hrun'
  rw [hmax] at hmax'
  injection hmax' with hresult hafter
  exact Prod.ext (mapError_failed_injective hresult) hafter

end Splice
