import Splice.Proofs.Demand

/-!
# `Splice.Proofs.Choice` — a choice evaluates what it selects

The choice is the function that does not evaluate all that it is given. It evaluates its conditions
from left to right up to the first that is true, and then the value that belongs to it. What else
stands among its arguments may as well stand for anything.

## Contents
- `Passes`: conditions that are evaluated and turn out not to be true.
- `Settles`: how a choice ends behind the conditions that it has passed.
- `settles_chooseFrom`: every choice passes some conditions and then ends in one of these ways.
- `Builtin.choose_is_lazy`: how a call of the choice deals with its arguments.
-/

namespace Splice

variable {evaluate : Node → EvalM Value} {scopes : Context} {arguments : List Node}
  {journal between after : Journal} {position : Nat} {node : Node}

/-- The first `n` conditions from position `start` on are evaluated one after the other. All of them
have values, and none of these is true. -/
def Passes (evaluate : Node → EvalM Value) (arguments : List Node) (start n : Nat)
    (journal after : Journal) : Prop :=
  ∃ traces values,
    InTurn evaluate arguments (List.range' start n 2) journal traces values none after ∧
      ∀ v ∈ values, v ≠ .boolean true

/-- How a choice ends that has passed the conditions in front of `position` and has come to
`journal`: the positions that it still evaluates, and its outcome. -/
inductive Settles (evaluate : Node → EvalM Value) (arguments : List Node) (position : Nat)
    (journal : Journal) : (positions : List Nat) → (outcome : Except Halt Value × Journal) → Prop
  /-- The next condition halts, and so does the choice. -/
  | failing {condition : Node} {halt : Halt} {after : Journal}
      (hposition : position + 1 < arguments.length)
      (hcondition : arguments[position]? = some condition)
      (hrun : (evaluate condition).runFrom journal = (.error halt, after)) :
      Settles evaluate arguments position journal [position] (.error halt, after)
  /-- The next condition is true, and the choice is what the argument behind it is. -/
  | selected {condition node : Node} {between : Journal}
      (hcondition : arguments[position]? = some condition)
      (hrun : (evaluate condition).runFrom journal = (.ok (.boolean true), between))
      (hnode : arguments[position + 1]? = some node) :
      Settles evaluate arguments position journal [position, position + 1]
        ((evaluate node).runFrom between)
  /-- Only a value without a condition is left, and the choice is what that is. -/
  | fallback {node : Node} (hposition : position + 1 = arguments.length)
      (hnode : arguments[position]? = some node) :
      Settles evaluate arguments position journal [position] ((evaluate node).runFrom journal)
  /-- Nothing is left, and the choice is null. -/
  | nothing (hposition : position = arguments.length) :
      Settles evaluate arguments position journal [] (.ok .null, journal)

theorem Passes.none (journal : Journal) : Passes evaluate arguments position 0 journal journal :=
  ⟨[], [], .none, fun _ hv => absurd hv List.not_mem_nil⟩

/-- One more condition that is not true, in front of others. -/
theorem Passes.cons {n : Nat} {v : Value} {labels : List String} (hv : v ≠ .boolean true)
    (hnode : arguments[position]? = some node)
    (hrun : (evaluate node).runFrom journal = (.ok v, between))
    (htrace : between.trace = journal.trace ++ labels)
    (h : Passes evaluate arguments (position + 2) n between after) :
    Passes evaluate arguments position (n + 1) journal after := by
  obtain ⟨traces, values, hturn, hvalues⟩ := h
  refine ⟨labels :: traces, v :: values, ?_, ?_⟩
  · rw [List.range'_succ]
    exact .value hnode hrun htrace hturn
  · intro w hw
    rcases List.mem_cons.1 hw with rfl | hw
    · exact hv
    · exact hvalues w hw

theorem bool?_eq_some_true_iff {v : Value} : v.bool? = some true ↔ v = .boolean true := by
  cases v with
  | boolean b => simp only [Value.bool?, Option.some.injEq, Value.boolean.injEq]
  | _ => simp only [Value.bool?, reduceCtorEq]

namespace Catalogue

open EvalM (Appends)

/-- To read an argument is to evaluate it. -/
theorem perform_read (h : arguments[position]? = some node) :
    (Action.read position).perform evaluate scopes arguments = evaluate node :=
  (bind_pure _).trans (EvalM.argument_of_getElem? h)

theorem visited_read (h : arguments[position]? = some node) :
    (Action.read position).visited evaluate scopes arguments journal = [position] := by
  cases hrun : (evaluate node).runFrom journal with
  | mk result after =>
    cases result with
    | error halt => exact Action.visited_argument_of_error h hrun
    | ok v => exact Action.visited_argument_of_ok h hrun

/-- A choice passes the conditions that are not true, and then ends in one of four ways. It
evaluates these conditions and what it still evaluates behind them. -/
theorem settles_chooseFrom (scopes : Context) (happends : ∀ node, Appends (evaluate node))
    {n : Nat} (hlength : arguments.length = position + n) (journal : Journal) :
    ∃ k between rest,
      Passes evaluate arguments position k journal between ∧
      Settles evaluate arguments (position + 2 * k) between rest
        (((chooseFrom position n).perform evaluate scopes arguments).runFrom journal) ∧
      (chooseFrom position n).visited evaluate scopes arguments journal =
        List.range' position k 2 ++ rest := by
  induction position, n using chooseFrom.induct generalizing journal with
  | case1 position => exact ⟨0, journal, [], .none journal, .nothing hlength.symm, rfl⟩
  | case2 position =>
    have hnode : arguments[position]? = some arguments[position] := List.getElem?_eq_getElem _
    refine ⟨0, journal, [position], .none journal, ?_, visited_read hnode⟩
    show Settles evaluate arguments position journal [position]
      (((Action.read position).perform evaluate scopes arguments).runFrom journal)
    rw [perform_read hnode]
    exact .fallback hlength.symm hnode
  | case3 position n ih =>
    have hposition : position + 1 < arguments.length := by omega
    have hcondition : arguments[position]? = some arguments[position] :=
      List.getElem?_eq_getElem _
    have hnode : arguments[position + 1]? = some arguments[position + 1] :=
      List.getElem?_eq_getElem _
    have hchoose : chooseFrom position (n + 2) = .argument position fun condition =>
        if condition.bool? = some true then Action.read (position + 1)
        else chooseFrom (position + 2) n := rfl
    rw [hchoose, Action.perform, EvalM.runFrom_bind, EvalM.argument_of_getElem? hcondition]
    obtain ⟨labels, hlabels⟩ := happends arguments[position] journal
    cases hrun : (evaluate arguments[position]).runFrom journal with
    | mk result between =>
      rw [hrun] at hlabels
      cases result with
      | error halt =>
        refine ⟨0, journal, [position], .none journal, .failing hposition hcondition hrun, ?_⟩
        exact Action.visited_argument_of_error hcondition hrun
      | ok v =>
        rw [Action.visited_argument_of_ok hcondition hrun]
        dsimp only
        by_cases hv : v.bool? = some true
        · rw [if_pos hv, perform_read hnode, visited_read hnode]
          obtain rfl := bool?_eq_some_true_iff.1 hv
          exact ⟨0, journal, [position, position + 1], .none journal,
            .selected hcondition hrun hnode, rfl⟩
        · rw [if_neg hv]
          obtain ⟨k, last, rest, hpasses, hsettles, hvisited⟩ := ih (by omega) between
          have hfalse : v ≠ .boolean true := fun h => hv (bool?_eq_some_true_iff.2 h)
          refine ⟨k + 1, last, rest, hpasses.cons hfalse hcondition hrun hlabels, ?_, ?_⟩
          · have hnext : position + 2 * (k + 1) = position + 2 + 2 * k := by omega
            rw [hnext]
            exact hsettles
          · rw [hvisited, List.range'_succ]
            rfl

end Catalogue

namespace Builtin

/-- **The choice is lazy.** A call of it with two arguments or more evaluates its conditions from
left to right, as long as they have values and these are not true. Then it ends as the next
condition does if that halts, as the argument behind the next condition does if that is true, and
otherwise as the last argument does if that has no condition, or with null. So what the call adds to
the trace is what the arguments add to it that it evaluates, in their order, and each of the others
may be replaced by any tree. -/
theorem choose_is_lazy {host : Host} {scopes : Context} {depth : Nat} {callee : Node}
    {arguments : List Node} {start journal : Journal}
    (hcallee : (eval host scopes depth callee).runFrom start =
      (.ok (.function (.builtin choose)), journal))
    (h : 2 ≤ arguments.length) :
    let evaluate := eval host scopes depth
    let call := fun arguments =>
      (eval host scopes (depth + 1) (.call callee arguments)).runFrom start
    let positions := (choose.action arguments.length).visited evaluate scopes arguments journal
    (∃ k between rest,
      Passes evaluate arguments 0 k journal between ∧
      Settles evaluate arguments (2 * k) between rest (call arguments) ∧
      positions = List.range' 0 k 2 ++ rest) ∧
    (∃ traces values stop,
      InTurn evaluate arguments positions journal traces values stop (call arguments).2 ∧
      (call arguments).2.trace = journal.trace ++ traces.flatten) ∧
    ∀ arguments' : List Node, arguments'.length = arguments.length →
      (∀ p ∈ positions, arguments'[p]? = arguments[p]?) → call arguments' = call arguments := by
  intro evaluate call positions
  have happends : ∀ node, EvalM.Appends (evaluate node) := appends_eval host scopes depth
  have hcall : ∀ arguments', call arguments' =
      ((choose.action arguments'.length).perform evaluate scopes arguments').runFrom journal :=
    eval_call hcallee
  refine ⟨?_, ?_, fun arguments' hlength hagree => ?_⟩
  · have haction : choose.action arguments.length = Catalogue.chooseFrom 0 arguments.length :=
      action_choose (decide_eq_true h)
    obtain ⟨k, between, rest, hpasses, hsettles, hvisited⟩ :=
      Catalogue.settles_chooseFrom scopes happends (Nat.zero_add _).symm journal
    refine ⟨k, between, rest, hpasses, ?_, ?_⟩
    · rw [Nat.zero_add] at hsettles
      rw [hcall, haction]
      exact hsettles
    · show (choose.action arguments.length).visited evaluate scopes arguments journal = _
      rw [haction]
      exact hvisited
  · obtain ⟨traces, values, stop, after, hturn, hhalt, hanswer⟩ :=
      (ascends_action choose arguments.length).inTurn happends journal
    have hafter : (call arguments).2 = after := by
      rw [hcall]
      cases stop with
      | none =>
        obtain ⟨answer, hrun⟩ := hanswer rfl
        rw [hrun]
      | some halt => rw [hhalt halt rfl]
    rw [hafter]
    exact ⟨traces, values, stop, hturn, hturn.trace_eq⟩
  · rw [hcall, hcall, hlength]
    exact Action.perform_congr_of_visited hlength _ hagree

/-- A host with a function that leaves a label and is null, and one that leaves it and fails. -/
def loudHost : Host where
  routine identity _ :=
    if identity = 0 then .emit "asked" (.done .null) else .emit "lost" (.fail (.host "lost"))
  number := Host.empty.number
  text := Host.empty.text

/-- Names for the functions of that host. -/
def loud : Context :=
  .ofScope
    { name := "loud"
      bindings :=
        [("ask", .function (.host 0 "ask" 0)), ("lose", .function (.host 1 "lose" 0))] }

/-- A call of a name without arguments. -/
def callOf (name : String) : Node := .call (.reference ⟨.identifier, name, 1⟩) []

/-- The arguments of a choice with three conditions, the second of which is true. -/
def loudBranches (first third last : Node) : List Node :=
  [callOf "ask", first, .boolean ⟨.trueWord, "true", 1⟩, Node.ofText "b", third, last]

theorem choose_is_lazy_loud :
    let scopes := Context.withBuiltins (some loud)
    let callee := Node.reference ⟨.identifier, "condition", 1⟩
    (eval loudHost scopes 3 callee).runFrom Journal.new =
        (.ok (.function (.builtin choose)), Journal.new) ∧
      2 ≤ (loudBranches (callOf "lose") (callOf "lose") (callOf "lose")).length ∧
      ∀ first third last,
        (eval loudHost scopes 4 (.call callee (loudBranches first third last))).runFrom
            Journal.new =
          (.ok (.text "b"), { Journal.new with trace := ["asked"] }) := by
  intro scopes callee
  have hcallee : (eval loudHost scopes 3 callee).runFrom Journal.new =
      (.ok (.function (.builtin choose)), Journal.new) := rfl
  have hlength : 2 ≤ (loudBranches (callOf "lose") (callOf "lose") (callOf "lose")).length := by
    decide
  refine ⟨hcallee, hlength, fun first third last => ?_⟩
  obtain ⟨-, -, hreplace⟩ := choose_is_lazy hcallee hlength
  refine (hreplace (loudBranches first third last) rfl fun p hp => ?_).trans rfl
  have hvisited : p ∈ [0, 2, 3] := hp
  simp only [List.mem_cons, List.not_mem_nil, or_false] at hvisited
  rcases hvisited with rfl | rfl | rfl <;> rfl

end Builtin

end Splice
