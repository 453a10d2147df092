import Splice.Proofs.Inlining

/-!
# `Splice.Proofs.Turns` — arguments evaluated in turn

A function decides itself which of its arguments are evaluated. Here it is said which ones a run of
its action evaluates, and what it means that they are evaluated one after the other: each starts
from the journal that the one before it leaves, adds its labels to the trace, and ends the run if
it halts.

## Contents
- `EvalM.Appends`, `appends_eval`: evaluations add to the trace and take nothing away.
- `Action.visited`: the positions of the arguments that a run of an action evaluates;
  `perform_congr_of_visited` says that no other arguments matter.
- `InTurn`: the evaluation of the arguments at some positions, one after the other.
- `Action.Ascends`: an action that only evaluates arguments, from left to right;
  `Ascends.visited_lt` and `Ascends.inTurn` say how it is run.
- `Action.Demands`: an action that evaluates the same arguments whatever their values are;
  `Demands.visited_of_inTurn` says that a run evaluates these, up to the first that halts.
-/

namespace Splice

variable {α β : Type} {journal between after : Journal}

/-! ## Evaluations add to the trace -/

namespace EvalM

/-- From every journal, a run adds labels to the trace and takes none away. -/
def Appends (x : EvalM α) : Prop :=
  ∀ journal, ∃ labels, (x.runFrom journal).2.trace = journal.trace ++ labels

namespace Appends

theorem pure (a : α) : Appends (pure a : EvalM α) :=
  fun journal => ⟨[], (List.append_nil journal.trace).symm⟩

theorem throw (halt : Halt) : Appends (throw halt : EvalM α) :=
  fun journal => ⟨[], (List.append_nil journal.trace).symm⟩

/-- What is done to the journal alone, if it leaves the trace as it is. -/
theorem state (s : StateM Journal α) (h : ∀ journal, (s.run journal).2.trace = journal.trace) :
    Appends (liftM s : EvalM α) := by
  intro journal
  refine ⟨[], ?_⟩
  rw [runFrom_liftM, h, List.append_nil]

theorem emit (label : String) : Appends (modify (Journal.emit label) : EvalM PUnit) :=
  fun _ => ⟨[label], rfl⟩

theorem bind {x : EvalM α} {f : α → EvalM β} (hx : Appends x) (hf : ∀ a, Appends (f a)) :
    Appends (x >>= f) := by
  intro journal
  obtain ⟨labels, hlabels⟩ := hx journal
  rw [runFrom_bind]
  split
  · next a between hrun =>
    obtain ⟨more, hmore⟩ := hf a between
    have hbetween : between.trace = journal.trace ++ labels := by
      rw [← hlabels, hrun]
    refine ⟨labels ++ more, ?_⟩
    rw [hmore, hbetween, List.append_assoc]
  · next halt between hrun =>
    refine ⟨labels, ?_⟩
    rw [← hlabels, hrun]

theorem mapM {γ : Type} {g : γ → EvalM α} {xs : List γ} (h : ∀ c ∈ xs, Appends (g c)) :
    Appends (xs.mapM g) := by
  induction xs with
  | nil =>
    rw [List.mapM_nil]
    exact .pure []
  | cons c cs ih =>
    rw [List.mapM_cons]
    refine .bind (h c (List.mem_cons_self ..)) fun a => ?_
    exact .bind (ih fun d hd => h d (List.mem_cons_of_mem _ hd)) fun as => .pure (a :: as)

variable {evaluate : Node → EvalM Value}

theorem argument (h : ∀ node, Appends (evaluate node)) (arguments : List Node) (position : Nat) :
    Appends (EvalM.argument evaluate arguments position) := by
  unfold EvalM.argument
  split
  · next node _ => exact h node
  · exact .pure _

theorem perform (h : ∀ node, Appends (evaluate node)) (scopes : Context)
    (arguments : List Node) (action : Action α) :
    Appends (action.perform evaluate scopes arguments) := by
  induction action with
  | done result => exact .pure result
  | fail error => exact .throw _
  | argument position next ih => exact .bind (argument h arguments position) ih
  | evaluate node next ih => exact .bind (h node) ih
  | emit label next ih => exact .bind (.emit label) fun _ => ih
  | tally identity next ih =>
    exact .bind (.state (modifyGet (Journal.use identity)) fun _ => rfl) ih
  | context next ih => exact ih scopes

end Appends

end EvalM

open EvalM (Appends)

variable {host : Host} {scopes : Context} {depth : Nat}

theorem appends_eval_succ (ih : ∀ node, Appends (eval host scopes depth node)) (node : Node) :
    Appends (eval host scopes (depth + 1) node) := by
  cases node with
  | program body => exact ih body
  | number literal =>
    exact .bind (.state _ (trace_read host.number literal)) fun _ => .pure _
  | text literal =>
    exact .bind (.state _ (trace_read host.text literal)) fun _ => .pure _
  | boolean token => exact .pure _
  | reference name =>
    rw [eval]
    split
    · exact .throw _
    · exact ih _
    · exact .pure _
  | call callee arguments =>
    refine .bind (ih callee) fun called => ?_
    cases called with
    | function f => exact .perform ih scopes arguments _
    | ofClass _ name fields methods =>
      exact .bind (.state (modifyGet Journal.freshIdentity) fun _ => rfl) fun _ => .pure _
    | _ => exact .bind (.state _ (trace_settle callee)) fun _ => .throw _
  | access target field =>
    refine .bind (ih target) fun v => ?_
    split
    · exact .pure _
    · exact .throw _
  | template parts => exact .bind (.mapM fun part _ => ih part) fun _ => .pure _

/-- **No evaluation takes labels away from the trace.** -/
theorem appends_eval (host : Host) (scopes : Context) (depth : Nat) (node : Node) :
    Appends (eval host scopes depth node) := by
  induction depth generalizing node with
  | zero => exact .throw _
  | succ depth ih => exact appends_eval_succ ih node

/-! ## The arguments that a run evaluates -/

variable {evaluate : Node → EvalM Value} {arguments arguments' : List Node} {position : Nat}
  {node : Node}

namespace EvalM

/-- An argument that is there is evaluated. -/
theorem argument_of_getElem? (h : arguments[position]? = some node) :
    argument evaluate arguments position = evaluate node := by
  rw [argument, h]

/-- A missing argument is null and is not evaluated. -/
theorem argument_of_missing (h : arguments[position]? = none) :
    argument evaluate arguments position = pure .null := by
  rw [argument, h]

end EvalM

namespace Action

/-- The positions of the arguments that a run of an action from a journal evaluates, in the order in
which they are evaluated. One that halts is the last. -/
def visited (evaluate : Node → EvalM Value) (scopes : Context) (arguments : List Node) :
    Action α → Journal → List Nat
  | done _, _ => []
  | fail _, _ => []
  | argument position next, journal =>
    match arguments[position]? with
    | none => (next .null).visited evaluate scopes arguments journal
    | some node =>
      position ::
        match (evaluate node).runFrom journal with
        | (.ok v, after) => (next v).visited evaluate scopes arguments after
        | (.error _, _) => []
  | .evaluate node next, journal =>
    match (evaluate node).runFrom journal with
    | (.ok v, after) => (next v).visited evaluate scopes arguments after
    | (.error _, _) => []
  | emit label next, journal => next.visited evaluate scopes arguments (journal.emit label)
  | tally identity next, journal =>
    (next (journal.use identity).1).visited evaluate scopes arguments (journal.use identity).2
  | context next, journal => (next scopes).visited evaluate scopes arguments journal

variable {next : Value → Action α} {v : Value} {halt : Halt}

theorem visited_argument_of_ok (h : arguments[position]? = some node)
    (hrun : (evaluate node).runFrom journal = (.ok v, after)) :
    (argument position next).visited evaluate scopes arguments journal =
      position :: (next v).visited evaluate scopes arguments after := by
  simp only [visited, h, hrun]

theorem visited_argument_of_error (h : arguments[position]? = some node)
    (hrun : (evaluate node).runFrom journal = (.error halt, after)) :
    (argument position next).visited evaluate scopes arguments journal = [position] := by
  simp only [visited, h, hrun]

theorem visited_argument_of_missing (h : arguments[position]? = none) :
    (argument position next).visited evaluate scopes arguments journal =
      (next .null).visited evaluate scopes arguments journal := by
  simp only [visited, h]

/-- What a run of an action comes to is a matter of the arguments that it evaluates. Others may be
replaced by any trees. -/
theorem perform_congr_of_visited (hlength : arguments'.length = arguments.length)
    (action : Action α)
    (h : ∀ p ∈ action.visited evaluate scopes arguments journal, arguments'[p]? = arguments[p]?) :
    (action.perform evaluate scopes arguments').runFrom journal =
      (action.perform evaluate scopes arguments).runFrom journal := by
  induction action generalizing journal with
  | done result => rfl
  | fail error => rfl
  | argument position next ih =>
    rw [perform, perform, EvalM.runFrom_bind, EvalM.runFrom_bind]
    cases hnode : arguments[position]? with
    | none =>
      have hmissing : arguments'[position]? = none := by
        rw [List.getElem?_eq_none_iff, hlength]
        exact List.getElem?_eq_none_iff.1 hnode
      rw [EvalM.argument_of_missing hnode, EvalM.argument_of_missing hmissing]
      rw [visited_argument_of_missing hnode] at h
      exact ih .null h
    | some node =>
      have hmem : position ∈
          (argument position next).visited evaluate scopes arguments journal := by
        simp only [visited, hnode, List.mem_cons, true_or]
      rw [EvalM.argument_of_getElem? hnode,
        EvalM.argument_of_getElem? ((h position hmem).trans hnode)]
      cases hrun : (evaluate node).runFrom journal with
      | mk result after =>
        cases result with
        | error halt => rfl
        | ok v =>
          refine ih v fun p hp => h p ?_
          rw [visited_argument_of_ok hnode hrun]
          exact List.mem_cons_of_mem _ hp
  | evaluate node next ih =>
    rw [perform, perform, EvalM.runFrom_bind, EvalM.runFrom_bind]
    cases hrun : (evaluate node).runFrom journal with
    | mk result after =>
      cases result with
      | error halt => rfl
      | ok v =>
        refine ih v fun p hp => h p ?_
        simp only [visited, hrun]
        exact hp
  | emit label next ih => exact ih h
  | tally identity next ih => exact ih _ h
  | context next ih => exact ih scopes h

end Action

/-! ## One after the other -/

/-- The arguments at `positions` are evaluated one after the other, the first one from `journal`.
Each adds the labels in `traces` to the trace. They have the values in `values`, apart from the last
one if it halts with `stop`, and `after` is the journal that is left. -/
inductive InTurn (evaluate : Node → EvalM Value) (arguments : List Node) :
    (positions : List Nat) → (journal : Journal) → (traces : List (List String)) →
      (values : List Value) → (stop : Option Halt) → (after : Journal) → Prop
  | none {journal : Journal} : InTurn evaluate arguments [] journal [] [] none journal
  | halt {position : Nat} {node : Node} {journal after : Journal} {labels : List String}
      {halt : Halt} (hnode : arguments[position]? = some node)
      (hrun : (evaluate node).runFrom journal = (.error halt, after))
      (htrace : after.trace = journal.trace ++ labels) :
      InTurn evaluate arguments [position] journal [labels] [] (some halt) after
  | value {position : Nat} {positions : List Nat} {node : Node} {journal between after : Journal}
      {labels : List String} {traces : List (List String)} {v : Value} {values : List Value}
      {stop : Option Halt} (hnode : arguments[position]? = some node)
      (hrun : (evaluate node).runFrom journal = (.ok v, between))
      (htrace : between.trace = journal.trace ++ labels)
      (h : InTurn evaluate arguments positions between traces values stop after) :
      InTurn evaluate arguments (position :: positions) journal (labels :: traces) (v :: values)
        stop after

variable {positions : List Nat} {traces : List (List String)} {values : List Value}
  {stop : Option Halt}

/-- The labels of all arguments are added in the order of the arguments. -/
theorem InTurn.trace_eq (h : InTurn evaluate arguments positions journal traces values stop after) :
    after.trace = journal.trace ++ traces.flatten := by
  induction h with
  | none => exact (List.append_nil _).symm
  | halt hnode hrun htrace => rw [htrace, List.flatten_singleton]
  | value hnode hrun htrace h ih => rw [ih, htrace, List.flatten_cons, List.append_assoc]

/-- Behind an argument with a value, the others are evaluated from the journal that it leaves. -/
theorem InTurn.tail {v : Value} (hnode : arguments[position]? = some node)
    (hrun : (evaluate node).runFrom journal = (.ok v, between))
    (h : InTurn evaluate arguments (position :: positions) journal traces values stop after) :
    ∃ traces' values', values = v :: values' ∧
      InTurn evaluate arguments positions between traces' values' stop after := by
  cases h with
  | halt hnode' hrun' htrace =>
    cases hnode.symm.trans hnode'
    cases hrun.symm.trans hrun'
  | value hnode' hrun' htrace h =>
    cases hnode.symm.trans hnode'
    cases hrun.symm.trans hrun'
    exact ⟨_, _, rfl, h⟩

/-- Nothing is evaluated behind an argument that halts. -/
theorem InTurn.stop_eq {halt : Halt} (hnode : arguments[position]? = some node)
    (hrun : (evaluate node).runFrom journal = (.error halt, between))
    (h : InTurn evaluate arguments (position :: positions) journal traces values stop after) :
    positions = [] ∧ values = [] ∧ stop = some halt := by
  cases h with
  | halt hnode' hrun' htrace =>
    cases hnode.symm.trans hnode'
    cases hrun.symm.trans hrun'
    exact ⟨rfl, rfl, rfl⟩
  | value hnode' hrun' htrace h =>
    cases hnode.symm.trans hnode'
    cases hrun.symm.trans hrun'

namespace Action

/-! ## Actions that only evaluate arguments -/

/-- The action does nothing but to evaluate arguments, from the one at `start` on and each of them
to the right of the one before it. -/
def Ascends : (start : Nat) → Action α → Prop
  | _, done _ => True
  | _, fail _ => True
  | start, argument position next => start ≤ position ∧ ∀ v, (next v).Ascends (position + 1)
  | _, .evaluate _ _ => False
  | _, emit _ _ => False
  | _, tally _ _ => False
  | _, context _ => False

/-- The action evaluates the arguments at `positions`, whatever their values are, and nothing
else. -/
def Demands : (positions : List Nat) → Action α → Prop
  | [], done _ => True
  | [], fail _ => True
  | p :: positions, argument position next => position = p ∧ ∀ v, (next v).Demands positions
  | _, _ => False

variable {start : Nat} {action : Action α} {next : Value → Action α}

theorem Ascends.mono {start' : Nat} (h : action.Ascends start) (hle : start' ≤ start) :
    action.Ascends start' := by
  cases action with
  | argument position next => exact ⟨Nat.le_trans hle h.1, h.2⟩
  | done result => trivial
  | fail error => trivial
  | _ => exact h.elim

/-- Arguments are evaluated once at most and from left to right, and only those that there are. -/
theorem Ascends.visited_lt (h : action.Ascends start) (journal : Journal) :
    (action.visited evaluate scopes arguments journal).Pairwise (· < ·) ∧
      ∀ p ∈ action.visited evaluate scopes arguments journal,
        start ≤ p ∧ p < arguments.length := by
  induction action generalizing start journal with
  | done result => exact ⟨.nil, fun p hp => absurd hp List.not_mem_nil⟩
  | fail error => exact ⟨.nil, fun p hp => absurd hp List.not_mem_nil⟩
  | argument position next ih =>
    obtain ⟨hstart, hnext⟩ := h
    cases hnode : arguments[position]? with
    | none =>
      obtain ⟨hpairwise, hbounds⟩ := ih .null (hnext .null) journal
      rw [visited_argument_of_missing hnode]
      refine ⟨hpairwise, fun p hmem => ?_⟩
      have := hbounds p hmem
      omega
    | some node =>
      obtain ⟨hp, -⟩ := List.getElem?_eq_some_iff.1 hnode
      cases hrun : (evaluate node).runFrom journal with
      | mk result after =>
        cases result with
        | error halt =>
          rw [visited_argument_of_error hnode hrun]
          refine ⟨List.pairwise_singleton _ _, fun p hmem => ?_⟩
          rw [List.mem_singleton.1 hmem]
          exact ⟨hstart, hp⟩
        | ok v =>
          obtain ⟨hpairwise, hbounds⟩ := ih v (hnext v) after
          rw [visited_argument_of_ok hnode hrun]
          refine ⟨List.pairwise_cons.2 ⟨fun p hmem => (hbounds p hmem).1, hpairwise⟩, ?_⟩
          intro p hmem
          rcases List.mem_cons.1 hmem with rfl | hmem
          · exact ⟨hstart, hp⟩
          · have := hbounds p hmem
            omega
  | evaluate node next ih => exact h.elim
  | emit label next ih => exact h.elim
  | tally identity next ih => exact h.elim
  | context next ih => exact h.elim

/-- Such an action is run by evaluating arguments in turn. It ends as the one that halts, and
otherwise with a result or an error of its own, in the journal that the last one leaves. -/
theorem Ascends.inTurn (h : action.Ascends start) (happends : ∀ node, Appends (evaluate node))
    (journal : Journal) :
    ∃ traces values stop after,
      InTurn evaluate arguments (action.visited evaluate scopes arguments journal) journal traces
        values stop after ∧
      (∀ halt, stop = some halt →
        (action.perform evaluate scopes arguments).runFrom journal = (.error halt, after)) ∧
      (stop = none → ∃ answer : Except EvalError α,
        (action.perform evaluate scopes arguments).runFrom journal =
          (answer.mapError .failed, after)) := by
  induction action generalizing start journal with
  | done result =>
    refine ⟨[], [], none, journal, .none, ?_, fun _ => ⟨.ok result, rfl⟩⟩
    intro halt hstop
    cases hstop
  | fail error =>
    refine ⟨[], [], none, journal, .none, ?_, fun _ => ⟨.error error, rfl⟩⟩
    intro halt hstop
    cases hstop
  | argument position next ih =>
    obtain ⟨-, hnext⟩ := h
    rw [perform, EvalM.runFrom_bind]
    cases hnode : arguments[position]? with
    | none =>
      rw [visited_argument_of_missing hnode, EvalM.argument_of_missing hnode, EvalM.runFrom_pure]
      exact ih .null (hnext .null) journal
    | some node =>
      rw [EvalM.argument_of_getElem? hnode]
      obtain ⟨labels, hlabels⟩ := happends node journal
      cases hrun : (evaluate node).runFrom journal with
      | mk result between =>
        rw [hrun] at hlabels
        cases result with
        | error halt =>
          rw [visited_argument_of_error hnode hrun]
          refine ⟨[labels], [], some halt, between, .halt hnode hrun hlabels, ?_, ?_⟩
          · intro stop hstop
            cases hstop
            rfl
          · intro hstop
            cases hstop
        | ok v =>
          obtain ⟨traces, values, stop, after, hturn, hhalt, hanswer⟩ := ih v (hnext v) between
          rw [visited_argument_of_ok hnode hrun]
          exact ⟨labels :: traces, v :: values, stop, after, .value hnode hrun hlabels hturn,
            hhalt, hanswer⟩
  | evaluate node next ih => exact h.elim
  | emit label next ih => exact h.elim
  | tally identity next ih => exact h.elim
  | context next ih => exact h.elim

theorem Demands.ascends (h : action.Demands positions) (hsorted : positions.Pairwise (· < ·))
    (hstart : ∀ p ∈ positions, start ≤ p) : action.Ascends start := by
  induction action generalizing start positions with
  | done result => trivial
  | fail error => trivial
  | argument position next ih =>
    cases positions with
    | nil => exact h.elim
    | cons p positions =>
      obtain ⟨rfl, hnext⟩ := h
      obtain ⟨hlt, hsorted⟩ := List.pairwise_cons.1 hsorted
      exact ⟨hstart _ (List.mem_cons_self ..), fun v => ih v (hnext v) hsorted hlt⟩
  | _ => cases positions <;> exact h.elim

/-- The arguments that are evaluated are those in demand that there are, up to the first that
halts. -/
theorem Demands.visited_of_inTurn (h : action.Demands positions)
    (hturn : InTurn evaluate arguments (action.visited evaluate scopes arguments journal) journal
      traces values stop after) :
    action.visited evaluate scopes arguments journal <+: positions.filter (· < arguments.length) ∧
      (stop = none → action.visited evaluate scopes arguments journal =
        positions.filter (· < arguments.length)) := by
  induction action generalizing positions journal traces values with
  | done result =>
    cases positions with
    | nil => exact ⟨List.prefix_refl _, fun _ => rfl⟩
    | cons p positions => exact h.elim
  | fail error =>
    cases positions with
    | nil => exact ⟨List.prefix_refl _, fun _ => rfl⟩
    | cons p positions => exact h.elim
  | argument position next ih =>
    cases positions with
    | nil => exact h.elim
    | cons p positions =>
      obtain ⟨rfl, hnext⟩ := h
      cases hnode : arguments[position]? with
      | none =>
        have hle := List.getElem?_eq_none_iff.1 hnode
        have hdrop : ¬ decide (position < arguments.length) = true := by simpa using hle
        rw [List.filter_cons, if_neg hdrop]
        rw [visited_argument_of_missing hnode] at hturn ⊢
        exact ih .null (hnext .null) hturn
      | some node =>
        obtain ⟨hp, -⟩ := List.getElem?_eq_some_iff.1 hnode
        rw [List.filter_cons, if_pos (decide_eq_true hp)]
        cases hrun : (evaluate node).runFrom journal with
        | mk result between =>
          cases result with
          | error halt =>
            rw [visited_argument_of_error hnode hrun] at hturn ⊢
            obtain ⟨-, -, hhalt⟩ := hturn.stop_eq hnode hrun
            refine ⟨⟨_, rfl⟩, fun hstop => ?_⟩
            rw [hhalt] at hstop
            cases hstop
          | ok v =>
            rw [visited_argument_of_ok hnode hrun] at hturn ⊢
            obtain ⟨_, _, -, hrest⟩ := hturn.tail hnode hrun
            obtain ⟨hinit, heq⟩ := ih v (hnext v) hrest
            refine ⟨(List.prefix_cons_inj position).2 hinit, fun hstop => ?_⟩
            rw [heq hstop]
  | _ => cases positions <;> exact h.elim

/-- The value of an argument may decide which others are in demand. -/
theorem visited_argument_of_inTurn {rest : Value → List Nat} (h : position < arguments.length)
    (hnext : ∀ v, (next v).Demands (rest v))
    (hturn : InTurn evaluate arguments
      ((argument position next).visited evaluate scopes arguments journal) journal traces values
      stop after) :
    let demanded := position :: (rest (values.headD .null)).filter (· < arguments.length)
    (argument position next).visited evaluate scopes arguments journal <+: demanded ∧
      (stop = none →
        (argument position next).visited evaluate scopes arguments journal = demanded) := by
  have hnode : arguments[position]? = some arguments[position] := List.getElem?_eq_getElem h
  cases hrun : (evaluate arguments[position]).runFrom journal with
  | mk result between =>
    cases result with
    | error halt =>
      rw [visited_argument_of_error hnode hrun] at hturn ⊢
      obtain ⟨-, -, hhalt⟩ := hturn.stop_eq hnode hrun
      refine ⟨⟨_, rfl⟩, fun hstop => ?_⟩
      rw [hhalt] at hstop
      cases hstop
    | ok v =>
      rw [visited_argument_of_ok hnode hrun] at hturn ⊢
      obtain ⟨_, _, rfl, hrest⟩ := hturn.tail hnode hrun
      obtain ⟨hinit, heq⟩ := (hnext v).visited_of_inTurn hrest
      refine ⟨(List.prefix_cons_inj position).2 hinit, fun hstop => ?_⟩
      rw [heq hstop]
      rfl

/-! ## Demands of actions that are put together -/

variable {rest : α → Action β} {function : String} {expected : Expectation} {found : Nat}

/-- What comes behind a check of the number of arguments that holds. -/
theorem demands_expect {rest : Unit → Action β} (h : expected.admits found = true)
    (hrest : (rest ()).Demands positions) :
    ((expect function expected found).bind rest).Demands positions := by
  rw [expect_of_admits h]
  exact hrest

/-- What comes behind the value of an argument. -/
theorem demands_read {rest : Value → Action β} (h : ∀ v, (rest v).Demands positions) :
    ((read position).bind rest).Demands (position :: positions) :=
  ⟨rfl, h⟩

/-- What comes behind an action and evaluates nothing more. -/
theorem Demands.bind (h : action.Demands positions) (hrest : ∀ a, (rest a).Demands []) :
    (action.bind rest).Demands positions := by
  induction action generalizing positions with
  | done result =>
    cases positions with
    | nil => exact hrest result
    | cons p positions => exact h.elim
  | fail error => cases positions <;> exact h
  | argument position next ih =>
    cases positions with
    | nil => exact h.elim
    | cons p positions => exact ⟨h.1, fun v => ih v (h.2 v)⟩
  | _ => cases positions <;> exact h.elim

theorem demands_readFrom (position n : Nat) :
    (readFrom position n).Demands (List.range' position n) := by
  induction n generalizing position with
  | zero => trivial
  | succ n ih =>
    show ((read position).bind fun v => (readFrom (position + 1) n).bind fun vs =>
      done (v :: vs)).Demands (position :: List.range' (position + 1) n)
    exact demands_read fun v => (ih (position + 1)).bind fun vs => trivial

/-- What comes behind the values of all arguments and evaluates nothing more. -/
theorem demands_readAll {rest : List Value → Action β} (h : ∀ vs, (rest vs).Demands []) :
    ((readAll found).bind rest).Demands (List.range found) := by
  rw [List.range_eq_range']
  exact (demands_readFrom 0 found).bind h

end Action

end Splice
