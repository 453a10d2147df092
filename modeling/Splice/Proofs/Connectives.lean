import Splice.Proofs.Calls
import Splice.Proofs.Choice

/-!
# `Splice.Proofs.Connectives` — a connective evaluates both of its arguments

A connective makes one value out of two. Often the first of them alone says what will come out, and
the second argument could be left alone. It is not: a connective evaluates it all the same, ends as
it does if it halts, and keeps what it adds to the trace. Calls of a connective whose outcome is
settled by the same first argument are alike only as far as their second arguments are.

## Contents
- `Builtin.foregone?`: the outcome of a connective that its first argument settles;
  `foregone?_eq_some_iff` says that it is what comes out whatever the second value is.
- `remains`: what is left of a run if nobody looks at its value.
- `Builtin.connective_is_strict`: what a call of a connective shows of its second argument.
-/

namespace Splice

open EvalM (runFrom_bind)

namespace Builtin

variable {b : Builtin} {v w answer : Value}

/-- The outcome of a connective that its first argument settles: a disjunction of a true value is
true and one of a value that is neither null nor a truth value is that value; a conjunction of a
value that is no truth value is null. -/
def foregone? : Builtin → Value → Option Value
  | or, .boolean true => some (.boolean true)
  | or, .boolean false => none
  | or, .null => none
  | or, v => some v
  | and, .boolean _ => none
  | and, _ => some .null
  | _, _ => none

/-- A connective whose outcome is settled reads its second argument and does nothing with it. -/
theorem exists_action_of_foregone (h : b.foregone? v = some answer) :
    ∃ rest : Value → Value → Action Value,
      b.action 2 = (Action.expect b.name (.exactly 2) 2).bind (fun _ =>
        (Action.read 0).bind fun v => (Action.read 1).bind (rest v)) ∧
      ∀ w, rest v w = .done answer := by
  cases b with
  | or =>
    refine ⟨_, rfl, fun w => ?_⟩
    cases v with
    | null => cases h
    | boolean l =>
      cases l with
      | false => cases h
      | true =>
        cases h
        cases w with
        | boolean r => rfl
        | _ => rfl
    | _ =>
      cases h
      rfl
  | and =>
    refine ⟨_, rfl, fun w => ?_⟩
    cases v with
    | boolean l => cases h
    | _ =>
      cases h
      rfl
  | _ => cases h

theorem answers_of_foregone (h : b.foregone? v = some answer) (w : Value) :
    b.Answers v w answer := by
  obtain ⟨rest, haction, hrest⟩ := exists_action_of_foregone h
  exact answers_of_binary haction rfl (hrest w)

/-- Where nothing is settled, two second values make two different answers. -/
theorem exists_answers_ne (hb : b = or ∨ b = and) (h : b.foregone? v = none) :
    ∃ w w' a a', b.Answers v w a ∧ b.Answers v w' a' ∧ a ≠ a' := by
  rcases hb with rfl | rfl
  · -- after null comes the second value, after false its disjunction with it
    cases v with
    | null =>
      exact ⟨.boolean true, .null, .boolean true, .null, answers_of_binary rfl rfl rfl,
        answers_of_binary rfl rfl rfl, nofun⟩
    | boolean l =>
      cases l with
      | false =>
        exact ⟨.boolean true, .null, .boolean true, .boolean false, answers_of_binary rfl rfl rfl,
          answers_of_binary rfl rfl rfl, nofun⟩
      | true => cases h
    | _ => cases h
  · -- a truth value makes a conjunction of another one, and null of everything else
    cases v with
    | boolean l =>
      exact ⟨.boolean l, .null, .boolean (l && l), .null, answers_of_binary rfl rfl rfl,
        answers_of_binary rfl rfl rfl, nofun⟩
    | _ => cases h

/-- An outcome is settled exactly if it is the answer whatever the second value is. -/
theorem foregone?_eq_some_iff (hb : b = or ∨ b = and) :
    b.foregone? v = some answer ↔ ∀ w, b.Answers v w answer := by
  constructor
  · exact answers_of_foregone
  · intro h
    cases hforegone : b.foregone? v with
    | none =>
      obtain ⟨w, w', a, a', ha, ha', hne⟩ := exists_answers_ne hb hforegone
      exact absurd ((ha.unique (h w)).trans ((h w').unique ha')) hne
    | some answer' =>
      exact congrArg some ((answers_of_foregone hforegone .null).unique (h .null))

/-! ## Calls of connectives -/

/-- What is left of a run if nobody looks at its value: the halt that it ends with, if there is one,
and the trace. -/
def remains (run : Except Halt Value × Journal) : Except Halt Unit × List String :=
  (run.1.map fun _ => (), run.2.trace)

/-- A call of a connective whose outcome is settled is its second argument with another value. -/
theorem runFrom_call_of_foregone {host : Host} {scopes : Context} {depth : Nat}
    {callee left right : Node} {start called between : Journal}
    (hcallee : (eval host scopes depth callee).runFrom start =
      (.ok (.function (.builtin b)), called))
    (hleft : (eval host scopes depth left).runFrom called = (.ok v, between))
    (h : b.foregone? v = some answer) :
    (eval host scopes (depth + 1) (.call callee [left, right])).runFrom start =
      (((eval host scopes depth right).runFrom between).1.map fun _ => answer,
        ((eval host scopes depth right).runFrom between).2) := by
  obtain ⟨rest, haction, hrest⟩ := exists_action_of_foregone h
  rw [runFrom_call_of_binary haction rfl hcallee, runFrom_bind, hleft]
  dsimp only
  rw [runFrom_bind]
  cases hright : (eval host scopes depth right).runFrom between with
  | mk result after =>
    cases result with
    | error halt => rfl
    | ok w =>
      dsimp only
      rw [hrest w]
      rfl

theorem visited_of_foregone {evaluate : Node → EvalM Value} {scopes : Context} {left right : Node}
    {called between : Journal} (hleft : (evaluate left).runFrom called = (.ok v, between))
    (h : b.foregone? v = some answer) :
    (b.action 2).visited evaluate scopes [left, right] called = [0, 1] := by
  obtain ⟨rest, haction, hrest⟩ := exists_action_of_foregone h
  rw [haction, Action.expect_of_admits rfl]
  refine (Action.visited_argument_of_ok rfl hleft).trans ?_
  refine congrArg (0 :: ·) ?_
  cases hright : (evaluate right).runFrom between with
  | mk result after =>
    cases result with
    | error halt => exact Action.visited_argument_of_error rfl hright
    | ok w =>
      refine (Action.visited_argument_of_ok rfl hright).trans ?_
      have hrest : (Action.done w).bind (rest v) = .done answer := hrest w
      rw [hrest]
      rfl

/-- Two runs that get the same value are alike exactly if they were alike but for their values. -/
theorem map_const_alike_iff (run run' : Except Halt Value × Journal) :
    ((run.1.map fun _ => answer) = (run'.1.map fun _ => answer) ∧ run.2.trace = run'.2.trace) ↔
      remains run = remains run' := by
  obtain ⟨result, after⟩ := run
  obtain ⟨result', after'⟩ := run'
  unfold remains
  cases result <;> cases result' <;> simp [Except.map]

/-- **A connective does not leave its second argument alone.** Where the first argument of a
connective settles the outcome, a call of it still evaluates the second one. It halts if that halts,
and otherwise has the settled outcome, in the journal that the second argument leaves. So two second
arguments make calls with the same result and the same trace exactly if they halt alike, or both
have values, and leave the same trace. -/
theorem connective_is_strict {host : Host} {scopes : Context} {depth : Nat} {callee left : Node}
    {start called between : Journal}
    (hcallee : (eval host scopes depth callee).runFrom start =
      (.ok (.function (.builtin b)), called))
    (hleft : (eval host scopes depth left).runFrom called = (.ok v, between))
    (h : b.foregone? v = some answer) :
    let evaluate := eval host scopes depth
    let call := fun right =>
      (eval host scopes (depth + 1) (.call callee [left, right])).runFrom start
    (∀ right, (b.action 2).visited evaluate scopes [left, right] called = [0, 1] ∧
      (∀ w after, (evaluate right).runFrom between = (.ok w, after) →
        call right = (.ok answer, after)) ∧
      ∀ halt after, (evaluate right).runFrom between = (.error halt, after) →
        call right = (.error halt, after)) ∧
    ∀ right right',
      ((call right).1 = (call right').1 ∧ (call right).2.trace = (call right').2.trace) ↔
        remains ((evaluate right).runFrom between) =
          remains ((evaluate right').runFrom between) := by
  intro evaluate call
  have hcall : ∀ right, call right =
      (((evaluate right).runFrom between).1.map fun _ => answer,
        ((evaluate right).runFrom between).2) :=
    fun right => runFrom_call_of_foregone hcallee hleft h
  refine ⟨fun right => ⟨visited_of_foregone hleft h, ?_, ?_⟩, fun right right' => ?_⟩
  · intro w after hright
    rw [hcall, hright]
    rfl
  · intro halt after hright
    rw [hcall, hright]
    rfl
  · rw [hcall, hcall]
    exact map_const_alike_iff _ _

/-- A true value settles a disjunction, and yet a function that leaves a label is seen in the trace
of the call, and one that fails makes it fail. -/
theorem connective_is_strict_loud :
    let scopes := Context.withBuiltins (some loud)
    let callee := Node.reference ⟨.identifier, "or", 1⟩
    let left := Node.boolean ⟨.trueWord, "true", 1⟩
    (eval loudHost scopes 3 callee).runFrom Journal.new =
        (.ok (.function (.builtin or)), Journal.new) ∧
      (eval loudHost scopes 3 left).runFrom Journal.new = (.ok (.boolean true), Journal.new) ∧
      or.foregone? (.boolean true) = some (.boolean true) ∧
      (eval loudHost scopes 4 (.call callee [left, callOf "ask"])).runFrom Journal.new =
        (.ok (.boolean true), { Journal.new with trace := ["asked"] }) ∧
      (eval loudHost scopes 4 (.call callee [left, callOf "lose"])).runFrom Journal.new =
        (.error (.failed (.host "lost")), { Journal.new with trace := ["lost"] }) := by
  intro scopes callee left
  have hcallee : (eval loudHost scopes 3 callee).runFrom Journal.new =
      (.ok (.function (.builtin or)), Journal.new) := rfl
  have hleft : (eval loudHost scopes 3 left).runFrom Journal.new =
      (.ok (.boolean true), Journal.new) := rfl
  obtain ⟨hcalls, -⟩ := connective_is_strict hcallee hleft rfl
  exact ⟨hcallee, hleft, rfl, (hcalls (callOf "ask")).2.1 .null _ rfl,
    (hcalls (callOf "lose")).2.2 _ _ rfl⟩

end Builtin

end Splice
