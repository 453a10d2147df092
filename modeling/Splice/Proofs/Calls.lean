import Splice.Proofs.Demand

/-!
# `Splice.Proofs.Calls` — calls with one or two arguments

Most builtin functions evaluate one argument, or two, one after the other, and answer with a value
that depends on nothing but the values of these.

## Contents
- `Builtin.Maps`, `Builtin.Answers`: what a builtin function answers when it is called with one
  value, and with two.
- `Builtin.maps_of_unary`: the answer of a function that reads one argument.
- `Builtin.runFrom_call_of_binary`: a call of a function that reads two arguments;
  `Builtin.answers_of_reads` and `Builtin.answers_of_binary` say what it answers.
- `Builtin.Maps.unique`, `Builtin.Answers.unique`: there is no other answer.
-/

namespace Splice

open EvalM (runFrom_bind runFrom_pure)

/-- However the argument is written, and whatever evaluating it leaves in the journal: called with
an argument that comes to `v`, the function comes to `answer` and leaves the journal as the argument
does. -/
def Builtin.Maps (b : Builtin) (v answer : Value) : Prop :=
  ∀ (host : Host) (scopes : Context) (depth : Nat) (callee argument : Node)
    (journal called after : Journal),
    (eval host scopes depth callee).runFrom journal = (.ok (.function (.builtin b)), called) →
    (eval host scopes depth argument).runFrom called = (.ok v, after) →
    (eval host scopes (depth + 1) (.call callee [argument])).runFrom journal = (.ok answer, after)

/-- However the two arguments are written, and whatever evaluating them leaves in the journal:
called with arguments that come to `v` and then to `w`, the function comes to `answer` and leaves
the journal as the second argument does. -/
def Builtin.Answers (b : Builtin) (v w answer : Value) : Prop :=
  ∀ (host : Host) (scopes : Context) (depth : Nat) (callee left right : Node)
    (journal called between after : Journal),
    (eval host scopes depth callee).runFrom journal = (.ok (.function (.builtin b)), called) →
    (eval host scopes depth left).runFrom called = (.ok v, between) →
    (eval host scopes depth right).runFrom between = (.ok w, after) →
    (eval host scopes (depth + 1) (.call callee [left, right])).runFrom journal =
      (.ok answer, after)

namespace Builtin

variable {b : Builtin} {v w answer answer' : Value}

/-- A function that checks the number of its arguments and reads one answers what it makes of its
value. -/
theorem maps_of_unary {function : String} {expected : Expectation} {rest : Value → Action Value}
    (haction : b.action 1 = (Action.expect function expected 1).bind fun _ =>
      (Action.read 0).bind rest)
    (hadmits : expected.admits 1 = true) (hrest : rest v = .done answer) : b.Maps v answer := by
  intro host scopes depth callee argument journal called after hcallee hargument
  rw [eval_call hcallee]
  show ((b.action 1).perform _ scopes [argument]).runFrom called = _
  rw [haction, Action.expect_of_admits hadmits]
  show (eval host scopes depth argument >>= fun v =>
    (rest v).perform (eval host scopes depth) scopes [argument]).runFrom called = _
  rw [runFrom_bind, hargument]
  dsimp only
  rw [hrest]
  rfl

/-- A call of a function that checks the number of its arguments and reads two of them evaluates the
two, one after the other, and goes on with their values. -/
theorem runFrom_call_of_binary {host : Host} {scopes : Context} {depth : Nat}
    {callee left right : Node} {journal called : Journal} {function : String}
    {expected : Expectation} {rest : Value → Value → Action Value}
    (haction : b.action 2 = (Action.expect function expected 2).bind fun _ =>
      (Action.read 0).bind fun v => (Action.read 1).bind (rest v))
    (hadmits : expected.admits 2 = true)
    (hcallee : (eval host scopes depth callee).runFrom journal =
      (.ok (.function (.builtin b)), called)) :
    (eval host scopes (depth + 1) (.call callee [left, right])).runFrom journal =
      (eval host scopes depth left >>= fun v => eval host scopes depth right >>= fun w =>
        (rest v w).perform (eval host scopes depth) scopes [left, right]).runFrom called := by
  rw [eval_call hcallee]
  show ((b.action 2).perform _ scopes [left, right]).runFrom called = _
  rw [haction, Action.expect_of_admits hadmits]
  rfl

/-- A function that reads two arguments, the second one where the value of the first asks for it,
answers what it makes of their values. -/
theorem answers_of_reads {first second : Value → Action Value}
    (haction : b.action 2 = (Action.read 0).bind first)
    (hfirst : first v = (Action.read 1).bind second) (hsecond : second w = .done answer) :
    b.Answers v w answer := by
  intro host scopes depth callee left right journal called between after hcallee hleft hright
  rw [eval_call hcallee]
  show ((b.action 2).perform _ scopes [left, right]).runFrom called = _
  rw [haction]
  show (eval host scopes depth left >>= fun v =>
    (first v).perform (eval host scopes depth) scopes [left, right]).runFrom called = _
  rw [runFrom_bind, hleft]
  dsimp only
  rw [hfirst]
  show (eval host scopes depth right >>= fun w =>
    (second w).perform (eval host scopes depth) scopes [left, right]).runFrom between = _
  rw [runFrom_bind, hright]
  dsimp only
  rw [hsecond]
  rfl

/-- So does one that checks the number of its arguments first. -/
theorem answers_of_binary {function : String} {expected : Expectation}
    {rest : Value → Value → Action Value}
    (haction : b.action 2 = (Action.expect function expected 2).bind fun _ =>
      (Action.read 0).bind fun v => (Action.read 1).bind (rest v))
    (hadmits : expected.admits 2 = true) (hrest : rest v w = .done answer) :
    b.Answers v w answer := by
  rw [Action.expect_of_admits hadmits] at haction
  exact answers_of_reads haction rfl hrest

/-- Two values, whatever they are, under two names, and a function. -/
def argumentScope (b : Builtin) (v w : Value) : Context :=
  .ofScope
    { name := "arguments"
      bindings := [("call", .function (.builtin b)), ("with", .map [("left", v), ("right", w)])] }

/-- Every value is that of some argument, so a function does not answer in two ways. -/
theorem Maps.unique (h : b.Maps v answer) (h' : b.Maps v answer') : answer = answer' := by
  let argument : Node := .access (.reference ⟨.identifier, "with", 1⟩) ⟨.identifier, "left", 1⟩
  let callee : Node := .reference ⟨.identifier, "call", 1⟩
  have hcall := h Host.empty (argumentScope b v v) 2 callee argument .new .new .new rfl rfl
  have hcall' := h' Host.empty (argumentScope b v v) 2 callee argument .new .new .new rfl rfl
  rw [hcall] at hcall'
  cases hcall'
  rfl

/-- Every two values are those of some arguments, so a function does not answer in two ways. -/
theorem Answers.unique (h : b.Answers v w answer) (h' : b.Answers v w answer') :
    answer = answer' := by
  let argument (name : String) : Node :=
    .access (.reference ⟨.identifier, "with", 1⟩) ⟨.identifier, name, 1⟩
  let callee : Node := .reference ⟨.identifier, "call", 1⟩
  have hcall := h Host.empty (argumentScope b v w) 2 callee (argument "left") (argument "right")
    .new .new .new .new rfl rfl rfl
  have hcall' := h' Host.empty (argumentScope b v w) 2 callee (argument "left") (argument "right")
    .new .new .new .new rfl rfl rfl
  rw [hcall] at hcall'
  cases hcall'
  rfl

end Builtin

end Splice
