import Splice.Proofs.Turns

/-!
# `Splice.Proofs.Demand` — the arguments that builtin functions evaluate

A builtin function looks at the number of its arguments first. If it accepts the number, it
evaluates the arguments that it needs from left to right, each of them once, and nothing else. So
all that a call leaves behind is what these arguments leave behind.

## Contents
- `Builtin.expects?`, `Builtin.Declines`: the numbers of arguments that a function does not accept.
- `Builtin.needs`: the arguments that a function needs.
- `action_of_not_admits`, `demands_action`: what the action of a function is like in either case.
- `Builtin.ascends_action`: every function evaluates its arguments from left to right.
- `Builtin.evaluates_in_turn`: how a call of a builtin function deals with its arguments.
-/

namespace Splice

open Splice.Action (demands_expect demands_read demands_readAll)

namespace Catalogue

variable {b : Builtin} {found : Nat}

/-! ## Functions of the catalogue -/

theorem demands_unary {function : String} {expected : Expectation} {rest : Value → Action Value}
    (h : expected.admits found = true) (hrest : ∀ v, (rest v).Demands []) :
    ((Action.expect function expected found).bind fun _ => (Action.read 0).bind rest).Demands [0] :=
  demands_expect h (demands_read hrest)

theorem demands_binary {α : Type} {function : String} {expected : Expectation}
    {rest : Value → Value → Action α} (h : expected.admits found = true)
    (hrest : ∀ v w, (rest v w).Demands []) :
    ((Action.expect function expected found).bind fun _ =>
      (Action.read 0).bind fun v => (Action.read 1).bind (rest v)).Demands [0, 1] :=
  demands_expect h (demands_read fun v => demands_read (hrest v))

theorem demands_comparison {holds : Float → Float → Bool}
    (h : (Expectation.exactly 2).admits found = true) :
    (comparison b holds found).Demands [0, 1] := by
  refine demands_binary h fun left right => ?_
  split <;> trivial

theorem demands_operands (h : (Expectation.atLeast 2).admits found = true) :
    (operands b found).Demands [0, 1] := by
  refine demands_binary h fun left right => ?_
  split <;> trivial

theorem demands_clamp (h : (Expectation.exactly 3).admits found = true) :
    (clamp found).Demands [0, 1, 2] := by
  refine demands_expect h ?_
  refine demands_read fun v => demands_read fun low => demands_read fun high => ?_
  split
  · split <;> trivial
  · trivial

theorem demands_substring (h : (Expectation.atLeast 2).admits found = true) :
    (substring found).Demands [0, 1, 2] := by
  refine demands_expect h
    (demands_read fun source => demands_read fun start => demands_read fun stop => ?_)
  split
  · trivial
  · trivial
  · dsimp only
    split <;> trivial

/-- A choice goes from left to right: to the value of a true condition, or on to the next one. -/
theorem ascends_chooseFrom (position n : Nat) : (chooseFrom position n).Ascends position := by
  induction position, n using chooseFrom.induct with
  | case1 position => trivial
  | case2 position => exact ⟨Nat.le_refl _, fun _ => trivial⟩
  | case3 position n ih =>
    refine ⟨Nat.le_refl _, fun condition => ?_⟩
    show (if condition.bool? = some true then Action.read (position + 1)
      else chooseFrom (position + 2) n).Ascends (position + 1)
    split
    · exact ⟨Nat.le_refl _, fun _ => trivial⟩
    · exact ih.mono (Nat.le_succ _)

/-- A part of a list is made of its first argument, and if that is a list, of the second one. -/
theorem exists_part (leave : Nat → List Value → List Value)
    (h : (Expectation.exactly 2).admits found = true) :
    ∃ next : Value → Action Value, part b leave found = .argument 0 next ∧
      ∀ v, (next v).Demands (if v.list?.isSome then [1] else []) := by
  rw [part, Action.bind_eq, Action.expect_of_admits h]
  refine ⟨_, rfl, fun v => ?_⟩
  dsimp only [Action.done_bind]
  cases v.list? with
  | none => trivial
  | some items =>
    refine demands_read fun count => ?_
    split <;> trivial

/-- A number is written with its first argument, and if that is a number, with the second one. -/
theorem exists_formatNumber (h : found ≤ 2) :
    ∃ next : Value → Action Value, formatNumber found = .argument 0 next ∧
      ∀ v, (next v).Demands (if v.float?.isSome then [1] else []) := by
  rw [formatNumber, if_neg (Nat.not_lt.2 h)]
  refine ⟨_, rfl, fun v => ?_⟩
  dsimp only [Action.done_bind]
  cases v.float? with
  | none => trivial
  | some x => exact demands_read fun pattern => trivial

end Catalogue

/-! ## What builtin functions need -/

namespace Builtin

/-- How many arguments a function takes, if it checks their number. -/
def expects? : Builtin → Option Expectation
  | sum | multiply | concat | numberFormat => none
  | isNull | isNotNull => some (.atMost 1)
  | not | ceil | floor | abs | firstElement | lastElement | reversed | toInt | isEmpty | length
  | qsEncode => some (.exactly 1)
  | gt | gte | lt | lte | or | and | modulo | contains | elementAt | skip | take =>
    some (.exactly 2)
  | clamp => some (.exactly 3)
  | isEqual | isNotEqual | choose | diff | divide | substring | jsonGet | isoFormat =>
    some (.atLeast 2)

/-- The function does not accept this number of arguments: a check fails, or there is one too many
for a number and its pattern. -/
def Declines (b : Builtin) (found : Nat) : Prop :=
  (∃ expected, b.expects? = some expected ∧ expected.admits found = false) ∨
    b = numberFormat ∧ 2 < found

/-- The positions of the arguments that a function other than the choice needs, `first` being the
value of the first one. -/
def needs (b : Builtin) (found : Nat) (first : Value) : List Nat :=
  match b with
  | isEqual | isNotEqual | diff | divide | jsonGet | isoFormat => [0, 1]
  | substring => List.range (min found 3)
  | skip | take => if first.list?.isSome then List.range found else [0]
  | numberFormat => if first.float?.isSome then List.range found else List.range (min found 1)
  | _ => List.range found

variable {b : Builtin} {found : Nat}

theorem admits_of_not_declines {expected : Expectation} (h : ¬ b.Declines found)
    (hexpects : b.expects? = some expected) : expected.admits found = true := by
  by_contra hadmits
  exact h (.inl ⟨expected, hexpects, Bool.not_eq_true _ ▸ hadmits⟩)

/-- A call with a number of arguments that does not pass the check fails at once. -/
theorem action_of_not_admits {expected : Expectation} (hexpects : b.expects? = some expected)
    (h : expected.admits found = false) :
    b.action found = .fail (.argumentCount b.name expected found) := by
  have hfails : ∀ {α : Type} (rest : Unit → Action α),
      (Action.expect b.name expected found).bind rest =
        .fail (.argumentCount b.name expected found) := by
    intro α rest
    rw [Action.expect_of_not_admits h]
    rfl
  cases b with
  | sum | multiply | concat | numberFormat => cases hexpects
  | diff =>
    cases hexpects
    show (Catalogue.operands .diff found).bind _ = _
    have hoperands : Catalogue.operands .diff found = .fail _ := hfails _
    rw [hoperands]
    rfl
  | divide =>
    cases hexpects
    show (Catalogue.operands .divide found).bind _ = _
    have hoperands : Catalogue.operands .divide found = .fail _ := hfails _
    rw [hoperands]
    rfl
  | _ =>
    cases hexpects
    exact hfails _

theorem filter_pair (h : 2 ≤ found) : [0, 1].filter (· < found) = [0, 1] := by
  refine List.filter_eq_self.2 fun p hp => ?_
  simp only [List.mem_cons, List.not_mem_nil, or_false] at hp
  exact decide_eq_true (by omega)

open Catalogue (demands_unary demands_binary demands_comparison demands_operands demands_clamp
  demands_substring) in
/-- A function that accepts the number of its arguments evaluates those that it needs, whatever the
values of the others are, unless the first of them decides about the second. -/
theorem demands_action (h : ¬ b.Declines found)
    (hb : b ≠ choose ∧ b ≠ skip ∧ b ≠ take ∧ b ≠ numberFormat) :
    ∃ positions, (b.action found).Demands positions ∧ positions.Pairwise (· < ·) ∧
      ∀ first, positions.filter (· < found) = b.needs found first := by
  have hadmits : ∀ {expected}, b.expects? = some expected → expected.admits found = true :=
    admits_of_not_declines h
  cases b with
  | choose => exact absurd rfl hb.1
  | skip => exact absurd rfl hb.2.1
  | take => exact absurd rfl hb.2.2.1
  | numberFormat => exact absurd rfl hb.2.2.2
  | sum | multiply | concat =>
    refine ⟨List.range found, demands_readAll fun vs => trivial, List.pairwise_lt_range, ?_⟩
    exact fun first => List.filter_eq_self.2 fun p hp => by simpa using hp
  | isNull | isNotNull =>
    have hfound : found ≤ 1 := of_decide_eq_true (hadmits rfl)
    refine ⟨[0], demands_unary (hadmits rfl) fun v => trivial, List.pairwise_singleton _ _, ?_⟩
    intro first
    obtain rfl | rfl : found = 0 ∨ found = 1 := by omega
    · rfl
    · rfl
  | firstElement | lastElement | toInt | isEmpty | length =>
    obtain rfl : found = 1 := eq_of_beq (hadmits rfl)
    exact ⟨[0], demands_unary rfl fun v => trivial, List.pairwise_singleton _ _, fun first => rfl⟩
  | not | ceil | floor | abs | reversed | qsEncode =>
    obtain rfl : found = 1 := eq_of_beq (hadmits rfl)
    refine ⟨[0], demands_unary rfl fun v => ?_, List.pairwise_singleton _ _, fun first => rfl⟩
    rw [Action.pure_eq]
    trivial
  | gt | gte | lt | lte =>
    obtain rfl : found = 2 := eq_of_beq (hadmits rfl)
    exact ⟨[0, 1], demands_comparison rfl, by decide, fun first => rfl⟩
  | contains =>
    obtain rfl : found = 2 := eq_of_beq (hadmits rfl)
    exact ⟨[0, 1], demands_binary rfl fun v w => trivial, by decide, fun first => rfl⟩
  | or | and | modulo | elementAt =>
    obtain rfl : found = 2 := eq_of_beq (hadmits rfl)
    refine ⟨[0, 1], demands_binary rfl fun v w => ?_, by decide, fun first => rfl⟩
    split <;> trivial
  | clamp =>
    obtain rfl : found = 3 := eq_of_beq (hadmits rfl)
    exact ⟨[0, 1, 2], demands_clamp rfl, by decide, fun first => rfl⟩
  | isEqual | isNotEqual =>
    have hfound : 2 ≤ found := of_decide_eq_true (hadmits rfl)
    exact ⟨[0, 1], demands_binary (hadmits rfl) fun v w => trivial, by decide,
      fun first => filter_pair hfound⟩
  | jsonGet | isoFormat =>
    have hfound : 2 ≤ found := of_decide_eq_true (hadmits rfl)
    refine ⟨[0, 1], demands_binary (hadmits rfl) fun v w => ?_, by decide,
      fun first => filter_pair hfound⟩
    split <;> trivial
  | diff =>
    have hfound : 2 ≤ found := of_decide_eq_true (hadmits rfl)
    exact ⟨[0, 1], (demands_operands (hadmits rfl)).bind fun operands => trivial, by decide,
      fun first => filter_pair hfound⟩
  | divide =>
    have hfound : 2 ≤ found := of_decide_eq_true (hadmits rfl)
    refine ⟨[0, 1], (demands_operands (hadmits rfl)).bind fun operands => ?_, by decide,
      fun first => filter_pair hfound⟩
    dsimp only
    split <;> trivial
  | substring =>
    have hfound : 2 ≤ found := of_decide_eq_true (hadmits rfl)
    refine ⟨[0, 1, 2], demands_substring (hadmits rfl), by decide, fun first => ?_⟩
    show List.filter (· < found) [0, 1, 2] = List.range (min found 3)
    by_cases hthird : found = 2
    · rw [hthird]
      rfl
    · have hmin : min found 3 = 3 := by omega
      rw [hmin]
      refine List.filter_eq_self.2 fun p hp => ?_
      simp only [List.mem_cons, List.not_mem_nil, or_false] at hp
      exact decide_eq_true (by omega)

/-- The first argument, and the second one if the first is as expected. -/
def secondIf (expected : Bool) : List Nat := if expected then [1] else []

open Catalogue (exists_part exists_formatNumber) in
/-- Three functions need their second argument only if the first one is as they expect. -/
theorem exists_action_argument (h : ¬ b.Declines found)
    (hb : b = skip ∨ b = take ∨ b = numberFormat) :
    ∃ (next : Value → Action Value) (expected : Value → Bool),
      b.action found = .argument 0 next ∧ (∀ v, (next v).Demands (secondIf (expected v))) ∧
      (0 < found → ∀ first,
        0 :: (secondIf (expected first)).filter (· < found) = b.needs found first) := by
  have hadmits : ∀ {expected}, b.expects? = some expected → expected.admits found = true :=
    admits_of_not_declines h
  have hone : ∀ expected : Bool, 0 :: (secondIf expected).filter (· < 1) =
      if expected then List.range 1 else List.range (min 1 1) := by decide
  have htwo : ∀ expected : Bool, 0 :: (secondIf expected).filter (· < 2) =
      if expected then List.range 2 else [0] := by decide
  rcases hb with rfl | rfl | rfl
  · obtain ⟨next, haction, hnext⟩ := exists_part List.drop (hadmits rfl)
    obtain rfl : found = 2 := eq_of_beq (hadmits rfl)
    exact ⟨next, _, haction, hnext, fun _ first => htwo first.list?.isSome⟩
  · obtain ⟨next, haction, hnext⟩ := exists_part List.take (hadmits rfl)
    obtain rfl : found = 2 := eq_of_beq (hadmits rfl)
    exact ⟨next, _, haction, hnext, fun _ first => htwo first.list?.isSome⟩
  · have hle : found ≤ 2 := Nat.not_lt.1 fun hlt => h (.inr ⟨rfl, hlt⟩)
    obtain ⟨next, haction, hnext⟩ := exists_formatNumber hle
    refine ⟨next, _, haction, hnext, fun hpos first => ?_⟩
    obtain rfl | rfl : found = 1 ∨ found = 2 := by omega
    · exact hone first.float?.isSome
    · exact htwo first.float?.isSome

/-- The choice that accepts the number of its arguments starts from the first of them. -/
theorem action_choose (h : (Expectation.atLeast 2).admits found = true) :
    choose.action found = Catalogue.chooseFrom 0 found := by
  show (Action.expect choose.name (.atLeast 2) found).bind _ = _
  rw [Action.expect_of_admits h]
  rfl

open Catalogue (ascends_chooseFrom) in
/-- Every function evaluates its arguments from left to right and does nothing else. -/
theorem ascends_action (b : Builtin) (found : Nat) : (b.action found).Ascends 0 := by
  by_cases h : b.Declines found
  · rcases h with ⟨expected, hexpects, hadmits⟩ | ⟨rfl, hfound⟩
    · rw [action_of_not_admits hexpects hadmits]
      trivial
    · show (Catalogue.formatNumber found).Ascends 0
      rw [Catalogue.formatNumber, if_pos hfound]
      trivial
  · by_cases hchoose : b = choose
    · subst hchoose
      rw [action_choose (admits_of_not_declines h rfl)]
      exact ascends_chooseFrom 0 found
    · by_cases hb : b = skip ∨ b = take ∨ b = numberFormat
      · obtain ⟨next, expected, haction, hnext, -⟩ := exists_action_argument h hb
        rw [haction]
        refine ⟨Nat.le_refl 0, fun v => (hnext v).ascends ?_ ?_⟩
        · cases expected v <;> decide
        · cases expected v <;> decide
      · have hplain : b ≠ choose ∧ b ≠ skip ∧ b ≠ take ∧ b ≠ numberFormat := by
          simpa [not_or] using And.intro hchoose hb
        obtain ⟨positions, hpositions, hsorted, -⟩ := demands_action h hplain
        exact hpositions.ascends hsorted fun p _ => Nat.zero_le p

variable {evaluate : Node → EvalM Value} {scopes : Context} {arguments : List Node}
  {journal after : Journal} {traces : List (List String)} {values : List Value}
  {stop : Option Halt}

/-- The arguments that a function evaluates are those that it needs, up to the first that halts. -/
theorem visited_action (h : ¬ b.Declines arguments.length) (hchoose : b ≠ choose)
    (hturn : InTurn evaluate arguments
      ((b.action arguments.length).visited evaluate scopes arguments journal) journal traces values
      stop after) :
    (b.action arguments.length).visited evaluate scopes arguments journal <+:
        b.needs arguments.length (values.headD .null) ∧
      (stop = none → (b.action arguments.length).visited evaluate scopes arguments journal =
        b.needs arguments.length (values.headD .null)) := by
  by_cases hb : b = skip ∨ b = take ∨ b = numberFormat
  · obtain ⟨next, expected, haction, hnext, hneeds⟩ := exists_action_argument h hb
    by_cases hfound : 0 < arguments.length
    · rw [haction] at hturn ⊢
      rw [← hneeds hfound]
      exact Action.visited_argument_of_inTurn hfound hnext hturn
    · -- without arguments there is only the number format, which evaluates nothing then
      have hzero : arguments.length = 0 := Nat.eq_zero_of_not_pos hfound
      have hneeds : b.needs arguments.length (values.headD .null) = [] := by
        rcases hb with rfl | rfl | rfl
        · exact absurd (.inl ⟨_, rfl, by rw [hzero]; rfl⟩) h
        · exact absurd (.inl ⟨_, rfl, by rw [hzero]; rfl⟩) h
        · rw [hzero]
          exact ite_self _
      have hvisited :
          (b.action arguments.length).visited evaluate scopes arguments journal = [] := by
        refine List.eq_nil_iff_forall_not_mem.2 fun p hp => ?_
        have hp := ((ascends_action b arguments.length).visited_lt journal).2 p hp
        exact hfound (Nat.zero_lt_of_lt hp.2)
      rw [hneeds, hvisited]
      exact ⟨List.prefix_refl _, fun _ => rfl⟩
  · have hplain : b ≠ choose ∧ b ≠ skip ∧ b ≠ take ∧ b ≠ numberFormat := by
      simpa [not_or] using And.intro hchoose hb
    obtain ⟨positions, hpositions, -, hneeds⟩ := demands_action h hplain
    rw [← hneeds]
    exact hpositions.visited_of_inTurn hturn

/-- To call a builtin function is to run its action on the arguments, once its name is evaluated. -/
theorem eval_call {host : Host} {depth : Nat} {callee : Node} {start : Journal}
    (h : (eval host scopes depth callee).runFrom start = (.ok (.function (.builtin b)), journal))
    (arguments : List Node) :
    (eval host scopes (depth + 1) (.call callee arguments)).runFrom start =
      ((b.action arguments.length).perform (eval host scopes depth) scopes arguments).runFrom
        journal := by
  rw [eval, EvalM.runFrom_bind, h]
  rfl

/-- **A builtin function evaluates its arguments in turn.** It evaluates each of them once at most,
from left to right, and none of them if it does not accept their number. A call is what these
evaluations are, one after the other: the first one that halts is the last, and its halt is that of
the call; if none does, the arguments that were evaluated are exactly those that the function needs,
and the call ends with a result or an error in the journal that they leave. So what the call adds to
the trace is what each of them adds to it, in their order. -/
theorem evaluates_in_turn (b : Builtin) (host : Host) (scopes : Context) (depth : Nat)
    (arguments : List Node) (journal : Journal) :
    let found := arguments.length
    let evaluate := eval host scopes depth
    let call := (b.action found).perform evaluate scopes arguments
    let positions := (b.action found).visited evaluate scopes arguments journal
    (∀ callee start,
      (evaluate callee).runFrom start = (.ok (.function (.builtin b)), journal) →
      (eval host scopes (depth + 1) (.call callee arguments)).runFrom start =
        call.runFrom journal) ∧
    positions.Pairwise (· < ·) ∧ (∀ p ∈ positions, p < found) ∧
    (∀ expected, b.expects? = some expected → expected.admits found = false →
      positions = [] ∧ call.runFrom journal =
        (.error (.failed (.argumentCount b.name expected found)), journal)) ∧
    (b = numberFormat → 2 < found →
      positions = [] ∧ call.runFrom journal =
        (.ok (.text "Incorrect argument size"), journal)) ∧
    ∃ traces values stop after,
      InTurn evaluate arguments positions journal traces values stop after ∧
      after.trace = journal.trace ++ traces.flatten ∧
      (∀ halt, stop = some halt → call.runFrom journal = (.error halt, after)) ∧
      (stop = none → ∃ answer : Except EvalError Value,
        call.runFrom journal = (answer.mapError .failed, after)) ∧
      (b ≠ choose → ¬ b.Declines found →
        positions <+: b.needs found (values.headD .null) ∧
          (stop = none → positions = b.needs found (values.headD .null))) := by
  intro found evaluate call positions
  have hascends := ascends_action b found
  obtain ⟨hsorted, hbounds⟩ := hascends.visited_lt journal
  obtain ⟨traces, values, stop, after, hturn, hhalt, hanswer⟩ :=
    hascends.inTurn (appends_eval host scopes depth) journal
  refine ⟨fun callee start h => eval_call h arguments, hsorted, fun p hp => (hbounds p hp).2,
    fun expected hexpects hadmits => ?_, ?_, traces, values, stop, after, hturn, hturn.trace_eq,
    hhalt, hanswer, fun hchoose hdeclines => visited_action hdeclines hchoose hturn⟩
  · show (b.action found).visited evaluate scopes arguments journal = [] ∧
      ((b.action found).perform evaluate scopes arguments).runFrom journal = _
    rw [action_of_not_admits hexpects hadmits]
    exact ⟨rfl, rfl⟩
  · rintro rfl hfound
    have haction : numberFormat.action found = .done (.text "Incorrect argument size") := by
      show Catalogue.formatNumber found = _
      rw [Catalogue.formatNumber, if_pos hfound]
      rfl
    show (numberFormat.action found).visited evaluate scopes arguments journal = [] ∧
      ((numberFormat.action found).perform evaluate scopes arguments).runFrom journal = _
    rw [haction]
    exact ⟨rfl, rfl⟩

end Builtin

end Splice
