import Mathlib.Data.List.Forall2
import Splice.Eval

/-!
# `Splice.Proofs.Runs` — evaluations and their runs

An evaluation is run from a journal and leaves one behind. What is said about evaluations is said
about their runs, in two ways: what a run may end with, and what two evaluations have in common when
they are run from the same journal.

## Contents
- `EvalM.runFrom`: a run of an evaluation; `runFrom_bind_eq_ok`, `runFrom_bind_eq_error` take a run
  of two evaluations in sequence apart, `runFrom_mapM_cons_of_ok`, `runFrom_mapM_cons_of_error` one
  of an evaluation for each element of a list.
- `EvalM.Ensures`: what the values and the halts of an evaluation are like.
- `EvalM.Within`: one evaluation answers whatever another one does, errors up to a likeness.
- `bind_congr`, `mapM_congr_of_mem`: sequences that are equal step by step.
-/

namespace Splice.EvalM

variable {α β : Type}

/-! ## Runs -/

/-- How a run from a journal ends, and the journal it leaves behind. -/
def runFrom (x : EvalM α) (journal : Journal) : Except Halt α × Journal := x.run.run journal

variable {x x' : EvalM α} {f f' : α → EvalM β} {journal after : Journal} {halt : Halt}

theorem ext_runFrom (h : ∀ journal, x.runFrom journal = x'.runFrom journal) : x = x' := funext h

@[simp] theorem runFrom_pure (a : α) (journal : Journal) :
    (pure a : EvalM α).runFrom journal = (.ok a, journal) := rfl

@[simp] theorem runFrom_throw (halt : Halt) (journal : Journal) :
    (throw halt : EvalM α).runFrom journal = (.error halt, journal) := rfl

@[simp] theorem runFrom_fail (error : EvalError) (journal : Journal) :
    (fail error : EvalM α).runFrom journal = (.error (.failed error), journal) := rfl

/-- What is done to the journal alone never halts. -/
@[simp] theorem runFrom_liftM (s : StateM Journal α) (journal : Journal) :
    (liftM s : EvalM α).runFrom journal = (.ok (s.run journal).1, (s.run journal).2) := rfl

theorem runFrom_bind (x : EvalM α) (f : α → EvalM β) (journal : Journal) :
    (x >>= f).runFrom journal =
      match x.runFrom journal with
      | (.ok a, after) => (f a).runFrom after
      | (.error halt, after) => (.error halt, after) := by
  show (ExceptT.bindCont f (x journal).1) (x journal).2 = _
  show _ = match x journal with
    | (.ok a, after) => (f a).runFrom after
    | (.error halt, after) => (.error halt, after)
  obtain ⟨result, after⟩ := x journal
  cases result <;> rfl

/-- A sequence has a value exactly if the first evaluation has one and the second one has it from
there. -/
theorem runFrom_bind_eq_ok {b : β} : (x >>= f).runFrom journal = (.ok b, after) ↔
    ∃ a between, x.runFrom journal = (.ok a, between) ∧ (f a).runFrom between = (.ok b, after) := by
  rw [runFrom_bind]
  constructor
  · intro h
    split at h
    · next a between hx => exact ⟨a, between, hx, h⟩
    · cases h
  · rintro ⟨a, between, hx, hf⟩
    rw [hx]
    exact hf

/-- A sequence halts where its first evaluation does, or behind it where the second one does. -/
theorem runFrom_bind_eq_error : (x >>= f).runFrom journal = (.error halt, after) ↔
    x.runFrom journal = (.error halt, after) ∨
    ∃ a between, x.runFrom journal = (.ok a, between) ∧
      (f a).runFrom between = (.error halt, after) := by
  rw [runFrom_bind]
  constructor
  · intro h
    split at h
    · next a between hx => exact .inr ⟨a, between, hx, h⟩
    · next stop between hx =>
      cases h
      exact .inl hx
  · rintro (hx | ⟨a, between, hx, hf⟩)
    · rw [hx]
    · rw [hx]
      exact hf

section Lists

variable {γ : Type} {g : γ → EvalM α} {c : γ} {cs : List γ} {a : α} {between : Journal}

/-- Behind a value, a run over a list goes on with the rest. -/
theorem runFrom_mapM_cons_of_ok (h : (g c).runFrom journal = (.ok a, between)) :
    ((c :: cs).mapM g).runFrom journal =
      (((cs.mapM g).runFrom between).1.map (a :: ·), ((cs.mapM g).runFrom between).2) := by
  rw [List.mapM_cons, runFrom_bind, h]
  dsimp only
  rw [runFrom_bind]
  cases hrest : (cs.mapM g).runFrom between with
  | mk result after => cases result <;> rfl

/-- A halt ends a run over a list. -/
theorem runFrom_mapM_cons_of_error (h : (g c).runFrom journal = (.error halt, after)) :
    ((c :: cs).mapM g).runFrom journal = (.error halt, after) := by
  rw [List.mapM_cons, runFrom_bind, h]

end Lists

/-! ## What a run may end with -/

/-- From every journal, a value is `p` and a halt is `q`. -/
structure Ensures (p : α → Prop) (q : Halt → Prop) (x : EvalM α) : Prop where
  value : ∀ {journal a after}, x.runFrom journal = (.ok a, after) → p a
  halt : ∀ {journal stop after}, x.runFrom journal = (.error stop, after) → q stop

namespace Ensures

variable {p : α → Prop} {p' : β → Prop} {q : Halt → Prop}

theorem pure {a : α} (h : p a) : Ensures p q (pure a) := by
  refine ⟨fun hrun => ?_, fun hrun => ?_⟩
  · rw [runFrom_pure] at hrun
    cases hrun
    exact h
  · rw [runFrom_pure] at hrun
    cases hrun

theorem throw {halt : Halt} (h : q halt) : Ensures p q (throw halt) := by
  refine ⟨fun hrun => ?_, fun hrun => ?_⟩
  · rw [runFrom_throw] at hrun
    cases hrun
  · rw [runFrom_throw] at hrun
    cases hrun
    exact h

theorem liftM (s : StateM Journal α) : Ensures (fun _ => True) q (liftM s : EvalM α) := by
  refine ⟨fun _ => trivial, fun hrun => ?_⟩
  rw [runFrom_liftM] at hrun
  cases hrun

theorem bind (hx : Ensures p q x) (hf : ∀ a, p a → Ensures p' q (f a)) :
    Ensures p' q (x >>= f) := by
  refine ⟨fun hrun => ?_, fun hrun => ?_⟩
  · obtain ⟨a, between, hfirst, hsecond⟩ := runFrom_bind_eq_ok.1 hrun
    exact (hf a (hx.value hfirst)).value hsecond
  · rcases runFrom_bind_eq_error.1 hrun with hfirst | ⟨a, between, hfirst, hsecond⟩
    · exact hx.halt hfirst
    · exact (hf a (hx.value hfirst)).halt hsecond

theorem mapM {γ : Type} {g : γ → EvalM α} {xs : List γ} (h : ∀ c ∈ xs, Ensures p q (g c)) :
    Ensures (fun as => ∀ a ∈ as, p a) q (xs.mapM g) := by
  induction xs with
  | nil =>
    rw [List.mapM_nil]
    exact .pure fun a ha => absurd ha List.not_mem_nil
  | cons c cs ih =>
    rw [List.mapM_cons]
    refine .bind (h c (List.mem_cons_self ..)) fun a ha => ?_
    refine .bind (ih fun d hd => h d (List.mem_cons_of_mem _ hd)) fun as has => ?_
    refine .pure fun b hb => ?_
    rcases List.mem_cons.1 hb with rfl | hb
    · exact ha
    · exact has b hb

end Ensures

/-! ## Evaluations that answer the same -/

/-- Whatever value the first evaluation has, the second one has, too, and it leaves the same
journal. Where the first one fails, the second one fails alike. Nothing is asked where the first one
reaches the limit of its depth. -/
structure Within (alike : EvalError × Journal → EvalError × Journal → Prop) (x y : EvalM α) :
    Prop where
  value : ∀ {journal a after}, x.runFrom journal = (.ok a, after) →
    y.runFrom journal = (.ok a, after)
  failure : ∀ {journal error after}, x.runFrom journal = (.error (.failed error), after) →
    ∃ error' after', y.runFrom journal = (.error (.failed error'), after') ∧
      alike (error, after) (error', after')

namespace Within

variable {alike : EvalError × Journal → EvalError × Journal → Prop}

theorem refl (h : ∀ outcome, alike outcome outcome) (x : EvalM α) : Within alike x x :=
  ⟨fun hrun => hrun, fun hrun => ⟨_, _, hrun, h _⟩⟩

theorem pure (a : α) : Within alike (pure a) (pure a) := by
  refine ⟨fun hrun => hrun, fun hrun => ?_⟩
  rw [runFrom_pure] at hrun
  cases hrun

/-- An evaluation that has reached the limit of its depth is within every other one. -/
theorem exhausted (x : EvalM α) : Within alike (throw .exhausted) x := by
  refine ⟨fun hrun => ?_, fun hrun => ?_⟩
  · rw [runFrom_throw] at hrun
    cases hrun
  · rw [runFrom_throw] at hrun
    cases hrun

/-- Two failures are alike if they are wherever they happen. -/
theorem fail {s s' : StateM Journal EvalError}
    (h : ∀ journal, alike (s.run journal) (s'.run journal)) :
    Within alike (liftM s >>= EvalM.fail : EvalM α) (liftM s' >>= EvalM.fail) := by
  have hfails : ∀ (s : StateM Journal EvalError) (journal : Journal),
      (liftM s >>= EvalM.fail : EvalM α).runFrom journal =
        (.error (.failed (s.run journal).1), (s.run journal).2) := by
    intro s journal
    rw [runFrom_bind, runFrom_liftM]
    exact runFrom_fail ..
  refine ⟨fun hrun => ?_, fun {journal error after} hrun => ?_⟩
  · rw [hfails] at hrun
    cases hrun
  · rw [hfails] at hrun
    cases hrun
    exact ⟨_, _, hfails s' journal, h journal⟩

theorem bind (hx : Within alike x x') (hf : ∀ a, Within alike (f a) (f' a)) :
    Within alike (x >>= f) (x' >>= f') := by
  refine ⟨fun hrun => ?_, fun hrun => ?_⟩
  · obtain ⟨a, between, hfirst, hsecond⟩ := runFrom_bind_eq_ok.1 hrun
    exact runFrom_bind_eq_ok.2 ⟨a, between, hx.value hfirst, (hf a).value hsecond⟩
  · rcases runFrom_bind_eq_error.1 hrun with hfirst | ⟨a, between, hfirst, hsecond⟩
    · obtain ⟨error', after', hfirst', hlike⟩ := hx.failure hfirst
      exact ⟨error', after', runFrom_bind_eq_error.2 (.inl hfirst'), hlike⟩
    · obtain ⟨error', after', hsecond', hlike⟩ := (hf a).failure hsecond
      refine ⟨error', after', ?_, hlike⟩
      exact runFrom_bind_eq_error.2 (.inr ⟨a, between, hx.value hfirst, hsecond'⟩)

theorem mapM {γ : Type} {g g' : γ → EvalM α} {xs ys : List γ}
    (h : List.Forall₂ (fun c d => Within alike (g c) (g' d)) xs ys) :
    Within alike (xs.mapM g) (ys.mapM g') := by
  induction h with
  | nil => exact pure []
  | cons hhead _ ih =>
    rw [List.mapM_cons, List.mapM_cons]
    refine bind hhead fun a => ?_
    exact bind ih fun as => pure (a :: as)

/-- If errors have to be the same, being within is transitive. -/
theorem trans {x y z : EvalM α} (hxy : Within Eq x y) (hyz : Within Eq y z) : Within Eq x z := by
  refine ⟨fun hrun => hyz.value (hxy.value hrun), fun hrun => ?_⟩
  obtain ⟨error, after, hrun, heq⟩ := hxy.failure hrun
  rw [heq]
  exact hyz.failure hrun

/-- An evaluation within another one has the same runs, apart from those that reach the limit. -/
theorem runFrom_eq {x y : EvalM α} (h : Within Eq x y) {result : Except EvalError α}
    (hrun : x.runFrom journal = (result.mapError .failed, after)) :
    y.runFrom journal = (result.mapError .failed, after) := by
  cases result with
  | ok a => exact h.value hrun
  | error e =>
    obtain ⟨error, after', hrun', heq⟩ := h.failure hrun
    injection heq with herror hafter
    rw [hrun', ← herror, ← hafter]
    rfl

end Within

/-! ## Equal step by step -/

/-- Two sequences are equal if their first evaluations are, and the second ones wherever the first
has a value. -/
theorem bind_congr {p : α → Prop} (hx : x = x') (hp : Ensures p (fun _ => True) x)
    (hf : ∀ a, p a → f a = f' a) : x >>= f = x' >>= f' := by
  subst hx
  apply ext_runFrom
  intro journal
  rw [runFrom_bind, runFrom_bind]
  split
  · next a between hrun => rw [hf a (hp.value hrun)]
  · rfl

theorem mapM_congr_of_mem {γ : Type} {g g' : γ → EvalM α} {xs : List γ}
    (h : ∀ c ∈ xs, g c = g' c) : xs.mapM g = xs.mapM g' := by
  induction xs with
  | nil => rfl
  | cons c cs ih =>
    rw [List.mapM_cons, List.mapM_cons, h c (List.mem_cons_self ..),
      ih fun d hd => h d (List.mem_cons_of_mem _ hd)]

end Splice.EvalM
