import Splice.Node.Print
import Splice.Proofs.Atoms
import Splice.Proofs.Origins

/-!
# `Splice.Proofs.Printing` — printed trees are unambiguous

A tree is printed as an expression in parentheses, which can be told apart from all others. Its
head, or the first characters of what stands alone, tell what kind of tree it is; and what is
printed of a literal or of a token tells the literal, or the token without its line.

## Contents
- `Node.unlined`: a tree without the lines of its tokens; `print_unlined` says that lines are not
  printed.
- `Node.sexp`, `print_toList`: the expression that a tree is printed as.
- `FromSource.plain`, `FromSource.form_sexp`: the expression of a tree that has been read has words
  and quoted texts as its atoms, and tells the form of the tree.
- `unlined_eq_of_sexp`: the expression tells the tree up to lines.
- `print_eq_iff`: trees that have been read are printed alike if they are the same up to lines.
-/

namespace Splice

variable {tree a b : Node} {x : Float}

/-! ## Line numbers -/

/-- The token on no line. -/
def Token.unlined (token : Token) : Token := { token with line := 0 }

mutual

/-- The tree without the lines of its tokens. -/
def Node.unlined : Node → Node
  | .program body => .program body.unlined
  | .number literal => .number literal
  | .text literal => .text literal
  | .boolean token => .boolean token.unlined
  | .reference name => .reference name.unlined
  | .call callee arguments => .call callee.unlined (Node.unlinedEach arguments)
  | .access target field => .access target.unlined field.unlined
  | .template parts => .template (Node.unlinedEach parts)

/-- The trees without the lines of their tokens. -/
def Node.unlinedEach : List Node → List Node
  | [] => []
  | node :: nodes => node.unlined :: Node.unlinedEach nodes

end

/-- Apart from their lines, the tokens of names with the same characters are the same. -/
theorem Identifier.unlined_token {x y : Identifier} (h : x.chars = y.chars) (line line' : Int) :
    Token.unlined { x.token with line } = Token.unlined { y.token with line := line' } := by
  unfold token Token.unlined
  rw [h]

namespace Node

mutual

/-- Lines are not printed. -/
theorem print_unlined : (node : Node) → node.unlined.print = node.print
  | .program body => by rw [unlined, print, print, print_unlined body]
  | .number literal => rfl
  | .text literal => rfl
  | .boolean token => rfl
  | .reference name => rfl
  | .call callee arguments => by
    rw [unlined, print, print, print_unlined callee, printEach_unlinedEach arguments]
  | .access target field => by
    rw [unlined, print, print, print_unlined target]
    rfl
  | .template parts => by rw [unlined, print, print, printEach_unlinedEach parts]

theorem printEach_unlinedEach :
    (nodes : List Node) → printEach (unlinedEach nodes) = printEach nodes
  | [] => rfl
  | node :: nodes => by
    rw [unlinedEach, printEach, printEach, print_unlined node, printEach_unlinedEach nodes]

end

/-! ## Printed trees are expressions in parentheses -/

mutual

/-- The expression that a tree is printed as. -/
def sexp : Node → Sexp
  | .program body => .list "program".toList [body.sexp]
  | .number literal => .atom (literal.describe Number.print).toList
  | .text literal => .atom (literal.describe Text.quote).toList
  | .boolean token => .atom token.lexeme.toList
  | .reference name => .atom name.lexeme.toList
  | .call callee arguments => .list "call".toList (callee.sexp :: sexpEach arguments)
  | .access target field => .list "get".toList [target.sexp, .atom field.lexeme.toList]
  | .template parts => .list "str".toList (sexpEach parts)

/-- The expressions that the trees are printed as. -/
def sexpEach : List Node → List Sexp
  | [] => []
  | node :: nodes => node.sexp :: sexpEach nodes

end

mutual

/-- A tree is printed as its expression is written. -/
theorem print_toList : (node : Node) → node.print.toList = node.sexp.write
  | .program body => by simp [print, sexp, Sexp.write, Sexp.writeEach, print_toList body]
  | .number literal => rfl
  | .text literal => rfl
  | .boolean token => rfl
  | .reference name => rfl
  | .call callee arguments => by
    simp [print, sexp, Sexp.write, Sexp.writeEach, print_toList callee,
      printEach_toList arguments]
  | .access target field => by
    simp [print, sexp, Sexp.write, Sexp.writeEach, print_toList target]
  | .template parts => by simp [print, sexp, Sexp.write, printEach_toList parts]

theorem printEach_toList :
    (nodes : List Node) → (printEach nodes).toList = Sexp.writeEach (sexpEach nodes)
  | [] => rfl
  | node :: nodes => by
    simp [printEach, sexpEach, Sexp.writeEach, print_toList node, printEach_toList nodes]

end

theorem FiniteFloats.exists_shape (h : (Node.number (.known (.float x))).FiniteFloats) :
    ∃ negative m e, Decimal.shape x = .finite negative m e :=
  Decimal.exists_shape_of_isFinite (h x .self)

theorem sexp_float (x : Float) :
    (Node.number (.known (.float x))).sexp = .atom (Decimal.Layout.source.writeChars x) :=
  congrArg Sexp.atom String.toList_ofList

theorem sexp_reference (x : Identifier) (line : Int) :
    (Node.reference { x.token with line }).sexp = .atom x.chars :=
  congrArg Sexp.atom String.toList_ofList

theorem sexp_access (target : Node) (x : Identifier) (line : Int) :
    (Node.access target { x.token with line }).sexp =
      .list "get".toList [target.sexp, .atom x.chars] :=
  congrArg (fun text => Sexp.list "get".toList [target.sexp, .atom text]) String.toList_ofList

theorem mem_sexpEach {item : Sexp} {nodes : List Node} (h : item ∈ sexpEach nodes) :
    ∃ node ∈ nodes, item = node.sexp := by
  induction nodes with
  | nil => cases h
  | cons node nodes ih =>
    rcases List.mem_cons.1 h with h | h
    · exact ⟨node, List.mem_cons_self .., h⟩
    · obtain ⟨other, hother, hitem⟩ := ih h
      exact ⟨other, List.mem_cons_of_mem _ hother, hitem⟩

/-- **A tree that has been read is printed as an expression in parentheses.** -/
theorem FromSource.plain (h : tree.FromSource) (hf : tree.FiniteFloats) : tree.sexp.Plain := by
  induction h with
  | @program body h ih =>
    refine .list (Sexp.word_of_mem (by decide)) ?_
    intro item hitem
    rw [List.mem_singleton.1 hitem]
    exact ih (hf.of_mem_parts (List.mem_singleton_self body))
  | integer i => exact .atom (.word (Decimal.word_toString _))
  | float x =>
    obtain ⟨negative, m, e, hx⟩ := hf.exists_shape
    rw [sexp_float]
    exact .atom (.word (Decimal.word_writeChars hx))
  | text s => exact .atom (.quoted s)
  | truth value line =>
    have htrue : Sexp.Word "true".toList := Sexp.word_of_mem (by decide)
    have hfalse : Sexp.Word "false".toList := Sexp.word_of_mem (by decide)
    cases value with
    | true => exact .atom (.word htrue)
    | false => exact .atom (.word hfalse)
  | reference x line =>
    rw [sexp_reference]
    exact .atom (.word x.word)
  | @call callee arguments h ha ih iha =>
    refine .list (Sexp.word_of_mem (by decide)) ?_
    intro item hitem
    rcases List.mem_cons.1 hitem with rfl | hitem
    · exact ih (hf.of_mem_parts (List.mem_cons_self ..))
    · obtain ⟨argument, hmem, rfl⟩ := mem_sexpEach hitem
      exact iha argument hmem (hf.of_mem_parts (List.mem_cons_of_mem _ hmem))
  | @access target h field line ih =>
    rw [sexp_access]
    refine .list (Sexp.word_of_mem (by decide)) ?_
    intro item hitem
    rcases List.mem_pair.1 hitem with rfl | rfl
    · exact ih (hf.of_mem_parts (List.mem_singleton_self target))
    · exact .atom (.word field.word)
  | @template parts h ih =>
    refine .list (Sexp.word_of_mem (by decide)) ?_
    intro item hitem
    obtain ⟨part, hmem, rfl⟩ := mem_sexpEach hitem
    exact ih part hmem (hf.of_mem_parts hmem)

/-! ## Forms -/

/-- The form of a tree. -/
def form : Node → Sexp.Form
  | .program _ => .program
  | .number (.known (.integer _)) => .integer
  | .number (.known (.float _)) => .float
  | .text (.known _) => .text
  | .number (.supplied _) | .text (.supplied _) => .supplied
  | .boolean _ => .truth
  | .reference _ => .name
  | .call _ _ => .call
  | .access _ _ => .access
  | .template _ => .template

/-- What a tree is printed as tells its form. -/
theorem FromSource.form_sexp (h : tree.FromSource) (hf : tree.FiniteFloats) :
    tree.sexp.form = tree.form := by
  cases h with
  | integer i => exact Decimal.atomForm_toString _
  | float x =>
    obtain ⟨negative, m, e, hx⟩ := hf.exists_shape
    rw [sexp_float]
    exact Decimal.atomForm_writeChars hx
  | text s =>
    show Sexp.atomForm (Text.quote s).toList = .text
    rw [Text.quote_toList]
    rfl
  | truth value line =>
    have htrue : Sexp.atomForm "true".toList = .truth := by decide
    have hfalse : Sexp.atomForm "false".toList = .truth := by decide
    cases value with
    | true => exact htrue
    | false => exact hfalse
  | reference x line =>
    rw [sexp_reference]
    exact x.atomForm_chars
  | _ => rfl

/-! ## The tree of an expression -/

theorem unlinedEach_eq_of_sexpEach {nodes nodes' : List Node}
    (hnode : ∀ node ∈ nodes, ∀ other ∈ nodes', node.sexp = other.sexp →
      node.unlined = other.unlined)
    (h : sexpEach nodes = sexpEach nodes') : unlinedEach nodes = unlinedEach nodes' := by
  induction nodes generalizing nodes' with
  | nil =>
    cases nodes' with
    | nil => rfl
    | cons node' nodes' => cases h
  | cons node nodes ih =>
    cases nodes' with
    | nil => cases h
    | cons node' nodes' =>
      obtain ⟨hfirst, hothers⟩ := List.cons.inj h
      have hfirst := hnode node (List.mem_cons_self ..) node' (List.mem_cons_self ..) hfirst
      have hothers := ih (fun node hmem other hother =>
        hnode node (List.mem_cons_of_mem _ hmem) other (List.mem_cons_of_mem _ hother)) hothers
      rw [unlinedEach, unlinedEach, hfirst, hothers]

/-- The two truth values are spelled differently. -/
theorem truthToken_inj {value value' : Bool}
    (h : (Phrase.truthToken value).lexeme.toList = (Phrase.truthToken value').lexeme.toList) :
    value = value' := by
  have hne : "true".toList ≠ "false".toList := by decide
  cases value with
  | true =>
    cases value' with
    | true => rfl
    | false => exact absurd h hne
  | false =>
    cases value' with
    | true => exact absurd h.symm hne
    | false => rfl

theorem form_eq (ha : a.FromSource) (hb : b.FromSource) (hfa : a.FiniteFloats)
    (hfb : b.FiniteFloats) (h : a.sexp = b.sexp) : a.form = b.form := by
  rw [← ha.form_sexp hfa, h, hb.form_sexp hfb]

/-- **Trees that are printed as the same expression are the same up to lines.** -/
theorem unlined_eq_of_sexp (ha : a.FromSource) (hb : b.FromSource) (hfa : a.FiniteFloats)
    (hfb : b.FiniteFloats) (h : a.sexp = b.sexp) : a.unlined = b.unlined := by
  -- the other tree has the same form, which leaves one of its constructors for each of the first
  induction ha generalizing b with
  | program ha ih =>
    have hform := form_eq (.program ha) hb hfa hfb h
    cases hb <;> cases hform
    next body hb =>
      injection h with _ hitems
      injection hitems with hbody
      have hbody := ih hb (hfa.of_mem_parts (List.mem_singleton_self _))
        (hfb.of_mem_parts (List.mem_singleton_self _)) hbody
      rw [unlined, unlined, hbody]
  | integer i =>
    have hform := form_eq (.integer i) hb hfa hfb h
    cases hb <;> cases hform
    next j =>
      injection h with htext
      have hint : i.toInt = j.toInt := Decimal.toString_inj htext
      rw [Int64.toInt_inj.1 hint]
  | float x =>
    have hform := form_eq (.float x) hb hfa hfb h
    cases hb <;> cases hform
    next y =>
      obtain ⟨_, _, _, hx⟩ := hfa.exists_shape
      obtain ⟨_, _, _, hy⟩ := hfb.exists_shape
      rw [sexp_float, sexp_float] at h
      injection h with htext
      rw [Decimal.Layout.writeChars_inj Decimal.Layout.source_readable hx hy htext]
  | text s =>
    have hform := form_eq (.text s) hb hfa hfb h
    cases hb <;> cases hform
    next t =>
      injection h with htext
      have happend : (Text.quote s).toList ++ [] = (Text.quote t).toList ++ [] :=
        congrArg (· ++ []) htext
      rw [(Text.quote_inj happend).1]
  | truth value line =>
    have hform := form_eq (.truth value line) hb hfa hfb h
    cases hb <;> cases hform
    next value' line' =>
      injection h with htext
      rw [truthToken_inj htext]
      rfl
  | reference x line =>
    have hform := form_eq (.reference x line) hb hfa hfb h
    cases hb <;> cases hform
    next y line' =>
      rw [sexp_reference, sexp_reference] at h
      injection h with htext
      exact congrArg reference (Identifier.unlined_token htext line line')
  | call ha haa ih iha =>
    have hform := form_eq (.call ha haa) hb hfa hfb h
    cases hb <;> cases hform
    next callee' arguments' hb hba =>
      injection h with _ hitems
      injection hitems with hcallee harguments
      have hcallee := ih hb (hfa.of_mem_parts (List.mem_cons_self ..))
        (hfb.of_mem_parts (List.mem_cons_self ..)) hcallee
      have harguments := unlinedEach_eq_of_sexpEach (fun argument hmem other hother =>
        iha argument hmem (hba other hother)
          (hfa.of_mem_parts (List.mem_cons_of_mem _ hmem))
          (hfb.of_mem_parts (List.mem_cons_of_mem _ hother))) harguments
      rw [unlined, unlined, hcallee, harguments]
  | access ha x line ih =>
    have hform := form_eq (.access ha x line) hb hfa hfb h
    cases hb <;> cases hform
    next target' hb y line' =>
      rw [sexp_access, sexp_access] at h
      injection h with _ hitems
      injection hitems with htarget hfield
      injection hfield with hfield
      injection hfield with hfield
      have htarget := ih hb (hfa.of_mem_parts (List.mem_singleton_self _))
        (hfb.of_mem_parts (List.mem_singleton_self _)) htarget
      rw [unlined, unlined, htarget, Identifier.unlined_token hfield line line']
  | template ha iha =>
    have hform := form_eq (.template ha) hb hfa hfb h
    cases hb <;> cases hform
    next parts' hba =>
      injection h with _ hparts
      have hparts := unlinedEach_eq_of_sexpEach (fun part hmem other hother =>
        iha part hmem (hba other hother) (hfa.of_mem_parts hmem)
          (hfb.of_mem_parts hother)) hparts
      rw [unlined, unlined, hparts]

/-- **Printed trees are unambiguous.** Two trees that have been read, from any texts, whose float
literals are finite, are printed alike exactly if they are the same up to the lines of their
tokens. -/
theorem print_eq_iff (ha : a.IsRead) (hb : b.IsRead) (hfa : a.FiniteFloats)
    (hfb : b.FiniteFloats) : a.print = b.print ↔ a.unlined = b.unlined := by
  constructor
  · intro h
    have hwrite : a.sexp.write = b.sexp.write := by
      rw [← print_toList, h, print_toList]
    have hsexp : a.sexp = b.sexp :=
      Sexp.write_inj (ha.fromSource.plain hfa) (hb.fromSource.plain hfb) hwrite
    exact unlined_eq_of_sexp ha.fromSource hb.fromSource hfa hfb hsexp
  · intro h
    rw [← print_unlined a, h, print_unlined b]

theorem FiniteFloats.of_parts (hne : tree.form ≠ .float)
    (h : ∀ part ∈ tree.parts, part.FiniteFloats) : tree.FiniteFloats := by
  intro x hx
  cases hx with
  | self => exact absurd rfl hne
  | inside hpart hx => exact h _ hpart x hx

theorem isRead_phrase (p : Phrase) : (Node.program p.node).IsRead := by
  refine ⟨String.ofList p.write, .inr ?_⟩
  rw [ofExpression, String.toList_ofList]
  exact p.ofChars_write

/-- A name like others, although printed calls have it as their head. -/
def nameCall : Identifier := ⟨'c', ['a', 'l', 'l'], rfl, List.all_eq_true.1 rfl, by decide⟩

/-- A name like others, although printed templates have it as their head. -/
def nameStr : Identifier := ⟨'s', ['t', 'r'], rfl, List.all_eq_true.1 rfl, by decide⟩

/-- `1.5`. -/
def oneAndAHalf : Phrase :=
  .float ⟨['1'], List.cons_ne_nil _ _, List.all_eq_true.1 rfl⟩
    ⟨['5'], List.cons_ne_nil _ _, List.all_eq_true.1 rfl⟩

/-- `call(str,1.5)`. -/
def plainCall : Phrase := .chain (.call (.name nameCall) [.chain (.name nameStr), oneAndAHalf])

/-- `call.str(1.5)`. -/
def fieldCall : Phrase := .chain (.call (.access (.name nameCall) nameStr) [oneAndAHalf])

theorem finiteFloats_oneAndAHalf : oneAndAHalf.node.FiniteFloats := by
  intro x hx
  cases hx with
  | self => decide +kernel
  | inside hpart hx => cases hpart

theorem print_eq_iff_call :
    let a := Node.program plainCall.node
    let b := Node.program fieldCall.node
    a.IsRead ∧ b.IsRead ∧ a.FiniteFloats ∧ b.FiniteFloats ∧ a.print ≠ b.print := by
  intro a b
  have ha : a.IsRead := isRead_phrase plainCall
  have hb : b.IsRead := isRead_phrase fieldCall
  have hname : ∀ x : Identifier, (Node.reference x.token).FiniteFloats := by
    intro x
    exact .of_parts nofun fun part hpart => absurd hpart List.not_mem_nil
  have hfa : a.FiniteFloats := by
    refine .of_parts nofun (List.forall_mem_singleton.2 (.of_parts nofun ?_))
    exact List.forall_mem_cons.2 ⟨hname nameCall, List.forall_mem_cons.2 ⟨hname nameStr,
      List.forall_mem_singleton.2 finiteFloats_oneAndAHalf⟩⟩
  have hfb : b.FiniteFloats := by
    refine .of_parts nofun (List.forall_mem_singleton.2 (.of_parts nofun ?_))
    refine List.forall_mem_cons.2 ⟨.of_parts nofun ?_,
      List.forall_mem_singleton.2 finiteFloats_oneAndAHalf⟩
    exact List.forall_mem_singleton.2 (hname nameCall)
  refine ⟨ha, hb, hfa, hfb, ?_⟩
  intro h
  have hunlined := (print_eq_iff ha hb hfa hfb).1 h
  cases hunlined

end Node

end Splice
