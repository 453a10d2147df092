import Splice.Proofs.Phases
import Splice.Proofs.Tiling

/-!
# `Splice.Proofs.Origins` — the trees that reading builds

Not every tree can be read off a text. Reading knows all literals of the trees that it builds, and
their tokens are such as the scanner cuts off: the names are identifiers, and truth values have one
spelling.

## Contents
- `Token.Spelled`, `spelled_of_mem_scan`: the tokens of a text are spelled as the scanner spells
  them.
- `Node.FromSource`: the trees that are built of these.
- `Expression.fromSource`, `fromSource_of_parts`, `Leaf.fromSource`: the grammar builds such trees
  out of such leaves.
- `fromSource_ofChars`, `IsRead.fromSource`: what is read is such a tree.
- `Node.FiniteFloats`: no float literal in a tree is infinite, nor is one not a number.
-/

namespace Splice

variable {token : Token} {tokens : List Token} {tree : Node} {source : List Char}

/-! ## Trees that are read -/

/-- The names and the truth values among tokens are as the scanner spells them. -/
structure Token.Spelled (token : Token) : Prop where
  name : token.kind = .identifier → ∃ x : Identifier, token = { x.token with line := token.line }
  truth : token.kind = .trueWord ∨ token.kind = .falseWord →
    ∃ value, token = { Phrase.truthToken value with line := token.line }

theorem Scan.kind_ne_word_of_punctuation? {c : Char} {kind : Token.Kind}
    (h : punctuation? c = some kind) :
    kind ≠ .identifier ∧ kind ≠ .trueWord ∧ kind ≠ .falseWord := by
  unfold punctuation? at h
  split at h <;> cases h <;> exact ⟨nofun, nofun, nofun⟩

theorem Token.StandsFor.spelled {piece rest : List Char} (h : token.StandsFor piece rest) :
    token.Spelled := by
  cases h with
  | mark h =>
    obtain ⟨hname, htrue, hfalse⟩ := Scan.kind_ne_word_of_punctuation? h
    exact ⟨fun hk => absurd hk hname, fun hk => absurd hk (not_or.2 ⟨htrue, hfalse⟩)⟩
  | identifier x hrest => exact ⟨fun _ => ⟨x, rfl⟩, by rintro (hk | hk) <;> cases hk⟩
  | @truth value _ _ spelling h hrest =>
    refine ⟨fun hk => ?_, fun _ => ⟨value, rfl⟩⟩
    cases value <;> cases hk
  | _ => exact ⟨nofun, by rintro (hk | hk) <;> cases hk⟩

theorem spelled_of_mem_scan (hscan : scan source = .ok tokens) (ht : token ∈ tokens) :
    token.Spelled := by
  obtain ⟨line, hcovers⟩ : ∃ line, Covers line source tokens := ⟨1, Scan.covers_of_scanFrom hscan⟩
  clear hscan
  induction hcovers with
  | endOfInput =>
    rw [List.mem_singleton.1 ht]
    exact ⟨nofun, by rintro (hk | hk) <;> cases hk⟩
  | blank _ _ _ ih => exact ih ht
  | token hpiece _ _ ih =>
    rcases List.mem_cons.1 ht with rfl | ht
    · exact hpiece.spelled
    · exact ih ht

namespace Node

/-- A tree as reading builds it: its literals are known, and its tokens are spelled as the scanner
spells them. -/
inductive FromSource : Node → Prop
  | program {body : Node} (h : FromSource body) : FromSource (.program body)
  | integer (i : Int64) : FromSource (.number (.known (.integer i)))
  | float (x : Float) : FromSource (.number (.known (.float x)))
  | text (s : String) : FromSource (.text (.known s))
  | truth (value : Bool) (line : Int) :
      FromSource (.boolean { Phrase.truthToken value with line })
  | reference (x : Identifier) (line : Int) : FromSource (.reference { x.token with line })
  | call {callee : Node} {arguments : List Node} (h : FromSource callee)
      (ha : ∀ argument ∈ arguments, FromSource argument) : FromSource (.call callee arguments)
  | access {target : Node} (h : FromSource target) (field : Identifier) (line : Int) :
      FromSource (.access target { field.token with line })
  | template {parts : List Node} (h : ∀ part ∈ parts, FromSource part) :
      FromSource (.template parts)

theorem FromSource.body (h : tree.FromSource) : tree.body.FromSource := by
  cases h with
  | program h => exact h
  | call h ha => exact .call h ha
  | access h field line => exact .access h field line
  | template h => exact .template h
  | _ => constructor

end Node

namespace Grammar

variable {leaf : Token → Node → Prop}

mutual

/-- The tree of an expression is as reading builds it, if those of its leaves are. -/
theorem Expression.fromSource {w : List Token} {node : Node}
    (hleaf : ∀ token ∈ w, ∀ node, leaf token node → node.FromSource)
    (hspelled : ∀ token ∈ w, token.Spelled) : Expression leaf w node → node.FromSource
  | .leaf h => hleaf _ (List.mem_singleton_self _) _ h
  | .chain h => h.fromSource hleaf hspelled

theorem Chain.fromSource {w : List Token} {node : Node}
    (hleaf : ∀ token ∈ w, ∀ node, leaf token node → node.FromSource)
    (hspelled : ∀ token ∈ w, token.Spelled) : Chain leaf w node → node.FromSource
  | @Chain.name _ token hk => by
    obtain ⟨x, hx⟩ := (hspelled token (List.mem_singleton_self _)).name hk
    rw [hx]
    exact .reference x _
  | @Chain.access _ front target dot field h hdot hfield => by
    obtain ⟨x, hx⟩ := (hspelled field (by simp)).name hfield
    have htarget := h.fromSource (fun t ht => hleaf t (List.mem_append_left _ ht))
      fun t ht => hspelled t (List.mem_append_left _ ht)
    rw [hx]
    exact .access htarget x _
  | @Chain.call _ front inner callee arguments opening closing h hopen ha hclose => by
    have hcallee := h.fromSource (fun t ht => hleaf t (by simp [ht]))
      fun t ht => hspelled t (by simp [ht])
    have harguments := ha.fromSource (fun t ht => hleaf t (by simp [ht]))
      fun t ht => hspelled t (by simp [ht])
    exact .call hcallee harguments

theorem Arguments.fromSource {w : List Token} {nodes : List Node}
    (hleaf : ∀ token ∈ w, ∀ node, leaf token node → node.FromSource)
    (hspelled : ∀ token ∈ w, token.Spelled) :
    Arguments leaf w nodes → ∀ node ∈ nodes, node.FromSource
  | .none => fun _ hmem => absurd hmem List.not_mem_nil
  | .last h => by
    have hlast := h.fromSource hleaf hspelled
    intro node hmem
    rw [List.mem_singleton.1 hmem]
    exact hlast
  | .more h hcomma hrest => by
    have hfirst := h.fromSource (fun t ht => hleaf t (List.mem_append_left _ ht))
      fun t ht => hspelled t (List.mem_append_left _ ht)
    have hothers := hrest.fromSource (fun t ht => hleaf t (by simp [ht]))
      fun t ht => hspelled t (by simp [ht])
    intro node hmem
    rcases List.mem_cons.1 hmem with rfl | hmem
    · exact hfirst
    · exact hothers node hmem

end

variable {read : List Char → Except SourceError Node}

/-- The trees of the pieces of a template are as reading builds them, if those of its spans are. -/
theorem fromSource_of_parts {segments : List Span.Segment} {nodes : List Node}
    (hread : ∀ source, .span source ∈ segments → ∀ node, read source = .ok node → node.FromSource)
    (h : List.Forall₂ (Part read) segments nodes) : ∀ node ∈ nodes, node.FromSource := by
  induction h with
  | nil => exact fun _ hmem => absurd hmem List.not_mem_nil
  | @cons segment part segments parts hpart _ ih =>
    intro node hmem
    rcases List.mem_cons.1 hmem with rfl | hmem
    · cases hpart with
      | literal text => exact .text _
      | span h => exact (hread _ (List.mem_cons_self ..) _ h).body
    · exact ih (fun source hs => hread source (List.mem_cons_of_mem _ hs)) node hmem

theorem Leaf.fromSource {node : Node} (hspelled : token.Spelled)
    (hread : ∀ source, .span source ∈ Span.segments token.lexeme.toList → token.kind = .text →
      ∀ node, read source = .ok node → node.FromSource)
    (h : Leaf read token node) : node.FromSource := by
  cases h with
  | integer hk h => exact .integer _
  | float hk h => exact .float _
  | truth hk =>
    obtain ⟨value, hvalue⟩ := hspelled.truth hk
    rw [hvalue]
    exact .truth value _
  | text hk h => exact .text _
  | template hk h hp => exact .template (fromSource_of_parts (fun s hs => hread s hs hk) hp)
  | semicolon hk => exact .text _

end Grammar

namespace Node

/-- **What is read is built from known literals and well-spelled tokens.** -/
theorem fromSource_ofChars (h : ofChars source = .ok tree) : tree.FromSource := by
  induction hlength : source.length using Nat.strong_induction_on generalizing source tree with
  | _ n ih =>
    rw [Grammar.ofChars_eq] at h
    cases hscan : scan source with
    | error e =>
      rw [hscan] at h
      cases h
    | ok tokens =>
      rw [hscan] at h
      obtain ⟨node, hrun, rfl⟩ := Grammar.map_eq_ok_iff.1 h
      obtain ⟨init, line, rfl, hinit⟩ := Scan.scan_eq_ok hscan
      apply FromSource.program
      rcases Grammar.Reading.initial.run (fun t ht => (hinit t ht).ne_endOfInput) rfl hrun with
        ⟨-, rfl⟩ | ⟨w, rest, heq, hends, -⟩
      · exact .text _
      · rw [List.nil_append] at hends
        have hmem : ∀ t ∈ w, t ∈ init ++ [{ kind := .endOfInput, lexeme := "", line }] := by
          intro t ht
          rw [heq]
          exact List.mem_append_left rest ht
        refine hends.fromSource ?_ fun t ht => spelled_of_mem_scan hscan (hmem t ht)
        intro t ht leaf hleaf
        refine hleaf.fromSource (spelled_of_mem_scan hscan (hmem t ht)) ?_
        intro inner hinner hk tree hread
        -- a span is shorter than the source that it is quoted in
        have hlexeme := Scan.length_of_mem_scan hscan (hmem t ht) hk
        have hspan := Span.length_of_mem_segments hinner
        exact ih inner.length (by omega) hread rfl

theorem fromSource_templateOf {text : List Char} (h : templateOf ofChars text = .ok tree) :
    tree.FromSource := by
  obtain ⟨parts, hparts, rfl⟩ := Grammar.templateOf_eq_ok_iff.1 h
  exact .template (Grammar.fromSource_of_parts (fun _ _ _ hread => fromSource_ofChars hread) hparts)

theorem fromSource_readChars {text : List Char} (h : readChars text = .ok tree) :
    tree.FromSource := by
  unfold readChars at h
  dsimp only at h
  split at h
  · exact fromSource_ofChars h
  · split at h
    · exact fromSource_templateOf h
    · exact fromSource_ofChars h

/-- The tree of some text, read as a host hands it over or as an expression. -/
def IsRead (tree : Node) : Prop :=
  ∃ source, read source = .ok tree ∨ ofExpression source = .ok tree

theorem IsRead.fromSource (h : tree.IsRead) : tree.FromSource := by
  obtain ⟨source, h | h⟩ := h
  · exact fromSource_readChars h
  · exact fromSource_ofChars h

/-- Every float literal in the tree is finite. -/
def FiniteFloats (tree : Node) : Prop :=
  ∀ x, (Node.number (.known (.float x))).StandsIn tree → x.isFinite = true

theorem FiniteFloats.of_mem_parts {part : Node} (h : tree.FiniteFloats) (hp : part ∈ tree.parts) :
    part.FiniteFloats :=
  fun x hx => h x (.inside hp hx)

end Node

end Splice
