import Splice.Proofs.Calls
import Splice.Proofs.Chains
import Splice.Proofs.Nesting
import Splice.Proofs.Paths
import Splice.Proofs.Rescanning
import Splice.Proofs.Wrapping

/-!
# `Splice.Proofs.Properties` — properties behind dots and at the end of paths

A value inside of a map can be asked for in two ways: by names with dots between them, and by a path
that a function follows. Names with dots are accesses one after the other; a null answers them all,
and what has no such property is an error. A path leads somewhere or nowhere, and null stands for
nowhere. The two agree where there is a value, and where there is an error, the path leads nowhere.

## Contents
- `Value.properties`, `EvalError.Missing`: the property of a property, and the errors on the way;
  `ofOption_follow?_keys` compares it with a path of keys.
- `dotted`, `pathCall`: what is written; `read_dotted`, `read_pathCall` say how it is read.
- `runFrom_accesses`: accesses in a row, evaluated.
- `evaluate_eq_iff`, `evaluate_of_runFrom`: texts end as their trees do.
- `lookup_dotted`: a path of keys is looked up by following them.
- `runFrom_pathCall`, `runFrom_dotted`: what the two trees come to, and how deep they are.
- `pathCall_agrees_with_dotted`: the two ways agree, however many names there are.
-/

namespace Splice

/-! ## The value behind several names -/

/-- There is no property of this name, or no property at all. -/
def EvalError.Missing (error : EvalError) : Prop :=
  (∃ name, error = .undefinedProperty name) ∨ ∃ name typeName, error = .notAccessible name typeName

namespace Value

variable {names : List String} {v w : Value}

/-- The property of a property, and so on, by the given names. -/
def properties (names : List String) (v : Value) : Except EvalError Value :=
  names.foldlM (fun v name => v.property name) v

theorem properties_cons (name : String) (names : List String) (v : Value) :
    properties (name :: names) v = v.property name >>= properties names := by
  rw [properties, List.foldlM_cons]
  rfl

/-- Whatever is asked of null is null. -/
theorem properties_null (names : List String) : null.properties names = .ok null := by
  induction names with
  | nil => rfl
  | cons name names ih =>
    rw [properties_cons]
    exact ih

/-- A property that is not there is missing, and so is one of a value without properties. -/
theorem missing_of_property {name : String} {error : EvalError}
    (h : v.property name = .error error) : error.Missing := by
  have hfound : ∀ found : Option Value,
      found.elim (.error (.undefinedProperty name)) .ok = Except.error error → error.Missing := by
    rintro (_ | w) h
    · cases h
      exact .inl ⟨name, rfl⟩
    · cases h
  unfold property at h
  split at h
  · cases h
  · exact hfound _ h
  · exact hfound _ h
  · cases h
    exact .inr ⟨name, _, rfl⟩

theorem missing_of_properties {error : EvalError} (h : v.properties names = .error error) :
    error.Missing := by
  induction names generalizing v with
  | nil => cases h
  | cons name names ih =>
    rw [properties_cons] at h
    cases hv : v.property name with
    | error e =>
      rw [hv] at h
      cases h
      exact missing_of_property hv
    | ok w =>
      rw [hv] at h
      exact ih h

/-- A path of keys leads to what the names lead to, from a value without instances of classes, and
to nowhere if there is no such property or if a null comes in between. -/
theorem ofOption_follow?_keys (hv : v.InstanceFree) (names : List String) :
    ofOption (Path.follow? (names.map .key) v) = (v.properties names).toOption.getD null := by
  induction names generalizing v with
  | nil => rfl
  | cons name names ih =>
    rw [List.map_cons, Path.follow?_cons, properties_cons]
    cases v with
    | null =>
      have hnull : null.property name >>= properties names = .ok null := properties_null names
      rw [hnull]
      rfl
    | map entries =>
      show ofOption (entries.lookup name >>= Path.follow? (names.map .key)) =
        ((entries.lookup name).elim (.error (.undefinedProperty name)) .ok >>=
          properties names).toOption.getD null
      cases hentry : entries.lookup name with
      | none => rfl
      | some w => exact ih (hv.of_lookup hentry)
    | object => exact hv.here.elim
    | _ => rfl

end Value

/-! ## What is written -/

variable {cs rest : List Char} {c : Char}

/-- Names with dots between them. -/
def dotted (names : List Identifier) : List Char := ['.'].intercalate (names.map Identifier.chars)

/-- A call of a function with a name and a path of keys between single quotes. -/
def pathCall (function root : Identifier) (keys : List Identifier) : List Char :=
  function.chars ++ '(' :: (root.chars ++ ',' :: ' ' :: '\'' :: (dotted keys ++ ['\'', ')']))

variable {function root key : Identifier} {keys names : List Identifier}

theorem dotted_cons (key : Identifier) (keys : List Identifier) :
    dotted (key :: keys) = key.chars ++ keys.flatMap fun next => '.' :: next.chars := by
  induction keys generalizing key with
  | nil => simp [dotted]
  | cons next keys ih =>
    have h : dotted (key :: next :: keys) = key.chars ++ '.' :: dotted (next :: keys) := by
      simp [dotted, List.intercalate_cons_cons]
    rw [h, ih, List.flatMap_cons]
    rfl

/-- Nothing but dots stands between the names. -/
theorem mem_dotted (h : c ∈ dotted names) : c = '.' ∨ Scan.continuesWord c = true := by
  cases names with
  | nil => cases h
  | cons key keys =>
    rw [dotted_cons, List.mem_append, List.mem_flatMap] at h
    rcases h with h | ⟨next, -, h⟩
    · exact .inr (key.continuesWord_of_mem h)
    · exact (List.mem_cons.1 h).imp id next.continuesWord_of_mem

theorem notMem_dotted (hpoint : c ≠ '.') (hword : Scan.continuesWord c = false) :
    c ∉ dotted names := by
  intro h
  rcases mem_dotted h with h | h
  · exact hpoint h
  · rw [hword] at h
    cases h

/-- Accesses in a row. -/
def accesses (target : Phrase.Chain) (keys : List Identifier) : Phrase.Chain :=
  keys.foldl .access target

theorem write_accesses (target : Phrase.Chain) (keys : List Identifier) :
    (accesses target keys).write = target.write ++ keys.flatMap fun next => '.' :: next.chars := by
  induction keys generalizing target with
  | nil => exact (List.append_nil _).symm
  | cons key keys ih =>
    have h : (accesses target (key :: keys)).write =
        (target.write ++ '.' :: key.chars) ++ keys.flatMap fun next => '.' :: next.chars :=
      ih (.access target key)
    rw [h, List.flatMap_cons, List.append_assoc]

/-- Names with dots between them read as accesses in a row. -/
theorem read_dotted (root : Identifier) (keys : List Identifier) :
    Node.read (String.ofList (dotted (root :: keys))) =
      .ok (.program (accesses (.name root) keys).node) := by
  have htrim : Text.trim (dotted (root :: keys)) = dotted (root :: keys) := by
    refine Text.trim_of_no_blank fun c hc => ?_
    rcases mem_dotted hc with rfl | hc
    · rfl
    · exact Scan.isBlank_of_continuesWord hc
  have hwrite : dotted (root :: keys) = (Phrase.chain (accesses (.name root) keys)).write :=
    (dotted_cons root keys).trans (write_accesses (.name root) keys).symm
  rw [Node.read, String.toList_ofList,
    Node.readChars_of_bare (notMem_dotted (by decide) (by decide)) htrim, hwrite]
  exact Phrase.ofChars_write _

/-- A path of keys between single quotes. -/
def keyPath (keys : List Identifier) : Quotation where
  quote := '\''
  content := dotted keys
  isQuote := .inr rfl
  quote_notMem := notMem_dotted (by decide) (by decide)
  backslash_notMem h := notMem_dotted (by decide) (by decide) (List.mem_of_mem_dropLast h)
  not_hasSpan h := Span.not_opens_of_notMem (notMem_dotted (by decide) (by decide)) h.opens

theorem Lexes.space : Lexes [' '] [] rest := by
  show Scan.scanFrom 1 (' ' :: rest) = _
  rw [scanFrom_space]
  cases Scan.scanFrom 1 rest <;> rfl

/-- A call with a path. -/
theorem lexes_pathCall (function root : Identifier) (keys : List Identifier) :
    Lexes (pathCall function root keys)
      (Phrase.chain (.call (.name function)
        [.chain (.name root), .text (keyPath keys)])).tokens [] := by
  have hclose : Lexes [')'] [Phrase.mark .rightParen ')'] [] := .of_mark rfl
  have hpath := Lexes.append (.of_mark (c := ',') rfl)
    (Lexes.space.append ((keyPath keys).lexes.append hclose))
  have hroot := Lexes.append (.of_mark (c := '(') rfl)
    ((root.lexes (endsWord_cons rfl)).append hpath)
  have hcall := (function.lexes (endsWord_cons rfl)).append hroot
  have htext : (Phrase.text (keyPath keys)).write = '\'' :: (dotted keys ++ ['\'']) := rfl
  have htokens : (Phrase.chain (.call (.name function)
      [.chain (.name root), .text (keyPath keys)])).tokens =
      function.token :: Phrase.mark .leftParen '(' :: root.token :: Phrase.mark .comma ',' ::
        ((Phrase.text (keyPath keys)).tokens ++ [Phrase.mark .rightParen ')']) := rfl
  rw [htokens]
  simpa [pathCall, htext] using hcall

/-- It reads as a call with a name and a text. -/
theorem read_pathCall (function root : Identifier) (keys : List Identifier) :
    Node.read (String.ofList (pathCall function root keys)) =
      .ok (.program (.call (.reference function.token)
        [.reference root.token, Node.ofText (String.ofList (dotted keys))])) := by
  have hfirst : Text.isBlank function.first = false :=
    Scan.isBlank_of_continuesWord (function.continuesWord_of_mem (List.mem_cons_self ..))
  have htrim : Text.trim (pathCall function root keys) = pathCall function root keys := by
    refine Text.trim_of_ends ?_ ?_
    · rintro c ⟨⟩
      exact hfirst
    · intro c hc
      have hlast : (pathCall function root keys).getLast? = some ')' := by
        simp [pathCall, List.getLast?_append, List.getLast?_cons]
      rw [hlast] at hc
      cases hc
      rfl
  have hdollar : '$' ∉ pathCall function root keys := by
    have hname : ∀ x : Identifier, '$' ∉ x.chars :=
      fun x h => absurd (x.continuesWord_of_mem h) (by decide)
    have hpath : '$' ∉ dotted keys := notMem_dotted (by decide) (by decide)
    simp [pathCall, hname, hpath]
  rw [Node.read, String.toList_ofList, Node.readChars_of_bare hdollar htrim]
  exact Phrase.ofChars_of_lexes (lexes_pathCall function root keys)

/-! ## What it comes to -/

open EvalM (runFrom_bind)

variable {host : Host} {scopes : Context} {context : Option Context} {depth : Nat}
  {journal after : Journal} {text : String} {node : Node} {entries : Table Value}

/-- The names of keys. -/
def keyNames (keys : List Identifier) : List String := keys.map fun key => key.token.lexeme

/-- An access comes to the property of what its target comes to, or fails as its target does. -/
theorem runFrom_access (target : Phrase.Chain) (result : Except EvalError Value)
    (h : (eval host scopes depth target.node).runFrom journal = (result.mapError .failed, journal))
    (key : Identifier) :
    (eval host scopes (depth + 1) (Phrase.Chain.access target key).node).runFrom journal =
      ((result >>= fun v => v.property key.token.lexeme).mapError .failed, journal) := by
  rw [Phrase.Chain.node, eval, runFrom_bind, h]
  cases result with
  | error error => rfl
  | ok v =>
    show EvalM.runFrom _ journal = ((v.property key.token.lexeme).mapError .failed, journal)
    cases v.property key.token.lexeme <;> rfl

/-- Accesses in a row come to the property of the property, and so on, or fail where it fails. -/
theorem runFrom_accesses (target : Phrase.Chain) (result : Except EvalError Value)
    (h : (eval host scopes depth target.node).runFrom journal = (result.mapError .failed, journal))
    (keys : List Identifier) :
    (eval host scopes (depth + keys.length) (accesses target keys).node).runFrom journal =
      ((result >>= Value.properties (keyNames keys)).mapError .failed, journal) := by
  induction keys generalizing target depth result with
  | nil => cases result <;> exact h
  | cons key keys ih =>
    have hassoc : result >>= Value.properties (keyNames (key :: keys)) =
        (result >>= fun v => v.property key.token.lexeme) >>=
          Value.properties (keyNames keys) := by
      cases result with
      | error error => rfl
      | ok v => exact Value.properties_cons ..
    rw [hassoc, List.length_cons, Nat.add_comm keys.length 1, ← Nat.add_assoc]
    exact ih _ _ (runFrom_access target result h key)

/-- A text ends as the evaluation of its tree does. -/
theorem evaluate_eq_iff (hread : Node.read text = .ok node) (result : Except EvalError Value) :
    evaluate host context text journal = (result.mapError .eval, after) ↔
      (eval host (Context.withBuiltins context) depthLimit node).runFrom journal =
        (result.mapError .failed, after) := by
  rw [evaluate_of_read hread]
  exact Node.outcome_eq_iff result

/-- What a tree comes to at a depth within the limit is what its text comes to. -/
theorem evaluate_of_runFrom (hread : Node.read text = .ok node) (hdepth : depth ≤ depthLimit)
    (result : Except EvalError Value)
    (h : (eval host (Context.withBuiltins context) depth node).runFrom journal =
      (result.mapError .failed, after)) :
    evaluate host context text journal = (result.mapError .eval, after) :=
  (evaluate_eq_iff hread result).2 ((within_eval_of_le hdepth node).runFrom_eq h)

theorem eval_root (hroot : scopes.lookup? root.token.lexeme = some (.map entries)) (host : Host)
    (depth : Nat) (journal : Journal) :
    (eval host scopes (depth + 1) (.reference root.token)).runFrom journal =
      (.ok (.map entries), journal) := by
  rw [eval_reference_of_lookup hroot]
  rfl

theorem answers_jsonGet (m : Table Value) (path : String) :
    Builtin.jsonGet.Answers (.map m) (.text path)
      (.ofOption (Path.lookup (.map m) path)) :=
  Builtin.answers_of_binary rfl rfl rfl

/-! ## Keys as steps -/

/-- The steps of keys. -/
def keySteps (keys : List Identifier) : List Path.Step := (keyNames keys).map .key

theorem mem_keySteps {step : Path.Step} (h : step ∈ keySteps keys) :
    ∃ key : Identifier, step = .key (String.ofList key.chars) := by
  obtain ⟨name, hname, rfl⟩ := List.mem_map.1 h
  obtain ⟨key, -, rfl⟩ := List.mem_map.1 hname
  exact ⟨key, rfl⟩

theorem writable_of_mem_keySteps {step : Path.Step} (h : step ∈ keySteps keys) : step.Writable := by
  obtain ⟨key, rfl⟩ := mem_keySteps h
  rw [Path.Step.Writable, String.toList_ofList]
  refine ⟨List.cons_ne_nil _ _, fun h => ?_, fun h => ?_⟩
  · exact absurd (key.continuesWord_of_mem h) (by decide)
  · exact absurd (key.continuesWord_of_mem h) (by decide)

theorem write_keySteps (keys : List Identifier) : Path.write (keySteps keys) = dotted keys := by
  cases keys with
  | nil => rfl
  | cons key keys =>
    have hrest : (keySteps keys).flatMap Path.Step.write =
        keys.flatMap fun next => '.' :: next.chars := by
      simp [keySteps, keyNames, List.flatMap_map, Path.Step.write, Identifier.token]
    show (String.ofList key.chars).toList ++ (keySteps keys).flatMap Path.Step.write = _
    rw [String.toList_ofList, hrest, dotted_cons]

/-- A path of keys is looked up by following them. -/
theorem lookup_dotted (hkeys : keys ≠ []) (v : Value) :
    Path.lookup v (String.ofList (dotted keys)) = Path.follow? (keySteps keys) v := by
  have hne : keySteps keys ≠ [] := by
    simpa [keySteps, keyNames] using hkeys
  have hsteps := (Path.steps?_write hne fun step h => writable_of_mem_keySteps h).2
  rw [Path.lookup, String.toList_ofList, ← write_keySteps, hsteps]
  · rfl
  · intro name hname hdollar
    obtain ⟨key, hkey⟩ := mem_keySteps (List.mem_of_mem_head? hname)
    cases hkey
    rw [String.toList_ofList] at hdollar
    exact absurd (key.continuesWord_of_mem (List.mem_of_mem_head? hdollar)) (by decide)

/-! ## The agreement -/

/-- A call with a path comes to what the path leads to, at any depth but the first three. -/
theorem runFrom_pathCall
    (hroot : (Context.withBuiltins context).lookup? root.token.lexeme = some (.map entries))
    (hfunction : function.token.lexeme ∈ Builtin.jsonGet.name :: Builtin.jsonGet.aliases)
    (hunbound : Context.Unbound (Context.hostScopes context) function.token.lexeme)
    (hkeys : keys ≠ []) (host : Host) (journal : Journal) :
    (eval host (Context.withBuiltins context) 3 (.program (.call (.reference function.token)
      [.reference root.token, Node.ofText (String.ofList (dotted keys))]))).runFrom journal =
      (.ok (.ofOption (Path.follow? (keySteps keys) (.map entries))), journal) := by
  have hcallee : (eval host (Context.withBuiltins context) 1
      (.reference function.token)).runFrom journal =
      (.ok (.function (.builtin .jsonGet)), journal) :=
    congrArg (fun x => x.runFrom journal) (eval_reference_of_builtin hunbound hfunction)
  have hcall := answers_jsonGet entries (String.ofList (dotted keys)) host
    (Context.withBuiltins context) 1 (.reference function.token) (.reference root.token)
    (Node.ofText (String.ofList (dotted keys))) journal journal journal journal hcallee
    (eval_root hroot host 0 journal) rfl
  rw [lookup_dotted hkeys] at hcall
  exact hcall

/-- Names with dots come to what the properties of the map are. They are as deep as they are
many. -/
theorem runFrom_dotted
    (hroot : scopes.lookup? root.token.lexeme = some (.map entries)) (host : Host)
    (keys : List Identifier) (journal : Journal) :
    (eval host scopes (keys.length + 2)
      (.program (accesses (.name root) keys).node)).runFrom journal =
      (((Value.map entries).properties (keyNames keys)).mapError .failed, journal) := by
  have h := runFrom_accesses (.name root) (.ok (.map entries)) (eval_root hroot host 0 journal) keys
  rw [Nat.add_comm (0 + 1)] at h
  exact h

/-- **Names with dots and a path of the same names agree.** Let a name be bound to a map without
instances of classes in it, and let a name of the function that follows paths not be bound by the
host. Both texts are read, and their trees come to an outcome, however many names there are. What
the names with dots come to is what the properties of the map are. If this is a value, the function
has it, too; if it is an error, it is because of a missing property, and the function has the value
null. The journal stays as it is. The same holds of the texts themselves, the names with dots being
evaluated within the limit of the depth. -/
theorem pathCall_agrees_with_dotted (host : Host) (context : Option Context)
    (function root : Identifier) (entries : List (String × Value)) (keys : List Identifier)
    (hroot : (Context.withBuiltins context).lookup? root.token.lexeme = some (.map entries))
    (hentries : (Value.map entries).InstanceFree)
    (hfunction : function.token.lexeme ∈ Builtin.jsonGet.name :: Builtin.jsonGet.aliases)
    (hunbound : Context.Unbound (Context.hostScopes context) function.token.lexeme)
    (hkeys : keys ≠ []) :
    let dots := String.ofList (dotted (root :: keys))
    let path := String.ofList (pathCall function root keys)
    let found := (Value.map entries).properties (keyNames keys)
    let scopes := Context.withBuiltins context
    (∃ names call, Node.read dots = .ok names ∧ Node.read path = .ok call ∧
      (∀ journal, ComesTo host scopes names journal (found, journal)) ∧
      (∀ journal after v, ComesTo host scopes names journal (.ok v, after) →
        ComesTo host scopes call journal (.ok v, after)) ∧
      ∀ journal after error, ComesTo host scopes names journal (.error error, after) →
        error.Missing ∧ ComesTo host scopes call journal (.ok .null, after)) ∧
    (∀ journal after v, evaluate host context dots journal = (.ok v, after) →
      evaluate host context path journal = (.ok v, after)) ∧
    (∀ journal after error, evaluate host context dots journal = (.error (.eval error), after) →
      error.Missing ∧ evaluate host context path journal = (.ok .null, after)) ∧
    (keys.length + 2 ≤ depthLimit → ∀ journal,
      evaluate host context dots journal = (found.mapError .eval, journal)) := by
  intro dots path found scopes
  have hnames : Node.read dots = .ok (.program (accesses (.name root) keys).node) :=
    read_dotted root keys
  have hcall := read_pathCall function root keys
  have hdots : ∀ journal, ComesTo host scopes (.program (accesses (.name root) keys).node) journal
      (found, journal) :=
    fun journal => ⟨keys.length + 2, runFrom_dotted hroot host keys journal⟩
  have hpath : ∀ journal, (eval host scopes 3 (.program (.call (.reference function.token)
      [.reference root.token, Node.ofText (String.ofList (dotted keys))]))).runFrom journal =
      ((Except.ok (found.toOption.getD .null)).mapError .failed, journal) := by
    intro journal
    rw [← Value.ofOption_follow?_keys hentries]
    exact runFrom_pathCall hroot hfunction hunbound hkeys host journal
  -- the path is found at a small depth, whatever the names with dots take
  have hlimit : 3 ≤ depthLimit := by decide
  have hanswer : ∀ journal, evaluate host context path journal =
      (.ok (found.toOption.getD .null), journal) :=
    fun journal => evaluate_of_runFrom hcall hlimit (.ok _) (hpath journal)
  have hended : ∀ {journal after} {result : Except EvalError Value},
      ComesTo host scopes (.program (accesses (.name root) keys).node) journal (result, after) →
      result = found ∧ after = journal :=
    fun h => Prod.ext_iff.1 (h.unique (hdots _))
  have hreached : ∀ {journal after} (result : Except EvalError Value),
      evaluate host context dots journal = (result.mapError .eval, after) →
      ComesTo host scopes (.program (accesses (.name root) keys).node) journal (result, after) :=
    fun result h => ⟨depthLimit, (evaluate_eq_iff hnames result).1 h⟩
  refine ⟨⟨_, _, hnames, hcall, hdots, fun journal after v h => ?_,
    fun journal after error h => ?_⟩, fun journal after v h => ?_,
    fun journal after error h => ?_, fun hdepth journal => ?_⟩
  · obtain ⟨hv, rfl⟩ := hended h
    refine ⟨3, (hpath after).trans ?_⟩
    rw [← hv]
    rfl
  · obtain ⟨herror, rfl⟩ := hended h
    refine ⟨Value.missing_of_properties herror.symm, 3, (hpath after).trans ?_⟩
    rw [← herror]
    rfl
  · obtain ⟨hv, rfl⟩ := hended (hreached (.ok v) h)
    rw [hanswer, ← hv]
    rfl
  · obtain ⟨herror, rfl⟩ := hended (hreached (.error error) h)
    refine ⟨Value.missing_of_properties herror.symm, ?_⟩
    rw [hanswer, ← herror]
    rfl
  · exact evaluate_of_runFrom hnames hdepth found (runFrom_dotted hroot host keys journal)

/-- A map in a map, with a number and a null. -/
def nested : Table Value :=
  [("a", .integer 1), ("b", .map [("a", .text "x"), ("b", .null)])]

/-- It is bound to a name. -/
def nestedScope : Context := .ofScope { name := "nested", bindings := [("a", .map nested)] }

def nameGet : Identifier := ⟨'g', ['e', 't'], rfl, List.all_eq_true.1 rfl, by decide⟩

/-- A property of a map, and one that would be of a number. -/
theorem pathCall_agrees_with_dotted_nested :
    evaluate Host.empty (some nestedScope) "a.b.a" .new = (.ok (.text "x"), .new) ∧
      evaluate Host.empty (some nestedScope) "get(a, 'b.a')" .new = (.ok (.text "x"), .new) ∧
      evaluate Host.empty (some nestedScope) "a.a.b" .new =
        (.error (.eval (.notAccessible "b" "integer")), .new) ∧
      evaluate Host.empty (some nestedScope) "get(a, 'a.b')" .new = (.ok .null, .new) := by
  have hfree : (Value.map nested).InstanceFree := by
    simp [nested, Value.InstanceFree]
  have hunbound : Context.Unbound (Context.hostScopes (some nestedScope)) "get" := by
    intro scope hscope
    cases List.mem_singleton.1 hscope
    rfl
  have hagrees := fun keys => pathCall_agrees_with_dotted Host.empty (some nestedScope) nameGet
    nameA nested keys rfl hfree (by decide) hunbound
  obtain ⟨-, hvalue, -, hfound⟩ := hagrees [nameB, nameA] (by simp)
  obtain ⟨-, -, hmissing, hfound'⟩ := hagrees [nameA, nameB] (by simp)
  refine ⟨hfound (by decide) .new, ?_, hfound' (by decide) .new, ?_⟩
  · exact hvalue .new .new (.text "x") (hfound (by decide) .new)
  · exact (hmissing .new .new _ (hfound' (by decide) .new)).2

end Splice
