import Mathlib
import SphereLab.Proofs.CExpression.Parser

/-!
# Headers of C

The part of C that generated headers are written in, one statement to a line: constants of type
`double`, and functions of two such arguments whose bodies are constants, guarded returns and a
return.  A comment runs to the end of its line, and lines that begin with `#` are left to the
preprocessor.

A line is matched against the patterns of the statements.  A pattern consists of pieces, and each
text between two pieces ends where the next piece begins.

* `Statement`: the statements.
* `read?`: the constants and the functions of a header.
* `Header.call?`: what a function of a header returns, over the real numbers.
-/

namespace SphereLab

namespace CHeader

open CExpression

/-! ## Patterns -/

/-- What is left behind a prefix. -/
def strip? (p cs : List Char) : Option (List Char) :=
  if p.isPrefixOf cs then some (cs.drop p.length) else none

/-- The texts between the pieces of a pattern. -/
def fields? : List (List Char) → List Char → Option (List (List Char))
  | [], _ => none
  | [p], cs => if cs = p then some [] else none
  | p :: q :: ps, cs =>
    match strip? p cs with
    | none => none
    | some rest =>
      let field := rest.takeWhile fun c => some c != q.head?
      (fields? (q :: ps) (rest.drop field.length)).map (field :: ·)

/-- The texts between the pieces of a pattern, which are given as one text with blanks to fill
in, written as a tilde. -/
def fieldsOf? (pattern : String) : List Char → Option (List (List Char)) :=
  fields? (pattern.toList.splitOn '~')

/-! ## Statements -/

/-- The statements of a header. -/
inductive Statement where
  | constant (name : String) (value : Tree)
  | opening (name : String) (parameters : List String)
  /-- A return if a variable is below a bound, or equal to it where that is allowed. -/
  | guard (name : String) (orEqual : Bool) (bound result : Tree)
  | result (value : Tree)
  | closing
  deriving DecidableEq

/-- The identifier that a text is. -/
def identifier? (cs : List Char) : Option String :=
  if isIdentifier (String.ofList cs) then some (String.ofList cs) else none

/-- The expression that a text is. -/
def expression? (cs : List Char) : Option Tree := parse? (String.ofList cs)

/-- Does a comparison hold at equality? -/
def comparison? : List Char → Option Bool
  | ['<'] => some false
  | ['<', '='] => some true
  | _ => none

def constant? (cs : List Char) : Option Statement :=
  match fieldsOf? "const double ~ = ~;" cs with
  | some [name, value] => do return .constant (← identifier? name) (← expression? value)
  | _ => none

def opening? (cs : List Char) : Option Statement :=
  match fieldsOf? "inline double ~(double ~, double ~) \x7b" cs with
  | some [name, x, y] => do
    return .opening (← identifier? name) [← identifier? x, ← identifier? y]
  | _ => none

def guard? (cs : List Char) : Option Statement :=
  match fieldsOf? "if (~ ~ ~) return ~;" cs with
  | some [name, comparison, bound, result] => do
    return .guard (← identifier? name) (← comparison? comparison) (← expression? bound)
      (← expression? result)
  | _ => none

def result? (cs : List Char) : Option Statement :=
  match fieldsOf? "return ~;" cs with
  | some [value] => do return .result (← expression? value)
  | _ => none

def closing? (cs : List Char) : Option Statement := if cs = ['\x7d'] then some .closing else none

/-- The statement that a text is. -/
def statement? (cs : List Char) : Option Statement :=
  constant? cs <|> opening? cs <|> guard? cs <|> result? cs <|> closing? cs

/-! ## Lines -/

/-- What stands in front of a comment. -/
def code : List Char → List Char
  | [] => []
  | c :: cs => if c = '/' ∧ cs.head? = some '/' then [] else c :: code cs

/-- A text without the blanks around it. -/
def trim (cs : List Char) : List Char := (cs.dropWhile (· == ' ')).rdropWhile (· == ' ')

/-- The statement of a line; there is none on an empty line and for the preprocessor. -/
def line? (cs : List Char) : Option (List Statement) :=
  match trim (code cs) with
  | [] => some []
  | '#' :: _ => some []
  | text => (statement? text).map ([·])

/-- The statements of a text. -/
def statements? (text : String) : Option (List Statement) :=
  ((text.toList.splitOn '\n').mapM line?).map List.flatten

/-! ## Headers -/

/-- A function. -/
structure Function where
  name : String
  parameters : List String
  body : List Statement

/-- The constants and the functions of a header, in their order. -/
structure Header where
  constants : List (String × Tree)
  functions : List Function

/-- A statement behind what has been read, of which the last function may still be open. -/
def place? : Header × Option Function → Statement → Option (Header × Option Function)
  | (h, none), .constant name value => some ({ h with constants := h.constants ++ [(name, value)] },
      none)
  | (h, none), .opening name parameters => some (h, some ⟨name, parameters, []⟩)
  | (_, none), _ => none
  | (h, some f), .closing => some ({ h with functions := h.functions ++ [f] }, none)
  | (_, some _), .opening _ _ => none
  | (h, some f), s => some (h, some { f with body := f.body ++ [s] })

/-- The constants and the functions of a header. -/
def read? (text : String) : Option Header :=
  match (statements? text).bind (·.foldlM place? (⟨[], []⟩, none)) with
  | some (h, none) => some h
  | _ => none

/-! ## Meaning -/

open Classical in
/-- What statements return, in an environment. -/
noncomputable def run? (env : String → Option ℝ) : List Statement → Option ℝ
  | [] => none
  | .constant name value :: rest =>
    (value.value? env).bind fun v => run? (Function.update env name (some v)) rest
  | .guard name orEqual bound result :: rest =>
    (env name).bind fun x => (bound.value? env).bind fun y =>
      if x < y ∨ orEqual ∧ x = y then result.value? env else run? env rest
  | .result value :: _ => value.value? env
  | .opening _ _ :: _ => none
  | .closing :: _ => none

/-- The environment in which constants have their values, each of which may depend on those before
it. -/
noncomputable def environment? (constants : List (String × Tree)) : Option (String → Option ℝ) :=
  constants.foldlM (fun env c => (c.2.value? env).map fun v => Function.update env c.1 (some v))
    fun _ => none

/-- What a function of a header returns. -/
noncomputable def Header.call? (h : Header) (name : String) (arguments : List ℝ) : Option ℝ :=
  (environment? h.constants).bind fun env =>
    (h.functions.find? (·.name == name)).bind fun f =>
      if f.parameters.length = arguments.length then
        run? ((f.parameters.zip arguments).foldl
          (fun env p => Function.update env p.1 (some p.2)) env) f.body
      else none

/-! ## Reading patterns -/

theorem strip?_append (p cs : List Char) : strip? p (p ++ cs) = some cs := by
  rw [strip?, if_pos (List.isPrefixOf_iff_prefix.mpr (List.prefix_append p cs)), List.drop_left]

/-- A text that does not contain what the next piece begins with is found in front of it. -/
theorem fields?_append (p : List Char) {q : List Char} (ps : List (List Char))
    (field : List Char) {c : Char} (hq : q.head? = some c) (hfield : c ∉ field) (rest : List Char) :
    fields? (p :: q :: ps) (p ++ (field ++ (q ++ rest))) =
      (fields? (q :: ps) (q ++ rest)).map (field :: ·) := by
  obtain ⟨q', rfl⟩ : ∃ q', q = c :: q' := by
    cases q with
    | nil => exact absurd hq (by simp)
    | cons d q' => exact ⟨q', by rw [Option.some.inj hq]⟩
  have htake : (field ++ (c :: q' ++ rest)).takeWhile (fun d => some d != (c :: q').head?) =
      field := by
    rw [List.takeWhile_append_of_pos fun d hd => ?_]
    · simp
    · exact bne_iff_ne.mpr fun h => hfield (Option.some.inj h ▸ hd)
  rw [fields?, strip?_append]
  dsimp only
  rw [htake, List.drop_left]

theorem fields?_singleton (p : List Char) : fields? [p] p = some [] := if_pos rfl

/-! ## Expressions in lines -/

theorem exists_of_closeWord {word : List Char} {rest : Option (List Token)} {ts : List Token}
    (h : closeWord word rest = some ts) : ∃ us, rest = some us := by
  rw [closeWord] at h
  cases rest with
  | some us => exact ⟨us, rfl⟩
  | none =>
    split at h
    · exact absurd h (by simp)
    · split at h
      · exact absurd h (by simp)
      · exact absurd h (by simp)

/-- What a text with tokens begins with: no comment, and a character of expressions. -/
theorem tokensFrom_cons {word cs : List Char} {c : Char} {ts : List Token}
    (h : tokensFrom word (c :: cs) = some ts) :
    (isWordChar c = true ∨ c = ' ' ∨ (punctuation? c).isSome = true) ∧
      ¬(c = '/' ∧ cs.head? = some '/') ∧ ∃ word us, tokensFrom word cs = some us := by
  rw [tokensFrom] at h
  split at h
  · rename_i hword
    refine ⟨Or.inl hword, ?_, _, _, h⟩
    rintro ⟨rfl, -⟩
    exact absurd hword (by decide)
  · obtain ⟨us, hus⟩ := exists_of_closeWord h
    split at hus
    · rename_i hblank
      refine ⟨Or.inr (Or.inl (beq_iff_eq.mp hblank)), ?_, _, _, hus⟩
      rintro ⟨rfl, -⟩
      exact absurd hblank (by decide)
    · split at hus
      · exact absurd hus (by simp)
      · rename_i hfuse
        cases hpunctuation : punctuation? c with
        | none =>
          rw [hpunctuation] at hus
          exact absurd hus (by simp)
        | some t =>
          rw [hpunctuation, Option.map_eq_some_iff] at hus
          obtain ⟨vs, hvs, -⟩ := hus
          refine ⟨Or.inr (Or.inr rfl), ?_, _, _, hvs⟩
          rintro ⟨rfl, hhead⟩
          rw [hhead] at hfuse
          exact hfuse rfl

/-- An expression has no characters but its own. -/
theorem of_mem_tokens {word cs : List Char} {ts : List Token} (h : tokensFrom word cs = some ts) :
    ∀ c ∈ cs, isWordChar c = true ∨ c = ' ' ∨ (punctuation? c).isSome = true := by
  induction cs generalizing word ts with
  | nil => exact fun c hc => absurd hc List.not_mem_nil
  | cons c cs ih =>
    obtain ⟨hc, -, word, us, hrest⟩ := tokensFrom_cons h
    exact List.forall_mem_cons.mpr ⟨hc, ih hrest⟩

/-- There is no comment in an expression. -/
theorem code_tokens_append {word cs : List Char} {ts : List Token}
    (h : tokensFrom word cs = some ts) {rest : List Char} (hrest : rest.head? ≠ some '/') :
    code (cs ++ rest) = cs ++ code rest := by
  induction cs generalizing word ts with
  | nil => rfl
  | cons c cs ih =>
    obtain ⟨-, hslash, word, us, htail⟩ := tokensFrom_cons h
    have hnot : ¬(c = '/' ∧ (cs ++ rest).head? = some '/') := by
      rintro ⟨hc, hhead⟩
      cases cs with
      | nil => exact hrest hhead
      | cons d cs => exact hslash ⟨hc, hhead⟩
    rw [List.cons_append, code, if_neg hnot, ih htail, List.cons_append]

theorem code_append {cs : List Char} (h : '/' ∉ cs) (rest : List Char) :
    code (cs ++ rest) = cs ++ code rest := by
  induction cs with
  | nil => rfl
  | cons c cs ih =>
    obtain ⟨hc, hcs⟩ := List.ne_and_not_mem_of_not_mem_cons h
    rw [List.cons_append, code, if_neg fun hslash => hc hslash.1.symm, ih hcs, List.cons_append]

theorem trim_concat {c d : Char} (cs : List Char) (hc : c ≠ ' ') (hd : d ≠ ' ') :
    trim (c :: (cs ++ [d])) = c :: (cs ++ [d]) := by
  rw [trim, List.dropWhile_cons_of_neg (by simpa using hc), ← List.cons_append,
    List.rdropWhile_concat_neg _ _ _ (by simpa using hd)]

/-- A text that is an expression with a tree. -/
structure IsExpression (cs : List Char) (x : Tree) : Prop where
  expression?_eq : expression? cs = some x
  tokens : ∃ ts, tokensFrom [] cs = some ts

theorem isExpression_of_parse? {s : String} {x : Tree} (h : parse? s = some x) :
    IsExpression s.toList x := by
  refine ⟨by rw [expression?, String.ofList_toList, h], ?_⟩
  rw [parse?] at h
  cases hts : tokens? s with
  | none =>
    rw [hts] at h
    exact absurd h (by simp)
  | some ts => exact ⟨ts, hts⟩

namespace IsExpression

variable {cs : List Char} {x : Tree} (h : IsExpression cs x)

include h

theorem not_mem {c : Char} (hword : isWordChar c = false) (hblank : c ≠ ' ')
    (hpunctuation : punctuation? c = none) : c ∉ cs := by
  obtain ⟨ts, hts⟩ := h.tokens
  intro hc
  rcases of_mem_tokens hts c hc with hmem | hmem | hmem
  · rw [hword] at hmem
    exact Bool.false_ne_true hmem
  · exact hblank hmem
  · rw [hpunctuation] at hmem
    exact Bool.false_ne_true hmem

theorem semicolon_not_mem : ';' ∉ cs := h.not_mem (by decide) (by decide) rfl

theorem newline_not_mem : '\n' ∉ cs := h.not_mem (by decide) (by decide) rfl

theorem code_append {rest : List Char} (hrest : rest.head? ≠ some '/') :
    code (cs ++ rest) = cs ++ code rest := by
  obtain ⟨ts, hts⟩ := h.tokens
  exact code_tokens_append hts hrest

end IsExpression

/-! ## Reading lines -/

/-- The characters of an identifier. -/
theorem mem_of_isIdentifier {s : String} (h : isIdentifier s = true) :
    ∀ c ∈ s.toList, (c.isAlphanum || c == '_') = true := by
  rw [isIdentifier] at h
  cases hs : s.toList with
  | nil => exact fun c hc => absurd hc List.not_mem_nil
  | cons c cs =>
    rw [hs] at h
    simp only [Bool.and_eq_true, List.all_eq_true] at h
    refine List.forall_mem_cons.mpr ⟨?_, h.1.2⟩
    have hc := h.1.1
    rw [Bool.or_eq_true] at hc ⊢
    exact hc.imp (fun halpha => by rw [Char.isAlphanum, halpha]; rfl) id

theorem line?_comment (cs : List Char) : line? ('/' :: '/' :: cs) = some [] := by
  rw [line?, code, if_pos ⟨rfl, rfl⟩]
  rfl

/-- The statement of a line that is not left to the preprocessor. -/
theorem line?_of_statement? {cs : List Char} {c : Char} (text : List Char) {s : Statement}
    (hcode : code cs = cs) (htrim : trim cs = c :: text) (hc : c ≠ '#')
    (hs : statement? (c :: text) = some s) : line? cs = some [s] := by
  rw [line?, hcode, htrim]
  split
  · rename_i heq
    exact absurd heq (by simp)
  · rename_i heq
    exact absurd (List.cons.inj heq).1 hc
  · rw [hs]
    rfl

theorem statement?_of_constant? {cs : List Char} {s : Statement} (h : constant? cs = some s) :
    statement? cs = some s := by
  rw [statement?, h]
  rfl

theorem statement?_of_guard? {cs : List Char} {s : Statement} (hconstant : constant? cs = none)
    (hopening : opening? cs = none) (h : guard? cs = some s) : statement? cs = some s := by
  rw [statement?, hconstant, hopening, h]
  rfl

theorem statement?_of_result? {cs : List Char} {s : Statement} (hconstant : constant? cs = none)
    (hopening : opening? cs = none) (hguard : guard? cs = none) (h : result? cs = some s) :
    statement? cs = some s := by
  rw [statement?, hconstant, hopening, hguard, h]
  rfl

/-- The line of a constant. -/
theorem line?_constant {name : String} (hname : isIdentifier name = true) {value : List Char}
    {x : Tree} (hvalue : IsExpression value x) :
    line? ("const double ".toList ++ (name.toList ++ (" = ".toList ++ (value ++ ";".toList)))) =
      some [.constant name x] := by
  have hchars := mem_of_isIdentifier hname
  refine line?_of_statement? (c := 'c')
    ("onst double ".toList ++ (name.toList ++ (" = ".toList ++ (value ++ ";".toList))))
    ?_ ?_ (by decide) ?_
  · rw [CHeader.code_append (by decide),
      CHeader.code_append fun h => absurd (hchars _ h) (by decide),
      CHeader.code_append (by decide), hvalue.code_append (by decide)]
    rfl
  · have h := trim_concat (c := 'c') (d := ';')
      ("onst double ".toList ++ (name.toList ++ (" = ".toList ++ value))) (by decide) (by decide)
    simp only [List.append_assoc] at h
    exact h
  · have hfields : fieldsOf? "const double ~ = ~;" ("const double ".toList ++ (name.toList ++
        (" = ".toList ++ (value ++ ";".toList)))) = some [name.toList, value] := by
      refine (fields?_append "const double ".toList (q := " = ".toList) [";".toList] _ rfl
        (fun h => absurd (hchars _ h) (by decide)) (value ++ ";".toList)).trans ?_
      have h := fields?_append " = ".toList (q := ";".toList) [] _ rfl hvalue.semicolon_not_mem []
      rw [List.append_nil, fields?_singleton] at h
      rw [h]
      rfl
    have hconstant : constant? ("const double ".toList ++ (name.toList ++ (" = ".toList ++
        (value ++ ";".toList)))) = some (.constant name x) := by
      rw [constant?, hfields]
      simp [identifier?, String.ofList_toList, hname, hvalue.expression?_eq]
    exact statement?_of_constant? hconstant

/-- The line of a return. -/
theorem line?_result {value : List Char} {x : Tree} (hvalue : IsExpression value x) :
    line? ("  return ".toList ++ (value ++ ";".toList)) = some [.result x] := by
  refine line?_of_statement? (c := 'r') ("eturn ".toList ++ (value ++ ";".toList)) ?_ ?_
    (by decide) ?_
  · rw [CHeader.code_append (by decide), hvalue.code_append (by decide)]
    rfl
  · exact trim_concat (c := 'r') (d := ';') ("eturn ".toList ++ value) (by decide) (by decide)
  · have hfields : fieldsOf? "return ~;" ("return ".toList ++ (value ++ ";".toList)) =
        some [value] := by
      have h := fields?_append "return ".toList (q := ";".toList) [] _ rfl
        hvalue.semicolon_not_mem []
      rw [List.append_nil, fields?_singleton] at h
      exact h
    have hresult : result? ("return ".toList ++ (value ++ ";".toList)) = some (.result x) := by
      rw [result?, hfields]
      simp [hvalue.expression?_eq]
    exact statement?_of_result? rfl rfl rfl hresult

/-- The line of a guard whose bound has no parentheses. -/
theorem line?_guard {bound : List Char} {x : Tree} (hbound : IsExpression bound x)
    (hparen : ')' ∉ bound) :
    line? ("  if (r < ".toList ++ (bound ++ ") return 0;".toList)) =
      some [.guard "r" false x (.number ['0'])] := by
  refine line?_of_statement? (c := 'i')
    ("f (r < ".toList ++ (bound ++ ") return 0;".toList)) ?_ ?_ (by decide) ?_
  · rw [CHeader.code_append (by decide), hbound.code_append (by decide)]
    rfl
  · have h := trim_concat (c := 'i') (d := ';')
      ("f (r < ".toList ++ (bound ++ ") return 0".toList)) (by decide) (by decide)
    simp only [List.append_assoc] at h
    exact h
  · have hfields : fieldsOf? "if (~ ~ ~) return ~;"
        ("if (r < ".toList ++ (bound ++ ") return 0;".toList)) =
        some [['r'], ['<'], bound, ['0']] := by
      have h := fields?_append " ".toList (q := ") return ".toList) [";".toList] _ rfl hparen
        "0;".toList
      have h1 := fields?_append " ".toList (q := " ".toList) [") return ".toList, ";".toList]
        ['<'] rfl (by decide) (bound ++ (") return ".toList ++ "0;".toList))
      have h2 := fields?_append "if (".toList (q := " ".toList)
        [" ".toList, ") return ".toList, ";".toList] ['r'] rfl (by decide)
        (['<'] ++ (" ".toList ++ (bound ++ (") return ".toList ++ "0;".toList))))
      rw [h1, h] at h2
      exact h2
    have hguard : guard? ("if (r < ".toList ++ (bound ++ ") return 0;".toList)) =
        some (.guard "r" false x (.number ['0'])) := by
      rw [guard?, hfields]
      have hzero : expression? ['0'] = some (.number ['0']) := by decide +kernel
      have hr : identifier? ['r'] = some "r" := by decide +kernel
      have hlt : comparison? ['<'] = some false := rfl
      simp only [hbound.expression?_eq, hzero, hr, hlt]
      rfl
    exact statement?_of_guard? rfl rfl hguard

/-! ## Reading headers -/

/-- Lines that are read as statements. -/
inductive Reads : List String → List Statement → Prop where
  | nil : Reads [] []
  | cons {l : String} {ss ts : List Statement} {ls : List String} (hl : '\n' ∉ l.toList)
      (hline : line? l.toList = some ss) (h : Reads ls ts) : Reads (l :: ls) (ss ++ ts)

/-- A line with one statement. -/
theorem Reads.statement {l : String} {s : Statement} {ls : List String} {ss : List Statement}
    (hl : '\n' ∉ l.toList) (hline : line? l.toList = some [s]) (h : Reads ls ss) :
    Reads (l :: ls) (s :: ss) := .cons hl hline h

/-- A line without statements. -/
theorem Reads.nothing {l : String} {ls : List String} {ss : List Statement} (hl : '\n' ∉ l.toList)
    (hline : line? l.toList = some []) (h : Reads ls ss) : Reads (l :: ls) ss := .cons hl hline h

theorem Reads.append {ls ls' : List String} {ss ss' : List Statement} (h : Reads ls ss)
    (h' : Reads ls' ss') : Reads (ls ++ ls') (ss ++ ss') := by
  induction h with
  | nil => exact h'
  | cons hl hline _ ih =>
    rw [List.cons_append, List.append_assoc]
    exact .cons hl hline ih

theorem Reads.flatMap {ι : Type} {is : List ι} {ls : ι → List String} {ss : ι → List Statement}
    (h : ∀ i ∈ is, Reads (ls i) (ss i)) : Reads (is.flatMap ls) (is.flatMap ss) := by
  induction is with
  | nil => exact .nil
  | cons i is ih =>
    obtain ⟨hi, his⟩ := List.forall_mem_cons.mp h
    rw [List.flatMap_cons, List.flatMap_cons]
    exact hi.append (ih his)

/-- A text that is made of lines, each with its line feed, has their statements. -/
theorem Reads.statements?_eq {ls : List String} {ss : List Statement} (h : Reads ls ss) :
    statements? (String.join (ls.map (· ++ "\n"))) = some ss := by
  induction h with
  | nil => rfl
  | @cons l ss ts ls hl hline _ ih =>
    rw [statements?, Option.map_eq_some_iff] at ih ⊢
    obtain ⟨sss, hsss, rfl⟩ := ih
    refine ⟨ss :: sss, ?_, List.flatten_cons⟩
    have hlf : "\n".toList = ['\n'] := rfl
    rw [List.map_cons, String.join_cons, String.toList_append, String.toList_append, hlf,
      List.append_assoc, List.singleton_append,
      List.splitOn_append_cons_self_of_not_mem hl, List.mapM_cons, hline, hsss]
    rfl

/-- Constants in front of functions are put into the header. -/
theorem foldlM_place?_constants (cs : List (String × Tree)) (h : Header) :
    (cs.map fun c => Statement.constant c.1 c.2).foldlM place? (h, none) =
      some ({ h with constants := h.constants ++ cs }, none) := by
  induction cs generalizing h with
  | nil =>
    rw [List.append_nil]
    rfl
  | cons c cs ih =>
    rw [List.map_cons, List.foldlM_cons]
    refine (ih _).trans ?_
    rw [List.append_assoc, List.singleton_append]

/-! ## Environments -/

/-- Constants whose values depend on no other name are defined, and nothing else is. -/
theorem environment?_eq {cs : List (String × Tree)} {value : String → ℝ}
    (h : ∀ c ∈ cs, ∀ env, c.2.value? env = some (value c.1)) :
    environment? cs = some fun s => if s ∈ cs.map (·.1) then some (value s) else none := by
  have hfrom : ∀ env : String → Option ℝ,
      cs.foldlM (fun env c => (c.2.value? env).map fun v => Function.update env c.1 (some v)) env =
        some fun s => if s ∈ cs.map (·.1) then some (value s) else env s := by
    induction cs with
    | nil => exact fun env => congrArg some (funext fun s => (if_neg List.not_mem_nil).symm)
    | cons c cs ih =>
      obtain ⟨hc, hcs⟩ := List.forall_mem_cons.mp h
      intro env
      rw [List.foldlM_cons, hc]
      refine (ih hcs (Function.update env c.1 (some (value c.1)))).trans
        (congrArg some (funext fun s => ?_))
      rw [List.map_cons]
      by_cases hmem : s ∈ cs.map (·.1)
      · rw [if_pos hmem, if_pos (List.mem_cons_of_mem _ hmem)]
      · by_cases hs : s = c.1
        · rw [if_neg hmem, hs, Function.update_self, if_pos List.mem_cons_self]
        · rw [if_neg hmem, Function.update_of_ne hs,
            if_neg fun hcons => (List.mem_cons.mp hcons).elim hs hmem]
  exact hfrom _

end CHeader

end SphereLab
