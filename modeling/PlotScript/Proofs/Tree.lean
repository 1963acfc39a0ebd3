import PlotScript.Proofs.Layout

/-! Expressions as trees, with the tokens that write them and the LaTeX that they stand for. The
grammar is `e ::= t | t op e`: an expression is a term, or a term, an operator and an expression. -/

namespace PlotScript

/-- The first character of a name, with the others as its subscript. -/
def subscripted (name : String) : String :=
  match name.toList with
  | [] => ""
  | [_] => name
  | c :: rest => c.toString ++ "_\x7b" ++ String.ofList rest ++ "\x7d"

/-- A name as it is written in a scope: the name of the innermost scope goes in front. -/
def scopedName (scope : List String) (name : String) : String :=
  subscripted (scope.getLastD "" ++ name)

namespace Tree

/-- A text that is read as a name wherever it stands apart. -/
structure Name where
  text : String
  isName : Lexer.isName text.toList = true
  notKeyword : text ∉ Lexer.keywords
  deriving DecidableEq, Repr

inductive Operator
  | power | equals | arrow | minus | plus | over | times | less | greater
  deriving DecidableEq, Repr

inductive Atom
  | numeral (value : Nat)
  | name (name : Name)
  deriving DecidableEq, Repr

structure Value where
  negative : Bool
  atom : Atom
  deriving DecidableEq, Repr

mutual

inductive Term
  | value (v : Value)
  | access (v : Value) (items : List Expression)
  | list (items : List Expression)
  | bracketed (inner : Expression)
  | point (x y : Expression)
  | call (function : Name) (first : Expression) (others : List Expression)

inductive Expression
  | term (t : Term)
  | operation (t : Term) (op : Operator) (rest : Expression)

end

/-! The tokens. -/

def mark (text : String) : Token := .word .mark text

def Name.token (n : Name) : Token := .word .name n.text

def Operator.text : Operator → String
  | .power => "^"
  | .equals => "="
  | .arrow => "->"
  | .minus => "-"
  | .plus => "+"
  | .over => "/"
  | .times => "*"
  | .less => "<"
  | .greater => ">"

def Operator.token (op : Operator) : Token := .word .operator op.text

def Atom.token : Atom → Token
  | .numeral value => .numeral value
  | .name n => n.token

def Value.tokens (v : Value) : List Token :=
  if v.negative then [Operator.token .minus, v.atom.token] else [v.atom.token]

mutual

def Term.tokens : Term → List Token
  | .value v => v.tokens
  | .access v items => v.tokens ++ mark "[" :: (itemTokens items ++ [mark "]"])
  | .list items => mark "[" :: (itemTokens items ++ [mark "]"])
  | .bracketed inner => mark "(" :: (inner.tokens ++ [mark ")"])
  | .point x y => mark "(" :: (x.tokens ++ mark "," :: (y.tokens ++ [mark ")"]))
  | .call function first others =>
    function.token :: mark "(" :: (first.tokens ++ (laterTokens others ++ [mark ")"]))

def Expression.tokens : Expression → List Token
  | .term t => t.tokens
  | .operation t op rest => t.tokens ++ op.token :: rest.tokens

/-- Expressions with commas between them. -/
def itemTokens : List Expression → List Token
  | [] => []
  | e :: items => e.tokens ++ laterTokens items

/-- Expressions with a comma in front of each. -/
def laterTokens : List Expression → List Token
  | [] => []
  | e :: items => mark "," :: (e.tokens ++ laterTokens items)

end

/-! The LaTeX, in a scope and with the functions that the script has defined. -/

def Operator.latex : Operator → String
  | .arrow => "\\to "
  | op => op.text

def Atom.latex (scope : List String) : Atom → String
  | .numeral value => value.repr
  | .name n => scopedName scope n.text

def Value.latex (scope : List String) (v : Value) : String :=
  (if v.negative then "-" else "") ++ v.atom.latex scope

/-- The name of a function where it is called. -/
def calledName (functions : List String) (function : String) : String :=
  if function ∈ ["polygon", "rgb", "hsv"] then "\\operatorname\x7b" ++ function ++ "\x7d"
  else if function ∈ functions then subscripted function
  else "\\" ++ function

section latex
variable (scope functions : List String)

mutual

def Term.latex : Term → String
  | .value v => v.latex scope
  | .access v items => v.latex scope ++ ("\\left[" ++ itemLatex items ++ "\\right]")
  | .list items => "\\left[" ++ itemLatex items ++ "\\right]"
  | .bracketed inner => "\\left(" ++ inner.latex ++ "\\right)"
  | .point x y => "\\left(" ++ x.latex ++ "," ++ y.latex ++ "\\right)"
  | .call function first others =>
    calledName functions function.text ++ "\\left(" ++ first.latex ++ laterLatex others ++
      "\\right)"

def Expression.latex : Expression → String
  | .term t => t.latex
  | .operation t op rest => t.latex ++ op.latex ++ rest.latex

def itemLatex : List Expression → String
  | [] => ""
  | e :: items => e.latex ++ laterLatex items

def laterLatex : List Expression → String
  | [] => ""
  | e :: items => "," ++ e.latex ++ laterLatex items

end

end latex

/-! The names that an expression uses. -/

def Atom.variables : Atom → List String
  | .numeral _ => []
  | .name n => [n.text]

mutual

def Term.variables : Term → List String
  | .value v => v.atom.variables
  | .access v items => v.atom.variables ++ itemVariables items
  | .list items => itemVariables items
  | .bracketed inner => inner.variables
  | .point x y => x.variables ++ y.variables
  | .call _ first others => first.variables ++ itemVariables others

def Expression.variables : Expression → List String
  | .term t => t.variables
  | .operation t _ rest => t.variables ++ rest.variables

def itemVariables : List Expression → List String
  | [] => []
  | e :: items => e.variables ++ itemVariables items

end

mutual

/-- The functions that are called. -/
def Term.callees : Term → List String
  | .value _ => []
  | .access _ items => itemCallees items
  | .list items => itemCallees items
  | .bracketed inner => inner.callees
  | .point x y => x.callees ++ y.callees
  | .call function first others => function.text :: (first.callees ++ itemCallees others)

def Expression.callees : Expression → List String
  | .term t => t.callees
  | .operation t _ rest => t.callees ++ rest.callees

def itemCallees : List Expression → List String
  | [] => []
  | e :: items => e.callees ++ itemCallees items

end

/-- The name that an expression assigns to, if it begins with a name and an equals sign. -/
def Expression.assigned? : Expression → Option String
  | .operation (.value ⟨false, .name n⟩) .equals _ => some n.text
  | _ => none

/-! The first tokens. -/

@[simp] theorem mark_is (own text : String) : (mark own).is text = decide (own = text) := rfl

theorem Name.text_ne (n : Name) {text : String} (h : Lexer.isName text.toList = false) :
    n.text ≠ text := by
  rintro rfl
  simp [n.isName] at h

theorem Name.token_is (n : Name) {text : String} (h : Lexer.isName text.toList = false) :
    n.token.is text = false := by
  simpa [Name.token, Token.is] using n.text_ne h

theorem Name.text_ne_empty (n : Name) : n.text ≠ "" := n.text_ne (by decide)

theorem Atom.token_is (a : Atom) {text : String} (h : Lexer.isName text.toList = false) :
    a.token.is text = false := by
  cases a with
  | numeral value => rfl
  | name n => exact n.token_is h

theorem Atom.token_isNewline (a : Atom) : a.token.isNewline = false := by
  cases a <;> rfl

/-- A token that may begin an expression: what is looked for in front of one it is not. -/
structure Opens (t : Token) : Prop where
  notNewline : t.isNewline = false
  notClosing : t.is "]" = false
  notBrace : t.is "\x7d" = false
  notBang : t.is "!" = false
  notKeyword : ∀ word ∈ Lexer.keywords, t.is word = false

theorem Atom.opens (a : Atom) : Opens a.token := by
  refine ⟨a.token_isNewline, a.token_is (by decide), a.token_is (by decide), a.token_is (by decide),
    fun word hword => ?_⟩
  cases a with
  | numeral value => rfl
  | name n =>
    have hne : n.text ≠ word := fun h => n.notKeyword (h ▸ hword)
    simpa [Atom.token, Name.token, Token.is] using hne

/-- Terms whose first token is an opening round bracket. -/
def Term.isRound : Term → Bool
  | .bracketed _ => true
  | .point _ _ => true
  | _ => false

theorem Value.tokens_cons (v : Value) :
    ∃ t ts, v.tokens = t :: ts ∧ Opens t ∧ t.is "(" = false := by
  rw [Value.tokens]
  split
  · exact ⟨_, _, rfl, ⟨by decide, by decide, by decide, by decide, by decide⟩, by decide⟩
  · exact ⟨_, _, rfl, v.atom.opens, v.atom.token_is (by decide)⟩

theorem Term.tokens_cons (t : Term) :
    ∃ first ts, t.tokens = first :: ts ∧ Opens first ∧ first.is "(" = t.isRound := by
  cases t with
  | value v =>
    rw [Term.tokens]
    exact v.tokens_cons
  | access v items =>
    obtain ⟨first, ts, hv, hopens⟩ := v.tokens_cons
    exact ⟨first, _, by rw [Term.tokens, hv, List.cons_append], hopens⟩
  | list items =>
    exact ⟨mark "[", _, by rw [Term.tokens],
      ⟨by decide, by decide, by decide, by decide, by decide⟩, rfl⟩
  | bracketed inner =>
    exact ⟨mark "(", _, by rw [Term.tokens],
      ⟨by decide, by decide, by decide, by decide, by decide⟩, rfl⟩
  | point x y =>
    exact ⟨mark "(", _, by rw [Term.tokens],
      ⟨by decide, by decide, by decide, by decide, by decide⟩, rfl⟩
  | call function first others =>
    exact ⟨function.token, _, by rw [Term.tokens], (Atom.name function).opens,
      function.token_is (by decide)⟩

theorem Expression.tokens_cons (e : Expression) : ∃ t ts, e.tokens = t :: ts ∧ Opens t := by
  cases e with
  | term t =>
    obtain ⟨first, ts, ht, hopens, -⟩ := t.tokens_cons
    exact ⟨first, ts, by rw [Expression.tokens, ht], hopens⟩
  | operation t op rest =>
    obtain ⟨first, ts, ht, hopens, -⟩ := t.tokens_cons
    exact ⟨first, _, by rw [Expression.tokens, ht, List.cons_append], hopens⟩

theorem itemTokens_cons_cons (e e' : Expression) (items : List Expression) :
    itemTokens (e :: e' :: items) = e.tokens ++ mark "," :: itemTokens (e' :: items) := by
  rw [itemTokens, laterTokens, itemTokens]

theorem itemLatex_cons_cons (scope functions : List String) (e e' : Expression)
    (items : List Expression) :
    itemLatex scope functions (e :: e' :: items) =
      e.latex scope functions ++ "," ++ itemLatex scope functions (e' :: items) := by
  rw [itemLatex, laterLatex, itemLatex, String.append_assoc, String.append_assoc]

/-- The expressions inside a term. -/
def Term.parts : Term → List Expression
  | .value _ => []
  | .access _ items => items
  | .list items => items
  | .bracketed inner => [inner]
  | .point x y => [x, y]
  | .call _ first others => first :: others

theorem Expression.tokens_length_pos (e : Expression) : 0 < e.tokens.length := by
  obtain ⟨t, ts, htokens, -⟩ := e.tokens_cons
  simp [htokens]

theorem length_le_laterTokens (items : List Expression) :
    items.length ≤ (laterTokens items).length := by
  induction items with
  | nil => exact Nat.zero_le _
  | cons e items ih =>
    simp only [laterTokens, List.length_cons, List.length_append]
    omega

theorem length_le_itemTokens (items : List Expression) :
    items.length ≤ (itemTokens items).length := by
  cases items with
  | nil => exact Nat.zero_le _
  | cons e items =>
    have hlater := length_le_laterTokens items
    have hpos := e.tokens_length_pos
    simp only [itemTokens, List.length_cons, List.length_append]
    omega

theorem tokens_length_le_laterTokens {e : Expression} {items : List Expression} (he : e ∈ items) :
    e.tokens.length ≤ (laterTokens items).length := by
  induction items with
  | nil => contradiction
  | cons first items ih =>
    simp only [laterTokens, List.length_cons, List.length_append]
    rcases List.mem_cons.mp he with rfl | he
    · omega
    · have := ih he
      omega

theorem tokens_length_le_itemTokens {e : Expression} {items : List Expression} (he : e ∈ items) :
    e.tokens.length ≤ (itemTokens items).length := by
  cases items with
  | nil => contradiction
  | cons first items =>
    simp only [itemTokens, List.length_append]
    rcases List.mem_cons.mp he with rfl | he
    · omega
    · have := tokens_length_le_laterTokens he
      omega

/-- There are fewer parts than tokens, -/
theorem Term.parts_length_lt (t : Term) : t.parts.length < t.tokens.length := by
  cases t with
  | value v =>
    obtain ⟨first, ts, htokens, -⟩ := v.tokens_cons
    simp [Term.parts, Term.tokens, htokens]
  | access v items =>
    have hitems := length_le_itemTokens items
    simp only [Term.parts, Term.tokens, List.length_append, List.length_cons, List.length_nil]
    omega
  | list items =>
    have hitems := length_le_itemTokens items
    simp only [Term.parts, Term.tokens, List.length_append, List.length_cons, List.length_nil]
    omega
  | bracketed inner =>
    simp only [Term.parts, Term.tokens, List.length_append, List.length_cons, List.length_nil]
    omega
  | point x y =>
    simp only [Term.parts, Term.tokens, List.length_append, List.length_cons, List.length_nil]
    omega
  | call function first others =>
    have hothers := length_le_laterTokens others
    simp only [Term.parts, Term.tokens, List.length_append, List.length_cons, List.length_nil]
    omega

/-- and each part is shorter than its term. -/
theorem Term.tokens_length_lt {t : Term} {e : Expression} (he : e ∈ t.parts) :
    e.tokens.length < t.tokens.length := by
  cases t with
  | value v => contradiction
  | access v items =>
    have hitems : e.tokens.length ≤ (itemTokens items).length := tokens_length_le_itemTokens he
    simp only [Term.tokens, List.length_append, List.length_cons, List.length_nil]
    omega
  | list items =>
    have hitems : e.tokens.length ≤ (itemTokens items).length := tokens_length_le_itemTokens he
    simp only [Term.tokens, List.length_append, List.length_cons, List.length_nil]
    omega
  | bracketed inner =>
    cases List.mem_singleton.mp he
    simp only [Term.tokens, List.length_append, List.length_cons, List.length_nil]
    omega
  | point x y =>
    simp only [Term.tokens, List.length_append, List.length_cons, List.length_nil]
    rcases List.mem_cons.mp he with rfl | he
    · omega
    · cases List.mem_singleton.mp he
      omega
  | call function first others =>
    simp only [Term.tokens, List.length_append, List.length_cons, List.length_nil]
    rcases List.mem_cons.mp he with rfl | he
    · omega
    · have := tokens_length_le_laterTokens he
      omega

theorem itemVariables_subset {e : Expression} {items : List Expression} (he : e ∈ items) :
    e.variables ⊆ itemVariables items ∧ e.callees ⊆ itemCallees items := by
  induction items with
  | nil => contradiction
  | cons first items ih =>
    rw [itemVariables, itemCallees]
    rcases List.mem_cons.mp he with rfl | he
    · exact ⟨List.subset_append_left .., List.subset_append_left ..⟩
    · exact ⟨List.subset_append_of_subset_right _ (ih he).1,
        List.subset_append_of_subset_right _ (ih he).2⟩

theorem Term.variables_subset {t : Term} {e : Expression} (he : e ∈ t.parts) :
    e.variables ⊆ t.variables ∧ e.callees ⊆ t.callees := by
  cases t with
  | value v => contradiction
  | access v items =>
    rw [Term.variables, Term.callees]
    exact ⟨List.subset_append_of_subset_right _ (itemVariables_subset he).1,
      (itemVariables_subset he).2⟩
  | list items =>
    rw [Term.variables, Term.callees]
    exact itemVariables_subset he
  | bracketed inner =>
    cases List.mem_singleton.mp he
    rw [Term.variables, Term.callees]
    exact ⟨List.Subset.refl _, List.Subset.refl _⟩
  | point x y =>
    rw [Term.variables, Term.callees]
    rcases List.mem_cons.mp he with rfl | he
    · exact ⟨List.subset_append_left .., List.subset_append_left ..⟩
    · cases List.mem_singleton.mp he
      exact ⟨List.subset_append_right .., List.subset_append_right ..⟩
  | call function first others =>
    have he' : _ ∈ first :: others := he
    have hparts := itemVariables_subset he'
    rw [itemVariables, itemCallees] at hparts
    rw [Term.variables, Term.callees]
    exact ⟨hparts.1, List.subset_cons_of_subset _ hparts.2⟩

end Tree
end PlotScript
