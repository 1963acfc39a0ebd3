import PlotScript.Text.Digit
import PlotScript.Text.Word
import PlotScript.Token

/-! Reading a text into tokens. The rules are tried in order and the first that applies
wins, so `>` is read before an equals sign can join it. Every rule takes at least one
character, and reading stops where no rule applies. -/

namespace PlotScript.Lexer
open Text

inductive Rule
  | keyword | name | numeral | mark | operator | blank | note | comment | newline
  deriving DecidableEq, Repr

/-- A rule that applied, what it took and what it left. -/
structure Match where
  rule : Rule
  lexeme : List Char
  rest : List Char
  deriving Repr

def keywords : List String := ["fn", "ns", "if", "else", "for", "macro", "import"]

/-- What follows `word` at the front of a text. -/
def dropWord? : List Char → List Char → Option (List Char)
  | [], cs => some cs
  | _ :: _, [] => none
  | w :: word, c :: cs => if w = c then dropWord? word cs else none

/-- The text does not begin with a word character. -/
def atWordEnd : List Char → Bool
  | [] => true
  | c :: _ => !isWordChar c

/-- A keyword stands between word boundaries; `before` is the character in front of it. -/
def keyword? (before : Option Char) (cs : List Char) : Option (List Char × List Char) :=
  if before.any isWordChar then none
  else keywords.findSome? fun k =>
    (dropWord? k.toList cs).bind fun rest =>
      if atWordEnd rest then some (k.toList, rest) else none

def isNameStart (c : Char) : Bool := c.isAlpha || c = '_'

def isNameChar (c : Char) : Bool := c.isAlphanum || c = '_'

def name? : List Char → Option (List Char × List Char)
  | [] => none
  | c :: cs =>
    if isNameStart c then some (c :: cs.takeWhile isNameChar, cs.dropWhile isNameChar) else none

/-- The longest run of characters with the property, if there is one. -/
def run? (p : Char → Bool) (cs : List Char) : Option (List Char × List Char) :=
  if (cs.takeWhile p).isEmpty then none else some (cs.takeWhile p, cs.dropWhile p)

def one? (p : Char → Bool) : List Char → Option (List Char × List Char)
  | [] => none
  | c :: cs => if p c then some ([c], cs) else none

def isMark (c : Char) : Bool :=
  ['\x7b', '\x7d', '[', ']', '(', ')', '.', ',', ';', '!'].contains c

def isOperator (c : Char) : Bool :=
  ['+', '-', '*', '/', '>', '<', '=', '^'].contains c

/-- An arrow, or an operator of one character. -/
def operator? (cs : List Char) : Option (List Char × List Char) :=
  match dropWord? ['-', '>'] cs with
  | some rest => some (['-', '>'], rest)
  | none => one? isOperator cs

/-- Up to the closing quote, on the same line. -/
def closeNote? (quote : Char) : List Char → Option (List Char × List Char)
  | [] => none
  | c :: cs =>
    if c = quote then some ([c], cs)
    else if c = '\n' then none
    else (closeNote? quote cs).map fun (inside, rest) => (c :: inside, rest)

def note? : List Char → Option (List Char × List Char)
  | [] => none
  | c :: cs =>
    if c = '\x22' ∨ c = '\x27' then
      (closeNote? c cs).map fun (inside, rest) => (c :: inside, rest)
    else none

def comment? : List Char → Option (List Char × List Char)
  | [] => none
  | c :: cs =>
    if c = '#' then some (c :: cs.takeWhile (· ≠ '\n'), cs.dropWhile (· ≠ '\n')) else none

def Match.of (rule : Rule) (parts : List Char × List Char) : Match :=
  ⟨rule, parts.1, parts.2⟩

/-- The first rule that applies. -/
def next? (before : Option Char) (cs : List Char) : Option Match :=
  ((keyword? before cs).map (Match.of .keyword)) <|>
  ((name? cs).map (Match.of .name)) <|>
  ((run? isDigit cs).map (Match.of .numeral)) <|>
  ((one? isMark cs).map (Match.of .mark)) <|>
  ((operator? cs).map (Match.of .operator)) <|>
  ((run? (fun c => c = ' ' || c = '\t') cs).map (Match.of .blank)) <|>
  ((note? cs).map (Match.of .note)) <|>
  ((comment? cs).map (Match.of .comment)) <|>
  ((one? (· = '\n') cs).map (Match.of .newline))

/-- Blanks and comments leave no token. -/
def Match.token? (m : Match) : Option Token :=
  match m.rule with
  | .keyword => some (.word .keyword (String.ofList m.lexeme))
  | .name => some (.word .name (String.ofList m.lexeme))
  | .numeral => some (.numeral (numeralValue m.lexeme))
  | .mark => some (.word .mark (String.ofList m.lexeme))
  | .operator => some (.word .operator (String.ofList m.lexeme))
  | .note => some (.word .note (String.ofList m.lexeme))
  | .newline => some (.word .newline (String.ofList m.lexeme))
  | .blank | .comment => none

/-- A numeral may have this many digits, leading zeros included. -/
def maxDigits : Nat := 4300

def Match.isOverlong (m : Match) : Bool :=
  m.rule = .numeral && maxDigits < m.lexeme.length

/-- Why reading stopped. -/
inductive Ending
  | finished
  | unknown (c : Char)
  | overlong
  deriving DecidableEq, Repr

structure Reading where
  tokens : List Token
  consumed : Nat
  ending : Ending
  deriving DecidableEq, Repr

/-- Reads at most `fuel` lexemes; the length of the text is always enough. -/
def readFrom : Nat → Option Char → List Char → Reading
  | _, _, [] => ⟨[], 0, .finished⟩
  | 0, _, c :: _ => ⟨[], 0, .unknown c⟩
  | fuel + 1, before, c :: cs =>
    match next? before (c :: cs) with
    | none => ⟨[], 0, .unknown c⟩
    | some m =>
      if m.isOverlong then ⟨[], 0, .overlong⟩
      else
        let later := readFrom fuel m.lexeme.getLast? m.rest
        ⟨m.token?.toList ++ later.tokens, m.lexeme.length + later.consumed, later.ending⟩

def read (text : String) : Reading :=
  readFrom text.toList.length none text.toList

end PlotScript.Lexer
