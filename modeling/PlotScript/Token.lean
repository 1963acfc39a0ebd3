/-! Tokens of a script. A numeral carries its value and equals no text; every other token is
compared by its text, whatever its kind. -/

namespace PlotScript

inductive WordKind
  | keyword | name | mark | operator | note | newline
  deriving DecidableEq, Repr

inductive Token
  | numeral (value : Nat)
  | word (kind : WordKind) (text : String)
  deriving DecidableEq, Repr

namespace Token

def newline : Token := .word .newline "\n"

def text? : Token → Option String
  | .numeral _ => none
  | .word _ text => some text

/-- The token as it is written: a numeral in decimal without leading zeros. -/
def shown : Token → String
  | .numeral value => value.repr
  | .word _ text => text

def is (t : Token) (text : String) : Bool :=
  match t with
  | .numeral _ => false
  | .word _ own => own = text

def isOneOf (t : Token) (texts : List String) : Bool :=
  texts.any t.is

def isKind (t : Token) (kind : WordKind) : Bool :=
  match t with
  | .numeral _ => false
  | .word own _ => own = kind

def isNewline (t : Token) : Bool := t.isKind .newline

def isNumeral : Token → Bool
  | .numeral _ => true
  | .word _ _ => false

/-- The text of a name token. -/
def name? : Token → Option String
  | .word .name text => some text
  | _ => none

end Token
end PlotScript
