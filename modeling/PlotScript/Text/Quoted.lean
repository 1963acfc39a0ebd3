import PlotScript.Text.Printable

/-! Two written forms of a text: between quotes of either kind for people, and between double
quotes in plain ASCII for documents. -/

namespace PlotScript.Text

/-- The lower `width` hexadecimal digits of `n`. -/
def hexDigits (width n : Nat) : List Char :=
  (List.range width).reverse.map fun i => Nat.digitChar (n >>> (4 * i) % 16)

/-- A hidden character as an escape of two, four or eight hexadecimal digits. -/
def hexEscape (c : Char) : List Char :=
  if c.toNat < 0x100 then ['\\', 'x'] ++ hexDigits 2 c.toNat
  else if c.toNat < 0x10000 then ['\\', 'u'] ++ hexDigits 4 c.toNat
  else ['\\', 'U'] ++ hexDigits 8 c.toNat

def shownChar (quote c : Char) : List Char :=
  if c = quote ∨ c = '\\' then ['\\', c]
  else if c = '\n' then ['\\', 'n']
  else if c = '\r' then ['\\', 'r']
  else if c = '\t' then ['\\', 't']
  else if isPrintable c then [c]
  else hexEscape c

/-- Single quotes, or double ones around a text that holds a single quote and no double one. -/
def quoteFor (cs : List Char) : Char :=
  if cs.contains '\x27' && !cs.contains '\x22' then '\x22' else '\x27'

def quoted (s : String) : String :=
  let quote := quoteFor s.toList
  String.ofList (quote :: s.toList.flatMap (shownChar quote) ++ [quote])

/-- An escape of four hexadecimal digits, or two of them beyond the first 65536 code points. -/
def unitEscape (c : Char) : List Char :=
  if c.toNat < 0x10000 then ['\\', 'u'] ++ hexDigits 4 c.toNat
  else
    let offset := c.toNat - 0x10000
    ['\\', 'u'] ++ hexDigits 4 (0xd800 + offset / 0x400) ++
      (['\\', 'u'] ++ hexDigits 4 (0xdc00 + offset % 0x400))

def documentChar (c : Char) : List Char :=
  if c = '\x22' ∨ c = '\\' then ['\\', c]
  else if c = '\n' then ['\\', 'n']
  else if c = '\r' then ['\\', 'r']
  else if c = '\t' then ['\\', 't']
  else if c = '\x08' then ['\\', 'b']
  else if c = '\x0c' then ['\\', 'f']
  else if 0x20 ≤ c.toNat ∧ c.toNat < 0x7f then [c]
  else unitEscape c

def documentQuoted (s : String) : String :=
  String.ofList ('\x22' :: s.toList.flatMap documentChar ++ ['\x22'])

end PlotScript.Text
