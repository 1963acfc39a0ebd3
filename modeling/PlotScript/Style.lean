/-! Terminal styles: the escape sequences that colour what is shown. -/

namespace PlotScript.Style

/-- The escape sequence with the given code. -/
def escape (code : String) : String :=
  "\x1b[" ++ code ++ "m"

def red : String := escape "0;31"
def green : String := escape "0;32"
def blue : String := escape "0;34"
def purple : String := escape "0;35"
def yellow : String := escape "1;33"

/-- Ends every style. -/
def plain : String := escape "0"

/-- All styles by name. -/
def all : List (String × String) := [
  ("BLACK", escape "0;30"), ("RED", red), ("GREEN", green), ("BROWN", escape "0;33"),
  ("BLUE", blue), ("PURPLE", purple), ("CYAN", escape "0;36"),
  ("LIGHT_GRAY", escape "0;37"), ("DARK_GRAY", escape "1;30"), ("LIGHT_RED", escape "1;31"),
  ("LIGHT_GREEN", escape "1;32"), ("YELLOW", yellow), ("LIGHT_BLUE", escape "1;34"),
  ("LIGHT_PURPLE", escape "1;35"), ("LIGHT_CYAN", escape "1;36"),
  ("LIGHT_WHITE", escape "1;37"), ("BOLD", escape "1"), ("FAINT", escape "2"),
  ("ITALIC", escape "3"), ("UNDERLINE", escape "4"), ("BLINK", escape "5"),
  ("NEGATIVE", escape "7"), ("CROSSED", escape "9"), ("END", plain)]

end PlotScript.Style
