/-! Replacement of every occurrence of a piece of text, from left to right and without
overlaps. -/

namespace PlotScript.Text

/-- Replaces `old` by `new`; the first `skip` characters belong to an occurrence that is
already replaced. -/
def substituteFrom (old new : List Char) : Nat → List Char → List Char
  | _, [] => []
  | skip + 1, _ :: rest => substituteFrom old new skip rest
  | 0, c :: rest =>
    if old.isPrefixOf (c :: rest) then new ++ substituteFrom old new (old.length - 1) rest
    else c :: substituteFrom old new 0 rest

def substitute (text old new : String) : String :=
  String.ofList (substituteFrom old.toList new.toList 0 text.toList)

end PlotScript.Text
