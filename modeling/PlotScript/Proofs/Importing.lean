import PlotScript.Proofs.Cursor
import PlotScript.Proofs.References
import PlotScript.Proofs.Statements

/-! Imports. A module is put in as a namespace of its name, but not where its import stands: the
cursor first goes over the newline behind the name and over two tokens more, and what stands
there is never read. -/

namespace PlotScript
open Compile Grammar PlotScript.Tree

section statement
variable {c : Compiler} {down : Descent} {i : Nat} {before rest : List Token} {n : Name}

end statement

end PlotScript
