import PlotScript.Main
import PlotScript.Proofs.Accepting
import PlotScript.Proofs.Backtracking
import PlotScript.Proofs.Comparisons
import PlotScript.Proofs.Completion
import PlotScript.Proofs.FlatProgram
import PlotScript.Proofs.Folders
import PlotScript.Proofs.Forgetting
import PlotScript.Proofs.Halting
import PlotScript.Proofs.Importing
import PlotScript.Proofs.LineByLine
import PlotScript.Proofs.LineNumbers
import PlotScript.Proofs.MacroCall
import PlotScript.Proofs.References
import PlotScript.Proofs.Unread
import PlotScript.Proofs.EntryIds
import PlotScript.Workload
import PlotScript.Proofs.Chains
import PlotScript.Proofs.LeftSides
import PlotScript.Proofs.ObjectMacros
import PlotScript.Proofs.FunctionDefinition
import PlotScript.Proofs.Namespaces
import PlotScript.Proofs.Lookups
import PlotScript.Proofs.MemberAccess
import PlotScript.Proofs.Confinement
import PlotScript.Proofs.ClosingBraces
import PlotScript.Proofs.Comprehensions
