import ModuleScan.Log
import ModuleScan.Files.Tree
import ModuleScan.CommandLine.Run
import ModuleScan.Main
import ModuleScan.Proofs.Safety
import ModuleScan.Proofs.Keyword
import ModuleScan.Proofs.References
import ModuleScan.Proofs.Printing
import ModuleScan.Proofs.Pairing
import ModuleScan.Proofs.Faithful
import ModuleScan.Proofs.Restart
import ModuleScan.Proofs.PartialKeyword
import ModuleScan.Proofs.LeadingComment
import ModuleScan.Proofs.CommentSpacing
import ModuleScan.Proofs.Position
import ModuleScan.Proofs.Termination
import ModuleScan.Proofs.Diagnostics
import ModuleScan.Proofs.Silent
import ModuleScan.Proofs.LiteralLine
import ModuleScan.Proofs.Logging
import ModuleScan.Proofs.Reordering
import ModuleScan.Proofs.JsonReport
import ModuleScan.Proofs.Fragments
import ModuleScan.Proofs.StatementStart
import ModuleScan.Proofs.PlainLines
import ModuleScan.Proofs.Sources
import ModuleScan.Proofs.WholeOrNothing
import ModuleScan.Proofs.CallGrammar
import ModuleScan.Proofs.ReexportGrammar
import ModuleScan.Proofs.TypeWords
import ModuleScan.Proofs.Clauses
import ModuleScan.Proofs.ImportVerdict
import ModuleScan.Proofs.UnclosedBrace
import ModuleScan.Proofs.SkippedNames
import ModuleScan.Proofs.TypeBraces
import ModuleScan.Proofs.StringNames
import ModuleScan.Proofs.Rewinding
import ModuleScan.Proofs.FirstOccurrences
import ModuleScan.Proofs.ArgumentOrder
import ModuleScan.Proofs.Spellings
