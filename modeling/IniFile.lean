import IniFile.Document.Reader
import IniFile.Document.Step
import IniFile.Document.Counters
import IniFile.Typed.Read
import IniFile.Typed.Write
import IniFile.Proofs.Lines
import IniFile.Proofs.Trim
import IniFile.Proofs.Quoting
import IniFile.Proofs.FreshLines
import IniFile.Proofs.Roster
import IniFile.Proofs.Sheet
import IniFile.Proofs.Identity
import IniFile.Proofs.Soundness
import IniFile.Proofs.Outcomes
import IniFile.Proofs.Simulation
import IniFile.Proofs.Drafts
import IniFile.Proofs.Rendering
import IniFile.Proofs.Places
import IniFile.Proofs.Invariants
import IniFile.Proofs.Kept
import IniFile.Proofs.Verbatim
import IniFile.Proofs.Readback
import IniFile.Proofs.Written
import IniFile.Proofs.Mark
import IniFile.Proofs.Histories
import IniFile.Proofs.Canonical
import IniFile.Proofs.Reparse
import IniFile.Proofs.Untouched
import IniFile.Proofs.Modes
import IniFile.Proofs.Skipped
import IniFile.Proofs.Trivia
import IniFile.Proofs.Grouping
import IniFile.Proofs.Policies
import IniFile.Proofs.Conservation
import IniFile.Proofs.Lifetimes
import IniFile.Proofs.Removals
import IniFile.Proofs.Counters
import IniFile.Proofs.Plans
import IniFile.Proofs.TreeText
import IniFile.Proofs.Digits
import IniFile.Proofs.Floats
import IniFile.Proofs.ConfigValues
import IniFile.Proofs.TypedRoundTrip
import IniFile.Proofs.LineGrammar
import IniFile.Proofs.LeadingMark
import IniFile.Proofs.NormalForm
import IniFile.Proofs.ListModel
import IniFile.Proofs.ListOrder
import IniFile.Proofs.ListSimulation
import IniFile.Proofs.Renewal
import IniFile.Proofs.Restoring
import IniFile.Proofs.Terminators
import IniFile.Proofs.TreeShapes
import IniFile.Proofs.IntegerLiterals
import IniFile.Proofs.IntegerWidths
import IniFile.Proofs.Inference
import IniFile.Proofs.SelfDescribing
import IniFile.Proofs.QuotedLines
import IniFile.Proofs.FloatLiterals
import IniFile.Proofs.FloatScanner
