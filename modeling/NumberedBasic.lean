import NumberedBasic.Expression.Exact
import NumberedBasic.Expression.Grammar
import NumberedBasic.Main
import NumberedBasic.Program.Renumbering
import NumberedBasic.Proofs.Expression.Limit
import NumberedBasic.Proofs.Expression.Stacks
import NumberedBasic.Proofs.Expression.Symbol
import NumberedBasic.Session.History
import NumberedBasic.Shell.Script
import NumberedBasic.Statement.Grammar
import NumberedBasic.Token.Spacing
import NumberedBasic.Proofs.Expression.Alternation
import NumberedBasic.Proofs.Expression.Completeness
import NumberedBasic.Proofs.Listing.Neighbours
import NumberedBasic.Proofs.Program.Step
import NumberedBasic.Proofs.Program.Counter
import NumberedBasic.Proofs.Session.Calls
import NumberedBasic.Proofs.Session.Resumption
import NumberedBasic.Program.Run
import NumberedBasic.Session.Dialogue
import NumberedBasic.Proofs.Program.Run
import NumberedBasic.Proofs.Text.Numerals
import NumberedBasic.Proofs.Session.Dialogue
import NumberedBasic.Shell.Readings
import NumberedBasic.Proofs.Session.Steadiness
import NumberedBasic.Proofs.Shell.Readings
import NumberedBasic.Proofs.Token.Units
import NumberedBasic.Expression.Writing
import NumberedBasic.Proofs.Expression.Leaves
import NumberedBasic.Proofs.Expression.Writing
import NumberedBasic.Proofs.Statement.Grammar
import NumberedBasic.Proofs.SourceLine.Writing
import NumberedBasic.Listing.Source
import NumberedBasic.Proofs.Listing.Reloading
import NumberedBasic.Expression.Merging
import NumberedBasic.Proofs.Expression.Merging
import NumberedBasic.Proofs.Command.Faults
import NumberedBasic.Proofs.Session.Events
import NumberedBasic.Proofs.Session.Failures
import NumberedBasic.Proofs.Session.Interruption
import NumberedBasic.Proofs.Session.Faults
import NumberedBasic.Program.Effect
import NumberedBasic.Program.Names
import NumberedBasic.Proofs.Program.Effect
import NumberedBasic.Proofs.Program.Renumbering
import NumberedBasic.Proofs.Program.Detour
import NumberedBasic.Proofs.Session.Detour
import NumberedBasic.SourceFile.Acceptance
import NumberedBasic.Proofs.Shell.Loading
import NumberedBasic.Proofs.Expression.Exact
import NumberedBasic.Proofs.Session.Slicing
import NumberedBasic.Program.Pass
import NumberedBasic.Proofs.Program.Pass
import NumberedBasic.Proofs.Session.Termination
import NumberedBasic.Proofs.Token.Spacing
import NumberedBasic.Expression.Inventory
import NumberedBasic.Proofs.Expression.Inventory
import NumberedBasic.Program.Editing
import NumberedBasic.Proofs.Listing.Storing
import NumberedBasic.Proofs.Program.Editing
import NumberedBasic.Proofs.Session.NumberedLines
import NumberedBasic.Proofs.Session.Answers
import NumberedBasic.Proofs.Statement.TreeText
import NumberedBasic.Proofs.Program.TreeText
import NumberedBasic.Proofs.Program.Names
import NumberedBasic.SourceFile.LineEnds
import NumberedBasic.Proofs.Shell.LineEnds
import NumberedBasic.Listing.Walk
import NumberedBasic.Proofs.Listing.Walk
import NumberedBasic.Text.Decimal
import NumberedBasic.Proofs.Text.Decimal
