import AdventureScript.Proofs.Expression.Choice
import AdventureScript.Proofs.Expression.Element
import AdventureScript.Proofs.Expression.Text
import AdventureScript.Proofs.Grouping.Flat
import AdventureScript.Proofs.Program.Export
import AdventureScript.Proofs.Program.Lines
import AdventureScript.Proofs.Program.Literal
import AdventureScript.Proofs.Program.Reference
import AdventureScript.Proofs.Program.Storage
import AdventureScript.Proofs.Program.Struct
import AdventureScript.Proofs.Program.Table
import AdventureScript.Proofs.Program.Types
import AdventureScript.Proofs.Safety.Program
import AdventureScript.Proofs.Scan.Cover
import AdventureScript.Proofs.Scan.Lookahead
import AdventureScript.Proofs.Scan.Spelling
import AdventureScript.Proofs.Scope.Blocks
import AdventureScript.Proofs.Script.Listing
import AdventureScript.Proofs.Statement.Dispatch
import AdventureScript.Proofs.Statement.Release
import AdventureScript.Proofs.Statement.Store
