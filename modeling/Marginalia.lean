import Marginalia.Command
import Marginalia.Command.Arguments
import Marginalia.Diagnostic
import Marginalia.Document
import Marginalia.Document.Written
import Marginalia.Eval
import Marginalia.Fault
import Marginalia.Folder
import Marginalia.Limits
import Marginalia.Machine
import Marginalia.Main
import Marginalia.Page
import Marginalia.Pattern
import Marginalia.Pattern.Marked
import Marginalia.Pattern.Overlap
import Marginalia.Pattern.Spelling
import Marginalia.Position
import Marginalia.Program
import Marginalia.Program.Layout
import Marginalia.Program.Outline
import Marginalia.Program.Parse
import Marginalia.Request
import Marginalia.Request.Payload
import Marginalia.Source
import Marginalia.Store
import Marginalia.Store.Heap
import Marginalia.Store.Render
import Marginalia.Store.View
import Marginalia.Text.Binary64
import Marginalia.Text.Blank
import Marginalia.Text.Digit
import Marginalia.Text.Hex
import Marginalia.Text.Lines
import Marginalia.Text.Quoted
import Marginalia.Text.Unprintable
import Marginalia.Text.Utf8
import Marginalia.Token
import Marginalia.Token.Scan
import Marginalia.Proofs.Program.Moved
import Marginalia.Proofs.Reading.Places
import Marginalia.Proofs.Reading.Grammar
import Marginalia.Proofs.Reading.Sound
import Marginalia.Proofs.Reading.Complete
import Marginalia.Proofs.Layout.Signs
import Marginalia.Proofs.Layout.Spelled
import Marginalia.Proofs.Layout.RoundTrip
import Marginalia.Proofs.Pattern.Language
import Marginalia.Proofs.Pattern.Syntax
import Marginalia.Proofs.Pattern.Lockstep
import Marginalia.Proofs.Store.Assign
import Marginalia.Proofs.Reading.Derivation
import Marginalia.Proofs.Reading.Limit
import Marginalia.Proofs.Reading.Nearest
import Marginalia.Proofs.Reading.Callees
import Marginalia.Proofs.Scanning.Positions
import Marginalia.Proofs.Running.Echo
import Marginalia.Proofs.Running.Deeds
import Marginalia.Proofs.Store.Disjoint
import Marginalia.Proofs.Store.Layers
import Marginalia.Proofs.Store.Copies
import Marginalia.Proofs.Store.Loops
import Marginalia.Proofs.Layout.Tokens
import Marginalia.Proofs.Reading.Refusals
import Marginalia.Proofs.Running.Limits
import Marginalia.Proofs.Running.Alike
import Marginalia.Proofs.Running.Parallel
import Marginalia.Proofs.Running.Outcomes
import Marginalia.Proofs.Running.Bare
import Marginalia.Proofs.Scanning.Tiling
import Marginalia.Proofs.Scanning.Joined
import Marginalia.Proofs.Reading.Followed
import Marginalia.Proofs.Reading.Joined
import Marginalia.Proofs.Reading.Decided
import Marginalia.Proofs.Reading.Begins
import Marginalia.Proofs.Reading.Earliest
import Marginalia.Proofs.Scanning.Margins
import Marginalia.Proofs.Reading.Noted
import Marginalia.Proofs.Reading.Remarks
import Marginalia.Proofs.Reading.Unbroken
import Marginalia.Proofs.Running.Unbroken
import Marginalia.Proofs.Running.Reread
import Marginalia.Proofs.Store.Spellings
import Marginalia.Proofs.Running.Meets
import Marginalia.Proofs.Running.Names
import Marginalia.Proofs.Reading.Marks
import Marginalia.Proofs.Running.Faults
import Marginalia.Proofs.Reports.Located
import Marginalia.Proofs.Reports.Sections
import Marginalia.Proofs.Reports.Served
import Marginalia.Proofs.Scanning.Cuts
import Marginalia.Proofs.Scanning.Stops
import Marginalia.Proofs.Reading.Parts
import Marginalia.Proofs.Reading.Slices
import Marginalia.Proofs.Running.Scopes
import Marginalia.Proofs.Running.Returns
import Marginalia.Proofs.Store.Builtins
import Marginalia.Proofs.Running.Parameters
import Marginalia.Proofs.Program.Documents
import Marginalia.Proofs.Program.Outlines
import Marginalia.Proofs.Running.Moments
import Marginalia.Proofs.Running.Flat
