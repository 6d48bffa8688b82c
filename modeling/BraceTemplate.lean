import BraceTemplate.CommandLine.Run
import BraceTemplate.Main
import BraceTemplate.Session
import BraceTemplate.Proofs.Program.Reading
import BraceTemplate.Proofs.Program.Linking
import BraceTemplate.Proofs.Program.Linked
import BraceTemplate.Proofs.Program.Exact
import BraceTemplate.Proofs.Render.Structured
import BraceTemplate.Proofs.Render.Refinement
import BraceTemplate.Proofs.Computation
import BraceTemplate.Proofs.Compile.Walking
import BraceTemplate.Proofs.Compile.Steps
import BraceTemplate.Proofs.Compile.Changes
import BraceTemplate.Proofs.Compile.Paths
import BraceTemplate.Proofs.Compile.Modes
import BraceTemplate.Proofs.Compile.Agreement
import BraceTemplate.Proofs.Compile.Nesting
import BraceTemplate.Proofs.Compile.Tags
import BraceTemplate.Proofs.Compile.Closing
import BraceTemplate.Proofs.Render.Logging
import BraceTemplate.Proofs.Render.Confinement
import BraceTemplate.Proofs.Program.Stretches
import BraceTemplate.Proofs.Compile.Depths
import BraceTemplate.Proofs.Render.Sections
import BraceTemplate.Proofs.Render.Machine
import BraceTemplate.Proofs.Render.Halting
import BraceTemplate.Proofs.Source.Formation
import BraceTemplate.Proofs.Source.Levels
import BraceTemplate.Proofs.Source.Piece
import BraceTemplate.Proofs.Source.Plain
import BraceTemplate.Proofs.Source.Lexing
import BraceTemplate.Proofs.Source.Parsing
import BraceTemplate.Proofs.Source.Printed
import BraceTemplate.Proofs.Source.Directives
import BraceTemplate.Proofs.Source.Cutting
import BraceTemplate.Proofs.Source.Slices
import BraceTemplate.Proofs.Source.Scanning
import BraceTemplate.Proofs.Source.Nodes
import BraceTemplate.Proofs.Source.Room
import BraceTemplate.Proofs.Source.Inner
import BraceTemplate.Proofs.Source.Nested
import BraceTemplate.Proofs.Source.RoundTrip
import BraceTemplate.Proofs.Source.Balance
import BraceTemplate.Proofs.Markup.Reading
import BraceTemplate.Proofs.Markup.Extraction
import BraceTemplate.Proofs.Source.PhraseReading
import BraceTemplate.Proofs.Loading.Siblings
import BraceTemplate.Proofs.Loading.Cache
import BraceTemplate.Proofs.Loading.Sessions
import BraceTemplate.Proofs.Loading.Relative
import BraceTemplate.Proofs.Context.Isolation
import BraceTemplate.Proofs.Context.Globals
import BraceTemplate.Proofs.Render.Writes
import BraceTemplate.Proofs.Context.Layers
import BraceTemplate.Proofs.Render.Spreading
import BraceTemplate.Proofs.Render.Evaluation
import BraceTemplate.Proofs.Render.Views
import BraceTemplate.Proofs.Render.ActiveLayer
import BraceTemplate.Proofs.Render.Hoisting
import BraceTemplate.Proofs.Render.Strictness
import BraceTemplate.Proofs.Render.Limits
import BraceTemplate.Proofs.Render.Including
import BraceTemplate.Proofs.Decimal.Rounding
import BraceTemplate.Proofs.Decimal.Integers
import BraceTemplate.Proofs.Decimal.Magnitude
import BraceTemplate.Proofs.Decimal.Ordering
import BraceTemplate.Proofs.Value.Arithmetic
import BraceTemplate.Proofs.Value.Sound
import BraceTemplate.Proofs.Value.Comparison
import BraceTemplate.Proofs.Value.ComparisonOperators
import BraceTemplate.Proofs.Value.Access
import BraceTemplate.Proofs.Value.Writing
import BraceTemplate.Proofs.Render.Assignment
import BraceTemplate.Proofs.Render.Series
import BraceTemplate.Proofs.Render.Counting
import BraceTemplate.Proofs.Render.Iterating
import BraceTemplate.Proofs.Value.Refusal
import BraceTemplate.Proofs.Render.Atomicity
import BraceTemplate.Proofs.Coupling
import BraceTemplate.Proofs.Markup.Seams
import BraceTemplate.Proofs.Markup.Comments
import BraceTemplate.Proofs.Markup.Progress
import BraceTemplate.Proofs.Markup.Positions
import BraceTemplate.Proofs.Program.Joining
import BraceTemplate.Proofs.Compile.Continuing
import BraceTemplate.Proofs.Compile.Joining
import BraceTemplate.Proofs.Render.Escaping
import BraceTemplate.Proofs.Render.Failures
