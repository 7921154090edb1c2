import EnumStrings.CommandLine
import EnumStrings.Conversion
import EnumStrings.Diagnostic
import EnumStrings.Enumeration
import EnumStrings.Layout
import EnumStrings.Main
import EnumStrings.Name
import EnumStrings.Pattern
import EnumStrings.Proofs.Accounting
import EnumStrings.Proofs.Commands
import EnumStrings.Proofs.Comments
import EnumStrings.Proofs.CommonBeginning
import EnumStrings.Proofs.Composition
import EnumStrings.Proofs.Cuts
import EnumStrings.Proofs.DeclarationLine
import EnumStrings.Proofs.DeclarationPattern
import EnumStrings.Proofs.DeclarationReading
import EnumStrings.Proofs.DeclarationShape
import EnumStrings.Proofs.EnumeratorPattern
import EnumStrings.Proofs.EnumeratorReading
import EnumStrings.Proofs.FunctionNames
import EnumStrings.Proofs.Gaps
import EnumStrings.Proofs.Grammar
import EnumStrings.Proofs.Grouping
import EnumStrings.Proofs.Injectivity
import EnumStrings.Proofs.LineLayout
import EnumStrings.Proofs.Literals
import EnumStrings.Proofs.Members
import EnumStrings.Proofs.Padding
import EnumStrings.Proofs.Places
import EnumStrings.Proofs.Qualifiers
import EnumStrings.Proofs.RoundTrip
import EnumStrings.Proofs.Scanning
import EnumStrings.Proofs.Sections
import EnumStrings.Proofs.Shape
import EnumStrings.Proofs.Shifting
import EnumStrings.Proofs.SpanOrder
import EnumStrings.Proofs.StartedLines
import EnumStrings.Proofs.Strokes
import EnumStrings.Proofs.Surface
import EnumStrings.Proofs.Tiling
import EnumStrings.Proofs.TrimmedLines
import EnumStrings.Proofs.Writing
import EnumStrings.Run
import EnumStrings.Source
import EnumStrings.Terminal
import EnumStrings.Text
