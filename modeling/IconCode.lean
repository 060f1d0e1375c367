import IconCode.Generate
import IconCode.Drawing.Builder
import IconCode.Proofs.Accessor
import IconCode.Proofs.Figure.Drawn
import IconCode.Proofs.Generate
import IconCode.Proofs.Markup.Tree
import IconCode.Proofs.Outcome
import IconCode.Proofs.Paint.Fields
import IconCode.Proofs.Paint.Nearest
import IconCode.Proofs.Path.Arc
import IconCode.Proofs.Path.Concatenation
import IconCode.Proofs.Path.History
import IconCode.Proofs.Path.Repetition
import IconCode.Proofs.Reader.Inert
import IconCode.Proofs.Reader.Inheritance
import IconCode.Proofs.Reader.Source
import IconCode.Proofs.Reader.Precedence
import IconCode.Proofs.Reader.Spelling
import IconCode.Proofs.Paint.Composition
import IconCode.Proofs.Reader.Order
import IconCode.Proofs.Number.Literal
import IconCode.Proofs.Number.Listing
import IconCode.Proofs.Paint.Grammar
import IconCode.Proofs.Naming.Boundaries
import IconCode.Proofs.Naming.Identifier
import IconCode.Proofs.Naming.File
import IconCode.Proofs.Decimal.Value
import IconCode.Proofs.Demands
import IconCode.Proofs.Drawing.Closing
import IconCode.Proofs.Markup.Entity
import IconCode.Proofs.Reader.Naming
import IconCode.Proofs.Decimal.Binary
import IconCode.Proofs.Decimal.Numeral
import IconCode.Proofs.Header
import IconCode.Proofs.Number.Length
import IconCode.Proofs.Number.Longest
import IconCode.Proofs.Reader.Stack
import IconCode.Proofs.Path.Indexed
