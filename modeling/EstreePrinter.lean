import EstreePrinter.Draft
import EstreePrinter.Main
import EstreePrinter.Proofs.Command.Flattening
import EstreePrinter.Proofs.Command.Nesting
import EstreePrinter.Proofs.Linearizer.Written
import EstreePrinter.Proofs.Linearizer.Success
import EstreePrinter.Proofs.Linearizer.Continued
import EstreePrinter.Proofs.Linearizer.LineFeeds
import EstreePrinter.Proofs.Render.Steps
import EstreePrinter.Proofs.Json.Nodes
import EstreePrinter.Proofs.Render.Correspondence
import EstreePrinter.Proofs.Render.Invariant
import EstreePrinter.Proofs.Rules.Expression
import EstreePrinter.Proofs.Rules.Statement
import EstreePrinter.Proofs.Rules.Type
import EstreePrinter.Proofs.Render.Tree
import EstreePrinter.Proofs.Render.Layout
import EstreePrinter.Proofs.Render.Emitted
import EstreePrinter.Proofs.Render.Settled
import EstreePrinter.Proofs.Printer.Finished
import EstreePrinter.Proofs.Render.Ink
import EstreePrinter.Proofs.Printer.Whitespace
import EstreePrinter.Proofs.Render.Widening
import EstreePrinter.Proofs.Printer.Widening
import EstreePrinter.Proofs.Grammar.Token
import EstreePrinter.Proofs.Grammar.Expression
import EstreePrinter.Proofs.Grammar.Phrase
import EstreePrinter.Proofs.Grammar.Strength
import EstreePrinter.Proofs.Grammar.Description
import EstreePrinter.Proofs.Grammar.Spelling
import EstreePrinter.Proofs.Grammar.Printed
import EstreePrinter.Proofs.SourceMap.Decoder
import EstreePrinter.Proofs.Printer.Mapped
import EstreePrinter.Proofs.Printer.Composition
import EstreePrinter.Proofs.Estree.Form
import EstreePrinter.Proofs.Estree.Reading
import EstreePrinter.Proofs.Printer.Independence
import EstreePrinter.Proofs.Estree.Answers
import EstreePrinter.Proofs.Estree.Ends
import EstreePrinter.Proofs.Estree.Expression
import EstreePrinter.Proofs.Estree.Statement
import EstreePrinter.Proofs.Printer.Total
import EstreePrinter.Proofs.Draft.Building
import EstreePrinter.Proofs.Draft.Growth
import EstreePrinter.Proofs.Draft.Simulation
import EstreePrinter.Proofs.Draft.Lists
import EstreePrinter.Proofs.Command.Lines
import EstreePrinter.Proofs.Render.Lines
import EstreePrinter.Proofs.Render.Noted
import EstreePrinter.Proofs.Render.Accounts
import EstreePrinter.Proofs.Printer.Legible
import EstreePrinter.Proofs.Printer.Conserved
import EstreePrinter.Proofs.Command.Observed
import EstreePrinter.Proofs.Words.Basic
import EstreePrinter.Proofs.Words.Exchange
import EstreePrinter.Proofs.Printer.Spoken
import EstreePrinter.Proofs.Render.Opening
import EstreePrinter.Proofs.Rules.Opening
import EstreePrinter.Proofs.Estree.Opening
import EstreePrinter.Proofs.Printer.Opening
import EstreePrinter.Proofs.Printer.Leaving
import EstreePrinter.Proofs.Grammar.Passage
import EstreePrinter.Proofs.Grammar.Access
import EstreePrinter.Proofs.Grammar.AccessTree
import EstreePrinter.Proofs.Grammar.AccessPrinted
import EstreePrinter.Proofs.Grammar.TypeExpression
import EstreePrinter.Proofs.Grammar.TypeNode
import EstreePrinter.Proofs.Grammar.TypePrinted
import EstreePrinter.Proofs.Grammar.Typed
import EstreePrinter.Proofs.Grammar.TypedPrinted
import EstreePrinter.Proofs.Made.Type
import EstreePrinter.Proofs.Render.Truthful
import EstreePrinter.Proofs.Printer.Truthful
import EstreePrinter.Proofs.Printer.LoopHead
import EstreePrinter.Proofs.Grammar.Statement
import EstreePrinter.Proofs.Grammar.Glyph
import EstreePrinter.Proofs.Grammar.StatementPrinted
import EstreePrinter.Proofs.Grammar.Minimal
import EstreePrinter.Proofs.Grammar.Listing
import EstreePrinter.Proofs.Printer.Listed
import EstreePrinter.Proofs.Render.Following
import EstreePrinter.Proofs.Printer.LastArgument
import EstreePrinter.Proofs.Grouping.Expression
import EstreePrinter.Proofs.Command.Apart
import EstreePrinter.Proofs.Grouping.Statement
import EstreePrinter.Proofs.Grouping.Tree
import EstreePrinter.Proofs.Printer.Apart
import EstreePrinter.Proofs.Printer.ArrowHead
import EstreePrinter.Proofs.Text.StringLiteral
import EstreePrinter.Proofs.Text.Lines
import EstreePrinter.Proofs.CommandLine.Delivery
import EstreePrinter.Proofs.CommandLine.Resolution
import EstreePrinter.Proofs.CommandLine.Override
import EstreePrinter.Proofs.SourceMap.Canonical
import EstreePrinter.Proofs.Json.RoundTrip
import EstreePrinter.Proofs.SourceMap.Address
import EstreePrinter.Proofs.Draft.Walking
