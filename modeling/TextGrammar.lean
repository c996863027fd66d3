import TextGrammar.Analysis
import TextGrammar.Batch
import TextGrammar.CommandLine.Arguments
import TextGrammar.CommandLine.Book
import TextGrammar.CommandLine.Errand
import TextGrammar.CommandLine.Program
import TextGrammar.CommandLine.Setting
import TextGrammar.CommandLine.Usage
import TextGrammar.CommandLine.Word
import TextGrammar.Context
import TextGrammar.Engine
import TextGrammar.Evaluation
import TextGrammar.Event
import TextGrammar.Event.Reading
import TextGrammar.Extension
import TextGrammar.Fault
import TextGrammar.Json.Number
import TextGrammar.Json.Reading
import TextGrammar.Json.Text
import TextGrammar.Json.Writing
import TextGrammar.Lexicon
import TextGrammar.Main
import TextGrammar.Markup.Descent
import TextGrammar.Markup.Grammar
import TextGrammar.Markup.Nesting
import TextGrammar.Markup.Node
import TextGrammar.Markup.NormalForm
import TextGrammar.Markup.Reading
import TextGrammar.Markup.Token
import TextGrammar.Markup.Writing
import TextGrammar.Modifier.Base
import TextGrammar.Modifier.English
import TextGrammar.Notice
import TextGrammar.Number.Binary64
import TextGrammar.Number.Decimal
import TextGrammar.Number.Power
import TextGrammar.Origin
import TextGrammar.Proofs.Analysis.Findings
import TextGrammar.Proofs.Analysis.SelfRecursion
import TextGrammar.Proofs.Analysis.UnknownReference
import TextGrammar.Proofs.CommandLine.Failures
import TextGrammar.Proofs.CommandLine.Runs
import TextGrammar.Proofs.CommandLine.Totals
import TextGrammar.Proofs.Engine.Abreast
import TextGrammar.Proofs.Engine.Balance
import TextGrammar.Proofs.Engine.Batch
import TextGrammar.Proofs.Engine.Certainty
import TextGrammar.Proofs.Engine.Dropping
import TextGrammar.Proofs.Engine.Policies
import TextGrammar.Proofs.Engine.Scope
import TextGrammar.Proofs.Engine.Service
import TextGrammar.Proofs.Engine.Tally
import TextGrammar.Proofs.Engine.Tracing
import TextGrammar.Proofs.Engine.Verbatim
import TextGrammar.Proofs.Evaluation.Composition
import TextGrammar.Proofs.Evaluation.Confined
import TextGrammar.Proofs.Evaluation.Contract
import TextGrammar.Proofs.Evaluation.Depth
import TextGrammar.Proofs.Evaluation.Detached
import TextGrammar.Proofs.Evaluation.Extent
import TextGrammar.Proofs.Evaluation.Lockstep
import TextGrammar.Proofs.Evaluation.Moments
import TextGrammar.Proofs.Evaluation.Resolution
import TextGrammar.Proofs.Evaluation.Scoping
import TextGrammar.Proofs.Evaluation.Steady
import TextGrammar.Proofs.Evaluation.Widening
import TextGrammar.Proofs.Event.PostOrder
import TextGrammar.Proofs.Event.Trace
import TextGrammar.Proofs.Json.Names
import TextGrammar.Proofs.Json.Record
import TextGrammar.Proofs.Json.Text
import TextGrammar.Proofs.Markup.Acceptance
import TextGrammar.Proofs.Markup.Cutting
import TextGrammar.Proofs.Markup.Joining
import TextGrammar.Proofs.Markup.Literal
import TextGrammar.Proofs.Markup.Normality
import TextGrammar.Proofs.Markup.Places
import TextGrammar.Proofs.Markup.RoundTrip
import TextGrammar.Proofs.Markup.Spelling
import TextGrammar.Proofs.Markup.Steps
import TextGrammar.Proofs.Markup.Weights
import TextGrammar.Proofs.Registry.Bisection
import TextGrammar.Proofs.Registry.Candidates
import TextGrammar.Proofs.Registry.Fairness
import TextGrammar.Proofs.Registry.Invariant
import TextGrammar.Proofs.Registry.LastDefinition
import TextGrammar.Proofs.Registry.Registration
import TextGrammar.Proofs.Registry.Reseeding
import TextGrammar.Proofs.Registry.RuleNames
import TextGrammar.Proofs.Registry.Shares
import TextGrammar.Proofs.Registry.SideBySide
import TextGrammar.Proofs.Registry.Warnings
import TextGrammar.Proofs.Tag.Unfolding
import TextGrammar.Proofs.Text.Pairs
import TextGrammar.Random.Digest
import TextGrammar.Random.Seed
import TextGrammar.Random.Source
import TextGrammar.Random.Twister
import TextGrammar.Rule
import TextGrammar.Rule.Definition
import TextGrammar.Selector
import TextGrammar.Selector.Pick
import TextGrammar.Selector.Shuffled
import TextGrammar.Selector.Weighted
import TextGrammar.Session
import TextGrammar.Summary
import TextGrammar.Tag.Environment
import TextGrammar.Tag.Store
import TextGrammar.Text.Basic
import TextGrammar.Text.Blank
import TextGrammar.Text.Case
import TextGrammar.Text.CaseTable
import TextGrammar.Text.CodePoint
import TextGrammar.Text.Digit
import TextGrammar.Text.Lines
import TextGrammar.Text.Numeral
import TextGrammar.Text.Pairs
import TextGrammar.Text.Printable
import TextGrammar.Text.Quoted
import TextGrammar.Text.Utf8
import TextGrammar.Value
