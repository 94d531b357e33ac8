import HtmlLint.Text.Bytes
import HtmlLint.Text.Split
import HtmlLint.Text.Characters
import HtmlLint.Text.Quoted
import HtmlLint.Span
import HtmlLint.Location
import HtmlLint.Notice
import HtmlLint.Warnings
import HtmlLint.Token.Basic
import HtmlLint.Token.Opening
import HtmlLint.Token.Tag
import HtmlLint.Token.Scanner
import HtmlLint.Json.Reader
import HtmlLint.Event.Subscriptions
import HtmlLint.RuleSet.Reading
import HtmlLint.Diagnostic
import HtmlLint.Rule.Registry
import HtmlLint.Lint
import HtmlLint.Main
import HtmlLint.Proofs.Canonical
import HtmlLint.Proofs.Tiling
import HtmlLint.Proofs.Cuts
import HtmlLint.Proofs.Rendering
import HtmlLint.Proofs.EventPlaces
import HtmlLint.Proofs.RuleRuns
import HtmlLint.Proofs.Balance
import HtmlLint.Proofs.Histories
import HtmlLint.Proofs.InlineComment
import HtmlLint.Proofs.Isolation
import HtmlLint.Proofs.Recoding.Text
import HtmlLint.Proofs.Recoding.Tags
import HtmlLint.Proofs.Recoding.Tokens
import HtmlLint.Proofs.Recoding.Events
import HtmlLint.Proofs.LineEndings.Rules
import HtmlLint.Proofs.LineEndings.Lint
import HtmlLint.Proofs.Refusals
import HtmlLint.Proofs.Shifting
import HtmlLint.Proofs.OpenTags
import HtmlLint.Proofs.TagParts
import HtmlLint.Proofs.Standalone
import HtmlLint.Proofs.Lines
import HtmlLint.Proofs.Indentation
import HtmlLint.Proofs.MixedLines
import HtmlLint.Proofs.LocationOrder
import HtmlLint.Proofs.ReportPlaces
import HtmlLint.Proofs.AttributeReports
import HtmlLint.Proofs.Bytes.Utf8
import HtmlLint.Proofs.Bytes.Outlines
import HtmlLint.Proofs.Bytes.Agreement
import HtmlLint.Proofs.Bytes.Slices
import HtmlLint.Proofs.RuleSets
import HtmlLint.Proofs.RuleLists
import HtmlLint.Proofs.Selection
import HtmlLint.Proofs.PrintedReports
import HtmlLint.Proofs.Outcomes
import HtmlLint.Proofs.LetterCase
import HtmlLint.Proofs.PairingStack
import HtmlLint.Proofs.PairingAccount
import HtmlLint.Proofs.TagForms
import HtmlLint.Proofs.OpenQuotes
import HtmlLint.Proofs.RawText
import HtmlLint.Proofs.DoctypeFirst
import HtmlLint.Proofs.Tracking
import HtmlLint.Proofs.Nesting
import HtmlLint.Proofs.TextRuns
import HtmlLint.Proofs.Registration
import HtmlLint.Proofs.GivenOnce
import HtmlLint.Proofs.Lookahead
import HtmlLint.Proofs.JsonReading
import HtmlLint.Proofs.JsonText
import HtmlLint.Proofs.JsonRuleSets
