import Changelog.Text.Encoding
import Changelog.Text.Line
import Changelog.Text.Lowercase
import Changelog.Text.Quoted
import Changelog.Version.Bump
import Changelog.Markdown.Block
import Changelog.Markdown.Printer
import Changelog.Markdown.Draft
import Changelog.History.Range
import Changelog.Entry.Classify
import Changelog.Outline.Basic
import Changelog.Project.Hosting
import Changelog.Project.Manifest
import Changelog.Review.Run
import Changelog.Command.Run
import Changelog.Survey.Basic
import Changelog.Main
import Changelog.Proofs.Version.Order
import Changelog.Proofs.Version.Sorting
import Changelog.Proofs.Outline.Flatten
import Changelog.Proofs.Outline.Definitions
import Changelog.Proofs.Text.Lowercase
import Changelog.Proofs.Journal
import Changelog.Proofs.Outline.Assembly
import Changelog.Proofs.Review.Backfill
import Changelog.Proofs.Outline.Heading
import Changelog.Proofs.Outline.Lossless
import Changelog.Proofs.Review.Link
import Changelog.Proofs.Review.Fix
import Changelog.Proofs.Review.Lint
import Changelog.Proofs.Review.Reread
import Changelog.Proofs.Review.Converge
import Changelog.Proofs.Markdown.Reach
import Changelog.Proofs.Markdown.Standing
import Changelog.Proofs.Markdown.Reprint
import Changelog.Proofs.Markdown.HeadingLine
import Changelog.Proofs.Markdown.Rearranged
import Changelog.Proofs.Review.Written
import Changelog.Proofs.Outline.ReadBack
import Changelog.Proofs.Review.Again
import Changelog.Proofs.Outline.Nesting
import Changelog.Proofs.Review.Clean
import Changelog.Proofs.Review.Twice
import Changelog.Proofs.Markdown.Plain
import Changelog.Proofs.Review.Legible
import Changelog.Proofs.Version.Comparison
import Changelog.Proofs.Markdown.RoundTrip
import Changelog.Proofs.Entry.Listing
import Changelog.Proofs.Tidy.Review
import Changelog.Proofs.Review.Quiet
import Changelog.Proofs.Version.Neighbours
import Changelog.Proofs.Review.Report
import Changelog.Proofs.Review.Ordered
import Changelog.Proofs.Markdown.Reference
import Changelog.Proofs.Review.Agreement
import Changelog.Proofs.Review.Linked
import Changelog.Proofs.History.Log
import Changelog.Proofs.History.Merge
import Changelog.Proofs.History.Range
import Changelog.Proofs.Text.Parts
import Changelog.Proofs.Version.Candidate
import Changelog.Proofs.Markdown.Bounds
import Changelog.Proofs.Review.Candidate
import Changelog.Proofs.Review.Complete
import Changelog.Proofs.Version.Reading
import Changelog.Proofs.Version.Bump
import Changelog.Proofs.Outline.Unreleased
import Changelog.Proofs.Review.Addition
import Changelog.Proofs.Review.Explicit
import Changelog.Proofs.Outline.LinkedHeading
import Changelog.Proofs.Review.OwnLink
import Changelog.Proofs.Review.Asked
import Changelog.Proofs.Text.Source
import Changelog.Proofs.Review.Untouched
import Changelog.Proofs.Markdown.DefinitionAgain
import Changelog.Proofs.Markdown.CodeSpan
import Changelog.Proofs.Markdown.Constructs
import Changelog.Proofs.Markdown.Rewritten
import Changelog.Proofs.Markdown.HeadingAgain
import Changelog.Proofs.Markdown.Settled
import Changelog.Proofs.Markdown.Locality
import Changelog.Proofs.Markdown.Interruption
import Changelog.Proofs.Markdown.Columns
import Changelog.Proofs.Outline.Levels
import Changelog.Proofs.Outline.Extent
import Changelog.Proofs.Outline.Opening
import Changelog.Proofs.Outline.Depths
import Changelog.Proofs.Version.Places
import Changelog.Proofs.Version.Chain
import Changelog.Proofs.History.Chain
import Changelog.Proofs.History.Agreement
import Changelog.Proofs.History.UpperEnd
import Changelog.Proofs.Version.Build
import Changelog.Proofs.History.Format
import Changelog.Proofs.Project.NormalForm
import Changelog.Proofs.Review.Filling
import Changelog.Proofs.Version.Tags
import Changelog.Proofs.Project.Manifest
import Changelog.Proofs.Entry.Keys
import Changelog.Proofs.Entry.Leftover
import Changelog.Proofs.Version.Normalized
import Changelog.Proofs.Survey.Tally
