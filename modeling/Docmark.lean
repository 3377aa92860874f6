import Docmark.Main
import Docmark.Proofs.Container.Item
import Docmark.Proofs.Container.Quote
import Docmark.Proofs.FinalFeed.Markup
import Docmark.Proofs.Html.Render
import Docmark.Proofs.Inclusion.Diagnostics
import Docmark.Proofs.Inclusion.Expansion
import Docmark.Proofs.Inclusion.HeadingIds
import Docmark.Proofs.Inclusion.InPlace
import Docmark.Proofs.Inclusion.InlineContent
import Docmark.Proofs.Inclusion.Links
import Docmark.Proofs.Inclusion.RawHtml
import Docmark.Proofs.Inclusion.RelativeSource
import Docmark.Proofs.Inclusion.Transclusion
import Docmark.Proofs.Path.Way
import Docmark.Proofs.Project.Documents
import Docmark.Proofs.Project.Outputs
import Docmark.Proofs.Project.Pages
import Docmark.Proofs.Reading.Callouts
import Docmark.Proofs.Reading.CodeBlocks
import Docmark.Proofs.Reading.CodeSpans
import Docmark.Proofs.Reading.Declining
import Docmark.Proofs.Reading.Definitions
import Docmark.Proofs.Reading.Dialects
import Docmark.Proofs.Reading.Directives
import Docmark.Proofs.Reading.Grouping
import Docmark.Proofs.Reading.Links
import Docmark.Proofs.Reading.Literal
import Docmark.Proofs.Reading.Looseness
import Docmark.Proofs.Reading.Nesting
import Docmark.Proofs.Reading.ParagraphLines
import Docmark.Proofs.Reading.Paragraphs
import Docmark.Proofs.Reading.QuoteMarks
import Docmark.Proofs.Reading.Shape
import Docmark.Proofs.Reading.Spans
import Docmark.Proofs.Reading.Tiling
import Docmark.Proofs.Reading.Translation
import Docmark.Proofs.Reading.Words
import Docmark.Proofs.Regex.Tied
import Docmark.Proofs.Rewrite.Absolute
import Docmark.Proofs.Rewrite.Documents
import Docmark.Proofs.Rewrite.Slug
import Docmark.Proofs.Text.Columns
import Docmark.Proofs.Text.Slices
import Docmark.RulePattern
