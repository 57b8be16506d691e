import HtmlMinify.Text.Ascii
import HtmlMinify.Text.Space
import HtmlMinify.Text.Blank
import HtmlMinify.Text.Scan
import HtmlMinify.Tag
import HtmlMinify.Attribute
import HtmlMinify.Node
import HtmlMinify.Forest
import HtmlMinify.Document.Basic
import HtmlMinify.Document.Walk
import HtmlMinify.Document.Edit
import HtmlMinify.Markup.Token
import HtmlMinify.Markup.Doctype
import HtmlMinify.Markup.Open
import HtmlMinify.Markup.Build
import HtmlMinify.Markup.Write
import HtmlMinify.Json.Quoted
import HtmlMinify.Json.Value
import HtmlMinify.Document.Dump
import HtmlMinify.Pass.Basic
import HtmlMinify.Pass.Context
import HtmlMinify.Pass.Comments
import HtmlMinify.Pass.Whitespace
import HtmlMinify.Pass.Attributes
import HtmlMinify.Unicode.Table
import HtmlMinify.Unicode.Mark
import HtmlMinify.Unicode.CombiningClass
import HtmlMinify.Unicode.Composition
import HtmlMinify.Unicode.Normalize
import HtmlMinify.Unicode.JoiningType
import HtmlMinify.Unicode.BidiClass
import HtmlMinify.Url.Percent
import HtmlMinify.Url.Ipv4
import HtmlMinify.Url.Ipv6
import HtmlMinify.Url.Punycode
import HtmlMinify.Url.Idna.Mapping
import HtmlMinify.Url.Idna.Label
import HtmlMinify.Url.Idna
import HtmlMinify.Url.Basic
import HtmlMinify.Url.Parse
import HtmlMinify.Pass.Links
import HtmlMinify.Pass.Apply
import HtmlMinify.Json.Token
import HtmlMinify.Json.Read
import HtmlMinify.Settings.Basic
import HtmlMinify.Settings.Format
import HtmlMinify.Minify
import HtmlMinify.Command
import HtmlMinify.Directory
import HtmlMinify.Main
import HtmlMinify.Proofs.Scan
import HtmlMinify.Proofs.Spelling
import HtmlMinify.Proofs.TagReading
import HtmlMinify.Proofs.TextReading
import HtmlMinify.Proofs.Tokens
import HtmlMinify.Proofs.OpenTags
import HtmlMinify.Proofs.Builder
import HtmlMinify.Proofs.Markup
import HtmlMinify.Proofs.Steps
import HtmlMinify.Proofs.ReadBack
import HtmlMinify.Proofs.TokenLog
import HtmlMinify.Proofs.DepthLimit
import HtmlMinify.Proofs.Arena
import HtmlMinify.Proofs.RoundTrip
import HtmlMinify.Proofs.Built
import HtmlMinify.Proofs.Trace
import HtmlMinify.Proofs.TagRecovery
import HtmlMinify.Proofs.Recovery
import HtmlMinify.Proofs.OmittedEndTags
import HtmlMinify.Proofs.Families
import HtmlMinify.Proofs.Whitespace
import HtmlMinify.Proofs.Siblings
import HtmlMinify.Proofs.Edits
import HtmlMinify.Proofs.PassEffects
import HtmlMinify.Proofs.AttributeRules
import HtmlMinify.Proofs.AttributeMap
import HtmlMinify.Proofs.RuleOrder
import HtmlMinify.Proofs.Pipeline
import HtmlMinify.Proofs.Stability
import HtmlMinify.Proofs.Skeleton
import HtmlMinify.Proofs.KeptText
import HtmlMinify.Proofs.WrittenSize
import HtmlMinify.Proofs.Shrinking
import HtmlMinify.Proofs.Rereading
import HtmlMinify.Proofs.FixedPoint
import HtmlMinify.Proofs.Prerequisites
import HtmlMinify.Proofs.TokenOrder
import HtmlMinify.Proofs.QuirksMode
import HtmlMinify.Proofs.RawElements
import HtmlMinify.Proofs.ParsedDocuments
import HtmlMinify.Proofs.JsonReading
import HtmlMinify.Proofs.SavedSettings
import HtmlMinify.Proofs.TagCase
import HtmlMinify.Proofs.WrittenMarkup
import HtmlMinify.Proofs.BlockEdges
import HtmlMinify.Proofs.RemovedComments
import HtmlMinify.Proofs.Addresses
import HtmlMinify.Proofs.EffectiveValues
import HtmlMinify.Proofs.SiteLinks
import HtmlMinify.Proofs.JoinedTexts
import HtmlMinify.Proofs.DetachedNodes
import HtmlMinify.Proofs.TokenSpans
import HtmlMinify.Proofs.EscapedTexts
import HtmlMinify.Proofs.ImpliedEnds
import HtmlMinify.Proofs.EndTags
import HtmlMinify.Proofs.CollapsedTexts
