import HtmlMinify.Markup.Write
import HtmlMinify.Pass.Attributes
import HtmlMinify.Pass.Basic
import HtmlMinify.Pass.Comments
import HtmlMinify.Pass.Links
import HtmlMinify.Pass.Whitespace

/-! # What passes do -/

namespace HtmlMinify.Pass

/-- Applies a rule to the attributes of each listed node: how many changes. -/
def applyRule (rule : Content → AttributeRule.Result) : List NodeId → Edit Nat
  | [] => pure 0
  | id :: ids => do
    let (attributes, changes) := rule (← Edit.node id).toContent
    Edit.alter id fun node => { node with attributes }
    return changes + (← applyRule rule ids)

/-- Applies a rule to all reachable elements. -/
def onElements (rule : Content → AttributeRule.Result) : Edit Nat := do
  applyRule rule (← Edit.read (·.elements none))

/-- Does what the pass does to a document, with addresses read by `read?`: how many changes. Passes
that only steer others, or how the page is written, change nothing. -/
def apply (read? : String → Option Url) (ctx : Context) : Pass → Edit Nat
  | documentPasses | attributePasses | keepExternalScheme | omitQuotes | omitEndTags => pure 0
  | removeComments => Comments.remove
  | collapseWhitespace => Whitespace.collapseAll
  | trimAroundTags => Whitespace.trimAll
  | removeBlankTexts => Whitespace.removeBlank
  | stripHttp => onElements (Links.stripScheme read? ctx "http:")
  | stripHttps => onElements (Links.stripScheme read? ctx "https:")
  | relativeLinks =>
    if ctx.localDomains.isEmpty then pure 0 else onElements (Links.makeRelative read? ctx)
  | removeDefaultAttributes => onElements (AttributeRule.removeDefaults ctx)
  | removeAnchorName => onElements AttributeRule.removeAnchorName
  | removeScriptCharset => onElements AttributeRule.removeScriptCharset
  | removeScriptType => onElements AttributeRule.removeScriptType
  | removeStylesheetLinkType => onElements AttributeRule.removeStylesheetLinkType
  | removeEmptyAttributes => onElements AttributeRule.removeEmpty
  | removeEmptyInputValue => onElements AttributeRule.removeEmptyInputValue
  | sortClassNames => onElements AttributeRule.sortClassNames
  | sortAttributes => onElements AttributeRule.sortByName
  | removeStyleAndLinkType => onElements AttributeRule.removeStyleAndLinkType
  | removeDefaultMedia => onElements AttributeRule.removeDefaultMedia
  | removeButtonType => onElements AttributeRule.removeButtonType

/-- How the page is written once the pass has run. -/
def adjust (options : WriteOptions) : Pass → WriteOptions
  | omitQuotes => { options with omitQuotes := true }
  | omitEndTags => { options with omitEndTags := true }
  | _ => options

end HtmlMinify.Pass
