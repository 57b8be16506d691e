/-! # Passes

The passes in the order in which they run, with their keys in settings. Some passes run only if
another one does; three do nothing but allow others or steer them.
-/

namespace HtmlMinify

/-- One named change of a page. -/
inductive Pass where
  | documentPasses
  | removeComments
  | collapseWhitespace
  | trimAroundTags
  | attributePasses
  | stripHttp
  | stripHttps
  | removeDefaultAttributes
  | removeAnchorName
  | removeScriptCharset
  | removeScriptType
  | removeStylesheetLinkType
  | removeEmptyAttributes
  | removeEmptyInputValue
  | sortClassNames
  | sortAttributes
  | keepExternalScheme
  | relativeLinks
  | removeStyleAndLinkType
  | removeDefaultMedia
  | removeButtonType
  | removeBlankTexts
  | omitQuotes
  | omitEndTags
deriving Repr, DecidableEq, Inhabited

namespace Pass

/-- All passes in the order in which they run. -/
def all : List Pass :=
  [documentPasses, removeComments, collapseWhitespace, trimAroundTags, attributePasses,
    stripHttp, stripHttps, removeDefaultAttributes, removeAnchorName, removeScriptCharset,
    removeScriptType, removeStylesheetLinkType, removeEmptyAttributes, removeEmptyInputValue,
    sortClassNames, sortAttributes, keepExternalScheme, relativeLinks, removeStyleAndLinkType,
    removeDefaultMedia, removeButtonType, removeBlankTexts, omitQuotes, omitEndTags]

/-- The key of a pass in settings. -/
def key : Pass → String
  | documentPasses => "optimize_via_dom_parser"
  | removeComments => "remove_comments"
  | collapseWhitespace => "sum_up_whitespace"
  | trimAroundTags => "remove_whitespace_around_tags"
  | attributePasses => "optimize_attributes"
  | stripHttp => "remove_http_prefix_from_attributes"
  | stripHttps => "remove_https_prefix_from_attributes"
  | removeDefaultAttributes => "remove_default_attributes"
  | removeAnchorName => "remove_deprecated_anchor_name"
  | removeScriptCharset => "remove_deprecated_script_charset_attribute"
  | removeScriptType => "remove_deprecated_type_from_script_tag"
  | removeStylesheetLinkType => "remove_deprecated_type_from_stylesheet_link"
  | removeEmptyAttributes => "remove_empty_attributes"
  | removeEmptyInputValue => "remove_value_from_empty_input"
  | sortClassNames => "sort_css_class_names"
  | sortAttributes => "sort_html_attributes"
  | keepExternalScheme => "keep_http_and_https_prefix_on_external_attributes"
  | relativeLinks => "make_same_domains_links_relative"
  | removeStyleAndLinkType => "remove_deprecated_type_from_style_and_link_tag"
  | removeDefaultMedia => "remove_default_media_type_from_style_and_link_tag"
  | removeButtonType => "remove_default_type_from_button"
  | removeBlankTexts => "remove_spaces_between_tags"
  | omitQuotes => "remove_omitted_quotes"
  | omitEndTags => "remove_omitted_html_tags"

/-- A second key that settings may use. -/
def otherKey? : Pass → Option String
  | documentPasses => some "dom_structural_optimization"
  | removeScriptCharset => some "remove_deprecated_script_charset"
  | removeScriptType => some "remove_deprecated_type_from_script"
  | keepExternalScheme => some "keep_http_and_https_prefix_on_external_links"
  | relativeLinks => some "make_same_domain_links_relative"
  | removeStyleAndLinkType => some "remove_deprecated_type_from_style_and_link"
  | removeDefaultMedia => some "remove_default_media_type"
  | omitEndTags => some "remove_omitted_closing_tags"
  | _ => none

/-- The pass without which this one does not run. -/
def requires? : Pass → Option Pass
  | removeComments | collapseWhitespace | trimAroundTags | attributePasses => some documentPasses
  | stripHttp | stripHttps | removeDefaultAttributes | removeAnchorName | removeScriptCharset
  | removeScriptType | removeStylesheetLinkType | removeEmptyAttributes | removeEmptyInputValue
  | sortClassNames | sortAttributes => some attributePasses
  | _ => none

/-- The pass with this key. -/
def ofKey? (key : String) : Option Pass :=
  all.find? (·.key == key)

/-- The setting of a pass can be a list of names. -/
def takesList : Pass → Bool
  | removeDefaultAttributes | relativeLinks => true
  | _ => false

end Pass

end HtmlMinify
