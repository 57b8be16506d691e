import HtmlMinify.Text.Ascii

/-! # What passes know

The site's own domains and two choices that steer passes. A domain is a host name, or `*.` and a
host name for that host and all below it.
-/

namespace HtmlMinify

/-- What all passes of one run share. -/
structure Context where
  /-- The site's own domains, in lower case. -/
  localDomains : List String := []
  /-- Links that leave the site keep their scheme. -/
  keepExternalScheme : Bool := false
  /-- The only attributes whose defaults are removed; all if there is no list. -/
  defaultAttributeFilter : Option (List String) := none
deriving Repr, DecidableEq, Inhabited

namespace Context

open Text

/-- The other of the two spellings of a host, with and without `www.` in front. -/
def otherSpelling (host : List Char) : List Char :=
  match "www.".toList.isPrefixOf? host with
  | some bare => bare
  | none => "www.".toList ++ host

/-- The domain covers the host by a leading `*.`. -/
def coversBelow (domain : String) (host : List Char) : Bool :=
  match "*.".toList.isPrefixOf? domain.toList with
  | some top => host == top || ('.' :: top).isSuffixOf host
  | none => false

/-- A host in the form in which domains are given: lower case, no dots at the end. -/
def plainHost (host : String) : List Char :=
  ((lower host).toList.reverse.dropWhile (· == '.')).reverse

/-- The host belongs to the site: it is a domain of it, up to `www.`, or a domain covers it. -/
def isLocalHost (ctx : Context) (host : String) : Bool :=
  let host := plainHost host
  ctx.localDomains.contains (String.ofList host) ||
    ctx.localDomains.contains (String.ofList (otherSpelling host)) ||
    ctx.localDomains.any (coversBelow · host)

end Context

end HtmlMinify
