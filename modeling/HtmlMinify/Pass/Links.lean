import HtmlMinify.Pass.Attributes
import HtmlMinify.Url.Basic

/-! # Rules on addresses

Addresses in attributes get shorter: without their scheme, or, on the site's own hosts, without the
host. The rules do not depend on how an address is read; `read?` gives the place it leads to.
-/

namespace HtmlMinify.Links

open Text

variable (read? : String → Option Url)

/-- The address without its scheme, if `//` follows it. Where links that leave the site keep theirs,
only if the host is the site's own. -/
def withoutScheme? (ctx : Context) (scheme : String) (address : String) : Option String := do
  let rest ← afterIgnoringCase? scheme.toList address.toList
  let _ ← ['/', '/'].isPrefixOf? rest
  if ctx.keepExternalScheme then
    let url ← read? address
    if !ctx.isLocalHost url.host then none
  return String.ofList rest

/-- What follows `http://`, `https://` or `//`, and the address with a scheme. -/
def splitScheme? (address : String) : Option (List Char × String) :=
  match afterIgnoringCase? "http://".toList address.toList with
  | some rest => some (rest, address)
  | none =>
    match afterIgnoringCase? "https://".toList address.toList with
    | some rest => some (rest, address)
    | none =>
      match ['/', '/'].isPrefixOf? address.toList with
      | some rest => some (rest, "http:" ++ address)
      | none => none

/-- Characters after which the path of an address as written begins. -/
def endsWrittenHost (c : Char) : Bool :=
  c == '/' || c == '?' || c == '#'

/-- The address without scheme and host, if it leads to a host of the site that is written in its
usual form, with no user, password or port. -/
def relative? (ctx : Context) (address : String) : Option String := do
  let (written, absolute) ← splitScheme? address
  let url ← read? absolute
  if url.hasUser || url.hasPassword || url.hasPort || !ctx.isLocalHost url.host then none
  else if !sameIgnoringCase (String.ofList (written.takeWhile (!endsWrittenHost ·))) url.host then
    none
  else
    match written.dropWhile (!endsWrittenHost ·) with
    -- Two slashes would begin another host.
    | '/' :: '/' :: _ => none
    | '/' :: path => some (String.ofList ('/' :: path))
    | rest => some (String.ofList ('/' :: rest))

/-- Replaces addresses among the attributes: how many changed. -/
def replaceAddresses (change? : String → Option String) (as : Attributes) : AttributeRule.Result :=
  let new? (a : Attribute) : Option String :=
    if Tag.isUrlAttribute a.name then a.value.bind change? else none
  (⟨as.toList.map fun a => (new? a).elim a fun value => { a with value := some value }⟩,
    (as.toList.filter fun a => (new? a).isSome).length)

/-- Addresses lose the scheme. -/
def stripScheme (ctx : Context) (scheme : String) (c : Content) : AttributeRule.Result :=
  replaceAddresses (withoutScheme? read? ctx scheme) c.attributes

/-- Addresses on the site lose scheme and host. -/
def makeRelative (ctx : Context) (c : Content) : AttributeRule.Result :=
  replaceAddresses (relative? read? ctx) c.attributes

end HtmlMinify.Links
