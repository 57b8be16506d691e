import HtmlMinify.Url.Basic
import HtmlMinify.Url.Idna
import HtmlMinify.Url.Ipv4
import HtmlMinify.Url.Ipv6
import HtmlMinify.Url.Percent

/-! # Reading web addresses

One reader of absolute `http` and `https` addresses, the one that the command uses. Blanks and control
characters at the ends and tabs and line breaks anywhere do not count.
-/

namespace HtmlMinify

open Text

namespace Url

/-- The usual form of a host: an address in brackets, a number, or a domain. -/
def host? (cs : List Char) : Option String :=
  match cs with
  | [] => none
  | '[' :: rest =>
    if rest.getLast? == some ']' then
      (Ipv6.parse? rest.dropLast).map fun groups => "[" ++ Ipv6.render groups ++ "]"
    else none
  | _ => do
    let domain ← Idna.toAscii? (← Percent.decode? (String.ofList cs))
    if domain.isEmpty then none
    else if Ipv4.endsInNumber domain.toList then (Ipv4.parse? domain.toList).map Ipv4.render
    else some domain

/-- Characters that end the part of an address that names the place. -/
def endsAuthority (c : Char) : Bool :=
  c == '/' || c == '\\' || c == '?' || c == '#'

/-- Host and port, divided by the first colon outside brackets. -/
def splitPort (inBrackets : Bool) : List Char → List Char × Option (List Char)
  | [] => ([], none)
  | c :: cs =>
    if c == ':' && !inBrackets then ([], some cs)
    else
      let (host, port) := splitPort ((inBrackets || c == '[') && c != ']') cs
      (c :: host, port)

/-- A port is absent, or digits that write a number of 16 bits: whether it differs from the usual
one. Nothing if it is malformed. -/
def ownPort? (usual : Nat) : Option (List Char) → Option Bool
  | none => some false
  | some cs => do
    let port ← digits? 10 cs
    if 65535 < port then none else some (!cs.isEmpty && port != usual)

/-- The part before the last `@`, if there is one, and the part after it. -/
def splitUser (cs : List Char) : Option (List Char) × List Char :=
  match breakOnChar? '@' cs.reverse with
  | some (after, before) => (some before.reverse, after.reverse)
  | none => (none, cs)

/-- Reads the part of an address that names the place. -/
def ofAuthority? (usualPort : Nat) (cs : List Char) : Option Url := do
  let (user, place) := splitUser cs
  let (host, port) := splitPort false place
  let host ← host? host
  let hasPort ← ownPort? usualPort port
  let user := user.getD []
  return {
    host
    hasUser := !(user.takeWhile (· != ':')).isEmpty
    hasPassword := !((user.dropWhile (· != ':')).drop 1).isEmpty
    hasPort }

/-- Without blanks and control characters at the ends, and without tabs and line breaks. -/
def clean (cs : List Char) : List Char :=
  let outer (c : Char) : Bool := c.toNat ≤ 0x20
  ((cs.dropWhile outer).reverse.dropWhile outer).reverse.filter fun c =>
    c != '\t' && c != '\n' && c != '\r'

/-- Reads the address after its scheme. Any number of slashes may follow it. -/
def afterScheme? (usualPort : Nat) (cs : List Char) : Option Url :=
  let rest := cs.dropWhile fun c => c == '/' || c == '\\'
  ofAuthority? usualPort (rest.takeWhile (!endsAuthority ·))

/-- Reads an absolute `http` or `https` address. -/
def parse? (s : String) : Option Url :=
  let cs := clean s.toList
  match afterIgnoringCase? "http:".toList cs with
  | some rest => afterScheme? 80 rest
  | none =>
    match afterIgnoringCase? "https:".toList cs with
    | some rest => afterScheme? 443 rest
    | none => none

end Url

end HtmlMinify
