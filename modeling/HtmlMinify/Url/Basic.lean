/-! # Absolute web addresses

What an `http` or `https` address says about the place it leads to: the host in its usual form, and
whether a user name, a password or a port of its own is given. How an address is read is a choice of
the caller: whatever minifies pages takes a reader `String → Option Url`.
-/

namespace HtmlMinify

/-- The place that an address leads to. -/
structure Url where
  host : String
  hasUser : Bool
  hasPassword : Bool
  hasPort : Bool
deriving Repr, DecidableEq, Inhabited

end HtmlMinify
