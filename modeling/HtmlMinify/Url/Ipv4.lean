import HtmlMinify.Text.Scan

/-! # IPv4 addresses in hosts

A host whose last label is a number is an IPv4 address, or nothing. Numbers can be decimal, octal
after `0` and hexadecimal after `0x`, and the last one fills all bytes that are left.
-/

namespace HtmlMinify.Ipv4

open Text

/-- A number by its own radix mark. -/
def number? : List Char → Option Nat
  | [] => none
  | '0' :: 'x' :: hex => digits? 16 hex
  | '0' :: 'X' :: hex => digits? 16 hex
  | '0' :: c :: octal => digits? 8 (c :: octal)
  | decimal => digits? 10 decimal

/-- Labels without an empty one at the end. -/
def withoutTrailing : List (List Char) → List (List Char)
  | [] => []
  | [[]] => []
  | label :: labels => label :: withoutTrailing labels

/-- The last label, one empty label after it aside, is a number or has digits only. -/
def endsInNumber (host : List Char) : Bool :=
  match (withoutTrailing (pieces '.' host)).getLast? with
  | none => false
  | some last => (!last.isEmpty && last.all Char.isDigit) || (number? last).isSome

/-- The address of at most `free` numbers: all but the last are single bytes. -/
def ofNumbers? : Nat → List Nat → Option Nat
  | 0, _ => none
  | _ + 1, [] => none
  | free + 1, [last] => if last < 256 ^ (free + 1) then some last else none
  | free + 1, n :: rest =>
    if n < 256 then (ofNumbers? free rest).map (n * 256 ^ free + ·) else none

/-- The address that a host writes. -/
def parse? (host : List Char) : Option Nat :=
  match (withoutTrailing (pieces '.' host)).mapM number? with
  | some numbers => ofNumbers? 4 numbers
  | none => none

/-- The usual text of an address: four decimal bytes. -/
def render (address : Nat) : String :=
  ".".intercalate ([24, 16, 8, 0].map fun shift => toString (address >>> shift % 256))

end HtmlMinify.Ipv4
