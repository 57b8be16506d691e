import HtmlMinify.Text.Scan

/-! # IPv6 addresses in hosts

Eight groups of up to four hexadecimal digits. Once, `::` can stand for one or more groups of zero;
the last two groups can be four decimal bytes.
-/

namespace HtmlMinify.Ipv6

open Text

/-- A group of hexadecimal digits. -/
def group? (cs : List Char) : Option Nat :=
  if cs.isEmpty || 4 < cs.length then none else digits? 16 cs

/-- A decimal byte, without zeros in front. -/
def byte? (cs : List Char) : Option Nat :=
  match cs with
  | [] => none
  | ['0'] => some 0
  | '0' :: _ => none
  | _ => (digits? 10 cs).filter (· < 256)

/-- Four decimal bytes as two groups. -/
def dotted? (cs : List Char) : Option (List Nat) :=
  match (pieces '.' cs).mapM byte? with
  | some [a, b, c, d] => some [a * 256 + b, c * 256 + d]
  | _ => none

/-- Groups between colons; the last may be four decimal bytes. -/
def groups? : List (List Char) → Option (List Nat)
  | [] => some []
  | [last] => if last.contains '.' then dotted? last else (group? last).map ([·])
  | first :: rest => do return (← group? first) :: (← groups? rest)

/-- Groups on one side of `::`; there may be none. -/
def side? (cs : List Char) : Option (List Nat) :=
  if cs.isEmpty then some [] else groups? (pieces ':' cs)

/-- The eight groups of an address. -/
def parse? (cs : List Char) : Option (List Nat) :=
  match breakOn? [':', ':'] cs with
  | none => (side? cs).filter (·.length == 8)
  | some (left, right) =>
    -- Four decimal bytes end an address, so they cannot stand before `::`.
    if left.contains '.' then none
    else do
      let left ← side? left
      let right ← side? right
      let written := left.length + right.length
      if written < 8 then return left ++ List.replicate (8 - written) 0 ++ right else none

/-- A number in hexadecimal digits. -/
def hex (n : Nat) : String :=
  String.ofList (Nat.toDigits 16 n)

/-- Number of zeros in front. -/
def zeros (groups : List Nat) : Nat :=
  (groups.takeWhile (· == 0)).length

/-- Length of the longest run of zeros. -/
def longestZeros : List Nat → Nat
  | [] => 0
  | g :: rest => max (zeros (g :: rest)) (longestZeros rest)

/-- Groups with colons between. -/
def join (groups : List Nat) : String :=
  ":".intercalate (groups.map hex)

/-- Position of the first run of `n` zeros. -/
def firstRun (n : Nat) (groups : List Nat) : Nat :=
  ((List.range groups.length).find? fun i => zeros (groups.drop i) == n).getD 0

/-- The usual text of an address: `::` for the first of the longest runs of two zeros or more. -/
def render (groups : List Nat) : String :=
  let longest := longestZeros groups
  if longest < 2 then join groups
  else
    let start := firstRun longest groups
    join (groups.take start) ++ "::" ++ join (groups.drop (start + longest))

end HtmlMinify.Ipv6
