import HtmlMinify.Unicode.CombiningClass
import HtmlMinify.Unicode.Composition

/-! # The composed form of a text

Texts that look alike can be written with composed characters or with their parts, and marks on one
character in several orders. The composed form takes every character apart, sorts the marks, and
puts together again what can be.
-/

namespace HtmlMinify.Unicode

/-- A composed character is made of another composed one at most so many times. -/
def decomposeLimit : Nat := 3

/-- The parts of a character, taken apart at most `limit` times. -/
def parts : (limit : Nat) → Char → List Char
  | 0, c => [c]
  | limit + 1, c =>
    match split? c with
    | some (first, second) => parts limit first ++ [second]
    | none => [c]

/-- Puts a character in front of a sorted text, behind the marks of a lower class. -/
def insertMark (c : Char) : List Char → List Char
  | [] => [c]
  | d :: ds =>
    if combiningClass d != 0 && combiningClass d < combiningClass c then d :: insertMark c ds
    else c :: d :: ds

/-- Sorts each run of marks by class; marks of one class keep their order. -/
def sortMarks (cs : List Char) : List Char :=
  cs.foldr insertMark []

/-- Whether the last of the marks between a character and `c` keeps them apart. -/
def isBlocked (marks : List Char) (c : Char) : Bool :=
  match marks with
  | [] => false
  | mark :: _ => combiningClass c ≤ combiningClass mark

/-- Composes a text after the character `start` and the marks that stay behind it, the last of
them first. -/
def composeFrom (start : Char) (marks : List Char) : List Char → List Char
  | [] => start :: marks.reverse
  | c :: cs =>
    match (if isBlocked marks c then none else join? start c) with
    | some composed => composeFrom composed marks cs
    | none =>
      if combiningClass c == 0 then start :: marks.reverse ++ composeFrom c [] cs
      else composeFrom start (c :: marks) cs

/-- Puts together each character with the marks behind it. -/
def compose : List Char → List Char
  | [] => []
  | c :: cs => composeFrom c [] cs

/-- The composed form of a text. -/
def normalize (cs : List Char) : List Char :=
  compose (sortMarks (cs.flatMap (parts decomposeLimit)))

end HtmlMinify.Unicode
