import HtmlMinify.Pass.Basic
import HtmlMinify.Pass.Context
import HtmlMinify.Text.Blank

/-! # Settings

One setting a pass: off, on, or, for the passes that take one, a list of names. A list counts as on,
even if it is empty.
-/

namespace HtmlMinify

/-- The setting of a pass that can or cannot take a list. -/
inductive Setting : Bool → Type where
  | flag {takesList : Bool} (on : Bool) : Setting takesList
  | list (names : List String) : Setting true
deriving Repr, DecidableEq

namespace Setting

variable {takesList : Bool}

instance : Inhabited (Setting takesList) := ⟨flag false⟩

/-- The pass is asked for. -/
def isOn : Setting takesList → Bool
  | flag on => on
  | list _ => true

/-- The names listed. -/
def names : Setting takesList → List String
  | flag _ => []
  | list names => names

/-- Turns a pass on or off. A list stays if the pass is on already. -/
def switch (on : Bool) (setting : Setting takesList) : Setting takesList :=
  if on = setting.isOn then setting else flag on

end Setting

/-- The settings of all passes, and the nesting depth allowed, if it is not the usual one. -/
structure Settings where
  value : (pass : Pass) → Setting pass.takesList := fun _ => .flag false
  maxDepth : Option UInt64 := none

namespace Settings

instance : Inhabited Settings := ⟨{}⟩

/-- Everything off. -/
def off : Settings := {}

/-- The pass is asked for, whether or not it can run. -/
def isOn (s : Settings) (pass : Pass) : Bool :=
  (s.value pass).isOn

/-- Gives a pass a setting. -/
def put (s : Settings) (pass : Pass) (setting : Setting pass.takesList) : Settings :=
  { s with value := fun other => if h : pass = other then h ▸ setting else s.value other }

/-- Turns a pass on or off. -/
def switch (s : Settings) (pass : Pass) (on : Bool) : Settings :=
  s.put pass ((s.value pass).switch on)

/-- Turns every pass on; lists stay. -/
def withAll (s : Settings) : Settings :=
  Pass.all.foldl (·.switch · true) s

/-- The site's own domains: trimmed, in lower case, none of them empty. -/
def localDomains (s : Settings) : List String :=
  ((s.value .relativeLinks).names.map fun name => Text.lower (Text.strip name)).filter
    (!·.isEmpty)

/-- The attributes whose defaults are removed; all if none are listed. -/
def attributeFilter (s : Settings) : Option (List String) :=
  match (s.value .removeDefaultAttributes).names with
  | [] => none
  | names => some (names.map Text.lower)

/-! ## Which passes run -/

/-- The passes among those left that run, given those that ran before: a pass runs if it is asked
for and the pass it requires ran. -/
def activeAmong (s : Settings) (ran : List Pass) : List Pass → List Pass
  | [] => []
  | pass :: rest =>
    if s.isOn pass && pass.requires?.all ran.contains then
      pass :: activeAmong s (pass :: ran) rest
    else activeAmong s ran rest

/-- The passes that run, in order. -/
def active (s : Settings) : List Pass :=
  s.activeAmong [] Pass.all

/-- The passes that are asked for and do not run, in order. -/
def skipped (s : Settings) : List Pass :=
  Pass.all.filter fun pass => s.isOn pass && !s.active.contains pass

/-- What the passes of a run know. -/
def context (s : Settings) : Context where
  localDomains := s.localDomains
  keepExternalScheme := s.active.contains .keepExternalScheme
  defaultAttributeFilter := s.attributeFilter

end Settings

end HtmlMinify
