import HtmlMinify.Proofs.JsonReading
import HtmlMinify.Proofs.Prerequisites
import HtmlMinify.Settings.Format

/-!
# Settings that were saved are read back

Settings are written with one field for each pass, in order, and one for the depth if it is not the
usual one. Each field names its key, no key comes twice, and each value is read back as what it was,
so reading takes over the settings of all passes, one by one.

## Main statements

* `Setting.ofJson?_toJson`, `Settings.depth?_ofNat`: one value.
* `Settings.readFields?_passes`: the fields of any number of passes.
* `Settings.parse?_render`: settings are read back from their text.
-/

namespace HtmlMinify

/-! ## Values -/

/-- A flag is read back as a flag, and a list as a list of the same names. -/
theorem Setting.ofJson?_toJson {takesList : Bool} (setting : Setting takesList) :
    Setting.ofJson? takesList setting.toJson = some setting := by
  cases setting with
  | flag on => rfl
  | list names =>
    have hnames : (names.map Json.str).mapM string? = some names :=
      @Json.mapM_map_eq_some String Json .str string? (fun _ => rfl) names
    rw [toJson, ofJson?, hnames]
    rfl

/-- The value of a setting can be written. -/
theorem Setting.written_toJson {takesList : Bool} (setting : Setting takesList) :
    setting.toJson.Written := by
  cases setting with
  | flag on => exact .bool on
  | list names =>
    refine .arr fun item hitem => ?_
    obtain ⟨name, -, rfl⟩ := List.mem_map.mp hitem
    exact .str name

namespace Settings

/-- A depth of 64 bits is read back from its digits. -/
theorem depth?_ofNat (depth : UInt64) : depth? (Json.ofNat depth.toNat) = some (some depth) := by
  have hdigits : Text.digits? 10 (toString depth.toNat).toList = some depth.toNat := by
    rw [Json.toList_toString, Json.digits?_toDigits]
  rw [Json.ofNat, depth?, hdigits, Option.bind_eq_bind, Option.bind_some, if_pos depth.toNat_lt,
    UInt64.ofNat_toNat]

/-! ## Fields -/

/-- The key of a pass spells that pass and no other. -/
theorem Key.ofName?_key (pass : Pass) : Key.ofName? pass.key = some (.pass pass) := by
  cases pass <;> decide

/-- The field of a pass. -/
def field (s : Settings) (pass : Pass) : String × Json :=
  (pass.key, (s.value pass).toJson)

/-- The settings `s` with those of some passes taken over from `saved`. -/
def takeOver (saved : Settings) (passes : List Pass) (s : Settings) : Settings :=
  { s with value := fun pass => if pass ∈ passes then saved.value pass else s.value pass }

/-- Taking a setting over first or last comes to the same. -/
theorem takeOver_cons (saved s : Settings) (pass : Pass) (passes : List Pass) :
    saved.takeOver passes (s.put pass (saved.value pass)) = saved.takeOver (pass :: passes) s := by
  have hvalue : (fun other => if other ∈ passes then saved.value other
      else (s.put pass (saved.value pass)).value other) =
      fun other => if other ∈ pass :: passes then saved.value other else s.value other := by
    funext other
    by_cases hmem : other ∈ passes
    · rw [if_pos hmem, if_pos (List.mem_cons_of_mem pass hmem)]
    · rw [if_neg hmem]
      by_cases hsame : pass = other
      · subst hsame
        rw [if_pos List.mem_cons_self]
        exact dif_pos rfl
      · rw [if_neg (by simp [hmem, Ne.symm hsame])]
        exact dif_neg hsame
  rw [takeOver, takeOver, hvalue]
  rfl

/-- **The fields of passes are taken over one by one**, if none of these passes was seen before. -/
theorem readFields?_passes (saved : Settings) {passes : List Pass} {seen : List Key}
    (hnodup : passes.Nodup) (hnew : ∀ pass ∈ passes, Key.pass pass ∉ seen) (s : Settings)
    (rest : List (String × Json)) :
    readFields? seen s (passes.map saved.field ++ rest) =
      readFields? ((passes.map Key.pass).reverse ++ seen) (saved.takeOver passes s) rest := by
  induction passes generalizing seen s with
  | nil => rfl
  | cons pass passes ih =>
    obtain ⟨hnot, hrest⟩ := List.nodup_cons.mp hnodup
    have hseen : seen.contains (Key.pass pass) = false := by
      simpa using hnew pass List.mem_cons_self
    have hfield : s.readField? (.pass pass) (saved.value pass).toJson =
        some (s.put pass (saved.value pass)) := by
      rw [readField?, Setting.ofJson?_toJson]
      rfl
    have hnext : ∀ other ∈ passes, Key.pass other ∉ Key.pass pass :: seen := by
      intro other hother hmem
      rcases List.mem_cons.mp hmem with heq | hmem
      · cases heq
        exact hnot hother
      · exact hnew other (List.mem_cons_of_mem pass hother) hmem
    rw [List.map_cons, List.cons_append, field, readFields?, Key.ofName?_key]
    simp only [hseen, Bool.false_eq_true, if_false, hfield]
    rw [ih hrest hnext, takeOver_cons, List.map_cons, List.reverse_cons, List.append_assoc]
    rfl

/-- Taking all settings over gives the saved ones, but for the depth. -/
theorem takeOver_all (saved s : Settings) :
    saved.takeOver Pass.all s = { saved with maxDepth := s.maxDepth } := by
  have hvalue : (fun pass => if pass ∈ Pass.all then saved.value pass else s.value pass) =
      saved.value := by
    funext pass
    rw [if_pos pass.mem_all]
  rw [takeOver, hvalue]

/-! ## Settings -/

/-- **Settings are read back from what is saved of them.** -/
theorem ofJson?_toJson (s : Settings) : ofJson? s.toJson = some s := by
  have hpasses (rest : List (String × Json)) :
      readFields? [] off (Pass.all.map s.field ++ rest) =
        readFields? ((Pass.all.map Key.pass).reverse ++ []) { s with maxDepth := none } rest := by
    rw [s.readFields?_passes (by decide) (by simp), takeOver_all]
    rfl
  obtain ⟨value, maxDepth⟩ := s
  cases maxDepth with
  | none => exact hpasses []
  | some depth =>
    have hname : Key.ofName? "max_depth" = some .maxDepth := by decide
    have hnew : ((Pass.all.map Key.pass).reverse ++ []).contains Key.maxDepth = false := by decide
    refine (hpasses [("max_depth", Json.ofNat depth.toNat)]).trans ?_
    rw [readFields?, hname]
    simp only [hnew, Bool.false_eq_true, if_false, readField?, depth?_ofNat, Option.map_some]
    rfl

/-- What is saved of settings can be written. -/
theorem written_toJson (s : Settings) : s.toJson.Written := by
  obtain ⟨value, maxDepth⟩ := s
  refine .obj fun field hfield => ?_
  rcases List.mem_append.mp hfield with hfield | hfield
  · obtain ⟨pass, -, rfl⟩ := List.mem_map.mp hfield
    exact (value pass).written_toJson
  · cases maxDepth with
    | none => cases hfield
    | some depth =>
      obtain rfl := List.mem_singleton.mp hfield
      exact .ofNat depth.toNat

/-- **Settings are read back from their text**, whatever their flags, lists and depth. -/
theorem parse?_render (s : Settings) : parse? s.render = some s := by
  rw [parse?, render, s.written_toJson.read?_render, Option.bind_some, s.ofJson?_toJson]

end Settings

end HtmlMinify
