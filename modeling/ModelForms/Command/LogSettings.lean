import ModelForms.Text.CharClass
import ModelForms.Text.Pieces

/-!
# Settings of the log

How events would be written and which of them, as two settings of the environment say.
-/

namespace ModelForms

/-- How events are written. -/
inductive LogStyle where
  /-- One line per event. -/
  | text
  /-- Indented by the step that an event belongs to. -/
  | tree
  /-- One JSON object per event. -/
  | json
deriving DecidableEq, Repr, Inhabited

/-- The format that a setting names.  Blanks around it and the case of ASCII letters do not count,
and any other setting means text. -/
def LogStyle.ofSetting (setting : String) : LogStyle :=
  let word := String.ofList (Text.lowerAscii (Text.trim CharClass.isBlank setting.toList))
  if word = "tree" then .tree else if word = "json" then .json else .text

/-- Which events are written: the setting of this command decides, or else the general one. -/
def logFilter (own general : Option String) : Option String := own.or general

end ModelForms
