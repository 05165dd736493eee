import Intcode.Text.Fields
import Intcode.Text.Numeral

/-! # Phase settings as text: numerals separated by commas -/

namespace Intcode.Amplifier

def readPhases? (text : String) : Option (List Int) :=
  (Text.fields ',' text.toList).mapM Text.Numeral.read?

def phasesExpected (text : String) : String :=
  "Expected comma-separated integers, got " ++ text

end Intcode.Amplifier
