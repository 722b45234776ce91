import Mc6809.Numeral
import Mc6809.Text.Letter

/-!
# Settings

The settings that the environment provides. A base address that is no number or too large is reported and ignored.
-/

namespace Mc6809

structure Settings where
  base : Int := 0x4000
  verbose : Bool := false

namespace Settings

/-- Whether a number is an address of the processor. -/
def isAddress (n : Int) : Bool :=
  0 ≤ n && n ≤ 0xFFFF

/-- The base address from the environment, and a warning if it is ignored. -/
def readBase (text : String) : Option Int × List String :=
  match Numeral.parse text with
  | .error _ => (none, ["Ignoring invalid ASM6809_BASE_ADDRESS " ++ Text.quoted text])
  | .ok n =>
    if isAddress n then (some n, [])
    else (none, ["Ignoring out-of-range ASM6809_BASE_ADDRESS " ++ Text.quoted text])

/-- Whether a text switches something on. -/
def isTrue (text : String) : Bool :=
  Text.lower (String.ofList (Text.strip text.toList)) ∈ ["1", "true", "yes", "on"]

/-- The settings from the values of the two variables, with warnings. An empty value counts as none. -/
def ofEnvironment (base verbose : Option String) : Settings × List String :=
  let (address, warnings) := match base with
    | some text => if text = "" then (none, []) else readBase text
    | none => (none, [])
  ({ base := address.getD 0x4000, verbose := (verbose.map isTrue).getD false }, warnings)

end Settings

end Mc6809
