import StackMachine.Log.Calendar
import StackMachine.Log.Level

/-!
# The log

A log line names the tool, the level and the message, after the time if times are
shown.  On a terminal that has colors, the level decides the color.  Messages below the
threshold are dropped.
-/

namespace StackMachine

/-- How log lines look, and those written so far. -/
structure Journal where
  tool : Option String
  /-- The least important level that is shown. -/
  threshold : Level
  timestamps : Bool
  colors : Bool
  /-- The time, in milliseconds since the start of 1970. -/
  clock : Nat
  /-- The lines written so far. -/
  text : String
deriving DecidableEq

namespace Journal

/-- A log without lines, of no tool in particular. -/
def empty (colors : Bool) (clock : Nat) : Journal := ⟨none, .info, false, colors, clock, ""⟩

/-- Whether an environment asks for colors. -/
def wantsColors (lookup : String → Option String) : Bool :=
  match lookup "TERM" with
  | none => false
  | some term => term != "dumb" && (lookup "NO_COLOR").isNone

/-- Names the tool.  The first name stays. -/
def setTool (j : Journal) (name : String) : Journal :=
  { j with tool := some (j.tool.getD name) }

/-- A control sequence of a terminal. -/
def control (code : String) : String := "\x1b[" ++ code ++ "m"

/-- The control sequence that ends all colors. -/
def reset : String := control "0"

/-- The control sequences of a level. -/
def levelColors : Level → String
  | .error => control "1" ++ control "31"
  | .warn => control "1" ++ control "33"
  | .info => control "32"
  | .debug => control "36"

/-- The start of a log line. -/
def heading (j : Journal) (level : Level) : String :=
  let paint (start text : String) := if j.colors then reset ++ start ++ text else text
  let time := if j.timestamps then timestamp j.clock ++ " " else ""
  let tool := match j.tool with
    | some name => paint (control "1") (name ++ ": ")
    | none => ""
  let level := paint (levelColors level) (level.name ++ ": ")
  time ++ tool ++ level ++ if j.colors then reset else ""

/-- Writes a message, unless it is below the threshold. -/
def write (j : Journal) (level : Level) (message : String) : Journal :=
  if level.rank < j.threshold.rank then j
  else { j with text := j.text ++ j.heading level ++ message ++ "\n" }

end Journal

end StackMachine
