import StackMachine.Text.Split

/-!
# Levels of log messages
-/

namespace StackMachine

/-- How much a log message matters. -/
inductive Level where
  | debug | info | warn | error
deriving DecidableEq

namespace Level

/-- The rank of a level; more important levels have a higher one. -/
def rank : Level → Nat
  | debug => 0
  | info => 1
  | warn => 2
  | error => 3

/-- The name of a level in log lines. -/
def name : Level → String
  | debug => "debug"
  | info => "info"
  | warn => "warning"
  | error => "error"

/-- A text without blanks around it and with its ASCII letters in lower case. -/
def keyword (text : String) : String :=
  String.ofList ((Text.trim text.toList).map Char.toLower)

/-- The level a text names. -/
def parse? (text : String) : Option Level :=
  match keyword text with
  | "debug" => some debug
  | "info" => some info
  | "warn" | "warning" => some warn
  | "error" => some error
  | _ => none

end Level

end StackMachine
