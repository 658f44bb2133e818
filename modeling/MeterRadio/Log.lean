/-!
# Log lines

What the receiver has to tell about its own work is a list of lines, each with a level. A line is
shown if its level is at least as severe as the one asked for.
-/

namespace MeterRadio

/-- How severe a log line is. -/
inductive Level
  /-- Every step. -/
  | trace
  /-- Details for finding a fault. -/
  | debug
  /-- Normal course of events. -/
  | info
  /-- Something is probably not as intended. -/
  | warn
  /-- Something failed. -/
  | error
  deriving DecidableEq, Repr

namespace Level

/-- All levels, the least severe first. -/
def all : List Level :=
  [trace, debug, info, warn, error]

/-- How severe a level is, from 0 on. -/
def severity : Level → Nat
  | trace => 0
  | debug => 1
  | info => 2
  | warn => 3
  | error => 4

/-- The name of a level in a configuration. -/
def name : Level → String
  | trace => "trace"
  | debug => "debug"
  | info => "info"
  | warn => "warn"
  | error => "error"

def ofName? (s : String) : Option Level :=
  all.find? fun l => l.name == s

/-- The name of a level at the head of a log line. -/
def label : Level → String
  | trace => "TRACE"
  | debug => "DEBUG"
  | info => "INFO"
  | warn => "WARN"
  | error => "ERROR"

/-- Whether lines of level `l` are shown when lines from `threshold` on are asked for. -/
def shownFrom (threshold l : Level) : Bool :=
  threshold.severity ≤ l.severity

@[simp] theorem ofName?_name (l : Level) : ofName? l.name = some l := by
  cases l <;> decide

end Level

structure LogLine where
  level : Level
  text : String
  deriving DecidableEq, Repr

namespace LogLine

/-- A line for people who run the program. -/
def info (text : String) : LogLine :=
  { level := .info, text }

/-- The line as it is printed. -/
def render (l : LogLine) : String :=
  l.level.label ++ " " ++ l.text

end LogLine

end MeterRadio
