import Relabel.Text

/-!
# The journal

What a program tells its user: records of some level, and text printed as it is.
-/

namespace Relabel

/-- How much a record matters; also how much the user wants to see. -/
inductive Level where
  | error
  | warning
  | info
  | debug
  | trace
  deriving DecidableEq, Repr

namespace Level

/-- Every level, the one that matters most first. -/
def all : List Level := [error, warning, info, debug, trace]

/-- Place in the order, the level that matters most first. -/
def rank : Level → Nat
  | error => 0
  | warning => 1
  | info => 2
  | debug => 3
  | trace => 4

/-- A user who wants to see levels up to `l` sees records of level `m`. -/
def shows (l m : Level) : Bool := m.rank ≤ l.rank

/-- The level as it is spoken of. -/
def name : Level → String
  | error => "Error"
  | warning => "Warning"
  | info => "Info"
  | debug => "Debug"
  | trace => "Trace"

/-- The level as it stands before a record. -/
def tag : Level → String
  | error => "ERROR"
  | warning => "WARN"
  | info => "INFO"
  | debug => "DEBUG"
  | trace => "TRACE"

/-- The level that a word asks for, in any case. -/
def ofWord (s : String) : Except String Level :=
  match Text.lowerAscii s with
  | "error" => .ok error
  | "warn" | "warning" => .ok warning
  | "info" => .ok info
  | "debug" => .ok debug
  | "trace" => .ok trace
  | _ => .error s!"Unknown verbosity level: {s}"

/-- The level for a user who has asked for more so many times. -/
def ofRequests : Nat → Level
  | 0 => info
  | 1 => debug
  | _ => trace

end Level

namespace Journal

/-- One thing the user is told. -/
inductive Entry where
  | record (level : Level) (text : String)
  | printed (text : String)
  deriving DecidableEq, Repr

/-- The records of a journal. -/
def records (es : List Entry) : List (Level × String) :=
  es.filterMap fun
    | .record level text => some (level, text)
    | .printed _ => none

/-- The printed text of a journal. -/
def output (es : List Entry) : String :=
  String.join <| es.filterMap fun
    | .record _ _ => none
    | .printed text => some text

end Journal
end Relabel
