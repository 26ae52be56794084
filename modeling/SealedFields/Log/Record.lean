import SealedFields.Environment

/-!
Log records. Loggers form a hierarchy under one name; what is below the threshold is not recorded. Extra
fields may have any name but those that a record has itself.
-/

namespace SealedFields.Log

def rootName : Text := "fhefield"

/-- The name of a logger for a part of the library. -/
def loggerName (part : Text) : Text := if part.startsWith rootName then part else rootName ++ "." ++ part

/-- Does a logger write where the library writes? Another name may begin in the same way. -/
def isUnderRoot (name : Text) : Bool := name = rootName || name.startsWith (rootName ++ ".")

def levels : List (Text × Int) :=
  [("CRITICAL", 50), ("ERROR", 40), ("WARNING", 30), ("INFO", 20), ("DEBUG", 10), ("NOTSET", 0)]

def levelAliases : List (Text × Int) := [("FATAL", 50), ("WARN", 30)]

/-- The name of a level, in words if it has none. -/
def levelName (level : Int) : Text :=
  match levels.find? (·.2 = level) with
  | some (name, _) => name
  | none => "Level " ++ Text.ofInt level

def defaultThreshold : Int := 30

/-- The threshold of a level's name in any case. A level of zero sets none. Two words look like levels and
are something else. -/
def thresholdOf (name : Text) : Except Failure Int :=
  match Entries.get? (levels ++ levelAliases) name.upper with
  | some level => .ok (if level = 0 then defaultThreshold else level)
  | none =>
    if name.upper = "BASIC_FORMAT" then .error .badValue
    else if name.upper = "_STYLES" then .error .badType
    else .error (.raised .noAttribute [])

inductive Style where
  /-- One JSON document a line. -/
  | structured
  /-- Coloured lines for people. -/
  | readable
  deriving DecidableEq

structure Setup where
  threshold : Int
  style : Style

/-- A setup from the name of a level. Production is structured unless something else is asked for. -/
def configure (level : Text) (structured : Option Bool) (environment : Entries) : Except Failure Setup := do
  Environment.check environment
  let threshold ← thresholdOf level
  let production := match Entries.get? environment "FHE_ENVIRONMENT" with
    | some (.text t) => t = "production"
    | _ => false
  return ⟨threshold, if structured.getD production then .structured else .readable⟩

structure Event where
  logger : Text
  level : Int
  message : Text
  path : Text
  line : Int
  function : Option Text
  extra : Entries
  error : Option Failure

def ownFields : List Text :=
  ["name", "msg", "args", "levelname", "levelno", "pathname", "filename", "module", "exc_info", "exc_text",
    "stack_info", "lineno", "funcName", "created", "msecs", "relativeCreated", "thread", "threadName",
    "processName", "process", "message", "asctime"]

def Setup.records (s : Setup) (e : Event) : Bool :=
  let threshold := if isUnderRoot (loggerName e.logger) then s.threshold else defaultThreshold
  0 < e.level && threshold ≤ e.level

/-- The fields that correlate records of one activity: inner ones win. -/
def contextOf (nested : List Entries) : Entries := nested.foldl Entries.merge []

end SealedFields.Log
