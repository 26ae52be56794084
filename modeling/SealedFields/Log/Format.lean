import SealedFields.Json.Printer
import SealedFields.Log.Record
import SealedFields.Log.Redaction

/-!
The text of a log record, structured or readable. A record whose text cannot be made is left out.
-/

namespace SealedFields.Log

structure Moment where
  year : Nat
  month : Nat
  day : Nat
  hour : Nat
  minute : Nat
  second : Nat
  microsecond : Nat

namespace Moment

def padded (width n : Nat) : Text :=
  let digits := Text.ofInt n
  List.replicate (width - digits.length) (.scalar '0') ++ digits

/-- Date and time; whole seconds have no fraction. -/
def iso (m : Moment) : Text :=
  let date := padded 4 m.year ++ "-" ++ padded 2 m.month ++ "-" ++ padded 2 m.day
  let time := padded 2 m.hour ++ ":" ++ padded 2 m.minute ++ ":" ++ padded 2 m.second
  let fraction : Text := if m.microsecond = 0 then [] else "." ++ padded 6 m.microsecond
  date ++ "T" ++ time ++ fraction ++ "Z"

def clock (m : Moment) : Text :=
  padded 2 m.hour ++ ":" ++ padded 2 m.minute ++ ":" ++ padded 2 m.second ++ "." ++
    (padded 6 m.microsecond).take 3

end Moment

def lastPart (separator : Char) (t : Text) : Text := ((t.splitOn separator).getLast?).getD []

/-- The line that tells of a failure: its family and what it says, if anything. -/
def failureLine (f : Failure) : Text :=
  let space : Text := if f.kind.isWithin .field then "fhefield.errors." else []
  let family : Text := space ++ f.kind.name
  if f.text.isEmpty then family else family ++ ": " ++ f.text

/-- The extra fields of a record: its own, redacted, and those of the context that it does not have. -/
def extraFields (context : Entries) (e : Event) : Entries :=
  let own : Entries := (e.extra.filter fun f => f.1 ≠ Text.ofString "taskName").map showField
  own ++ context.filter fun c => !Entries.has own c.1

def location (e : Event) : Entries :=
  if e.path.isEmpty then []
  else [("location", .dict [("file", .text (lastPart '/' e.path)), ("line", .int e.line),
    ("function", .ofOption .text e.function)])]

def record (now : Moment) (context : Entries) (e : Event) : Entries :=
  let extra := extraFields context e
  let main : Entries := [("timestamp", .text now.iso), ("level", .text (levelName e.level)),
    ("logger", .text (loggerName e.logger)), ("message", .text e.message)]
  let extra : Entries := if extra.isEmpty then [] else [("extra", .dict extra)]
  let failure : Entries := e.error.toList.map fun f => ("exception", .text (failureLine f))
  main ++ location e ++ extra ++ failure

def structuredText (now : Moment) (context : Entries) (e : Event) : Option Text :=
  match Json.print .tolerant (.dict (record now context e)) with
  | .ok cs => some (Text.ofChars cs)
  | .error _ => none

def colours : List (Text × Text) :=
  [("DEBUG", "\x1b[36m"), ("INFO", "\x1b[32m"), ("WARNING", "\x1b[33m"), ("ERROR", "\x1b[31m"),
    ("CRITICAL", "\x1b[35m")]

def colouredLevel (level : Int) : Text :=
  let name := levelName level
  match Entries.get? colours name with
  | some colour => colour ++ name.padRight 8 ++ "\x1b[0m"
  | none => name.padRight 8

/-- The request that an event belongs to: its own field, or else the context's. -/
def requestId (context : Entries) (e : Event) : Value :=
  let inEvent := (Entries.get? e.extra "request_id").getD .null
  if inEvent.isTruthy then inEvent else (Entries.get? context "request_id").getD .null

/-- A record as a line for people, and a second one for its failure. -/
def readableText (now : Moment) (context : Entries) (e : Event) : Option Text := do
  let request := requestId context e
  let tag : Text ← if request.isTruthy then do
      let shown ← request.display?
      pure ("[" ++ shown.take 8 ++ "] ")
    else pure []
  let name := Text.padRight 15 ((lastPart '.' (loggerName e.logger)).take 15)
  let failure : Text := match e.error with
    | some f => "\n" ++ failureLine f
    | none => []
  return now.clock ++ " " ++ colouredLevel e.level ++ " " ++ name ++ " " ++ tag ++ e.message ++ failure

def Setup.write (s : Setup) (now : Moment) (context : Entries) (e : Event) : Except Failure Text :=
  if !s.records e then .ok []
  else if e.extra.any fun f => ownFields.contains f.1 then .error .missingKey
  else if !isUnderRoot (loggerName e.logger) then .ok []
  else
    let text? := match s.style with
      | .structured => structuredText now context e
      | .readable => readableText now context e
    match text? with
    | some t => .ok (t ++ "\n")
    | none => .ok []

end SealedFields.Log
