import Valoserveri.Ini
import Valoserveri.Run

/-!
# Start-up

`main` reads the configuration, opens the log and constructs the server. Every value that is missing has
a default, and a file that cannot be opened is an empty one; what is there must be well formed.
-/

namespace Valoserveri

/-- The levels of log messages. -/
inductive LogLevel where
  | Debug
  | Info
  | Warning
  | Error
deriving Repr, DecidableEq

/-- The names of the levels, in the order of `LogLevel`. -/
def levelStrings : List (StdString × LogLevel) :=
  [(lit "debug", .Debug), (lit "info", .Info), (lit "warning", .Warning), (lit "error", .Error)]

/-- `parseLogLevel`. -/
def parseLogLevel (str : StdString) : Except Halt LogLevel :=
  match levelStrings.find? (fun entry => str == entry.1) with
  | some entry => .ok entry.2
  | none => .error (.runtimeError (lit "Bad log level \"" ++ str ++ lit "\""))

/-- The exceptions that end the program before the loop. -/
inductive StartFailure where
  | halt (reason : Halt)
  /-- `std::system_error`. -/
  | systemError (what : StdString)
  /-- `std::bad_alloc`. -/
  | badAlloc
deriving Repr, DecidableEq

/-- The answers of the surroundings before the server is constructed. -/
structure Surroundings where
  /-- Whether the log file can be opened. -/
  fopen : Bool
  /-- What `date::current_zone` and the look at the time in that zone throw, if there is no time zone
      data. -/
  currentZone : Except StartFailure Unit
  /-- Whether there is memory for the given number of lights. -/
  reserve : Nat → Bool

/-- `LoggerImpl`. -/
structure Logger where
  filename : StdString
  level : LogLevel
deriving Repr, DecidableEq

/-- `LoggerImpl::LoggerImpl`. The time is looked up for the first line of the log, whether or not the level
    is one at which that line is written. -/
def Logger.construct (config : Config) (around : Surroundings) : Except StartFailure Logger :=
  let filename := config.get (lit "logging") (lit "file") (lit "valoserveri.log")
  match parseLogLevel (config.get (lit "logging") (lit "level") (lit "error")) with
  | .error reason => .error (.halt reason)
  | .ok level =>
    if around.fopen then around.currentZone.bind fun _ => .ok { filename, level }
    else .error (.systemError (lit "Failed to open log file " ++ filename))

/-- `main`, up to the loop of the server. The first thing that its constructor does is to look up the
    number of the lights and to reserve memory for them. -/
def start (file : Option StdString) (around : Surroundings) (boot : Boot) : Except StartFailure World :=
  match Config.construct file with
  | .error reason => .error (.halt reason)
  | .ok config =>
    (Logger.construct config around).bind fun _ =>
      match config.getUnsigned (lit "global") (lit "lights") 0 with
      | .error reason => .error (.halt reason)
      | .ok numLights =>
        if around.reserve numLights then (World.construct config boot).mapError .halt
        else .error .badAlloc

/-! ## What the configuration must be like -/

end Valoserveri
