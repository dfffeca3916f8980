import RouteVolume.Command.Session
import Std.Time.Zoned

namespace RouteVolume

/-- A refusal by its number, in the words of this library where it has them. Some system calls give
the number with a minus sign. -/
def refusalOf (number : UInt32) (words : String) : Refusal :=
  let number := number.toInt32.toInt.natAbs
  (Refusal.all.find? (·.number = number)).getD ⟨number, words⟩

def refusalOfError : IO.Error → Refusal
  | .permissionDenied _ number words | .noFileOrDirectory _ number words
  | .inappropriateType _ number words | .invalidArgument _ number words
  | .resourceExhausted _ number words | .noSuchThing _ number words
  | .alreadyExists _ number words => refusalOf number words
  | .otherError number words | .hardwareFault number words | .resourceBusy number words
  | .resourceVanished number words | .unsupportedOperation number words
  | .timeExpired number words | .illegalOperation number words
  | .protocolError number words | .unsatisfiedConstraints number words
  | .interrupted _ number words => refusalOf number words
  | .unexpectedEof => ⟨5, "Input/output error"⟩
  | .userError words => ⟨5, words⟩

def contentOnDisk (path : Path) : IO Content := do
  if path.text.contains '\x00' then return .error .zeroByte
  match ← (System.mkFilePath [path.text]).metadata.toBaseIO with
  | .error e => return .error (.lookUp (refusalOfError e))
  | .ok status =>
    if status.type != .file then return .error .irregular
    match ← (IO.FS.readBinFile path.text).toBaseIO with
    | .error e => return .error (.opening (refusalOfError e))
    | .ok bytes => return .ok bytes.toList

/-- The home of the first user whose entry passes a test. -/
def homeWhere (isMeant : List String → Bool) : IO (Option String) := do
  match ← (IO.FS.readFile "/etc/passwd").toBaseIO with
  | .error _ => return none
  | .ok text =>
    let entries := (text.splitOn "\n").map (·.splitOn ":")
    return (entries.find? isMeant).bind (·[5]?)

def ownNumber : IO String := do
  match ← (IO.FS.readFile "/proc/self/status").toBaseIO with
  | .error _ => return ""
  | .ok text =>
    let line := (text.splitOn "\n").find? ("Uid:".isPrefixOf ·)
    return ((line.getD "").splitOn "\t").getD 1 ""

def homeOnDisk (user : String) : IO (Option String) := do
  if !user.isEmpty then return ← homeWhere (·.head? = some user)
  match ← IO.getEnv "HOME" with
  | some home => return some home
  | none =>
    let number ← ownNumber
    homeWhere (·[2]? = some number)

/-- Is colour wanted? The environment can forbid or force it; otherwise a terminal shows it. -/
def colourWanted : IO Bool := do
  if (← IO.getEnv "NO_COLOR").isSome then return false
  if (← IO.getEnv "FORCE_COLOR").isSome then return true
  if (← IO.getEnv "TERM") = some "dumb" then return false
  (← IO.getStdout).isTty

def twoDigits (n : Int) : String :=
  let text := toString n
  if text.length < 2 then "0" ++ text else text

def timeOfDay : IO String := do
  let time ← Std.Time.PlainTime.now
  let parts := [time.hour.val, time.minute.val, time.second.val]
  return ":".intercalate (parts.map twoDigits)

end RouteVolume

open RouteVolume in
def main (args : List String) : IO UInt32 := do
  let began ← IO.monoNanosNow
  let outcome ← Session.run ⟨homeOnDisk, contentOnDisk⟩ .late (← colourWanted) args
  let ended ← IO.monoNanosNow
  let clock ← timeOfDay
  let fill := Piece.fill clock (toString ((ended - began + 500) / 1000))
  let out ← IO.getStdout
  let err ← IO.getStderr
  err.putStr (fill outcome.err)
  out.putStr (fill outcome.out)
  out.flush
  match outcome.finish with
  | .code n | .early n => return n.toUInt32
  | .fault f =>
    err.putStrLn f.message
    return 1
  | .file path fault =>
    err.putStrLn (fault.message path)
    return 1
