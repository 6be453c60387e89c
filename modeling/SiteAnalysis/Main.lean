import SiteAnalysis.CommandLine
import Std.Time.Format
import Std.Time.Zoned

/-! # The program

The part that touches the disk: it reads the files that a run may need, runs, and writes what the
run has changed.  All decisions are those of `CommandLine.run`.
-/

open SiteAnalysis

/-- The text of a file, if it can be read. -/
def readFile? (file : String) : IO (Option (String × String)) := do
  try
    let text ← IO.FS.readFile file
    return some (file, text)
  catch _ => return none

/-- The file with the settings that hold where none are named; empty if there is no place for it. -/
def settingsFile : IO String := do
  match (← IO.getEnv "XDG_CONFIG_HOME").filter (·.startsWith "/"), (← IO.getEnv "HOME") with
  | some home, _ => return Settings.defaultFile home
  | none, some home => return Settings.defaultFile (Path.join home ".config")
  | none, none => return ""

/-- The present time, in the zone of the machine if it is known. -/
def presentTime : IO String := do
  let now ← try Std.Time.DateTime.now
    catch _ => pure (Std.Time.DateTime.ofTimestampWithZone (← Std.Time.Timestamp.now) .UTC)
  return now.format "uuuu-MM-dd'T'HH:mm:ss.SSSSSSSSSxxx"

/-- **Runs the program** on the files named by its arguments.  A file that a run saves and that
cannot be written is left out. -/
def main (args : List String) : IO UInt32 := do
  let defaultFile := ← settingsFile
  let files ← (CommandLine.filesFor defaultFile args).filterMapM readFile?
  let before := CommandLine.withSaveDirectory (.ofFiles files) defaultFile args
  let result := CommandLine.run before defaultFile args (← presentTime)
  for (path, text) in result.folder.changedSince before do
    try IO.FS.writeFile path.toText text catch _ => pure ()
  (← IO.getStdout).putStr result.output
  (← IO.getStderr).putStr result.errors
  return UInt32.ofNat result.code
