import TreeCompiler.CommandLine.Run

/-!
# The program

The command line on the files of the system.
-/

namespace TreeCompiler

/-- The words of the system for an error. -/
def systemMessage (e : IO.Error) : String :=
  let text (code : UInt32) (details : String) : String :=
    details ++ " (os error " ++ toString code.toNat ++ ")"
  match e with
  | .noFileOrDirectory _ code details | .inappropriateType (some _) code details
  | .permissionDenied (some _) code details | .alreadyExists (some _) code details =>
    text code details
  | .inappropriateType none code details | .permissionDenied none code details
  | .alreadyExists none code details | .otherError code details
  | .resourceBusy code details | .hardwareFault code details | .illegalOperation code details =>
    text code details
  | e => toString e

/-- Whether an error means that a file is there but cannot be read. -/
def meansUnreadable (e : IO.Error) : Bool :=
  match e with
  | .inappropriateType _ _ _ => true
  | _ => false

/-- How a command reaches the files of the system. -/
def systemAccess : CommandLine.FileAccess IO where
  read path := do
    match ← (IO.FS.readBinFile path).toBaseIO with
    | .ok bytes => return .content bytes.toList
    | .error e => return if meansUnreadable e then .unreadable else .missing (systemMessage e)
  write path content := do
    match ← (IO.FS.writeFile path content).toBaseIO with
    | .ok () => return .ok ()
    | .error e => return .error (systemMessage e)

end TreeCompiler

/-- Runs a command and ends with its status. -/
def main (arguments : List String) : IO UInt32 := do
  let outcome ← TreeCompiler.CommandLine.run TreeCompiler.systemAccess arguments
  IO.print outcome.stdout
  IO.eprint outcome.stderr
  return outcome.exitCode.toUInt32
