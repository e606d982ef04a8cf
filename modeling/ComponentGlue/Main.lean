import ComponentGlue.Command.Run

set_option autoImplicit false
set_option relaxedAutoImplicit false

namespace ComponentGlue

def FileError.ofSystem : IO.Error → FileError
  | .noFileOrDirectory _ _ _ => .notFound
  | e => .other (toString e)

def attempt {α : Type} (action : IO α) : IO (Except FileError α) := do
  match ← action.toBaseIO with
  | .ok a => return .ok a
  | .error e => return .error (.ofSystem e)

def guarded {α : Type} (p : Path) (action : IO α) : IO (Except FileError α) :=
  if p.text.toList.contains '\x00' then return .error .nulInName else attempt action

def systemDisk : Disk IO where
  read p := guarded p (IO.FS.readFile p.text)
  write p content := guarded p (IO.FS.writeFile p.text content)
  createDirs p := if p.text.isEmpty then return .ok () else guarded p (IO.FS.createDirAll p.text)
  now := IO.monoNanosNow

end ComponentGlue

open ComponentGlue in
def main (arguments : List String) : IO UInt32 := do
  let exit ← Command.runArguments systemDisk arguments
  (← IO.getStdout).putStr exit.regular
  (← IO.getStderr).putStr exit.diagnostic
  return exit.code.toUInt32
