import PlanWire.Dump

/-!
# The dump command

Reads the file, prints the outcome and sets the exit status: 0 for an output,
1 for a document that cannot be dumped, 2 for bad arguments.
-/

set_option autoImplicit false

namespace PlanWire.Dump

def usage : String :=
  "usage: planwire [--kind KIND] [--strict] [--sanitize] [--placeholder TEXT] [--diff] " ++
    "[--log-level LEVEL] FILE"

def readFault : IO.Error → ReadFault
  | .inappropriateType _ code _ => if code = 21 then .directory else .notDirectory
  | _ => .missing

def contents (file : String) : IO (Except ReadFault (List UInt8)) := do
  try
    return .ok (← IO.FS.readBinFile file).toList
  catch e => return .error (readFault e)

def report (o : Options) (bytes : List UInt8) (output : String) : IO Unit := do
  if o.diff then
    if sameAsFile output bytes then IO.eprintln "[no diff]"
    else IO.println ("the output differs from " ++ o.file)
  else IO.print output

end PlanWire.Dump

open PlanWire.Dump in
def main (arguments : List String) : IO UInt32 := do
  match parse arguments with
  | none =>
    IO.eprintln usage
    return 2
  | some o =>
    let read ← contents o.file
    match run o read with
    | .error failure =>
      IO.eprintln failure.message
      return 1
    | .ok output =>
      report o (read.toOption.getD []) output
      return 0
