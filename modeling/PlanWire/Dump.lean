import PlanWire.Document.Basic

/-!
# Dumping a document

The command reads a file, decodes the document in it, redacts it if asked to,
and writes it back in pretty form. `parse` reads the arguments; each option is
given once at most, and exactly one file is named. `run` is the command on the
contents of the file.
-/

set_option autoImplicit false

namespace PlanWire.Dump

structure Options where
  file : String
  kind : DocumentKind
  strict : Bool
  sanitize : Bool
  placeholder : String
  /-- Compare the output with the file instead of writing it. -/
  diff : Bool

structure Given where
  file : Option String := none
  kind : Option DocumentKind := none
  strict : Bool := false
  sanitize : Bool := false
  placeholder : Option String := none
  diff : Bool := false
  logLevel : Option String := none

def kind? : String → Option DocumentKind
  | "plan" => some .plan
  | "state" => some .state
  | "schemas" => some .providerSchemas
  | "functions" => some .metadataFunctions
  | "validate" => some .validationReport
  | "version" => some .versionReport
  | _ => none

def logLevels : List String := ["trace", "debug", "info", "warn", "error"]

namespace Given

def setFile (g : Given) (file : String) : Option Given :=
  if g.file.isSome || file.isEmpty then none else some { g with file := some file }

def setKind (g : Given) (name : String) : Option Given := do
  let kind ← kind? name
  if g.kind.isSome then none else some { g with kind := some kind }

def setPlaceholder (g : Given) (text : String) : Option Given :=
  if g.placeholder.isSome then none else some { g with placeholder := some text }

def setLogLevel (g : Given) (name : String) : Option Given :=
  if g.logLevel.isSome || !logLevels.contains name then none
  else some { g with logLevel := some name }

def setFlag (g : Given) : String → Option Given
  | "strict" => if g.strict then none else some { g with strict := true }
  | "sanitize" => if g.sanitize then none else some { g with sanitize := true }
  | "diff" => if g.diff then none else some { g with diff := true }
  | _ => none

def setOption? : String → Option (Given → String → Option Given)
  | "kind" => some setKind
  | "placeholder" => some setPlaceholder
  | "log-level" => some setLogLevel
  | _ => none

end Given

/-- Whether an argument can be the value of the option before it. -/
def isValue (argument : String) : Bool :=
  match argument.toList with
  | ['-'] => true
  | '-' :: _ => false
  | _ => true

def parseFiles : List String → Given → Option Given
  | [], g => some g
  | file :: rest, g => do parseFiles rest (← g.setFile file)

/-- The name of a long option, and its value if one is attached to it. -/
def splitLong (cs : List Char) : String × Option String :=
  match Text.cut '=' cs with
  | (name, value) => (String.ofList name, value.map String.ofList)

/-- The value attached to a short option; an equals sign may stand before it. -/
def attached : List Char → String
  | '=' :: value => String.ofList value
  | value => String.ofList value

def parseArguments : List String → Given → Option Given
  | [], g => some g
  | argument :: rest, g =>
    match argument.toList with
    | ['-', '-'] => parseFiles rest g
    | '-' :: '-' :: cs =>
      match splitLong cs with
      | (name, none) =>
        match Given.setOption? name with
        | none => do parseArguments rest (← g.setFlag name)
        | some set =>
          match rest with
          | value :: rest => if isValue value then do parseArguments rest (← set g value) else none
          | [] => none
      | (name, some value) => do parseArguments rest (← (← Given.setOption? name) g value)
    | ['-', 'k'] =>
      match rest with
      | value :: rest => if isValue value then do parseArguments rest (← g.setKind value) else none
      | [] => none
    | '-' :: 'k' :: value => do parseArguments rest (← g.setKind (attached value))
    | ['-'] => do parseArguments rest (← g.setFile argument)
    | '-' :: _ => none
    | _ => do parseArguments rest (← g.setFile argument)

def defaultPlaceholder : String := "REDACTED_SENSITIVE"

def parse (arguments : List String) : Option Options := do
  let g ← parseArguments arguments {}
  return {
    file := ← g.file
    kind := g.kind.getD .plan
    strict := g.strict
    sanitize := g.sanitize
    placeholder := g.placeholder.getD defaultPlaceholder
    diff := g.diff }

inductive Activity where
  | decoding
  | sanitizing
  deriving DecidableEq

def Activity.describe : Activity → DocumentKind → String
  | .decoding, kind => "decoding " ++ kind.name ++ " input"
  | .sanitizing, kind => "sanitizing " ++ kind.name

/-- Why a file cannot be read. -/
inductive ReadFault where
  | missing
  | directory
  /-- The name leads through a file as if that were a directory. -/
  | notDirectory
  deriving DecidableEq

def ReadFault.code : ReadFault → Nat
  | .missing => 2
  | .directory => 21
  | .notDirectory => 20

def ReadFault.describe : ReadFault → String
  | .missing => "No such file or directory"
  | .directory => "Is a directory"
  | .notDirectory => "Not a directory"

def ReadFault.message (f : ReadFault) : String :=
  f.describe ++ " (os error " ++ toString f.code ++ ")"

inductive Failure where
  | unreadable (file : String) (fault : ReadFault)
  | failed (activity : Activity) (kind : DocumentKind) (error : Error)

/-- The messages of an error and of what it comes from. A fault of shape is
its own origin. -/
def causes : Error → List String
  | .schemaViolation (.shape fault) => [fault.message, fault.message]
  | e => [e.message]

def Failure.message : Failure → String
  | .unreadable file fault => "reading " ++ file ++ ": " ++ fault.message
  | .failed activity kind error => String.intercalate ": " (activity.describe kind :: causes error)

def prepared (o : Options) (d : Document) : Except Error Document :=
  if o.sanitize then d.redact (Redact.Policy.constant (.str o.placeholder)).apply else .ok d

def document (o : Options) (decoded : Except Error Document) : Except Failure Document := do
  let d ← decoded.mapError (.failed .decoding o.kind)
  (prepared o d).mapError (.failed .sanitizing o.kind)

def ofJson (o : Options) (j : Json) : Except Failure Document :=
  document o (Document.ofJson o.strict j o.kind)

def ofBytes (o : Options) (bytes : List UInt8) : Except Failure Document :=
  document o (Document.ofBytes o.strict bytes o.kind)

def run (o : Options) : Except ReadFault (List UInt8) → Except Failure String
  | .error fault => .error (.unreadable o.file fault)
  | .ok bytes => do return (← ofBytes o bytes).encode.pretty ++ "\n"

def sameAsFile (output : String) (bytes : List UInt8) : Bool :=
  Text.Utf8.encode output.toList == bytes

end PlanWire.Dump
