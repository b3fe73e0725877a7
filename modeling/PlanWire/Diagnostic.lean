import PlanWire.Wire.Record

/-!
# Diagnostics

Errors and warnings about a configuration, with the place in its source and
the lines of source around it.
-/

set_option autoImplicit false

namespace PlanWire

namespace Diagnostic

inductive Severity where
  | error
  | warning
  deriving DecidableEq

namespace Severity

def name : Severity → String
  | .error => "error"
  | .warning => "warning"

def codec : Codec Severity :=
  Codec.variant { accepted := [("error", .error), ("warning", .warning)], name := name, other := none }

end Severity

structure Position where
  line : UInt64
  column : UInt64
  byte : UInt64

structure Range where
  filename : String
  start : Position
  stop : Position

structure ExpressionValue where
  traversal : String
  statement : String

structure Snippet where
  context : Option String
  code : String
  startLine : UInt64
  highlightStart : UInt64
  highlightEnd : UInt64
  values : List ExpressionValue

def Position.record : Record Position where
  name := "Pos"
  Parts := _
  fields :=
    .cons (.required "line" Codec.count) <|
    .cons (.required "column" Codec.count) <|
    .cons (.required "byte" Codec.count) .nil
  make := fun (line, column, byte, _) => { line, column, byte }
  parts := fun p => (p.line, p.column, p.byte, ())

def Range.record : Record Range where
  name := "Range"
  Parts := _
  fields :=
    .cons (.required "filename" Codec.text) <|
    .cons (.required "start" Position.record.codec) <|
    .cons (.required "end" Position.record.codec) .nil
  make := fun (filename, start, stop, _) => { filename, start, stop }
  parts := fun r => (r.filename, r.start, r.stop, ())

def ExpressionValue.record : Record ExpressionValue where
  name := "DiagnosticExpressionValue"
  Parts := _
  fields :=
    .cons (.required "traversal" Codec.text) <|
    .cons (.required "statement" Codec.text) .nil
  make := fun (traversal, statement, _) => { traversal, statement }
  parts := fun v => (v.traversal, v.statement, ())

def Snippet.record : Record Snippet where
  name := "DiagnosticSnippet"
  Parts := _
  fields :=
    .cons (.filled "context" Codec.text.optional none) <|
    .cons (.required "code" Codec.text) <|
    .cons (.required "start_line" Codec.count) <|
    .cons (.required "highlight_start_offset" Codec.count) <|
    .cons (.required "highlight_end_offset" Codec.count) <|
    .cons (.filled "values" ExpressionValue.record.codec.list []) .nil
  make := fun (context, code, startLine, highlightStart, highlightEnd, values, _) =>
    { context, code, startLine, highlightStart, highlightEnd, values }
  parts := fun s => (s.context, s.code, s.startLine, s.highlightStart, s.highlightEnd,
    s.values, ())

end Diagnostic

structure Diagnostic where
  severity : Diagnostic.Severity
  summary : String
  detail : String
  range : Option Diagnostic.Range
  snippet : Option Diagnostic.Snippet

def Diagnostic.record : Record Diagnostic where
  name := "Diagnostic"
  Parts := _
  fields :=
    .cons (.required "severity" Severity.codec) <|
    .cons (.required "summary" Codec.text) <|
    .cons (.text "detail") <|
    .cons (.optional "range" Range.record.codec) <|
    .cons (.optional "snippet" Snippet.record.codec) .nil
  make := fun (severity, summary, detail, range, snippet, _) =>
    { severity, summary, detail, range, snippet }
  parts := fun d => (d.severity, d.summary, d.detail, d.range, d.snippet, ())

end PlanWire
