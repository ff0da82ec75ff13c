import Soql.Report

/-!
# Reports as text

The form of a report that is meant for people.
-/

namespace Soql

/-- A number at the right end of four places. -/
def padded (n : Nat) : String :=
  let digits := toString n
  String.ofList (List.replicate (4 - digits.length) ' ') ++ digits

/-- The diagnostics after a blank line, if there are any. -/
def diagnosticLines (ds : List Diagnostic) : List String :=
  if ds.isEmpty then []
  else "" :: ("Diagnostics (" ++ toString ds.length ++ "):") :: ds.map ("  " ++ ·.text)

def CheckReport.table (r : CheckReport) : String :=
  "\n".intercalate
    (["Check: " ++ r.manifest, "",
      "  Objects:   " ++ padded r.objects,
      "  Fields:    " ++ padded r.fields,
      "  Errors:    " ++ padded r.summary.errors,
      "  Warnings:  " ++ padded r.summary.warnings] ++ diagnosticLines r.diagnostics)

def Compiled.lines (c : Compiled) : List String :=
  [c.className ++ " [" ++ c.key ++ "]",
    match c.verdict with
    | .query text _ => "  " ++ text
    | .failed d => "  FAILED " ++ d.text]

def CompileReport.table (r : CompileReport) : String :=
  "\n".intercalate
    (["Compile: " ++ r.manifest, ""] ++
      (if r.compiled.isEmpty then ["No queries compiled."] else r.compiled.flatMap (·.lines)) ++
      ["", "Errors: " ++ toString r.summary.errors ++ ", Warnings: " ++ toString r.summary.warnings] ++
      diagnosticLines r.diagnostics)

end Soql
