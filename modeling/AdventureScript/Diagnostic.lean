/-!
Messages of a compilation: warnings as they are found and, when it fails, the fatal error as the
last one.
-/
namespace AdventureScript

inductive Severity where
  | error
  | warning
  | info
  deriving DecidableEq, Repr, Inhabited

def Severity.text : Severity → String
  | .error => "error"
  | .warning => "warning"
  | .info => "info"

structure Diagnostic where
  severity : Severity
  message : String
  sectionName : String
  line : Nat
  deriving DecidableEq, Repr, Inhabited

def Diagnostic.text (d : Diagnostic) : String :=
  s!"{d.sectionName}:{d.line}: {d.severity.text}: {d.message}"

structure Diagnostics where
  entries : Array Diagnostic := #[]
  deriving DecidableEq, Repr, Inhabited

namespace Diagnostics

def empty : Diagnostics := {}

def add (ds : Diagnostics) (d : Diagnostic) : Diagnostics :=
  ⟨ds.entries.push d⟩

def warn (ds : Diagnostics) (message sectionName : String) (line : Nat) : Diagnostics :=
  ds.add ⟨.warning, message, sectionName, line⟩

def fail (ds : Diagnostics) (message sectionName : String) (line : Nat) : Diagnostics :=
  ds.add ⟨.error, message, sectionName, line⟩

def toList (ds : Diagnostics) : List Diagnostic :=
  ds.entries.toList

def size (ds : Diagnostics) : Nat :=
  ds.entries.size

def isEmpty (ds : Diagnostics) : Bool :=
  ds.entries.isEmpty

def errors (ds : Diagnostics) : List Diagnostic :=
  ds.toList.filter (·.severity = .error)

def warnings (ds : Diagnostics) : List Diagnostic :=
  ds.toList.filter (·.severity = .warning)

def hasErrors (ds : Diagnostics) : Bool :=
  !ds.errors.isEmpty

def hasWarnings (ds : Diagnostics) : Bool :=
  !ds.warnings.isEmpty

def text (ds : Diagnostics) : String :=
  String.join (ds.toList.map fun d => d.text ++ "\n")

end Diagnostics

inductive ErrorKind where
  | lexical | syntactic | semantic
  | internal
  deriving DecidableEq, Repr, Inhabited

structure CompileError where
  kind : ErrorKind
  message : String
  sectionName : String
  line : Nat
  deriving DecidableEq, Repr, Inhabited

def CompileError.text (e : CompileError) : String :=
  s!"{e.sectionName}:{e.line}: {e.message}"

end AdventureScript
