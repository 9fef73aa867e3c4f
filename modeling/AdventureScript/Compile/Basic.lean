import AdventureScript.Declaration.Basic
import AdventureScript.Scan.Basic

/-!
Compiling source text. A compilation ends with a script or with one error, and with what was
reported on the way.
-/
namespace AdventureScript

structure Compilation where
  result : Except CompileError Script
  diagnostics : Diagnostics

def Compilation.failed (error : CompileError) (diagnostics : Diagnostics) : Compilation :=
  ⟨.error error, diagnostics.fail error.message error.sectionName error.line⟩

def compileTokens (tokens : Stream) (options : Options) : Compilation :=
  match Gen.compileProgram { tokens, options } {} with
  | .ok (_, state) => ⟨.ok state.script, state.diagnostics⟩
  | .error failure => .failed failure.error failure.state.diagnostics

def compile (source : String) (options : Options) : Compilation :=
  match Scan.tokens source with
  | .ok tokens => compileTokens tokens options
  | .error error => .failed error {}

structure SourceSection where
  name : String
  source : String
  deriving DecidableEq, Repr, Inhabited

def SourceSection.text (s : SourceSection) : String :=
  "\"" ++ Scan.markerStart ++ s.name ++ "\"\n" ++ s.source ++ "\n"

def compileSections (sections : List SourceSection) (options : Options) : Compilation :=
  compile (String.join (sections.map SourceSection.text)) options

end AdventureScript
