import AdventureScript.Compile.Emit
import AdventureScript.Declaration.Qualifier

/-!
Exports. The names of an export list are looked up when the whole program has been compiled, so that
they may be declared later.
-/
namespace AdventureScript.Gen

def compileExport (q : Qualifiers) : Gen Unit := do
  if !q.isEmpty then fail .qualifiedExport
  let _ ← advance
  repeatWhile do
    let t ← peek
    let name ← expectIdentifier
    modify fun s => { s with
      exportRequests := s.exportRequests.push ⟨name, t.sectionIndex, t.line⟩ }
    eat .comma
  expect .semicolon

def publish (name : String) (tag offset : UInt32) (sectionIndex : UInt16) (line : Nat) :
    Gen Unit := do
  match (← get).script.addExport name tag offset with
  | .ok script => modify fun s => { s with script }
  | .error e => failAt (.script e) sectionIndex line

def exportFunctions : Gen Unit := do
  (← getSymbols).functions.forM fun f => do
    if f.hasBody then
      if let some offset := f.codeOffset then
        publish f.exportName exportFunction offset.toUInt32 f.sectionIndex f.line

def exported (symbols : Symbols) (name : String) : Except Fault (String × UInt32 × UInt32) :=
  match symbols.find? name with
  | some (.function id) =>
    match symbols.functions[id.index]? with
    | none => .error (.outOfRange "functions")
    | some f =>
      match f.hasBody, f.codeOffset with
      | true, some offset => .ok (f.exportName, exportFunction, offset.toUInt32)
      | _, _ => .error (.exportWithoutBody name)
  | some (.variable id) =>
    match symbols.globals[id.index]? with
    | none => .error (.outOfRange "global variables")
    | some v =>
      if v.isImport then .error (.exportOfImport name) else .ok (name, exportData, v.offset)
  | some _ => .error (.exportOfOther name)
  | none => .error (.undeclared name)

def exportRequested (r : ExportRequest) : Gen Unit := do
  match exported (← getSymbols) r.name with
  | .ok (name, tag, offset) => publish name tag offset r.sectionIndex r.line
  | .error fault => failAt fault r.sectionIndex r.line

end AdventureScript.Gen
