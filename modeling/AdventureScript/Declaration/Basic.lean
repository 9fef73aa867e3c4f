import AdventureScript.Declaration.Enum
import AdventureScript.Declaration.Export
import AdventureScript.Declaration.Function
import AdventureScript.Declaration.Struct
import AdventureScript.Declaration.Variable

/-!
Declarations, and programs as sequences of them.
-/
namespace AdventureScript.Gen

def compileTyped (q : Qualifiers) : Gen Unit := do
  let base ← parseType (q.has .kwConst)
  let closed ← rounds (fun _ => do
    let name ← expectIdentifier
    if ← eat .colonColon then
      let member ← expectIdentifier
      compileFunction q base member (some (← structNamed name))
      return .done true
    if ← check .leftParen then
      compileFunction q base name none
      return .done true
    if q.has .kwNoloopcheck then fail .noLoopCheckVariable
    declareGlobal q (← arraySuffix base (some name)) name
    return if ← eat .comma then .again () else .done false) ()
  if !closed then expect .semicolon

def compileQualified (q : Qualifiers) : Gen Unit := do
  if ← checkWord .kwStruct then
    compileStruct q
  else
    if let some word := q.structOnly? then fail (.onlyOnStruct word.spelling)
    if let some word := q.memberOnly? then fail (.onlyInStruct word.spelling)
    if ← checkWord .kwEnum then compileEnum q
    else if ← checkWord .kwExport then compileExport q
    else compileTyped q

def compileDeclaration : Gen Unit := do
  if !(← eat .semicolon) then
    compileQualified (← qualifiers)

def noteSection : Gen Unit := do
  let index := (← peek).sectionIndex
  if (← get).sectionIndex? ≠ some index then
    let name := (← read).tokens.sectionName index
    modify fun s => { s with sectionIndex? := some index, script := s.script.startSection name }

def finish : Gen Unit := do
  let s ← get
  if let some callee := s.calls.firstUnresolved? then
    let f ← functionAt callee
    failAt (.neverDefined f.name) f.sectionIndex f.line
  if (← getOptions).exportAll then exportFunctions
  s.exportRequests.forM exportRequested

def compileDeclarations : Gen Unit :=
  repeatWhile do
    if ← atEnd then return false
    noteSection
    compileDeclaration
    return true

def compileProgram : Gen Unit := do
  compileDeclarations
  finish

end AdventureScript.Gen
