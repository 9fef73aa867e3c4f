import AdventureScript.Statement.Loop

/-!
Switches. The value is kept in BX, and a jump leads over the clauses, which are compiled in order,
to the comparisons behind them.
-/
namespace AdventureScript

structure ChunkMarks where
  calls : Array (Mark FuncId)
  references : Array (Mark Reference)
  localUses : Array (Mark Int32)
  deriving DecidableEq, Repr

inductive CaseValue where
  | const (value : Constant)
  | code (chunk : Chunk) (marks : ChunkMarks)
  deriving DecidableEq, Repr

structure Case where
  value : CaseValue
  body : Nat
  line : Nat
  deriving DecidableEq, Repr

structure Clauses where
  cases : Array Case := #[]
  default? : Option Nat := none
  start? : Option Nat := none
  deriving DecidableEq, Repr

namespace Clauses

def isEmpty (c : Clauses) : Bool :=
  c.cases.isEmpty && c.default?.isNone

def hasConst (c : Clauses) (value : Constant) : Bool :=
  c.cases.any (·.value = .const value)

end Clauses

namespace Gen

/-! ## Labels -/

def warnFallThrough (label : Token) (clauses : Clauses) : Gen Unit := do
  let s ← get
  let hasCode := clauses.start?.any (· < s.script.size)
  if s.isReachable && hasCode && s.nesting.switch? = some false then warnAt label .fallsThrough

def startClause : Gen Nat := do
  markJumpTarget
  modify fun s => { s with nesting := s.nesting.markSwitch false }
  codeSize

def cutCode (start line : Nat) : Gen CaseValue := do
  let s ← get
  match s.script.yank start line with
  | .error e => fail (.script e)
  | .ok (chunk, script) =>
    let (calls, keptCalls) := s.calls.yank start
    let (references, keptReferences) := s.references.yank start
    let (localUses, keptUses) := s.localUses.yank start
    set { s with
      script, calls := keptCalls, references := keptReferences, localUses := keptUses }
    return .code chunk { calls, references, localUses }

def caseValue (start line : Nat) (ty : Ty) : Gen CaseValue := do
  let o ← expression
  match o.constant? with
  | some value =>
    if !o.ty.convertsTo ty (← getTypes) then fail (.caseType value.text (← textOf ty))
    return .const value
  | none =>
    convertAx (← toAx o) ty
    cutCode start line

def atStackOffset {α : Type} (offset : Int32) (step : Gen α) : Gen α := do
  let saved := (← get).scope.offset
  modifyScope fun s => { s with offset }
  let a ← step
  modifyScope fun s => { s with offset := saved }
  return a

def checkCase (value : CaseValue) (clauses : Clauses) : Gen Unit := do
  if let .const v := value then
    if clauses.hasConst v then fail (.caseTwice v.text)

/-- A case label. -/
def compileCase (ty : Ty) (offset : Int32) (clauses : Clauses) : Gen Clauses := do
  let label ← advance
  warnFallThrough label clauses
  if ← check .colon then fail .emptyCase
  let value ← atStackOffset (offset + cell) do caseValue (← codeSize) label.line ty
  checkCase value clauses
  expect .colon
  let body ← startClause
  return { clauses with
    cases := clauses.cases.push { value, body, line := label.line }
    start? := some body }

def compileDefault (clauses : Clauses) : Gen Clauses := do
  let label ← advance
  warnFallThrough label clauses
  if clauses.default?.isSome then fail .defaultTwice
  expect .colon
  let body ← startClause
  return { clauses with default? := some body, start? := some body }

/-! ## Body -/

def compileClauseStatement (statement : Gen Unit) (clauses : Clauses) : Gen Unit := do
  if clauses.isEmpty then fail (.expectedCase (← peek).quoted)
  -- A label behind the declaration could be reached without it.
  if ← atDeclaration then fail .declarationInSwitch
  statement

def compileClauses (statement : Gen Unit) (ty : Ty) (offset : Int32) : Gen Clauses :=
  rounds (fun clauses => do
    match (← peek).kind with
    | .keyword .kwCase => return .again (← compileCase ty offset clauses)
    | .keyword .kwDefault => return .again (← compileDefault clauses)
    | .symbol .rightBrace => return .done clauses
    | .endOfInput => fail .endInSwitch
    | _ =>
      compileClauseStatement statement clauses
      return .again clauses) {}

def putCode (chunk : Chunk) (marks : ChunkMarks) : Gen Unit := do
  let base ← updateScript (·.writeChunk chunk)
  modify fun s => { s with
    calls := s.calls.putBack base marks.calls
    references := s.references.putBack base marks.references
    localUses := s.localUses.putBack base marks.localUses }

def caseToAx : CaseValue → Gen Unit
  | .const value => litToReg .ax value.toWord
  | .code chunk marks => do
    pushReg .bx
    putCode chunk marks
    popReg .bx

def compileComparison (compare : Opcode) (c : Case) : Gen Unit := do
  forgetLine
  markLine c.line
  caseToAx c.value
  emitRegs compare [.ax, .bx]
  jumpTo .jnz c.body

def compileComparisons (ty : Ty) (clauses : Clauses) : Gen Unit := do
  let compare := if ty.isAnyString (← getTypes) then Opcode.stringsEqual else .isEqual
  clauses.cases.forM (compileComparison compare)
  if let some body := clauses.default? then jumpTo .jmp body

def switchValue : Gen Ty := do
  expect .leftParen
  let ty ← expressionToAx
  if !(ty.isInteger || ty.isAnyString (← getTypes)) then fail (.switchType (← textOf ty))
  expect .rightParen
  return ty

def switchHead : Gen (Ty × PendingJump) := do
  let _ ← advance
  let ty ← switchValue
  emitRegs .regToReg [.ax, .bx]
  let toCompare ← jump .jmp
  expect .leftBrace
  return (ty, toCompare)

def switchBody (statement : Gen Unit) (ty : Ty) (depth : Nat) : Gen (Clauses × Frame) := do
  enterBlock
  let offset := (← get).scope.offset
  within (.switch false) depth do
    let clauses ← compileClauses statement ty offset
    let _ ← advance
    exitBlock
    return clauses

def switchEnd (ty : Ty) (clauses : Clauses) (frame : Frame) (toCompare : PendingJump) :
    Gen Unit := do
  let toEnd ← skipNext
  landHere toCompare
  compileComparisons ty clauses
  landAllHere (frame.breaks ++ toEnd.toArray)

def compileSwitch (statement : Gen Unit) : Gen Unit := do
  let before ← checkpoint
  let depth := (← get).scope.depth
  let (ty, toCompare) ← switchHead
  let (clauses, frame) ← switchBody statement ty depth
  if clauses.isEmpty then restore before
  else switchEnd ty clauses frame toCompare

end Gen
end AdventureScript
