import AdventureScript.Compile.Fault
import AdventureScript.Nesting
import AdventureScript.Options
import AdventureScript.Scope
import AdventureScript.Script.Body
import AdventureScript.Script.Calls
import AdventureScript.Script.Reference

/-!
The code generator's state and its steps. A step walks over the token list, writes to the script and
the symbol table, and either ends with a value or with the one error that stops the compilation.
-/
namespace AdventureScript

structure Context where
  tokens : Stream
  options : Options

structure ExportRequest where
  name : String
  sectionIndex : UInt16
  line : Nat
  deriving DecidableEq, Repr, Inhabited

structure State where
  pos : Nat := 0
  diagnostics : Diagnostics := {}
  script : Script := {}
  symbols : Symbols := {}
  scope : Scope := {}
  nesting : Nesting := []
  calls : PendingCalls := {}
  function? : Option FuncId := none
  lastLine : Nat := 0
  /-- The code position where a jump was last made to land. -/
  jumpTarget : Option Nat := none
  axClobbered : Bool := false
  sectionIndex? : Option UInt16 := none
  exportRequests : Array ExportRequest := #[]
  /-- For the record: what the words with fixups stand for. -/
  references : Marks Reference := {}
  /-- For the record: the instructions that address local variables, with the positions of those.
  -/
  localUses : Marks Int32 := {}
  /-- For the record: the bytes of the local variables declared in the running function. -/
  localBytes : Nat := 0
  /-- For the record: the most bytes that the arguments of a call in it took. -/
  callBytes : Nat := 0
  /-- For the record: the bodies compiled so far. -/
  bodies : Array Body := #[]

/-- Whether control can come to the present end of the code: the code does not leave it, or a jump
lands there. -/
def State.isReachable (s : State) : Bool :=
  !s.script.lastOpcode?.any (·.endsFlow) || s.jumpTarget = some s.script.size

structure Failure where
  error : CompileError
  state : State

abbrev Gen := ReaderT Context (StateT State (Except Failure))

namespace Gen

/-! ## Tokens -/

def tokenAt (i : Nat) : Gen Token := do
  return (← read).tokens.get i

def getPos : Gen Nat := do
  return (← get).pos

def setPos (pos : Nat) : Gen Unit :=
  modify fun s => { s with pos }

def peek : Gen Token := do
  tokenAt (← getPos)

def peekAt (ahead : Nat) : Gen Token := do
  tokenAt ((← getPos) + ahead)

/-- Consumes a token; the end of input stays. -/
def advance : Gen Token := do
  let t ← peek
  if t.kind ≠ .endOfInput then
    modify fun s => { s with pos := s.pos + 1 }
  return t

def checkKind (kind : Token.Kind) : Gen Bool := do
  return (← peek).kind = kind

def check (mark : Symbol) : Gen Bool :=
  checkKind (.symbol mark)

def checkWord (word : Keyword) : Gen Bool :=
  checkKind (.keyword word)

def atEnd : Gen Bool :=
  checkKind .endOfInput

def eatKind (kind : Token.Kind) : Gen Bool := do
  if ← checkKind kind then
    let _ ← advance
    return true
  else
    return false

def eat (mark : Symbol) : Gen Bool :=
  eatKind (.symbol mark)

def eatWord (word : Keyword) : Gen Bool :=
  eatKind (.keyword word)

def findAtDepthZero (start : Nat) (stop : Token.Kind → Bool) : Gen Nat := do
  return (← read).tokens.findAtDepthZero start stop

def tokenCount : Gen Nat := do
  return (← read).tokens.size

def lastToken : Gen Token := do
  tokenAt ((← getPos) - 1)

def currentLine : Gen Nat := do
  return (← lastToken).line

def currentSection : Gen UInt16 := do
  return (← lastToken).sectionIndex

def failAt {α : Type} (fault : Fault) (sectionIndex : UInt16) (line : Nat) : Gen α := do
  let name := (← read).tokens.sectionName sectionIndex
  throw ⟨⟨fault.kind, fault.message, name, line⟩, ← get⟩

def fail {α : Type} (fault : Fault) : Gen α := do
  let t ← lastToken
  failAt fault t.sectionIndex t.line

def warnAt (t : Token) (warning : Warning) : Gen Unit := do
  let name := (← read).tokens.sectionName t.sectionIndex
  modify fun s => { s with diagnostics := s.diagnostics.warn warning.message name t.line }

def warn (warning : Warning) : Gen Unit := do
  warnAt (← lastToken) warning

def orFail {α : Type} (x : Option α) (fault : Fault) : Gen α :=
  match x with
  | some a => pure a
  | none => fail fault

def expectKind (kind : Token.Kind) : Gen Token := do
  if ← checkKind kind then advance
  else fail (.expectedToken kind.text (← peek).quoted)

def expect (mark : Symbol) : Gen Unit := do
  let _ ← expectKind (.symbol mark)

def expectWord (word : Keyword) : Gen Unit := do
  let _ ← expectKind (.keyword word)

def expectIdentifier : Gen String := do
  let t ← peek
  if t.kind = .identifier then
    let _ ← advance
    return t.lexeme
  else
    fail (.expectedIdentifier t.quoted)

inductive Round (σ α : Type) where
  | again (next : σ)
  | done (result : α)

def roundsWithin {σ α : Type} (step : σ → Gen (Round σ α)) : (limit : Nat) → σ → Gen α
  | 0, _ => fail .stalled
  | limit + 1, s => do
    match ← step s with
    | .again next => roundsWithin step limit next
    | .done result => return result

/-- Repeats a step until it is done. Every round but the last consumes a token, so that their number
bounds the rounds. -/
def rounds {σ α : Type} (step : σ → Gen (Round σ α)) (start : σ) : Gen α := do
  roundsWithin step ((← tokenCount) + 1) start

def repeatWhile (step : Gen Bool) : Gen Unit :=
  rounds (fun _ => do return if ← step then .again () else .done ()) ()

def getSymbols : Gen Symbols := do
  return (← get).symbols

def getTypes : Gen TypeTable := do
  return (← get).symbols.types

def modifySymbols (f : Symbols → Symbols) : Gen Unit :=
  modify fun s => { s with symbols := f s.symbols }

def textOf (t : Ty) : Gen String := do
  return t.text (← getTypes)

def getOptions : Gen Options := do
  return (← read).options

def functionAt (id : FuncId) : Gen FuncDef := do
  orFail (← getSymbols).functions[id.index]? (.outOfRange "functions")

def globalAt (id : GlobalId) : Gen GlobalVar := do
  orFail (← getSymbols).globals[id.index]? (.outOfRange "global variables")

def currentFunction? : Gen (Option FuncDef) := do
  match (← get).function? with
  | some id => some <$> functionAt id
  | none => return none

def currentStruct? : Gen (Option TypeId) := do
  return (← currentFunction?).bind (·.structOf)

def hasThis : Gen Bool := do
  return (← currentFunction?).any (·.needsObject)

end Gen
end AdventureScript
