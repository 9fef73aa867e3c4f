import AdventureScript.Compile.Gen
import AdventureScript.Script.Checkpoint

/-!
Writing code, with the distance to the stack pointer kept up to date, and taking it back.
-/
namespace AdventureScript
namespace Gen

def modifyScript (f : Script → Script) : Gen Unit :=
  modify fun s => { s with script := f s.script }

def modifyScope (f : Scope → Scope) : Gen Unit :=
  modify fun s => { s with scope := f s.scope }

def codeSize : Gen Nat := do
  return (← get).script.size

def emit (op : Opcode) (operands : List Int32) : Gen Unit :=
  modifyScript (·.write op operands)

def emitRegs (op : Opcode) (regs : List Register) : Gen Unit :=
  modifyScript (·.writeRegs op regs)

def clobberAx : Gen Unit :=
  modify fun s => { s with axClobbered := true }

def litToReg (reg : Register) (value : Int32) : Gen Unit := do
  if reg = .ax then clobberAx
  modifyScript (·.litToReg reg value)

def fixupLast (reference : Reference) : Gen Unit :=
  modify fun s => { s with
    script := s.script.fixupLast reference.kind
    references := s.references.add (s.script.size - 1) reference }

def updateScript {α : Type} (f : Script → α × Script) : Gen α :=
  modifyGet fun s =>
    let (a, script) := f s.script
    (a, { s with script })

def stringToAx (bytes : List UInt8) : Gen Unit := do
  let offset ← updateScript (·.addString bytes)
  litToReg .ax (Int32.ofNat offset)
  fixupLast (.text bytes)

def importToReg (reg : Register) (reference : Reference) (name : String) : Gen Unit := do
  let slot ← updateScript (·.addImport name)
  litToReg reg (Int32.ofNat slot)
  fixupLast reference

def cell : Int32 := cellSize.toInt32

def adjustStack (delta : Int32) : Gen Unit :=
  modifyScope (·.adjust delta)

def pushReg (reg : Register) : Gen Unit := do
  emitRegs .pushReg [reg]
  adjustStack cell

def popReg (reg : Register) : Gen Unit := do
  emitRegs .popReg [reg]
  adjustStack (-cell)

def allocate (bytes : Int32) : Gen Unit := do
  if 0 < bytes then
    emit .add [Register.sp.toWord, bytes]
    adjustStack bytes

def release (bytes : Int32) : Gen Unit := do
  if 0 < bytes then
    emit .sub [Register.sp.toWord, bytes]
    adjustStack (-bytes)

def releaseOnExit (bytes : Int32) : Gen Unit := do
  if 0 < bytes then
    emit .sub [Register.sp.toWord, bytes]

def loadLocal (offset : Int32) : Gen Unit := do
  modify fun s => { s with localUses := s.localUses.add s.script.size offset }
  emit .loadSpOffs [(← get).scope.distance offset]

def markJumpTarget : Gen Unit :=
  modify fun s => { s with jumpTarget := some s.script.size }

def jump (op : Opcode) : Gen PendingJump :=
  updateScript (·.jump op)

def landHere (j : PendingJump) : Gen Unit := do
  if (← codeSize) ≤ j.operand then fail (.outOfRange "code")
  modifyScript (·.landHere j)
  markJumpTarget

def landAllHere (js : Array PendingJump) : Gen Unit := do
  if !js.isEmpty then
    let size ← codeSize
    if js.any (size ≤ ·.operand) then fail (.outOfRange "code")
    modifyScript (·.landAllHere js)
    markJumpTarget

def jumpTo (op : Opcode) (target : Nat) : Gen Unit :=
  modifyScript (·.jumpTo op target)

def isReachable : Gen Bool := do
  return (← get).isReachable

def checkpoint : Gen Checkpoint := do
  return (← get).script.checkpoint

def restore (c : Checkpoint) : Gen Unit :=
  modify fun s => { s with
    script := s.script.restore c
    calls := s.calls.keepBefore c.codeSize
    references := s.references.keepBefore c.codeSize
    localUses := s.localUses.keepBefore c.codeSize
    jumpTarget := s.jumpTarget.filter (· ≤ c.codeSize) }

/-- The state behind a step from `s` to `t` that is only tried: what was written is taken back, and
the rest is as it was. Of the jumps that landed, those at or before the present end are remembered.
-/
def untried (s t : State) : State :=
  { t with
    pos := s.pos
    diagnostics := s.diagnostics
    script := t.script.restore s.script.checkpoint
    scope := t.scope.adjust (s.scope.offset - t.scope.offset)
    calls := t.calls.keepBefore s.script.size
    references := t.references.keepBefore s.script.size
    localUses := t.localUses.keepBefore s.script.size
    jumpTarget := t.jumpTarget.filter (· ≤ s.script.size)
    axClobbered := s.axClobbered
    lastLine := s.lastLine
    callBytes := s.callBytes }

def dryRun {α : Type} (step : Gen α) : Gen (α × Nat) := fun context s =>
  match step context s with
  | .ok (a, t) => .ok ((a, t.pos), untried s t)
  | .error failure => .error { failure with state := untried s failure.state }

def markLine (line : Nat) : Gen Unit := do
  if (← getOptions).lineNumbers && line ≠ (← get).lastLine then
    modifyScript (·.writeLine line)
    modify fun s => { s with lastLine := line }

def forgetLine : Gen Unit :=
  modify fun s => { s with lastLine := 0 }

end Gen
end AdventureScript
