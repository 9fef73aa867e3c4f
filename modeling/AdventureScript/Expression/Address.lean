import AdventureScript.Compile.Emit
import AdventureScript.Expression.Operand
import AdventureScript.Types.Conversion

/-!
Addresses: bringing the address of a place into MAR, and from there its value into AX or back.
-/
namespace AdventureScript.Gen

def addToMar (bytes : Int32) : Gen Unit := do
  if bytes ≠ 0 then
    emit .add [Register.mar.toWord, bytes]

def loadAddress (place : Place) : Gen Unit := do
  let component := place.component.toInt32
  match place.anchor with
  | .global offset =>
    litToReg .mar (offset.toInt32 + component)
    fixupLast .data
  | .local offset => loadLocal (offset + component)
  | .imported id =>
    importToReg .mar (.variable id) (← globalAt id).name
    addToMar component
  | .this =>
    emitRegs .regToReg [.op, .mar]
    emit .checkNull []
    addToMar component
  | .mar => addToMar component

def readAx (ty : Ty) : Gen Unit := do
  emitRegs (ty.readOpcode (← getTypes)) [.ax]

def writeAx (ty : Ty) : Gen Unit := do
  emitRegs (ty.writeOpcode (← getTypes)) [.ax]

/-- Copies the text at AX into the buffer at MAR, byte by byte up to and including the zero. A text
that is too long for a buffer is cut. -/
def copyString : Gen Unit := do
  emitRegs .regToReg [.ax, .bx]
  emitRegs .regToReg [.mar, .cx]
  litToReg .dx (oldStringSize.toInt32 - 1)
  let loop ← codeSize
  emitRegs .regToReg [.bx, .mar]
  emitRegs .memReadB [.ax]
  emitRegs .regToReg [.cx, .mar]
  emitRegs .memWriteB [.ax]
  let done ← jump .jz
  emit .add [Register.bx.toWord, 1]
  emit .add [Register.cx.toWord, 1]
  emit .sub [Register.dx.toWord, 1]
  emitRegs .regToReg [.dx, .ax]
  jumpTo .jnz loop
  -- The buffer is full, and AX is zero now.
  emitRegs .regToReg [.cx, .mar]
  emitRegs .memWriteB [.ax]
  landHere done
  clobberAx

end AdventureScript.Gen
