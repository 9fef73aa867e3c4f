import AdventureScript.Compile.Emit
import AdventureScript.Types.Handles

/-!
Leaving blocks: the handles of their variables are released and the stack is given back.
-/
namespace AdventureScript.Gen

def releaseHandles (depth : Nat) : Gen Bool := do
  let types ← getTypes
  let slots := ((← get).scope.varsFrom depth).flatMap fun v =>
    (v.ty.handleSlots types).map (v.offset + ·)
  slots.forM fun slot => do
    loadLocal slot
    emit .memZeroPtr []
  return !slots.isEmpty

def enterBlock : Gen Unit :=
  modifyScope Scope.enter

/-- Closes the innermost block. -/
def exitBlock : Gen Unit := do
  let scope := (← get).scope
  let size := scope.sizeFrom scope.depth
  if ← isReachable then
    let _ ← releaseHandles scope.depth
    release size
  else
    adjustStack (-size)
  modifyScope fun s => s.leave.2

def leaveTo (depth : Nat) : Gen Unit := do
  let _ ← releaseHandles (depth + 1)
  releaseOnExit ((← get).scope.sizeFrom (depth + 1))

end AdventureScript.Gen
