import AdventureScript.Script.Basic

/-!
Checkpoints: how far a script had grown, so that what was written since can be taken back.
-/
namespace AdventureScript

structure Checkpoint where
  codeSize : Nat
  lastOp : Option Nat
  stringBytes : Nat
  imports : Nat
  deriving DecidableEq, Repr, Inhabited

namespace Script

def checkpoint (s : Script) : Checkpoint :=
  ⟨s.size, s.lastOp, s.strings.bytes.size, s.imports.size⟩

def isUnchangedSince (s : Script) (c : Checkpoint) : Bool :=
  s.size = c.codeSize

def restore (s : Script) (c : Checkpoint) : Script :=
  (s.truncate c.codeSize c.lastOp).truncateTables c.stringBytes c.imports

theorem size_restore {s : Script} {c : Checkpoint} :
    (s.restore c).size = min c.codeSize s.size := by
  simp [restore, truncate, truncateTables, size]

end Script
end AdventureScript
