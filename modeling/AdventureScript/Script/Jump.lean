import AdventureScript.Script.Basic

/-!
Jumps. A jump's operand counts from the instruction after it.
-/
namespace AdventureScript

def jumpDistance (operand target : Nat) : Int32 :=
  Int32.ofInt ((target : Int) - (operand + 1))

structure PendingJump where
  operand : Nat
  deriving DecidableEq, Repr, Inhabited

namespace Script

def jump (s : Script) (op : Opcode) : PendingJump × Script :=
  let s := s.write op [0]
  (⟨s.size - 1⟩, s)

def land (s : Script) (j : PendingJump) (target : Nat) : Script :=
  s.patch j.operand (jumpDistance j.operand target)

def landHere (s : Script) (j : PendingJump) : Script :=
  s.land j s.size

def jumpTo (s : Script) (op : Opcode) (target : Nat) : Script :=
  s.write op [jumpDistance (s.size + 1) target]

def landAllHere (s : Script) (js : Array PendingJump) : Script :=
  js.foldl landHere s

@[simp] theorem size_landHere {s : Script} {j : PendingJump} : (s.landHere j).size = s.size := by
  simp [landHere, land, patch, size]

@[simp] theorem size_landAllHere {s : Script} {js : Array PendingJump} :
    (s.landAllHere js).size = s.size := by
  rw [landAllHere, ← Array.foldl_toList]
  generalize js.toList = js
  induction js generalizing s with
  | nil => rfl
  | cons j js ih => simp [ih]

end Script

def keepJumps (js : Array PendingJump) (size : Nat) : Array PendingJump :=
  js.filter (·.operand < size)

end AdventureScript
