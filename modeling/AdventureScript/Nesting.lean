import AdventureScript.Script.Jump

/-!
The loops and switches around the statement being compiled.
-/
namespace AdventureScript

inductive Construct where
  /-- A loop. `continue` goes back to the given position, or its jumps wait for one. -/
  | loop (continueTo : Option Nat) (continues : Array PendingJump)
  /-- A switch, and whether `fallthrough` has been seen in its present clause. -/
  | switch (fallsThrough : Bool)
  deriving DecidableEq, Repr, Inhabited

structure Frame where
  construct : Construct
  depth : Nat
  breaks : Array PendingJump := #[]
  deriving DecidableEq, Repr, Inhabited

namespace Frame

def isLoop (f : Frame) : Bool :=
  match f.construct with
  | .loop _ _ => true
  | .switch _ => false

def continues (f : Frame) : Array PendingJump :=
  match f.construct with
  | .loop _ js => js
  | .switch _ => #[]

def addBreak (f : Frame) (j : PendingJump) : Frame :=
  { f with breaks := f.breaks.push j }

def addContinue (f : Frame) (j : PendingJump) : Frame :=
  match f.construct with
  | .loop target js => { f with construct := .loop target (js.push j) }
  | .switch _ => f

end Frame

abbrev Nesting := List Frame

namespace Nesting

def modifyHead (n : Nesting) (f : Frame → Frame) : Nesting :=
  match n with
  | frame :: outer => f frame :: outer
  | [] => []

def loop? (n : Nesting) : Option Frame :=
  n.find? (·.isLoop)

def modifyLoop (f : Frame → Frame) : Nesting → Nesting
  | frame :: outer => if frame.isLoop then f frame :: outer else frame :: modifyLoop f outer
  | [] => []

def switch? (n : Nesting) : Option Bool :=
  match n with
  | ⟨.switch marked, _, _⟩ :: _ => some marked
  | _ => none

def markSwitch (n : Nesting) (marked : Bool) : Nesting :=
  n.modifyHead fun f =>
    match f.construct with
    | .switch _ => { f with construct := .switch marked }
    | .loop _ _ => f

end Nesting
end AdventureScript
