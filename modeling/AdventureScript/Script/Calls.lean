import AdventureScript.Script.Basic
import AdventureScript.Script.Marks
import AdventureScript.Types.Basic

/-!
Calls of functions whose code address is not known yet. The call is written with a placeholder,
which is filled in when the body of the function starts.
-/
namespace AdventureScript

abbrev PendingCalls := Marks FuncId

namespace PendingCalls

def resolve (c : PendingCalls) (callee : FuncId) (address : Nat) (s : Script) :
    PendingCalls × Script :=
  (⟨c.entries.filter (·.value ≠ callee)⟩,
    (c.entries.filter (·.value = callee)).foldl
      (fun s p => s.patch p.position (Int32.ofNat address)) s)

def areWithin (c : PendingCalls) (callee : FuncId) (size : Nat) : Bool :=
  c.entries.all fun m => m.value ≠ callee || m.position < size

def firstUnresolved? (c : PendingCalls) : Option FuncId :=
  c.entries[0]?.map (·.value)

end PendingCalls
end AdventureScript
