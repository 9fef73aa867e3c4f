import AdventureScript.Script.Fixup
import AdventureScript.Types.Basic

/-!
References: what the code words that need adjusting stand for.
-/
namespace AdventureScript

/-- What a code word that needs adjusting stands for. -/
inductive Reference where
  | data
  | text (bytes : List UInt8)
  | variable (id : GlobalId)
  | external (id : FuncId)
  | function (id : FuncId)
  deriving DecidableEq, Repr, Inhabited

def Reference.kind : Reference → FixupKind
  | .data => .globalData
  | .text _ => .string
  | .variable _ | .external _ => .imported
  | .function _ => .function

end AdventureScript
