import AdventureScript.Token.Stream
import AdventureScript.Types.Basic

/-!
The bodies of functions, as they were found in the tokens and written to the code.
-/
namespace AdventureScript

structure Body where
  function : FuncId
  tokens : Stretch
  start : Nat
  stop : Nat
  localBytes : Nat
  callBytes : Nat
  deriving DecidableEq, Repr, Inhabited

end AdventureScript
