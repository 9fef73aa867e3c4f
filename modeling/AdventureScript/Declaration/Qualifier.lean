import AdventureScript.Compile.Gen

/-!
The words that may stand in front of a declaration.
-/
namespace AdventureScript

def Keyword.isQualifier : Keyword → Bool
  | .kwImport | .kwTryImport | .kwStatic | .kwProtected | .kwWriteprotected | .kwReadonly
  | .kwConst | .kwNoloopcheck | .kwManaged | .kwBuiltin | .kwAutoptr | .kwInternalstring
  | .kwAttribute => true
  | _ => false

structure Qualifiers where
  words : List Keyword := []
  deriving DecidableEq, Repr, Inhabited

namespace Qualifiers

def has (q : Qualifiers) (word : Keyword) : Bool :=
  q.words.contains word

def isEmpty (q : Qualifiers) : Bool :=
  q.words.isEmpty

def isImport (q : Qualifiers) : Bool :=
  q.has .kwImport || q.has .kwTryImport

def structOnly? (q : Qualifiers) : Option Keyword :=
  [.kwManaged, .kwBuiltin, .kwAutoptr, .kwInternalstring].find? q.has

def memberOnly? (q : Qualifiers) : Option Keyword :=
  [.kwProtected, .kwWriteprotected, .kwAttribute, .kwStatic].find? q.has

def notOnStruct? (q : Qualifiers) : Option Keyword :=
  if q.isImport then some .kwImport
  else ([.kwReadonly, .kwConst, .kwNoloopcheck].find? q.has).or q.memberOnly?

/-- Whether access to a member is restricted in more than one way. -/
def restrictsTwice (q : Qualifiers) : Bool :=
  let restrictions := [.kwProtected, .kwWriteprotected, .kwReadonly].filter fun word =>
    q.has word && !(word = .kwReadonly && q.has .kwAttribute)
  1 < restrictions.length

def access (q : Qualifiers) : Access :=
  if q.has .kwProtected then .guarded
  else if q.has .kwWriteprotected then .writeGuarded
  else if q.has .kwReadonly then .readOnly
  else .unrestricted

end Qualifiers

namespace Gen

def qualifiers : Gen Qualifiers :=
  rounds (fun q => do
    match (← peek).kind with
    | .keyword word =>
      if !word.isQualifier then return .done q
      let _ ← advance
      if q.has word then fail (.qualifierTwice word.spelling)
      return .again ⟨word :: q.words⟩
    | _ => return .done q) {}

end Gen
end AdventureScript
