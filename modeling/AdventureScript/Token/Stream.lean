import AdventureScript.Token.Basic

/-!
The token list that the compiler walks over. It is indexed and not consumed, so that a stretch of it
can be visited out of order or more than once.
-/
namespace AdventureScript

structure Stretch where
  start : Nat
  stop : Nat
  deriving DecidableEq, Repr, Inhabited

structure Stream where
  body : Array Token
  last : Token
  sections : Array String
  deriving Repr, Inhabited

namespace Stream

def endAfter (tokens : Array Token) : Token :=
  match tokens.back? with
  | some t => ⟨.endOfInput, "", t.span, t.sectionIndex⟩
  | none => ⟨.endOfInput, "", ⟨0, 0, 0⟩, 0⟩

def ofTokens (tokens : Array Token) (sections : Array String) : Stream :=
  let sections := if sections.isEmpty then #[""] else sections
  match tokens.back? with
  | some t =>
    if t.kind = .endOfInput then ⟨tokens.pop, t, sections⟩
    else ⟨tokens, endAfter tokens, sections⟩
  | none => ⟨#[], endAfter #[], sections⟩

def size (s : Stream) : Nat :=
  s.body.size + 1

def isEmpty (s : Stream) : Bool :=
  s.body.isEmpty

def get (s : Stream) (i : Nat) : Token :=
  s.body[i]?.getD s.last

def toList (s : Stream) : List Token :=
  s.body.toList ++ [s.last]

def sectionName (s : Stream) (n : UInt16) : String :=
  s.sections[n.toNat]?.getD ""

def findFrom (s : Stream) (stop : Token.Kind → Bool) (i depth : Nat) : Nat :=
  if h : i < s.body.size then
    let kind := s.body[i].kind
    if kind = .endOfInput then i
    else if depth = 0 && stop kind then i
    else if kind.isOpener then s.findFrom stop (i + 1) (depth + 1)
    else if kind.isCloser then
      if depth = 0 then i else s.findFrom stop (i + 1) (depth - 1)
    else s.findFrom stop (i + 1) depth
  else i
termination_by s.body.size - i

/-- The first token at or after `start`, outside of brackets opened on the way, that satisfies
`stop`. The search ends as well at a bracket that closes the surrounding group, and at the end of
input. -/
def findAtDepthZero (s : Stream) (start : Nat) (stop : Token.Kind → Bool) : Nat :=
  s.findFrom stop start 0

end Stream
end AdventureScript
