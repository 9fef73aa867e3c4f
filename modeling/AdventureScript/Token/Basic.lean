import AdventureScript.Token.Keyword
import AdventureScript.Token.Symbol

/-!
Tokens: what was read, how it was written and where it stands.
-/
namespace AdventureScript

/-- Where a piece of text stands. Lines are counted within the section, columns and lengths in
bytes. -/
structure Span where
  line : Nat
  col : Nat
  len : Nat
  deriving DecidableEq, Repr, Inhabited

def Span.point (line col : Nat) : Span :=
  ⟨line, col, 0⟩

def Span.place (s : Span) : String :=
  s!"{s.line}:{s.col}"

namespace Token

inductive Kind where
  | int (value : Nat)
  | float (value : Float32)
  | string (bytes : List UInt8)
  | identifier
  | keyword (word : Keyword)
  | symbol (mark : Symbol)
  | endOfInput
  deriving DecidableEq, Repr, Inhabited

namespace Kind

def text : Kind → String
  | .int _ => "integer literal"
  | .float _ => "float literal"
  | .string _ => "string literal"
  | .identifier => "identifier"
  | .keyword word => word.spelling
  | .symbol mark => mark.spelling
  | .endOfInput => "end of input"

def isKeyword : Kind → Bool
  | .keyword _ => true
  | _ => false

def isLiteral : Kind → Bool
  | .int _ | .float _ | .string _ => true
  | _ => false

def isPrimitiveType : Kind → Bool
  | .keyword word => word.isPrimitiveType
  | _ => false

def isAssignment : Kind → Bool
  | .symbol mark => mark.isAssignment
  | _ => false

def isOpener : Kind → Bool
  | .symbol mark => mark.isOpener
  | _ => false

def isCloser : Kind → Bool
  | .symbol mark => mark.isCloser
  | _ => false

def ofWord (text : String) : Kind :=
  match Keyword.ofSpelling? text with
  | some word => .keyword word
  | none => .identifier

end Kind
end Token

structure Token where
  kind : Token.Kind
  lexeme : String
  span : Span
  sectionIndex : UInt16
  deriving DecidableEq, Repr, Inhabited

namespace Token

def line (t : Token) : Nat :=
  t.span.line

def quoted (t : Token) : String :=
  match t.kind with
  | .endOfInput => "end of input"
  | _ => t.lexeme

end Token
end AdventureScript
