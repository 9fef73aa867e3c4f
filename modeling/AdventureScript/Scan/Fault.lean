import AdventureScript.Token.Basic

/-!
What can be wrong with a source text before it is made of tokens, and how that is told.
-/
namespace AdventureScript.Scan

inductive OpenerPlace where
  | sameLine
  | onLine (line : Nat)
  | inSection (name : String) (line : Nat)
  deriving DecidableEq, Repr

def OpenerPlace.text : OpenerPlace → String
  | .sameLine => "on this line"
  | .onLine line => s!"on line {line}"
  | .inSection name line => s!"in {name}, line {line}"

inductive Fault where
  | illegalChar (c : Char)
  | unfinishedCharLiteral
  | unfinishedEscape
  | bracketEscapeInCharLiteral
  | missingApostrophe
  | expectedApostrophe (found : Char)
  | unknownEscape (c : Char)
  | unterminatedString
  | lineBreakInString
  | unterminatedComment
  | badDots
  | numberOutOfRange (text : String)
  | malformedNumber (text : String)
  | unmatchedCloser (closer : Symbol)
  | mismatchedCloser (closer opener : Symbol) (place : OpenerPlace)
  | unclosedOpener (opener : Symbol)
  deriving DecidableEq, Repr

structure Error where
  fault : Fault
  span : Span
  deriving DecidableEq, Repr

def Error.message (e : Error) : String :=
  match e.fault with
  | .illegalChar c => s!"The character '{c}' is not legal in this context"
  | .unfinishedCharLiteral => "Expected a character and an apostrophe, but input ended instead"
  | .unfinishedEscape => "The input ended inmidst of an escape sequence"
  | .bracketEscapeInCharLiteral => "\\[ not allowed in single quotes, use '[' instead"
  | .missingApostrophe => "Expected an apostrophe, but input ended instead"
  | .expectedApostrophe found => s!"Expected apostrophe, but found '{found}' instead"
  | .unknownEscape c => s!"Found unknown escape sequence '\\{c}' in string."
  | .unterminatedString => "End of input encountered in an unclosed string literal"
  | .lineBreakInString => "String literal may not contain any line breaks (use '[' instead)"
  | .unterminatedComment => s!"The comment starting on line {e.span.line} is never closed"
  | .badDots => "Must either use '.' or '...'"
  | .numberOutOfRange text => s!"Numeric literal '{text}' is out of range"
  | .malformedNumber text => s!"Cannot interpret '{text}' as a number"
  | .unmatchedCloser closer =>
    s!"There isn't any opening symbol that matches the closing '{closer.spelling}'"
  | .mismatchedCloser closer opener place =>
    s!"Found '{closer.spelling}', this does not match the '{opener.spelling}' {place.text}"
  | .unclosedOpener opener => s!"The '{opener.spelling}' on line {e.span.line} is never closed"

end AdventureScript.Scan
