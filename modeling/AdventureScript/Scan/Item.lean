import AdventureScript.Scan.Number

/-!
A source text is a row of items: blanks, comments, section markers and tokens.
-/
namespace AdventureScript.Scan

inductive Item where
  | gap
  | marker (name : String)
  | token (kind : Token.Kind)
  deriving DecidableEq, Repr

def markerStart : String := "__NEWSCRIPTSTART_"

def stripBytes? : (start bytes : List UInt8) → Option (List UInt8)
  | [], bytes => some bytes
  | a :: start, b :: bytes => if a = b then stripBytes? start bytes else none
  | _ :: _, [] => none

def Item.ofString (bytes : List UInt8) : Item :=
  match stripBytes? markerStart.toUTF8.toList bytes with
  | some name => .marker (String.ofList (Text.decodeLossy name))
  | none => .token (.string bytes)

def symbol? (c : Char) (cs : List Char) : Option (Symbol × Nat) :=
  match c, cs with
  | '(', _ => some (.leftParen, 0)
  | ')', _ => some (.rightParen, 0)
  | '[', _ => some (.leftBracket, 0)
  | ']', _ => some (.rightBracket, 0)
  | '\x7b', _ => some (.leftBrace, 0)
  | '\x7d', _ => some (.rightBrace, 0)
  | ';', _ => some (.semicolon, 0)
  | ',', _ => some (.comma, 0)
  | '~', _ => some (.tilde, 0)
  | '?', _ => some (.question, 0)
  | '.', '.' :: '.' :: _ => some (.ellipsis, 2)
  | '.', _ => some (.dot, 0)
  | ':', ':' :: _ => some (.colonColon, 1)
  | ':', _ => some (.colon, 0)
  | '+', '+' :: _ => some (.plusPlus, 1)
  | '+', '=' :: _ => some (.plusEqual, 1)
  | '+', _ => some (.plus, 0)
  | '-', '-' :: _ => some (.minusMinus, 1)
  | '-', '=' :: _ => some (.minusEqual, 1)
  | '-', _ => some (.minus, 0)
  | '*', '=' :: _ => some (.starEqual, 1)
  | '*', _ => some (.star, 0)
  | '/', '=' :: _ => some (.slashEqual, 1)
  | '/', _ => some (.slash, 0)
  | '%', '=' :: _ => some (.percentEqual, 1)
  | '%', _ => some (.percent, 0)
  | '=', '=' :: _ => some (.equalEqual, 1)
  | '=', _ => some (.equal, 0)
  | '!', '=' :: _ => some (.bangEqual, 1)
  | '!', _ => some (.bang, 0)
  | '<', '=' :: _ => some (.lessEqual, 1)
  | '<', '<' :: '=' :: _ => some (.lessLessEqual, 2)
  | '<', '<' :: _ => some (.lessLess, 1)
  | '<', _ => some (.less, 0)
  | '>', '=' :: _ => some (.greaterEqual, 1)
  | '>', '>' :: '=' :: _ => some (.greaterGreaterEqual, 2)
  | '>', '>' :: _ => some (.greaterGreater, 1)
  | '>', _ => some (.greater, 0)
  | '&', '=' :: _ => some (.ampEqual, 1)
  | '&', '&' :: _ => some (.ampAmp, 1)
  | '&', _ => some (.amp, 0)
  | '|', '=' :: _ => some (.pipeEqual, 1)
  | '|', '|' :: _ => some (.pipePipe, 1)
  | '|', _ => some (.pipe, 0)
  | '^', '=' :: _ => some (.caretEqual, 1)
  | '^', _ => some (.caret, 0)
  | _, _ => none

/-- An operator or a punctuation mark. Two dots that are not three are neither. -/
def symbolToken (c : Char) (cs : List Char) : Reading Token.Kind :=
  match symbol? c cs with
  | some (.dot, _) =>
    match cs with
    | '.' :: _ => .fail .badDots 1
    | _ => .ok (.symbol .dot) 0
  | some (mark, n) => .ok (.symbol mark) n
  | none => .fail (.illegalChar c) 0

def word (c : Char) (cs : List Char) : Reading Token.Kind :=
  let tail := cs.takeWhile isWordChar
  .ok (.ofWord (String.ofList (c :: tail))) tail.length

def startsNumber (c : Char) (cs : List Char) : Bool :=
  c.isDigit || (c = '.' && cs.head?.any Char.isDigit)

def item (c : Char) (cs : List Char) : Reading Item :=
  if isBlank c then .ok .gap (cs.takeWhile isBlank).length
  else if c = '/' && cs.head? = some '/' then .ok .gap (lineComment cs)
  else if c = '/' && cs.head? = some '*' then (blockCommentEnd cs.tail 1).map fun _ => .gap
  else if c = '"' then (stringLiteral cs).map .ofString
  else if c = '\'' then (charLiteral cs).map fun value => .token (.int value)
  else if startsNumber c cs then (number c cs).map .token
  else if isWordStart c then (word c cs).map .token
  else (symbolToken c cs).map .token

end AdventureScript.Scan
