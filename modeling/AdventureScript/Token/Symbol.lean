/-!
Operators and punctuation of the script language.
-/
namespace AdventureScript

inductive Symbol where
  | plus | minus | star | slash | percent | plusPlus | minusMinus | amp | pipe | caret | tilde
  | lessLess | greaterGreater | bang | ampAmp | pipePipe | equalEqual | bangEqual | less
  | lessEqual | greater | greaterEqual | equal | plusEqual | minusEqual | starEqual | slashEqual
  | percentEqual | ampEqual | pipeEqual | caretEqual | lessLessEqual | greaterGreaterEqual
  | question | colon | colonColon | dot | ellipsis | comma | semicolon | leftParen | rightParen
  | leftBracket | rightBracket | leftBrace | rightBrace
  deriving DecidableEq, Repr, Inhabited

namespace Symbol

def all : List Symbol :=
  [.plus, .minus, .star, .slash, .percent, .plusPlus, .minusMinus, .amp, .pipe, .caret, .tilde,
   .lessLess, .greaterGreater, .bang, .ampAmp, .pipePipe, .equalEqual, .bangEqual, .less,
   .lessEqual, .greater, .greaterEqual, .equal, .plusEqual, .minusEqual, .starEqual, .slashEqual,
   .percentEqual, .ampEqual, .pipeEqual, .caretEqual, .lessLessEqual, .greaterGreaterEqual,
   .question, .colon, .colonColon, .dot, .ellipsis, .comma, .semicolon, .leftParen, .rightParen,
   .leftBracket, .rightBracket, .leftBrace, .rightBrace]

def spelling : Symbol → String
  | .plus => "+"
  | .minus => "-"
  | .star => "*"
  | .slash => "/"
  | .percent => "%"
  | .plusPlus => "++"
  | .minusMinus => "--"
  | .amp => "&"
  | .pipe => "|"
  | .caret => "^"
  | .tilde => "~"
  | .lessLess => "<<"
  | .greaterGreater => ">>"
  | .bang => "!"
  | .ampAmp => "&&"
  | .pipePipe => "||"
  | .equalEqual => "=="
  | .bangEqual => "!="
  | .less => "<"
  | .lessEqual => "<="
  | .greater => ">"
  | .greaterEqual => ">="
  | .equal => "="
  | .plusEqual => "+="
  | .minusEqual => "-="
  | .starEqual => "*="
  | .slashEqual => "/="
  | .percentEqual => "%="
  | .ampEqual => "&="
  | .pipeEqual => "|="
  | .caretEqual => "^="
  | .lessLessEqual => "<<="
  | .greaterGreaterEqual => ">>="
  | .question => "?"
  | .colon => ":"
  | .colonColon => "::"
  | .dot => "."
  | .ellipsis => "..."
  | .comma => ","
  | .semicolon => ";"
  | .leftParen => "("
  | .rightParen => ")"
  | .leftBracket => "["
  | .rightBracket => "]"
  | .leftBrace => "\x7b"
  | .rightBrace => "\x7d"

def isAssignment : Symbol → Bool
  | .equal | .plusEqual | .minusEqual | .starEqual | .slashEqual | .percentEqual | .ampEqual
  | .pipeEqual | .caretEqual | .lessLessEqual | .greaterGreaterEqual => true
  | _ => false

def isOpener : Symbol → Bool
  | .leftParen | .leftBracket | .leftBrace => true
  | _ => false

def isCloser : Symbol → Bool
  | .rightParen | .rightBracket | .rightBrace => true
  | _ => false

def closer? : Symbol → Option Symbol
  | .leftParen => some .rightParen
  | .leftBracket => some .rightBracket
  | .leftBrace => some .rightBrace
  | _ => none

end Symbol
end AdventureScript
