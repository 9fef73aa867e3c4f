import AdventureScript.Scan.Fault
import AdventureScript.Text.Utf8

/-!
Lexical rules. A rule looks at the characters that follow the first one of an item and answers what
it read and how many of them it used up.
-/
namespace AdventureScript.Scan

structure Reading (α : Type) where
  outcome : Except Fault α
  used : Nat

namespace Reading

variable {α β : Type}

def ok (a : α) (used : Nat) : Reading α :=
  ⟨.ok a, used⟩

def fail (f : Fault) (used : Nat) : Reading α :=
  ⟨.error f, used⟩

def after (r : Reading α) (n : Nat) : Reading α :=
  ⟨r.outcome, n + r.used⟩

def map (f : α → β) (r : Reading α) : Reading β :=
  ⟨r.outcome.map f, r.used⟩

end Reading

def isBlank (c : Char) : Bool :=
  c = ' ' || c = '\t' || c = '\n' || c = '\x0c' || c = '\r'

def isWordStart (c : Char) : Bool :=
  c.isAlpha || c = '_'

def isWordChar (c : Char) : Bool :=
  c.isAlphanum || c = '_'

def isLineBreak (c : Char) : Bool :=
  c = '\n' || c = '\r'

def lineComment (cs : List Char) : Nat :=
  (cs.takeWhile (· ≠ '\n')).length

def blockCommentEnd : List Char → Nat → Reading Unit
  | '*' :: '/' :: _, n => .ok () (n + 2)
  | _ :: cs, n => blockCommentEnd cs (n + 1)
  | [], n => .fail .unterminatedComment n

def octalDigit? (c : Char) : Option Nat :=
  if '0' ≤ c && c ≤ '7' then some (c.toNat - '0'.toNat) else none

def hexDigit? (c : Char) : Option Nat :=
  if c.isDigit then some (c.toNat - '0'.toNat)
  else if 'a' ≤ c && c ≤ 'f' then some (c.toNat - 'a'.toNat + 10)
  else if 'A' ≤ c && c ≤ 'F' then some (c.toNat - 'A'.toNat + 10)
  else none

def octalTail : (limit value : Nat) → List Char → Nat × Nat
  | limit + 1, value, c :: cs =>
    match octalDigit? c with
    | some d =>
      if value * 8 + d ≤ 255 then
        let (v, n) := octalTail limit (value * 8 + d) cs
        (v, n + 1)
      else (value, 0)
    | none => (value, 0)
  | _, value, _ => (value, 0)

def hexTail : (limit value : Nat) → List Char → Nat × Nat
  | limit + 1, value, c :: cs =>
    match hexDigit? c with
    | some d =>
      let (v, n) := hexTail limit (value * 16 + d) cs
      (v, n + 1)
    | none => (value, 0)
  | _, value, _ => (value, 0)

def namedEscape? : Char → Option UInt8
  | '\'' => some 0x27
  | '"' => some 0x22
  | '\\' => some 0x5C
  | '?' => some 0x3F
  | 'a' => some 0x07
  | 'b' => some 0x08
  | 'e' => some 0x1B
  | 'f' => some 0x0C
  | 'n' => some 0x0A
  | 'r' => some 0x0D
  | 't' => some 0x09
  | 'v' => some 0x0B
  | _ => none

def escape : List Char → Reading UInt8
  | [] => .fail .unfinishedEscape 0
  | c :: cs =>
    match octalDigit? c with
    | some d =>
      let (v, n) := octalTail 2 d cs
      .ok v.toUInt8 (n + 1)
    | none =>
      if c = 'x' then
        let (v, n) := hexTail 2 0 cs
        .ok v.toUInt8 (n + 1)
      else
        match namedEscape? c with
        | some b => .ok b 1
        | none => .fail (.unknownEscape c) 1

def closeChar (value : Nat) : List Char → Reading Nat
  | [] => .fail .missingApostrophe 0
  | '\'' :: _ => .ok value 1
  | c :: _ => .fail (.expectedApostrophe c) 1

def charLiteral : List Char → Reading Nat
  | [] => .fail .unfinishedCharLiteral 0
  | '\\' :: '[' :: _ => .fail .bracketEscapeInCharLiteral 1
  | '\\' :: cs =>
    let e := escape cs
    match e.outcome with
    | .error f => .fail f (1 + e.used)
    | .ok b => (closeChar b.toNat (cs.drop e.used)).after (1 + e.used)
  | c :: cs => (closeChar c.toNat cs).after 1

/-- What follows the opening quote. `\[` stays the two characters it is written with. -/
def stringLiteral : List Char → Reading (List UInt8)
  | [] => .fail .unterminatedString 0
  | '"' :: _ => .ok [] 1
  | '\\' :: '[' :: cs => ((stringLiteral cs).after 2).map ([0x5C, 0x5B] ++ ·)
  | '\\' :: cs =>
    if cs.head?.any isLineBreak then .fail .lineBreakInString 1
    else
      let e := escape cs
      match e.outcome with
      | .error f => .fail f (1 + e.used)
      | .ok b => ((stringLiteral (cs.drop e.used)).after (1 + e.used)).map (b :: ·)
  | c :: cs =>
    if isLineBreak c then .fail .lineBreakInString 0
    else ((stringLiteral cs).after 1).map (Text.utf8Bytes c ++ ·)
termination_by cs => cs.length
decreasing_by all_goals simp only [List.length_drop, List.length_cons]; omega

end AdventureScript.Scan
