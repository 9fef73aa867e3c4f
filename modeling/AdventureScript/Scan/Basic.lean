import AdventureScript.Scan.Item
import AdventureScript.Token.Stream
import AdventureScript.Diagnostic

/-!
From source text to tokens: items are read one after the other, positions and sections are kept, and
every closing bracket has to match the innermost open one.
-/
namespace AdventureScript.Scan

structure Position where
  line : Nat := 1
  col : Nat := 1
  deriving DecidableEq, Repr

def Position.step (p : Position) (c : Char) : Position :=
  if c = '\n' then ⟨p.line + 1, 1⟩ else ⟨p.line, p.col + c.utf8Size⟩

def Position.advance (p : Position) (cs : List Char) : Position :=
  cs.foldl Position.step p

def Position.span (p : Position) (cs : List Char) : Span :=
  ⟨p.line, p.col, Text.utf8Length cs⟩

structure OpenBracket where
  opener : Symbol
  line : Nat
  sectionIndex : UInt16
  deriving DecidableEq, Repr

def OpenBracket.placeFrom (b : OpenBracket) (t : Token) (sections : Array String) : OpenerPlace :=
  if b.sectionIndex ≠ t.sectionIndex then
    .inSection (sections[b.sectionIndex.toNat]?.getD "") b.line
  else if b.line = t.line then .sameLine
  else .onLine b.line

def nest (opened : List OpenBracket) (t : Token) (sections : Array String) :
    Except Error (List OpenBracket) :=
  match t.kind with
  | .symbol mark =>
    if mark.isOpener then .ok (⟨mark, t.line, t.sectionIndex⟩ :: opened)
    else if mark.isCloser then
      match opened with
      | [] => .error ⟨.unmatchedCloser mark, t.span⟩
      | b :: outer =>
        if b.opener.closer? = some mark then .ok outer
        else .error ⟨.mismatchedCloser mark b.opener (b.placeFrom t sections), t.span⟩
    else .ok opened
  | _ => .ok opened

/-! ## The scan -/

structure State where
  position : Position := {}
  sections : Array String := #[""]
  opened : List OpenBracket := []
  tokens : Array Token := #[]

def State.sectionIndex (s : State) : UInt16 :=
  (s.sections.size - 1).toUInt16

def State.sectionName (s : State) : String :=
  s.sections[s.sectionIndex.toNat]?.getD ""

structure Result where
  state : State
  finish : Except Error Token

def State.token (s : State) (kind : Token.Kind) (text : List Char) : Token :=
  ⟨kind, String.ofList text, s.position.span text, s.sectionIndex⟩

def State.openedAfter (s : State) (i : Item) (text : List Char) :
    Except Error (List OpenBracket) :=
  match i with
  | .token kind => nest s.opened (s.token kind text) s.sections
  | .gap | .marker _ => .ok s.opened

/-- The state after the item `i`, written `text`. A marker starts a new section at line 0, so that
the line after it has number 1. -/
def State.add (s : State) (i : Item) (text : List Char) (opened : List OpenBracket) : State :=
  let next := s.position.advance text
  match i with
  | .gap => { s with position := next, opened }
  | .marker name =>
    { s with position := { next with line := 0 }, opened, sections := s.sections.push name }
  | .token kind =>
    let t := s.token kind text
    { s with position := next, opened, tokens := s.tokens.push t }

def State.close (s : State) : Except Error Token :=
  match s.opened with
  | b :: _ => .error ⟨.unclosedOpener b.opener, .point b.line 0⟩
  | [] => .ok ⟨.endOfInput, "", .point s.position.line s.position.col, s.sectionIndex⟩

def run (s : State) : List Char → Result
  | [] => ⟨s, s.close⟩
  | c :: cs =>
    let r := item c cs
    let text := c :: cs.take r.used
    match r.outcome with
    | .error f => ⟨s, .error ⟨f, s.position.span text⟩⟩
    | .ok i =>
      match s.openedAfter i text with
      | .error e => ⟨s, .error e⟩
      | .ok opened => run (s.add i text opened) (cs.drop r.used)
termination_by cs => cs.length
decreasing_by simp only [List.length_drop, List.length_cons]; omega

def scan (source : String) : Result :=
  run {} source.toList

/-- The tokens of a text, or the error that a compilation of it reports: it is told for the section
in which the scan stopped. -/
def tokens (source : String) : Except CompileError Stream :=
  let r := scan source
  match r.finish with
  | .ok last => .ok ⟨r.state.tokens, last, r.state.sections⟩
  | .error e => .error ⟨.lexical, e.message, r.state.sectionName, e.span.line⟩

end AdventureScript.Scan
