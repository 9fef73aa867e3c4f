import AdventureScript.Script.Basic

/-!
Listings: the code of a script, one instruction a line. A word that is no opcode stands on a line of
its own.
-/
namespace AdventureScript

inductive Line where
  | instruction (position : Nat) (op : Opcode) (operands : List (Int32 × Option FixupKind))
  | word (position : Nat) (value : Int32)
  deriving DecidableEq, Repr

def column (n : Nat) : String :=
  let text := toString n
  String.ofList (List.replicate (6 - text.length) ' ') ++ text

def operandText (op : Opcode) (index : Nat) (value : Int32) (kind? : Option FixupKind) : String :=
  let register := if op.isRegister index then Register.ofWord? value else none
  let text :=
    match register with
    | some r => r.name
    | none => toString value
  match kind? with
  | some kind => s!"{text} [{kind.name}]"
  | none => text

def Line.text : Line → String
  | .instruction position op operands =>
    let texts := operands.mapIdx fun i (value, kind?) => operandText op i value kind?
    s!"{column position}: {op.mnemonic}" ++
      (if texts.isEmpty then "" else " " ++ ", ".intercalate texts)
  | .word position value => s!"{column position}: .word {value}"

namespace Script

/-- The operands from `position` on, and the fixups that are left. Those of earlier words are passed
over when an operand is read. -/
def operandsFrom (position : Nat) (fixups : List Fixup) :
    List Int32 → List (Int32 × Option FixupKind) × List Fixup
  | [] => ([], fixups)
  | word :: words =>
    let fixups := fixups.dropWhile (·.offset < position)
    let kind? := (fixups.head?.filter (·.offset = position)).map (·.kind)
    let (operands, rest) := operandsFrom (position + 1) fixups words
    ((word, kind?) :: operands, rest)

def linesFrom (position : Nat) (fixups : List Fixup) : List Int32 → List Line
  | [] => []
  | word :: words =>
    match Opcode.ofWord? word with
    | none => .word position word :: linesFrom (position + 1) fixups words
    | some op =>
      let (operands, rest) := operandsFrom (position + 1) fixups (words.take op.operandCount)
      .instruction position op operands ::
        linesFrom (position + 1 + op.operandCount) rest (words.drop op.operandCount)
termination_by words => words.length
decreasing_by
  · simp only [List.length_cons]; omega
  · simp only [List.length_drop, List.length_cons]; omega

def disassembly (s : Script) : List Line :=
  linesFrom 0 s.fixups.toList s.code.toList

def listing (s : Script) : List String :=
  s.disassembly.map Line.text

end Script
end AdventureScript
