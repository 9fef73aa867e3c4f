import AdventureScript.Machine.Opcode
import AdventureScript.Machine.Register
import AdventureScript.Script.Fixup
import AdventureScript.Script.Table

/-!
The compiled script: code words with their fixups, the tables of imports, exports, strings, sections
and lines, and the initial global data.
-/
namespace AdventureScript

/-- A published name. The address holds the offset and, in its upper eight bits, the tag. -/
structure Export where
  name : String
  address : UInt32
  deriving DecidableEq, Repr, Inhabited

def exportLimit : UInt32 := 0x01000000

def exportFunction : UInt32 := 1

def exportData : UInt32 := 2

def Export.offset (e : Export) : UInt32 :=
  e.address &&& (exportLimit - 1)

def Export.tag (e : Export) : UInt32 :=
  e.address >>> 24

structure SectionStart where
  name : String
  codeOffset : Nat
  deriving DecidableEq, Repr, Inhabited

structure LineEntry where
  codeOffset : Nat
  line : Nat
  deriving DecidableEq, Repr, Inhabited

structure StringPool where
  bytes : Array UInt8 := #[]
  index : List (List UInt8 × Nat) := []
  deriving DecidableEq, Repr, Inhabited

def StringPool.add (p : StringPool) (text : List UInt8) : Nat × StringPool :=
  match p.index.lookup text with
  | some offset => (offset, p)
  | none =>
    (p.bytes.size, ⟨(p.bytes ++ text.toArray).push 0, (text, p.bytes.size) :: p.index⟩)

def StringPool.truncate (p : StringPool) (size : Nat) : StringPool :=
  if size < p.bytes.size then ⟨p.bytes.take size, p.index.filter (·.2 < size)⟩ else p

inductive ScriptError where
  | exportOffsetTooHigh (name : String) (offset : UInt32)
  | yankOutOfRange (start size : Nat)
  deriving DecidableEq, Repr

def ScriptError.message : ScriptError → String
  | .exportOffsetTooHigh _ _ => "export offset too high; script data size too large?"
  | .yankOutOfRange start size =>
    s!"cannot yank code from offset {start}; the code is only {size} words long"

structure Chunk where
  code : Array Int32
  fixups : Array Fixup
  line : Nat
  deriving DecidableEq, Repr, Inhabited

structure Script where
  code : Array Int32 := #[]
  fixups : Array Fixup := #[]
  imports : Array String := #[]
  exports : Array Export := #[]
  strings : StringPool := {}
  globalData : Array UInt8 := #[]
  sections : Array SectionStart := #[]
  lines : Array LineEntry := #[]
  lastOp : Option Nat := none
  deriving DecidableEq, Repr, Inhabited

namespace Script

def size (s : Script) : Nat :=
  s.code.size

def word (s : Script) (w : Int32) : Script :=
  { s with code := s.code.push w }

def write (s : Script) (op : Opcode) (operands : List Int32) : Script :=
  let position := s.size
  { s with code := s.code.push op.toWord ++ operands.toArray, lastOp := some position }

@[simp] theorem size_write {s : Script} {op : Opcode} {operands : List Int32} :
    (s.write op operands).size = s.size + (operands.length + 1) := by
  simp [write, size]

def writeRegs (s : Script) (op : Opcode) (regs : List Register) : Script :=
  s.write op (regs.map Register.toWord)

def litToReg (s : Script) (reg : Register) (value : Int32) : Script :=
  s.write .litToReg [reg.toWord, value]

def lastPosition? (s : Script) : Option Nat :=
  s.lastOp.filter (· < s.size)

def lastOpcode? (s : Script) : Option Opcode :=
  s.lastOp.bind fun position => s.code[position]?.bind Opcode.ofWord?

def patch (s : Script) (position : Nat) (w : Int32) : Script :=
  { s with code := s.code.setIfInBounds position w }

/-- Cuts the code back to `size` words and drops what referred to the removed part. A size past the
end of the code leaves the code alone; the tables are cut where that position wraps to. -/
def truncate (s : Script) (size : Nat) (lastOp : Option Nat) : Script :=
  let bound := tablePosition s.size size
  { s with
    code := s.code.take size
    fixups := s.fixups.popWhile (bound ≤ ·.offset)
    lines := s.lines.popWhile (bound ≤ ·.codeOffset)
    lastOp := lastOp.filter (· < bound) }

def truncateTables (s : Script) (stringBytes imports : Nat) : Script :=
  { s with
    strings := s.strings.truncate stringBytes
    imports := s.imports.take imports }

def addFixup (s : Script) (offset : Nat) (kind : FixupKind) : Script :=
  { s with fixups := s.fixups.push ⟨offset, kind⟩ }

def fixupLast (s : Script) (kind : FixupKind) : Script :=
  s.addFixup (s.size - 1) kind

def yank (s : Script) (start line : Nat) : Except ScriptError (Chunk × Script) :=
  if s.size < start then .error (.yankOutOfRange start s.size)
  else
    let front := frontSize s.fixups (·.offset < start)
    let chunk : Chunk :=
      { code := s.code.drop start
        fixups := (s.fixups.drop front).map fun f =>
          { f with offset := positionFrom start f.offset }
        line }
    .ok (chunk,
      { s with
        code := s.code.take start
        fixups := s.fixups.take front
        lines := s.lines.popWhile (start ≤ ·.codeOffset)
        lastOp := s.lastOp.filter (· < start) })

/-- Appends a chunk and gives the position where it starts now. Its last instruction is not known
any more, so that its start stands in for it. -/
def writeChunk (s : Script) (chunk : Chunk) : Nat × Script :=
  let base := s.size
  let size := base + chunk.code.size
  (base,
    { s with
      code := s.code ++ chunk.code
      fixups := s.fixups ++
        chunk.fixups.map fun f => { f with offset := tablePosition size (base + f.offset) }
      lastOp := if chunk.code.isEmpty then s.lastOp else some base })

def addString (s : Script) (text : List UInt8) : Nat × Script :=
  let (offset, strings) := s.strings.add text
  (offset, { s with strings })

/-- Reserves `size` bytes of global data: as much of `init` as fits, and zeros. -/
def addGlobal (s : Script) (size : UInt32) (init : List UInt8) : UInt32 × Script :=
  let copied := (init.take size.toNat).toArray
  (s.globalData.size.toUInt32,
    { s with
      globalData := s.globalData ++ copied ++ Array.replicate (size.toNat - copied.size) 0 })

def findImport? (s : Script) (name : String) : Option Nat :=
  s.imports.findIdx? (· = name)

def addImport (s : Script) (name : String) : Nat × Script :=
  match s.findImport? name with
  | some slot => (slot, s)
  | none => (s.imports.size, { s with imports := s.imports.push name })

def importsWithSentinel (s : Script) : List String :=
  s.imports.toList ++ [""]

def addExport (s : Script) (name : String) (tag offset : UInt32) : Except ScriptError Script :=
  if exportLimit ≤ offset then .error (.exportOffsetTooHigh name offset)
  else if s.exports.any (·.name = name) then .ok s
  else .ok { s with exports := s.exports.push ⟨name, offset ||| (tag <<< 24)⟩ }

def startSection (s : Script) (name : String) : Script :=
  { s with sections := s.sections.push ⟨name, s.size⟩ }

def writeLine (s : Script) (line : Nat) : Script :=
  { s with lines := s.lines.push ⟨s.size, line⟩ }.write .lineNum [Int32.ofNat line]

def lineAt? (s : Script) (offset : Nat) : Option Nat :=
  (s.lines.takeWhile (·.codeOffset ≤ offset)).back?.map (·.line)

end Script
end AdventureScript
