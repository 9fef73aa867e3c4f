import AdventureScript.Proofs.Code.Pace
import AdventureScript.Script.Marks

/-!
Reading code: the instructions that words split into, and where control goes from one to the next.
-/
namespace AdventureScript

structure Instruction where
  position : Nat
  op : Opcode
  operands : List Int32
  deriving DecidableEq, Repr

def Opcode.accepts (op : Opcode) (operands : List Int32) : Bool :=
  operands.zipIdx.all fun (w, i) => !op.isRegister i || (Register.ofWord? w).isSome

/-- Splits the words from `position` on into complete instructions with nothing left over. -/
def decode (position : Nat) : List Int32 → Option (List Instruction)
  | [] => some []
  | word :: words =>
    match Opcode.ofWord? word with
    | none => none
    | some op =>
      let operands := words.take op.operandCount
      if operands.length = op.operandCount ∧ op.accepts operands then
        (decode (position + 1 + op.operandCount) (words.drop op.operandCount)).map
          (⟨position, op, operands⟩ :: ·)
      else none
termination_by words => words.length
decreasing_by
  simp only [List.length_drop, List.length_cons]
  omega

namespace Instruction

variable {i : Instruction} {t : Nat}

def next (i : Instruction) : Nat :=
  i.position + 1 + i.operands.length

def effect (i : Instruction) : Int :=
  (Assembly.Instr.plain i.op i.operands).effect

/-- The operand of a jump leads from behind the jump to `t`. Words count up to `2 ^ 32`. -/
def Leads (i : Instruction) (t : Nat) : Prop :=
  ∃ w, i.operands = [w] ∧ (t : Int) % 2 ^ 32 = (i.next + w.toInt) % 2 ^ 32

lemma Leads.eq {w : Int32} (h : i.Leads t) (hw : i.operands = [w]) (ht : t < 2 ^ 31)
    (hnext : i.next ≤ 2 ^ 31) : (t : Int) = i.next + w.toInt := by
  obtain ⟨w', hw', h⟩ := h
  obtain rfl : w = w' := by simpa [hw] using hw'
  have := w.toInt_lt
  have := w.le_toInt
  omega

/-- Where control may go from an instruction, when jumps lead to where `dest` says. -/
inductive Flows (dest : Nat → Nat) (i : Instruction) : Nat → Prop where
  | on (h : i.op.endsFlow = false) : Flows dest i i.next
  | jump (h : i.op.isJump = true) : Flows dest i (dest i.position)

end Instruction

inductive Reached (code : List Instruction) (dest : Nat → Nat) (start : Nat) : Nat → Prop where
  | start : Reached code dest start start
  | step {i p} (hi : i ∈ code) (h : Reached code dest start i.position) (hp : i.Flows dest p) :
      Reached code dest start p

/-- The depth of the stack is told for every position that control comes to from `start`. The marks
name the instructions that address local variables. -/
structure Disciplined (code : List Instruction) (dest : Nat → Nat) (uses : List (Mark Int32))
    (start : Nat) (depth : Nat → Int) : Prop where
  entry : depth start = 0
  flows : ∀ i ∈ code, Reached code dest start i.position → ∀ p, i.Flows dest p →
    depth p = depth i.position + i.effect
  nonneg : ∀ p, Reached code dest start p → 0 ≤ depth p
  ret : ∀ i ∈ code, Reached code dest start i.position → i.op = .ret → depth i.position = 0
  uses : ∀ u ∈ uses, Reached code dest start u.position →
    ⟨u.position, .loadSpOffs, [Int32.ofInt (depth u.position) - u.value]⟩ ∈ code

/-! ## Reading what was written -/

namespace Assembly

variable {b p t : Nat} {F : List Node} {n : Node} {i : Instruction} {op : Opcode}

def Node.read (p : Nat) (n : Node) : Instruction :=
  ⟨p, n.instr.op, (n.words p).tail⟩

def readings (b : Nat) : List Node → List Instruction
  | [] => []
  | n :: F => n.read b :: readings (b + n.size) F

@[simp] lemma Node.position_read : (n.read p).position = p := rfl

@[simp] lemma Node.op_read : (n.read p).op = n.instr.op := rfl

@[simp] lemma Node.next_read : (n.read p).next = p + n.size := by
  have := n.size_pos
  simp only [Instruction.next, read, List.length_tail, Node.length_words]
  omega

lemma Node.words_eq : n.words p = n.instr.op.toWord :: (n.read p).operands := by
  rcases n with ⟨⟨op, operands⟩ | ⟨op, _ | dest⟩, d⟩ <;> rfl

lemma Node.leads_read (h : n.instr = .jump op (some t)) : (n.read p).Leads t := by
  refine ⟨jumpDistance (p + 1) t, by simp [read, words, Instr.words, h], ?_⟩
  rw [Node.next_read]
  have hsize : n.size = 2 := by simp [size, h, Instr.size]
  simp only [jumpDistance, Int32.toInt_ofInt, hsize, Int.bmod_def, Int32.size]
  omega

lemma Instr.WellFormed.effect_read (h : n.instr.WellFormed) : (n.read p).effect = n.instr.effect := by
  have hjump : ∀ {op : Opcode} {w : Int32}, op.isJump = true → (Instr.plain op [w]).effect = 0 := by
    intro op w h
    cases op <;> first | rfl | cases h
  rcases n with ⟨⟨op, operands⟩ | ⟨op, _ | dest⟩, d⟩
  · rfl
  · exact hjump h
  · exact hjump h

lemma Instr.WellFormed.length_operands (h : n.instr.WellFormed) :
    (n.read p).operands.length = n.instr.op.operandCount := by
  rcases n with ⟨⟨op, operands⟩ | ⟨op, _ | dest⟩, d⟩
  · exact h.2.1
  · exact (Opcode.operandCount_of_isJump h).symm
  · exact (Opcode.operandCount_of_isJump h).symm

lemma Instr.WellFormed.accepts (h : n.instr.WellFormed) :
    n.instr.op.accepts (n.read p).operands = true := by
  have hjump : ∀ {op : Opcode} {w : Int32}, op.isJump = true → op.accepts [w] = true := by
    intro op w h
    cases op <;> simp_all [Opcode.isJump, Opcode.accepts, Opcode.isRegister]
  rcases n with ⟨⟨op, operands⟩ | ⟨op, _ | dest⟩, d⟩
  · simp only [Opcode.accepts, List.all_eq_true]
    rintro ⟨w, i⟩ hw
    rw [List.mem_zipIdx_iff_getElem?] at hw
    cases hr : op.isRegister i with
    | false => simp [Instr.op, hr]
    | true => simpa [Instr.op, hr] using h.2.2 i w hw hr
  · exact hjump h
  · exact hjump h

lemma decode_words (h : ∀ {n}, n ∈ F → n.instr.WellFormed) :
    decode b (words b F) = some (readings b F) := by
  induction F generalizing b with
  | nil => simp [decode, readings]
  | cons n F ih =>
    have hn := h List.mem_cons_self
    have hlength := hn.length_operands (p := b)
    have hsize : b + n.size = b + 1 + n.instr.op.operandCount := by
      rw [← Node.next_read, Instruction.next, hlength]
      rfl
    rw [words_cons, Node.words_eq, List.cons_append, decode, Opcode.ofWord?_toWord]
    simp only [List.take_left' hlength, List.drop_left' hlength, hlength,
      hn.accepts, and_self, if_true, ← hsize]
    rw [ih fun hn => h (List.mem_cons_of_mem _ hn)]
    rfl

lemma mem_readings : i ∈ readings b F ↔ ∃ n, nodeAt b F i.position = some n ∧
    i = n.read i.position := by
  induction F generalizing b with
  | nil => simp [readings]
  | cons n F ih =>
    simp only [readings, List.mem_cons, ih, nodeAt]
    constructor
    · rintro (rfl | ⟨m, hm, hi⟩)
      · exact ⟨n, by simp, rfl⟩
      · have := (nodeAt_bounds hm).1
        have := n.size_pos
        exact ⟨m, by rw [if_neg (by omega), hm], hi⟩
    · rintro ⟨m, hm, hi⟩
      split at hm
      · next hp =>
        cases hm
        exact .inl (hp ▸ hi)
      · exact .inr ⟨m, hm, hi⟩

lemma read_mem_readings (h : nodeAt b F p = some n) : n.read p ∈ readings b F :=
  mem_readings.2 ⟨n, h, rfl⟩

end Assembly
end AdventureScript
