import AdventureScript.Proofs.Program.Flow

/-!
The line table of a compiled script. It tells of the instructions that mark lines, of all of them and
of nothing else, so that a line can be looked up in the table as well as in the code.
-/
namespace AdventureScript

open Assembly

def lineMarksOf (code : List Instruction) : List (Nat × List Int32) :=
  (code.filter (·.op = .lineNum)).map fun i => (i.position, i.operands)

def lastMark? (code : List Instruction) (offset : Nat) : Option Instruction :=
  (code.filter fun i => i.op = .lineNum ∧ i.position ≤ offset).getLast?

structure Script.Mirrors (s : Script) (code : List Instruction) : Prop where
  lines : s.lines.toList.map (fun l => (l.codeOffset, [Int32.ofNat l.line])) = lineMarksOf code
  ascending : s.lines.toList.Pairwise (·.codeOffset < ·.codeOffset)
  lineAt : ∀ offset, (s.lineAt? offset).map (fun line => [Int32.ofNat line]) =
    (lastMark? code offset).map (·.operands)

namespace Assembly

variable {b : Nat} {F : List Node} {n : Node}

lemma Instr.WellFormed.exists_line? (h : n.instr.WellFormed) (hop : n.instr.op = .lineNum) :
    ∃ w, n.line? = some w ∧ (n.read b).operands = [w] := by
  rcases n with ⟨⟨op, operands⟩ | ⟨op, dest?⟩, d⟩
  · obtain rfl : op = .lineNum := hop
    obtain ⟨w, rfl⟩ := List.length_eq_one_iff.1 h.2.1
    exact ⟨w, rfl, rfl⟩
  · obtain rfl : op = .lineNum := hop
    cases h

lemma lineMarksOf_readings (h : ∀ {n}, n ∈ F → n.instr.WellFormed) :
    lineMarksOf (readings b F) = (lineMarks b F).map fun m => (m.1, [m.2]) := by
  induction F generalizing b with
  | nil => rfl
  | cons n F ih =>
    specialize @ih (b + n.size) fun hn => h (List.mem_cons_of_mem _ hn)
    by_cases hop : n.instr.op = .lineNum
    · obtain ⟨w, hline, hread⟩ := (h List.mem_cons_self).exists_line? (b := b) hop
      rw [lineMarksOf] at ih ⊢
      simp [readings, lineMarks, hop, hline, hread, ih]
    · rw [lineMarksOf] at ih ⊢
      simp [readings, lineMarks, hop, Node.line?_of_ne hop, ih]

lemma pairwise_lineMarks : (lineMarks b F).Pairwise (·.1 < ·.1) := by
  induction F generalizing b with
  | nil => exact .nil
  | cons n F ih =>
    refine List.pairwise_append.2 ⟨by cases n.line? <;> simp, ih, fun m hm k hk => ?_⟩
    obtain ⟨w, -, rfl⟩ := Option.map_eq_some_iff.1 (Option.mem_toList.1 hm)
    have := (lineMarks_bounds (w := k.2) hk).1
    have := n.size_pos
    omega

end Assembly

/-! ## Looking up a line -/

lemma LineEntry.takeWhile_eq_filter {l : List LineEntry} {offset : Nat}
    (h : l.Pairwise (·.codeOffset < ·.codeOffset)) :
    l.takeWhile (·.codeOffset ≤ offset) = l.filter (·.codeOffset ≤ offset) := by
  induction l with
  | nil => rfl
  | cons e l ih =>
    obtain ⟨hlt, hl⟩ := List.pairwise_cons.1 h
    by_cases he : e.codeOffset ≤ offset
    · simp [he, ih hl]
    · -- Whatever comes later is further away.
      have hnone : l.filter (·.codeOffset ≤ offset) = [] :=
        List.filter_eq_nil_iff.2 fun e' he' => by
          have := hlt e' he'
          simp only [decide_eq_true_eq]
          omega
      simp [he, hnone]

lemma Script.lineAt?_eq {s : Script} {code : List Instruction} {offset : Nat}
    (hlines : s.lines.toList.map (fun l => (l.codeOffset, [Int32.ofNat l.line])) = lineMarksOf code)
    (hascending : s.lines.toList.Pairwise (·.codeOffset < ·.codeOffset)) :
    (s.lineAt? offset).map (fun line => [Int32.ofNat line]) =
      (lastMark? code offset).map (·.operands) := by
  have hcut := congrArg (fun l => (l.filter (·.1 ≤ offset)).getLast?.map (·.2)) hlines
  simp only [lineMarksOf, List.filter_map, List.filter_filter, List.getLast?_map, Option.map_map]
    at hcut
  rw [lineAt?, ← Array.getLast?_toList, Array.toList_takeWhile,
    LineEntry.takeWhile_eq_filter hascending, Option.map_map]
  simpa [lastMark?, Function.comp_def, Bool.and_comm] using hcut

namespace Gen

variable {c : Context} {s : State} {F : List Node}

lemma Holds.map_lines (h : Holds c s F) :
    s.script.lines.toList.map LineEntry.mark = lineMarks 0 F := by
  obtain ⟨k, hk, hmarks⟩ := h.lines.told
  rw [hk, List.nil_append, hmarks]

lemma Holds.mirrors (h : Holds c s F) : s.script.Mirrors (readings 0 F) := by
  have hlines : s.script.lines.toList.map (fun l => (l.codeOffset, [Int32.ofNat l.line])) =
      lineMarksOf (readings 0 F) := by
    rw [lineMarksOf_readings h.wellFormed, ← h.map_lines, List.map_map]
    rfl
  have hascending : s.script.lines.toList.Pairwise (·.codeOffset < ·.codeOffset) := by
    have := @pairwise_lineMarks 0 F
    rwa [← h.map_lines, List.pairwise_map] at this
  exact ⟨hlines, hascending, fun _ => Script.lineAt?_eq hlines hascending⟩

lemma Holds.no_lines (h : Holds c s F) (hoff : c.options.lineNumbers = false) :
    s.script.lines = #[] ∧ lineMarksOf (readings 0 F) = [] := by
  have hmarks := h.lines.off hoff
  constructor
  · have := h.map_lines
    rw [hmarks, List.map_eq_nil_iff] at this
    exact Array.toList_eq_nil_iff.1 this
  · rw [lineMarksOf_readings h.wellFormed, hmarks]
    rfl

end Gen

variable {source : String} {options : Options} {script : Script}

/-- The line table of a compiled script lists the marks in its code, in the order of their positions,
and a line is found as the operand of the last mark. Without line numbers there are neither. -/
theorem compile_mirrors (h : (compile source options).result = .ok script) :
    ∃ code, decode 0 script.code.toList = some code ∧ script.Mirrors code ∧
      (options.lineNumbers = false → script.lines = #[] ∧ lineMarksOf code = []) := by
  obtain ⟨tokens, s, hs, rfl⟩ := compile_eq_ok_iff.1 h
  obtain ⟨F, hF, _⟩ := hs.complete.code
  exact ⟨_, hF.decode_eq, hF.mirrors, hF.no_lines⟩

theorem compile_mirrors_loop :
    let source := "int f(int n) \x7b\n for (int i = 0; i < n;\n i++) \x7b\n switch (n) \x7b\n case 1: n--;\n break; \x7d \x7d\n return n; \x7d"
    ∃ script code, (compile source { lineNumbers := true }).result = .ok script ∧
      decode 0 script.code.toList = some code ∧ (lineMarksOf code).length = 8 ∧
      script.Mirrors code := by
  intro source
  have hrun : (compiled? source { lineNumbers := true }).any (fun x =>
      (decode 0 x.2.script.code.toList).any fun code => (lineMarksOf code).length = 8) = true := by
    decide +kernel
  obtain ⟨script, h⟩ := exists_script_of_any hrun
  obtain ⟨code, hcode, hmirrors, _⟩ := compile_mirrors h
  obtain ⟨tokens, s, hs, rfl⟩ := compile_eq_ok_iff.1 h
  exact ⟨s.script, code, h, hcode, by simpa [hcode] using hs.of_any hrun, hmirrors⟩

end AdventureScript
