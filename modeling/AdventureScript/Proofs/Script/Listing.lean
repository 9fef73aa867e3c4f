import AdventureScript.Proofs.Code.Node
import AdventureScript.Script.Listing

/-!
Listings are complete: every word of the code is on exactly one line, and an operand is shown with
its fixup if it has one.
-/
namespace AdventureScript

namespace Line

def position : Line → Nat
  | .instruction position _ _ | .word position _ => position

def next : Line → Nat
  | .instruction position op _ => position + 1 + op.operandCount
  | .word position _ => position + 1

def words : Line → List Int32
  | .instruction _ op operands => op.toWord :: operands.map (·.1)
  | .word _ value => [value]

def places (line : Line) : List Nat :=
  List.range' line.position line.words.length

/-- The line is right about its words: one that stands alone is no opcode, and an operand is shown
with a fixup exactly if it has one. -/
def Tells (fixups : List Fixup) : Line → Prop
  | .instruction position _ operands => ∀ i value kind?, operands[i]? = some (value, kind?) →
      ∀ kind, kind? = some kind ↔ ⟨position + 1 + i, kind⟩ ∈ fixups
  | .word _ value => Opcode.ofWord? value = none

def Follow : Nat → List Line → Prop
  | _, [] => True
  | position, line :: lines => line.position = position ∧ Follow line.next lines

end Line

lemma Opcode.toWord_of_ofWord? {op : Opcode} {word : Int32} (h : ofWord? word = some op) :
    op.toWord = word := by
  have hall : ∀ i : Fin 73, all[i].ctorIdx = i.1 := by decide
  unfold ofWord? at h
  split_ifs at h with hpos
  obtain ⟨hlt, rfl⟩ := List.getElem?_eq_some_iff.1 h
  have hpos : 1 ≤ word.toInt := by simpa [Int32.le_iff_toInt_le] using hpos
  have hindex : all[word.toInt.toNat - 1].ctorIdx = word.toInt.toNat - 1 := hall ⟨_, hlt⟩
  rw [toWord, hindex, Nat.sub_add_cancel (by omega), ← Int32.ofInt_eq_ofNat,
    Int.toNat_of_nonneg (by omega), Int32.ofInt_toInt]

namespace Script

variable {p q : Nat} {l fixups : List Fixup} {words : List Int32} {kind : FixupKind}

def shown (fixups : List Fixup) (position : Nat) : Option FixupKind :=
  ((fixups.dropWhile (·.offset < position)).head?.filter (·.offset = position)).map (·.kind)

lemma dropWhile_dropWhile (h : p ≤ q) :
    (l.dropWhile (·.offset < p)).dropWhile (·.offset < q) = l.dropWhile (·.offset < q) := by
  induction l with
  | nil => rfl
  | cons f l ih =>
    by_cases hp : f.offset < p
    · simp [hp, Nat.lt_of_lt_of_le hp h, ih]
    · simp [hp]

lemma shown_eq_some_iff (h : l.Pairwise (·.offset < ·.offset)) :
    shown l p = some kind ↔ ⟨p, kind⟩ ∈ l := by
  induction l with
  | nil => simp [shown]
  | cons f l ih =>
    obtain ⟨hf, hl⟩ := List.pairwise_cons.1 h
    rcases Nat.lt_trichotomy f.offset p with hlt | rfl | hlt
    · have hne : (⟨p, kind⟩ : Fixup) ≠ f := by
        rintro rfl
        exact absurd hlt (Nat.lt_irrefl _)
      simpa [shown, hlt, hne] using ih hl
    · have hnot : (⟨f.offset, kind⟩ : Fixup) ∉ l := fun hmem =>
        Nat.lt_irrefl f.offset (hf ⟨f.offset, kind⟩ hmem)
      obtain ⟨offset, kind'⟩ := f
      simp [shown, hnot, Option.filter, eq_comm (a := kind)]
    · have hnot : (⟨p, kind⟩ : Fixup) ∉ f :: l := by
        intro hmem
        rcases List.mem_cons.1 hmem with rfl | hmem
        · exact absurd hlt (Nat.lt_irrefl _)
        · exact absurd (hf _ hmem) (Nat.not_lt_of_lt hlt)
      simp [shown, Nat.not_lt_of_lt hlt, Nat.ne_of_gt hlt, hnot]

/-- Nothing that belongs to a word at or behind `p` has been passed over. -/
def Pending (p : Nat) (l fixups : List Fixup) : Prop :=
  ∀ q, p ≤ q → fixups.dropWhile (·.offset < q) = l.dropWhile (·.offset < q)

lemma Pending.shown (h : Pending p l fixups) (hq : p ≤ q) :
    shown fixups q = Script.shown l q := by
  rw [Script.shown, Script.shown, h q hq]

lemma Pending.mono (h : Pending p l fixups) (hq : p ≤ q) : Pending q l fixups :=
  fun r hr => h r (Nat.le_trans hq hr)

lemma Pending.look (h : Pending p l fixups) :
    Pending (p + 1) l (fixups.dropWhile (·.offset < p)) :=
  fun q hq => (dropWhile_dropWhile (by omega)).trans (h q (by omega))

lemma operandsFrom_spec (h : Pending p l fixups) :
    (operandsFrom p fixups words).1.map (·.1) = words ∧
      (∀ i value kind?, (operandsFrom p fixups words).1[i]? = some (value, kind?) →
        kind? = shown l (p + i)) ∧
      Pending (p + words.length) l (operandsFrom p fixups words).2 := by
  induction words generalizing p fixups with
  | nil => exact ⟨rfl, by simp [operandsFrom], h⟩
  | cons word words ih =>
    obtain ⟨hwords, hshown, hrest⟩ := ih h.look
    refine ⟨by simp [operandsFrom, hwords], fun i value kind? hi => ?_, ?_⟩
    · cases i with
      | zero =>
        obtain ⟨-, rfl⟩ : word = value ∧ shown fixups p = kind? := by
          simpa [operandsFrom, shown] using hi
        exact h.shown (Nat.le_refl p)
      | succ i =>
        rw [hshown i value kind? (by simpa [operandsFrom] using hi), Nat.add_right_comm,
          Nat.add_assoc]
    · simpa [operandsFrom, Nat.add_right_comm, Nat.add_assoc, Nat.add_comm 1] using hrest

lemma linesFrom_spec (hl : l.Pairwise (·.offset < ·.offset)) (h : Pending p l fixups) :
    Line.Follow p (linesFrom p fixups words) ∧
      (linesFrom p fixups words).flatMap Line.words = words ∧
      (linesFrom p fixups words).flatMap Line.places = List.range' p words.length ∧
      ∀ line ∈ linesFrom p fixups words, line.Tells l := by
  fun_induction linesFrom p fixups words with
  | case1 p fixups => simp [Line.Follow]
  | case2 p fixups word words hword ih =>
    obtain ⟨hfollow, hwords, hplaces, htells⟩ := ih (h.mono (Nat.le_succ p))
    refine ⟨⟨rfl, hfollow⟩, by simp [Line.words, hwords], ?_,
      List.forall_mem_cons.2 ⟨hword, htells⟩⟩
    simp [Line.places, Line.words, Line.position, hplaces, List.range'_succ]
  | case3 p fixups word words op hword operands rest heq ih =>
    have hspec := @operandsFrom_spec (p + 1) l fixups (words.take op.operandCount)
      (h.mono (Nat.le_succ p))
    rw [heq] at hspec
    obtain ⟨hoperands, hshown, hrest⟩ := hspec
    obtain ⟨hfollow, hwords, hplaces, htells⟩ := ih
      (hrest.mono (by rw [List.length_take]; omega))
    have hlength : operands.length = (words.take op.operandCount).length := by
      rw [← hoperands, List.length_map]
    refine ⟨⟨rfl, hfollow⟩, ?_, ?_,
      List.forall_mem_cons.2 ⟨fun i value kind? hi kind => ?_, htells⟩⟩
    · rw [List.flatMap_cons, hwords, Line.words, hoperands, Opcode.toWord_of_ofWord? hword,
        List.cons_append, List.take_append_drop]
    · rw [List.flatMap_cons, hplaces, Line.places, Line.words, List.length_cons, List.length_map,
        hlength, List.length_take, List.length_drop, Line.position, List.length_cons]
      rcases Nat.le_total op.operandCount words.length with hle | hle
      · rw [Nat.min_eq_left hle, Nat.add_assoc p, Nat.add_comm 1, List.range'_append_1]
        congr 1
        omega
      · rw [Nat.min_eq_right hle, Nat.sub_eq_zero_of_le hle, List.range'_zero, List.append_nil]
    · rw [hshown i value kind? hi]
      exact shown_eq_some_iff hl

example : listing { code := #[6, 2, 8, 99, 6], fixups := #[⟨0, .stack⟩, ⟨2, .globalData⟩] } =
    ["     0: mov mar, 8 [GlobalData]", "     3: .word 99", "     4: mov"] := by
  decide +kernel

end Script
end AdventureScript
