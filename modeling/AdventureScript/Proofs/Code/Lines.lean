import AdventureScript.Proofs.Code.Landing

/-!
Line marks in code. The marks of a piece of code are the positions of its marking instructions with
their operands.
-/
namespace AdventureScript

variable {e : LineEntry}

def LineEntry.mark (l : LineEntry) : Nat × Int32 :=
  (l.codeOffset, Int32.ofNat l.line)

namespace Assembly

variable {b p : Nat} {F G : List Node} {n : Node} {op : Opcode}

lemma Node.line?_of_ne (h : n.instr.op ≠ .lineNum) : n.line? = none := by
  unfold line?
  split
  · next hi => exact absurd (congrArg Instr.op hi) h
  · rfl

def lineMarks (b : Nat) : List Node → List (Nat × Int32)
  | [] => []
  | n :: F => (n.line?.map (b, ·)).toList ++ lineMarks (b + n.size) F

lemma lineMarks_append : lineMarks b (F ++ G) = lineMarks b F ++ lineMarks (b + width F) G := by
  induction F generalizing b with
  | nil => rfl
  | cons n F ih => simp [lineMarks, ih, Nat.add_assoc]

lemma lineMarks_relabel {f : Nat → Node → Node} [hf : Relabels f] :
    lineMarks b (relabel f b F) = lineMarks b F := by
  induction F generalizing b with
  | nil => rfl
  | cons n F ih => simp [relabel, lineMarks, ih, (hf.alike b n).size, (hf.alike b n).line?]

lemma lineMarks_bounds {w : Int32} (h : (p, w) ∈ lineMarks b F) : b ≤ p ∧ p < b + width F := by
  induction F generalizing b with
  | nil => cases h
  | cons n F ih =>
    have hn := n.size_pos
    simp only [width_cons]
    rcases List.mem_append.1 h with h | h
    · obtain ⟨w, -, h⟩ := Option.map_eq_some_iff.1 (Option.mem_toList.1 h)
      have hp : b = p := congrArg Prod.fst h
      omega
    · have := ih h
      omega

def Unmarked (F : List Node) : Prop :=
  ∀ n ∈ F, n.line? = none

namespace Unmarked

lemma nil : Unmarked [] := by
  intro n h
  cases h

lemma single (h : n.instr.op ≠ .lineNum) : Unmarked [n] := by
  intro m hm
  obtain rfl := List.mem_singleton.1 hm
  exact Node.line?_of_ne h

lemma plain {operands : List Int32} {d : Int} (h : op ≠ .lineNum) :
    Unmarked [⟨.plain op operands, d⟩] :=
  single h

lemma jump {dest? : Option Nat} {d : Int} : Unmarked [⟨.jump op dest?, d⟩] := by
  intro n hn
  obtain rfl := List.mem_singleton.1 hn
  rfl

lemma append (hF : Unmarked F) (hG : Unmarked G) : Unmarked (F ++ G) := by
  intro n hn
  rcases List.mem_append.1 hn with hn | hn
  · exact hF n hn
  · exact hG n hn

lemma relabel {f : Nat → Node → Node} [hf : Relabels f] (hF : Unmarked F) :
    Unmarked (relabel f b F) := by
  intro m hm
  obtain ⟨q, n, hn, rfl⟩ := mem_relabel hm
  exact (hf.alike q n).line?.trans (hF n (nodeAt_mem hn))

lemma lineMarks_eq (hF : Unmarked F) : lineMarks b F = [] := by
  induction F generalizing b with
  | nil => rfl
  | cons n F ih =>
    obtain ⟨hn, hF⟩ := List.forall_mem_cons.1 hF
    simp [lineMarks, hn, ih hF]

end Unmarked

/-- The lines `m` are the lines `l` and those that the code `F` marks; it marks none unless `on`. -/
structure Lined (on : Bool) (b : Nat) (F : List Node) (l m : List LineEntry) : Prop where
  told : ∃ k, m = l ++ k ∧ k.map LineEntry.mark = lineMarks b F
  off : on = false → lineMarks b F = []

namespace Lined

variable {on : Bool} {l m k : List LineEntry}

lemma unmarked (h : Unmarked F) : Lined on b F l l :=
  ⟨⟨[], by simp, h.lineMarks_eq.symm⟩, fun _ => h.lineMarks_eq⟩

lemma congr (h : Lined on b F l m) (hG : lineMarks b G = lineMarks b F) : Lined on b G l m :=
  ⟨hG ▸ h.told, hG ▸ h.off⟩

lemma append (h : Lined on b F l m) (h' : Lined on (b + width F) G m k) :
    Lined on b (F ++ G) l k := by
  obtain ⟨x, rfl, hx⟩ := h.told
  obtain ⟨y, rfl, hy⟩ := h'.told
  refine ⟨⟨x ++ y, by simp, ?_⟩, fun hoff => ?_⟩
  · rw [List.map_append, hx, hy, lineMarks_append]
  · rw [lineMarks_append, h.off hoff, h'.off hoff, List.append_nil]

lemma bounds (h : k.map LineEntry.mark = lineMarks b F) (he : e ∈ k) :
    b ≤ e.codeOffset ∧ e.codeOffset < b + width F :=
  lineMarks_bounds (w := Int32.ofNat e.line) (h ▸ List.mem_map_of_mem he)

lemma lt (h : Lined on b F l m) (hl : ∀ {e}, e ∈ l → e.codeOffset < b)
    (he : e ∈ m) : e.codeOffset < b + width F := by
  obtain ⟨k, rfl, hk⟩ := h.told
  rcases List.mem_append.1 he with he | he
  · exact Nat.lt_add_right _ (hl he)
  · exact (bounds hk he).2

end Lined

end Assembly
end AdventureScript
