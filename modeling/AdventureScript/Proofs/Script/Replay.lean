import AdventureScript.Proofs.Emission.Chunk

/-!
Code that is cut out of a script and put back behind other code.
-/
namespace AdventureScript

namespace Script

variable {s s' t : Script} {words : List Int32} {added : List Fixup}

structure InOrder (s : Script) : Prop where
  ascending : (s.fixups.toList.map (·.offset)).Pairwise (· < ·)
  within : ∀ f ∈ s.fixups.toList, f.offset < s.size

def LeadsTo (s : Script) (operand target : Nat) : Prop :=
  ∃ w, s.code[operand]? = some w ∧ (operand : Int) + 1 + w.toInt = target

/-- From `s` to `s'` words were written, with fixups of these words. -/
structure Appends (s s' : Script) (words : List Int32) (added : List Fixup) : Prop where
  code : s'.code.toList = s.code.toList ++ words
  fixups : s'.fixups.toList = s.fixups.toList ++ added
  ascending : (added.map (·.offset)).Pairwise (· < ·)
  within : ∀ f ∈ added, s.size ≤ f.offset ∧ f.offset < s'.size

lemma Appends.size_eq (h : s.Appends s' words added) : s'.size = s.size + words.length := by
  simpa [size] using congrArg List.length h.code

lemma Appends.refl : s.Appends s [] [] where
  code := by simp
  fixups := by simp
  ascending := .nil
  within := by simp

lemma Appends.write (h : s.Appends t words added) (op : Opcode) (operands : List Int32) :
    s.Appends (t.write op operands) (words ++ op.toWord :: operands) added where
  code := by simp [Script.write, h.code]
  fixups := h.fixups
  ascending := h.ascending
  within f hf := by
    have := h.within f hf
    rw [size_write]
    omega

lemma Appends.fixupLast (h : s.Appends t words added) (hwords : words ≠ []) (kind : FixupKind)
    (hnew : ∀ f ∈ added, f.offset + 1 < t.size) :
    s.Appends (t.fixupLast kind) words (added ++ [⟨t.size - 1, kind⟩]) where
  code := h.code
  fixups := by simp [Script.fixupLast, addFixup, h.fixups]
  ascending := by
    rw [List.map_append, List.pairwise_append]
    refine ⟨h.ascending, List.pairwise_singleton _ _, fun a ha b hb => ?_⟩
    obtain ⟨f, hf, rfl⟩ := List.mem_map.1 ha
    obtain rfl : b = t.size - 1 := by simpa using hb
    have := hnew f hf
    omega
  within f hf := by
    have hpos := List.length_pos_iff.2 hwords
    have hsize := h.size_eq
    rcases List.mem_append.1 hf with hf | hf
    · exact h.within f hf
    · obtain rfl := List.mem_singleton.1 hf
      have : (t.fixupLast kind).size = t.size := rfl
      simp only
      omega

end Script

lemma filter_append_filter {α : Type} (place : α → Nat) (n : Nat) {l : List α}
    (h : (l.map place).Pairwise (· ≤ ·)) :
    l.filter (place · < n) ++ l.filter (n ≤ place ·) = l := by
  induction l with
  | nil => rfl
  | cons a l ih =>
    obtain ⟨ha, hl⟩ := List.pairwise_cons.1 h
    by_cases hn : place a < n
    · simp [hn, Nat.not_le.2 hn, ih hl]
    · have hrest : l.filter (place · < n) = [] := by
        refine List.filter_eq_nil_iff.2 fun b hb => ?_
        have := ha (place b) (List.mem_map_of_mem hb)
        simp only [decide_eq_true_eq]
        omega
      have hall : l.filter (n ≤ place ·) = l := by simpa [hrest] using ih hl
      simp [hn, Nat.not_lt.1 hn, hrest, hall]

lemma Script.take_frontSize {s : Script} (start : Nat)
    (h : (s.fixups.toList.map (·.offset)).Pairwise (· ≤ ·)) :
    let front := frontSize s.fixups (·.offset < start)
    (s.fixups.take front).toList = s.fixups.toList.filter (·.offset < start) ∧
      (s.fixups.drop front).toList = s.fixups.toList.filter (start ≤ ·.offset) := by
  intro front
  have hsplit := filter_append_filter Fixup.offset start h
  have hfront : front = (s.fixups.toList.filter (·.offset < start)).toArray.size :=
    Gen.frontSize_of_grown ⟨s.fixups.toList.filter (start ≤ ·.offset), by simpa using hsplit.symm,
      by simp⟩ (by simp)
  rw [hfront]
  have htake : s.fixups.take (s.fixups.toList.filter (·.offset < start)).toArray.size =
      (s.fixups.toList.filter (·.offset < start)).toArray :=
    Gen.take_of_prefix ⟨_, by simpa using hsplit⟩
  exact ⟨by rw [htake], Gen.toList_drop (by simpa using hsplit.symm)⟩

lemma Marks.toList_putBack_yank {α : Type} {m waiting : Marks α} {start k : Nat}
    {more : List (Mark α)} (h : waiting.entries.toList = (m.yank start).2.entries.toList ++ more) :
    (waiting.putBack (start + k) (m.yank start).1).entries.toList =
      m.entries.toList.filter (·.position < start) ++ more ++
        (m.entries.toList.filter (start ≤ ·.position)).map fun x =>
          { x with position := x.position + k } := by
  have hback : ∀ x ∈ m.entries.toList.filter (start ≤ ·.position),
      (Gen.behind (start + k) { x with position := x.position - start } : Mark α) =
        { x with position := x.position + k } := by
    intro x hx
    have : start ≤ x.position := by simpa using (List.mem_filter.1 hx).2
    simp only [Gen.behind, Mark.mk.injEq, and_true]
    omega
  rw [Gen.toList_putBack, h]
  simp only [yank, keepBefore, Array.toList_filter, Array.toList_map, List.map_map]
  exact congrArg _ (List.map_congr_left hback)

/-! ## Putting back -/

/-- The code of `s` from `start` on was cut out and put back behind other words, which have fixups
and waiting calls of their own. -/
structure Replayed (s : Script) (calls : PendingCalls) (start : Nat) (words : List Int32)
    (added : List Fixup) (more : List (Mark FuncId)) (s' : Script) (calls' : PendingCalls) :
    Prop where
  code : s'.code.toList = s.code.toList.take start ++ words ++ s.code.toList.drop start
  fixups : s'.fixups.toList = s.fixups.toList.filter (·.offset < start) ++ added ++
    (s.fixups.toList.filter (start ≤ ·.offset)).map fun f =>
      { f with offset := f.offset + words.length }
  calls : calls'.entries.toList = calls.entries.toList.filter (·.position < start) ++ more ++
    (calls.entries.toList.filter (start ≤ ·.position)).map fun k =>
      { k with position := k.position + words.length }
  inOrder : s'.InOrder
  distinct : (calls'.entries.toList.map (·.position)).Nodup
  front : ∀ p, p < start → s'.code[p]? = s.code[p]?
  back : ∀ p, start ≤ p → s'.code[p + words.length]? = s.code[p]?
  jumps : ∀ p target, start ≤ p → start ≤ target →
    (s'.LeadsTo (p + words.length) (target + words.length) ↔ s.LeadsTo p target)

section

variable {s cut written : Script} {chunk : Chunk} {start : Nat} {words : List Int32}
  {added : List Fixup} {calls waiting : PendingCalls} {more : List (Mark FuncId)}

lemma Script.InOrder.ascending_le (h : s.InOrder) :
    (s.fixups.toList.map (·.offset)).Pairwise (· ≤ ·) :=
  h.ascending.imp le_of_lt

structure Script.Parted (s : Script) (start : Nat) (chunk : Chunk) (cut : Script) : Prop where
  code : cut.code.toList = s.code.toList.take start
  fixups : cut.fixups.toList = s.fixups.toList.filter (·.offset < start)
  chunkCode : chunk.code.toList = s.code.toList.drop start
  chunkFixups : chunk.fixups.toList = (s.fixups.toList.filter (start ≤ ·.offset)).map fun f =>
    { f with offset := f.offset - start }

lemma Script.exists_yank (line : Nat) (h : (s.fixups.toList.map (·.offset)).Pairwise (· ≤ ·))
    (hstart : start ≤ s.size) :
    ∃ chunk cut, s.yank start line = .ok (chunk, cut) ∧ s.Parted start chunk cut := by
  obtain ⟨htake, hdrop⟩ := Script.take_frontSize start h
  refine ⟨_, _, if_neg (Nat.not_lt.2 hstart), ?_, htake, ?_, ?_⟩
  · simp
  · simp [List.take_of_length_le]
  · rw [Array.toList_map, hdrop]
    refine List.map_congr_left fun f hf => ?_
    rw [positionFrom_of_le (by simpa using (List.mem_filter.1 hf).2)]

lemma Script.Parted.size_eq (h : s.Parted start chunk cut) (hstart : start ≤ s.size) :
    cut.size = start := by
  have := congrArg List.length h.code
  simp only [Array.length_toList, List.length_take] at this
  simp only [size] at hstart ⊢
  omega

lemma Script.Parted.chunkSize (h : s.Parted start chunk cut) (hstart : start ≤ s.size) :
    start + chunk.code.size = s.size := by
  have := congrArg List.length h.chunkCode
  simp only [Array.length_toList, List.length_drop] at this
  simp only [size] at hstart ⊢
  omega

lemma Script.Parted.writeChunk (h : s.Parted start chunk cut) (hs : s.InOrder)
    (hstart : start ≤ s.size) (hw : cut.Appends written words added) :
    (written.writeChunk chunk).1 = start + words.length ∧
      (written.writeChunk chunk).2.code.toList =
        s.code.toList.take start ++ words ++ s.code.toList.drop start ∧
      (written.writeChunk chunk).2.fixups.toList =
        s.fixups.toList.filter (·.offset < start) ++ added ++
          (s.fixups.toList.filter (start ≤ ·.offset)).map fun f =>
            { f with offset := f.offset + words.length } := by
  have hsize : written.size = start + words.length := by rw [hw.size_eq, h.size_eq hstart]
  have hchunk := h.chunkSize hstart
  refine ⟨hsize, ?_, ?_⟩
  · simp [Script.writeChunk, hw.code, h.code, h.chunkCode]
  · simp only [Script.writeChunk, Array.toList_append, Array.toList_map, hw.fixups, h.fixups,
      h.chunkFixups, List.map_map]
    congr 1
    refine List.map_congr_left fun f hf => ?_
    have hle : start ≤ f.offset := by simpa using (List.mem_filter.1 hf).2
    have hlt := hs.within f (List.mem_filter.1 hf).1
    rw [Function.comp_apply, tablePosition_of_le (by simp only; omega)]
    simp only [Fixup.mk.injEq, and_true]
    omega

lemma Script.getElem?_insert {s' : Script}
    (h : s'.code.toList = s.code.toList.take start ++ words ++ s.code.toList.drop start)
    (hstart : start ≤ s.size) :
    (∀ p, p < start → s'.code[p]? = s.code[p]?) ∧
      ∀ p, start ≤ p → s'.code[p + words.length]? = s.code[p]? := by
  have hlength : (s.code.toList.take start).length = start := by
    simp only [List.length_take, Array.length_toList, size] at hstart ⊢
    omega
  refine ⟨fun p hp => ?_, fun p hp => ?_⟩
  · rw [← Array.getElem?_toList, h, List.append_assoc, List.getElem?_append_left (by omega),
      List.getElem?_take_of_lt hp, Array.getElem?_toList]
  · rw [← Array.getElem?_toList, h, List.getElem?_append_right (by simp [hlength]; omega),
      List.getElem?_drop, ← Array.getElem?_toList]
    congr 1
    simp only [List.length_append, hlength]
    omega

lemma Script.InOrder.insert {s' : Script} (hs : s.InOrder) (hstart : start ≤ s.size)
    (hcode : s'.code.toList = s.code.toList.take start ++ words ++ s.code.toList.drop start)
    (hfixups : s'.fixups.toList = s.fixups.toList.filter (·.offset < start) ++ added ++
      (s.fixups.toList.filter (start ≤ ·.offset)).map fun f =>
        { f with offset := f.offset + words.length })
    (hadded : (added.map (·.offset)).Pairwise (· < ·))
    (hwithin : ∀ f ∈ added, start ≤ f.offset ∧ f.offset < start + words.length) : s'.InOrder := by
  have hsize : s'.size = s.size + words.length := by
    have := congrArg List.length hcode
    simp only [Array.length_toList, List.length_append, List.length_take, List.length_drop] at this
    simp only [size] at hstart ⊢
    omega
  have hfront : ∀ f ∈ s.fixups.toList.filter (·.offset < start), f.offset < start := by simp
  have hback : ∀ f ∈ s.fixups.toList.filter (start ≤ ·.offset),
      start ≤ f.offset ∧ f.offset < s.size := fun f hf =>
    ⟨by simpa using (List.mem_filter.1 hf).2, hs.within f (List.mem_filter.1 hf).1⟩
  have hsorted := List.pairwise_map.1 hs.ascending
  constructor
  · rw [hfixups]
    simp only [List.map_append, List.pairwise_append, List.mem_append, List.mem_map]
    refine ⟨⟨List.pairwise_map.2 (hsorted.filter _), hadded, ?_⟩, ?_, ?_⟩
    · rintro _ ⟨f, hf, rfl⟩ _ ⟨g, hg, rfl⟩
      exact lt_of_lt_of_le (hfront f hf) (hwithin g hg).1
    · simp only [List.pairwise_map]
      exact (hsorted.filter _).imp fun h => Nat.add_lt_add_right h _
    · rintro _ (⟨f, hf, rfl⟩ | ⟨f, hf, rfl⟩) _ ⟨_, ⟨g, hg, rfl⟩, rfl⟩
      · have := hfront f hf
        have := (hback g hg).1
        simp only
        omega
      · have := (hwithin f hf).2
        have := (hback g hg).1
        simp only
        omega
  · intro f hf
    rw [hfixups] at hf
    rcases List.mem_append.1 hf with hf | hf
    · rcases List.mem_append.1 hf with hf | hf
      · have := hfront f hf
        omega
      · have := (hwithin f hf).2
        omega
    · obtain ⟨g, hg, rfl⟩ := List.mem_map.1 hf
      have := (hback g hg).2
      simp only
      omega

lemma nodup_insert {k : Nat} {l l' : List (Mark FuncId)}
    (hl : (l.map (·.position)).Nodup) (hmore : (more.map (·.position)).Nodup)
    (hwithin : ∀ m ∈ more, start ≤ m.position ∧ m.position < start + k)
    (hl' : l' = l.filter (·.position < start) ++ more ++
      (l.filter (start ≤ ·.position)).map fun m => { m with position := m.position + k }) :
    (l'.map (·.position)).Nodup := by
  subst hl'
  have hnodup := List.pairwise_map.1 hl
  simp only [List.map_append, List.nodup_append, List.mem_append, List.mem_map]
  refine ⟨⟨List.pairwise_map.2 (hnodup.filter _), hmore, ?_⟩, ?_, ?_⟩
  · rintro _ ⟨a, ha, rfl⟩ _ ⟨b, hb, rfl⟩
    have := (hwithin b hb).1
    have : a.position < start := by simpa using (List.mem_filter.1 ha).2
    omega
  · simp only [List.Nodup, List.pairwise_map]
    exact (hnodup.filter _).imp fun h => by simpa using h
  · rintro _ (⟨a, ha, rfl⟩ | ⟨a, ha, rfl⟩) _ ⟨_, ⟨b, hb, rfl⟩, rfl⟩
    · have : a.position < start := by simpa using (List.mem_filter.1 ha).2
      have : start ≤ b.position := by simpa using (List.mem_filter.1 hb).2
      simp only
      omega
    · have := (hwithin a ha).2
      have : start ≤ b.position := by simpa using (List.mem_filter.1 hb).2
      simp only
      omega

/-- Cutting out code and putting it back behind other code is faithful, wherever the cut is and
whatever is written in between. Beyond the end of the code nothing is cut out. -/
theorem Script.replay (start line : Nat) (hs : s.InOrder)
    (hcalls : (calls.entries.toList.map (·.position)).Nodup) :
    (start ≤ s.size → ∃ chunk cut, s.yank start line = .ok (chunk, cut) ∧
      ∀ {written : Script} {waiting : PendingCalls} {words added more}, cut.Appends written words added →
        waiting.entries.toList = (calls.yank start).2.entries.toList ++ more →
        (more.map (·.position)).Nodup →
        (∀ k ∈ more, start ≤ k.position ∧ k.position < start + words.length) →
        Replayed s calls start words added more (written.writeChunk chunk).2
          (waiting.putBack (written.writeChunk chunk).1 (calls.yank start).1)) ∧
    (s.size < start → s.yank start line = .error (.yankOutOfRange start s.size)) := by
  refine ⟨fun hstart => ?_, fun hstart => if_pos hstart⟩
  obtain ⟨chunk, cut, hyank, hparts⟩ := exists_yank line hs.ascending_le hstart
  refine ⟨chunk, cut, hyank, fun {written waiting words added more} hw hwaiting hmore hwithin => ?_⟩
  obtain ⟨hbase, hcode, hfixups⟩ := hparts.writeChunk hs hstart hw
  obtain ⟨hfront, hback⟩ := getElem?_insert hcode hstart
  have hentries := Marks.toList_putBack_yank (k := words.length) hwaiting
  rw [hbase]
  exact {
    code := hcode
    fixups := hfixups
    calls := hentries
    inOrder := hs.insert hstart hcode hfixups hw.ascending fun f hf => by
      have := hw.within f hf
      rwa [hw.size_eq, hparts.size_eq hstart] at this
    distinct := nodup_insert hcalls hmore hwithin hentries
    front := hfront
    back := hback
    jumps := fun p target hp htarget => by
      simp only [LeadsTo, hback p hp]
      refine exists_congr fun w => and_congr_right fun _ => ?_
      omega }

theorem Script.replay_calls :
    let s := ((({} : Script).write .thisBase [0]).write .jz [3]).litToReg .ax 0 |>.fixupLast .function
    let calls : PendingCalls := ⟨#[⟨6, ⟨0⟩⟩]⟩
    ∃ chunk cut, s.yank 2 9 = .ok (chunk, cut) ∧
      let written := (cut.litToReg .ax 0).fixupLast .function
      let waiting := (calls.yank 2).2.add 4 ⟨1⟩
      let s' := (written.writeChunk chunk).2
      let calls' := waiting.putBack (written.writeChunk chunk).1 (calls.yank 2).1
      Replayed s calls 2 [Opcode.litToReg.toWord, Register.ax.toWord, 0] [⟨4, .function⟩]
          [⟨4, ⟨1⟩⟩] s' calls' ∧
        s.LeadsTo 3 7 ∧ s'.LeadsTo 6 10 := by
  intro s calls
  have hs : s.InOrder := ⟨by decide, by decide⟩
  obtain ⟨chunk, cut, hyank, hreplay⟩ :=
    (@replay s calls 2 9 hs (by decide)).1 (by decide)
  have hcut : cut.size = 2 := by
    obtain ⟨chunk', cut', hyank', hparts⟩ :=
      @exists_yank s 2 9 hs.ascending_le (by decide)
    cases hyank.symm.trans hyank'
    exact hparts.size_eq (by decide)
  have hwritten : cut.Appends ((cut.litToReg .ax 0).fixupLast .function)
      [Opcode.litToReg.toWord, Register.ax.toWord, 0] [⟨4, .function⟩] := by
    have := (Appends.refl.write (s := cut) .litToReg [Register.ax.toWord, 0]).fixupLast (by simp)
      .function (by simp)
    simpa [hcut, litToReg] using this
  have hresult := @hreplay _ ((calls.yank 2).2.add 4 ⟨1⟩) _ _ [⟨4, ⟨1⟩⟩] hwritten
    (by simp [Marks.add]) (by simp) (by simp)
  have hleads : s.LeadsTo 3 7 := ⟨3, by decide, by decide⟩
  exact ⟨chunk, cut, hyank, hresult, hleads, (hresult.jumps 3 7 (by decide) (by decide)).2 hleads⟩

end

end AdventureScript
