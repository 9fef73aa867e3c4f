import AdventureScript.Proofs.Script.Replay

/-!
Taking back what was written to a script.
-/
namespace AdventureScript

structure Chunk.Sound (chunk : Chunk) : Prop where
  ascending : (chunk.fixups.toList.map (·.offset)).Pairwise (· ≤ ·)
  within : ∀ f ∈ chunk.fixups.toList, f.offset < chunk.code.size

/-! ## Tables that are cut -/

variable {α : Type} {l : List α} {p : α → Bool} {place : α → Nat}

lemma Grown.filter {P : α → Prop} {m : List α} (h : Grown P l m)
    (hl : ∀ a ∈ l, p a = true) : Grown P l (m.filter p) := by
  obtain ⟨x, rfl, hx⟩ := h
  refine ⟨x.filter p, ?_, fun a ha => hx a (List.mem_filter.1 ha).1⟩
  rw [List.filter_append, List.filter_eq_self.2 hl]

lemma toList_popWhile {xs : Array α} (place : α → Nat) (n : Nat)
    (h : (xs.toList.map place).Pairwise (· ≤ ·)) :
    (xs.popWhile (n ≤ place ·)).toList = xs.toList.filter (place · < n) := by
  have hgrown : Grown (n ≤ place ·) (xs.toList.filter (place · < n)).toArray.toList xs.toList :=
    ⟨xs.toList.filter (n ≤ place ·), by simpa using (filter_append_filter place n h).symm, by simp⟩
  rw [Gen.popWhile_of_grown hgrown (by simp)]

lemma toList_take_of_prefix {xs ys : Array α} {n : Nat} (h : xs.toList <+: ys.toList)
    (hn : xs.size ≤ n) : xs.toList <+: (ys.take n).toList := by
  have : xs.toList <+: ys.toList.take n := List.prefix_take_iff.2 ⟨h, by simpa using hn⟩
  simpa using this

lemma StringPool.Grows.truncate {p p' : StringPool} {n : Nat} (h : p.Grows p')
    (hp : ∀ e ∈ p.index, e.2 < p.bytes.size) (hn : p.bytes.size ≤ n) : p.Grows (p'.truncate n) := by
  obtain ⟨new, hnew, hle⟩ := h.index
  unfold StringPool.truncate
  split
  · refine ⟨?_, new.filter (·.2 < n), ?_, fun e he => hle e (List.mem_filter.1 he).1⟩
    · exact toList_take_of_prefix h.bytes hn
    · have hkeep : p.index.filter (fun e => decide (e.2 < n)) = p.index :=
        List.filter_eq_self.2 fun e he => by
          have := hp e he
          simp only [decide_eq_true_eq]
          omega
      simp only [hnew, List.filter_append, hkeep]
  · exact h

lemma StringPool.lt_of_mem_truncate {p : StringPool} {n : Nat}
    (hp : ∀ e ∈ p.index, e.2 < p.bytes.size) :
    ∀ e ∈ (p.truncate n).index, e.2 < (p.truncate n).bytes.size := by
  intro e he
  unfold StringPool.truncate at he ⊢
  split at he
  · next hlt =>
    have hn : e.2 < n := by simpa using (List.mem_filter.1 he).2
    rw [if_pos hlt]
    have hsize : (p.bytes.take n).size = min n p.bytes.size := by simp
    simp only [hsize]
    omega
  · next hlt =>
    rw [if_neg hlt]
    exact hp e he

namespace Script

/-- From `s` to `t` the script was changed, its first `n` words apart. -/
inductive Edits (n : Nat) : Script → Script → Prop where
  | refl {s} : Edits n s s
  | write {s t} (h : Edits n s t) (op : Opcode) (operands : List Int32) :
    Edits n s (t.write op operands)
  /-- The word that the fixup is of has been written since. -/
  | fixupLast {s t} (h : Edits n s t) (kind : FixupKind) (hsize : n < t.size) :
    Edits n s (t.fixupLast kind)
  | writeLine {s t} (h : Edits n s t) (line : Nat) : Edits n s (t.writeLine line)
  | addString {s t} (h : Edits n s t) (text : List UInt8) : Edits n s (t.addString text).2
  | addImport {s t} (h : Edits n s t) (name : String) : Edits n s (t.addImport name).2
  | patch {s t} (h : Edits n s t) (position : Nat) (w : Int32) (hposition : n ≤ position) :
    Edits n s (t.patch position w)
  | yank {s t cut} {start line : Nat} {chunk : Chunk} (h : Edits n s t) (hstart : n ≤ start)
    (hcut : t.yank start line = .ok (chunk, cut)) : Edits n s cut
  | writeChunk {s t} {chunk : Chunk} (h : Edits n s t) (hchunk : chunk.Sound) :
    Edits n s (t.writeChunk chunk).2
  | restore {s t t'} (h : Edits n s t) (h' : Edits n t t')
    (hsize : t.size ≤ t'.size ∨ t.size < UInt32.size) : Edits n s (t'.restore t.checkpoint)

inductive Reachable : Script → Prop where
  | empty : Reachable {}
  | edits {s t} (h : Reachable s) (h' : Edits 0 s t) : Reachable t
  | addGlobal {s} (h : Reachable s) (size : UInt32) (init : List UInt8) :
    Reachable (s.addGlobal size init).2
  | addExport {s t} {name : String} {tag offset : UInt32} (h : Reachable s)
    (ht : s.addExport name tag offset = .ok t) : Reachable t
  | startSection {s} (h : Reachable s) (name : String) : Reachable (s.startSection name)

variable {b s t : Script} {n : Nat} {chunk : Chunk}

/-! ## Tables -/

structure Bounded (s : Script) : Prop where
  fixups : ∀ f ∈ s.fixups.toList, f.offset < s.size
  lines : ∀ l ∈ s.lines.toList, l.codeOffset < s.size
  texts : ∀ e ∈ s.strings.index, e.2 < s.strings.bytes.size

structure Ascending (s : Script) : Prop where
  fixups : (s.fixups.toList.map (·.offset)).Pairwise (· ≤ ·)
  lines : (s.lines.toList.map (·.codeOffset)).Pairwise (· ≤ ·)

structure Over (b s : Script) : Prop where
  code : b.code.toList <+: s.code.toList
  fixups : Grown (b.size ≤ ·.offset) b.fixups.toList s.fixups.toList
  lines : Grown (b.size ≤ ·.codeOffset) b.lines.toList s.lines.toList
  strings : b.strings.Grows s.strings
  imports : b.imports.toList <+: s.imports.toList
  globalData : s.globalData = b.globalData
  exports : s.exports = b.exports
  sections : s.sections = b.sections
  bounded : s.Bounded

lemma Over.refl (h : s.Bounded) : s.Over s :=
  ⟨List.prefix_refl _, .refl, .refl, .refl, List.prefix_refl _, rfl, rfl, rfl, h⟩

lemma Over.size_le (h : b.Over s) : b.size ≤ s.size := by
  simpa [size] using h.code.length_le

lemma Over.trans (h : b.Over s) (h' : s.Over t) : b.Over t where
  code := h.code.trans h'.code
  fixups := h.fixups.trans (h'.fixups.mono fun _ hf => le_trans h.size_le hf)
  lines := h.lines.trans (h'.lines.mono fun _ hl => le_trans h.size_le hl)
  strings := h.strings.trans h'.strings
  imports := h.imports.trans h'.imports
  globalData := h'.globalData.trans h.globalData
  exports := h'.exports.trans h.exports
  sections := h'.sections.trans h.sections
  bounded := h'.bounded

lemma Bounded.grow (h : s.Bounded) (hsize : s.size ≤ t.size) (hfixups : t.fixups = s.fixups)
    (hlines : t.lines = s.lines) (hstrings : t.strings = s.strings) : t.Bounded where
  fixups f hf := lt_of_lt_of_le (h.fixups f (hfixups ▸ hf)) hsize
  lines l hl := lt_of_lt_of_le (h.lines l (hlines ▸ hl)) hsize
  texts := hstrings ▸ h.texts

section

variable {op : Opcode} {operands : List Int32} {kind : FixupKind} {line start position : Nat}
  {text : List UInt8} {name : String} {w : Int32} {cut : Script}

section

variable (h : b.Over s)
include h

lemma Over.write : b.Over (s.write op operands) :=
  { h with
    code := h.code.trans ⟨op.toWord :: operands, by simp [Script.write]⟩
    bounded := h.bounded.grow (by rw [size_write]; omega) rfl rfl rfl }

lemma Over.fixupLast (hsize : b.size < s.size) : b.Over (s.fixupLast kind) :=
  { h with
    fixups := by
      refine h.fixups.trans ⟨[⟨s.size - 1, kind⟩], by simp [Script.fixupLast, addFixup], ?_⟩
      simp only [List.mem_singleton, forall_eq]
      omega
    bounded := {
      fixups := fun f hf => by
        have hf : f ∈ s.fixups.toList ∨ f = ⟨s.size - 1, kind⟩ := by
          simpa [Script.fixupLast, addFixup] using hf
        rcases hf with hf | rfl
        · exact h.bounded.fixups f hf
        · show s.size - 1 < s.size
          omega
      lines := h.bounded.lines
      texts := h.bounded.texts } }

lemma Over.writeLine : b.Over (s.writeLine line) := by
  have hsize : s.size < (s.writeLine line).size := by
    rw [Script.writeLine, size_write]
    exact Nat.lt_add_of_pos_right (by simp)
  exact { h with
    code := h.code.trans ⟨[Opcode.lineNum.toWord, Int32.ofNat line], by
      simp [Script.writeLine, Script.write]⟩
    lines := h.lines.trans ⟨[⟨s.size, line⟩], by simp [Script.writeLine, Script.write],
      by simpa using h.size_le⟩
    bounded := { h.bounded with
      fixups := fun f hf => lt_trans (h.bounded.fixups f hf) hsize
      lines := fun l hl => by
        have hl : l ∈ s.lines.toList ∨ l = ⟨s.size, line⟩ := by
          simpa [Script.writeLine, Script.write] using hl
        rcases hl with hl | rfl
        · exact lt_trans (h.bounded.lines l hl) hsize
        · exact hsize } }

lemma Over.addString : b.Over (s.addString text).2 :=
  { h with
    strings := h.strings.trans StringPool.add_grows
    bounded := { h.bounded with
      texts := by
        intro e he
        simp only [Script.addString, StringPool.add] at he ⊢
        split at he
        · exact h.bounded.texts e he
        · rcases List.mem_cons.1 he with rfl | he
          · simp
          · have := h.bounded.texts e he
            simp only [Array.size_push, Array.size_append]
            omega } }

lemma Over.addImport : b.Over (s.addImport name).2 := by
  unfold Script.addImport
  split
  · exact h
  · exact { h with
      imports := h.imports.trans ⟨[name], by simp⟩
      bounded := h.bounded.grow le_rfl rfl rfl rfl }

lemma Over.patch (hposition : b.size ≤ position) : b.Over (s.patch position w) :=
  { h with
    code := by
      obtain ⟨l, hl⟩ := h.code
      refine ⟨l.set (position - b.size) w, ?_⟩
      rw [Script.patch, Array.toList_setIfInBounds, ← hl, List.set_append_right _ _ hposition]
      rfl
    bounded := h.bounded.grow (by simp [Script.patch, size]) rfl rfl rfl }

lemma Over.writeChunk (hchunk : chunk.Sound) : b.Over (s.writeChunk chunk).2 := by
  have hsize : (s.writeChunk chunk).2.size = s.size + chunk.code.size := by
    simp [Script.writeChunk, size]
  have hfixups : (s.writeChunk chunk).2.fixups.toList = s.fixups.toList ++
      chunk.fixups.toList.map fun f => { f with offset := s.size + f.offset } := by
    simp only [Script.writeChunk, Array.toList_append, Array.toList_map]
    congr 1
    refine List.map_congr_left fun f hf => ?_
    have := hchunk.within f hf
    rw [tablePosition_of_le (by omega)]
  exact { h with
    code := h.code.trans ⟨chunk.code.toList, by simp [Script.writeChunk]⟩
    fixups := by
      refine h.fixups.trans ⟨_, hfixups, fun f hf => ?_⟩
      obtain ⟨g, _, rfl⟩ := List.mem_map.1 hf
      exact le_trans h.size_le (Nat.le_add_right _ _)
    bounded := {
      fixups := fun f hf => by
        rw [hfixups] at hf
        rcases List.mem_append.1 hf with hf | hf
        · have := h.bounded.fixups f hf
          omega
        · obtain ⟨g, hg, rfl⟩ := List.mem_map.1 hf
          have := hchunk.within g hg
          simp only
          omega
      lines := fun l hl => by
        have := h.bounded.lines l hl
        omega
      texts := h.bounded.texts } }

end

lemma Over.yank (hb : b.Bounded) (h : b.Over s) (hs : s.Ascending) (hstart : b.size ≤ start)
    (hcut : s.yank start line = .ok (chunk, cut)) : b.Over cut := by
  have hle : start ≤ s.size := Nat.le_of_not_lt fun hlt => by
    rw [Script.yank, if_pos hlt] at hcut
    cases hcut
  obtain ⟨htake, _⟩ := take_frontSize start hs.fixups
  rw [Script.yank, if_neg (Nat.not_lt.2 hle)] at hcut
  cases hcut
  have hlines := toList_popWhile LineEntry.codeOffset start hs.lines
  have hsize : (s.code.take start).size = start := by
    have : min start s.code.size = start := Nat.min_eq_left hle
    simpa using this
  exact { h with
    code := toList_take_of_prefix h.code hstart
    fixups := by
      rw [htake]
      exact h.fixups.filter fun f hf => by
        have := hb.fixups f hf
        simp only [decide_eq_true_eq]
        omega
    lines := by
      rw [hlines]
      exact h.lines.filter fun l hl => by
        have := hb.lines l hl
        simp only [decide_eq_true_eq]
        omega
    bounded := {
      fixups := fun f hf => by
        rw [htake] at hf
        simpa [size, hsize] using (List.mem_filter.1 hf).2
      lines := fun l hl => by
        rw [hlines] at hl
        simpa [size, hsize] using (List.mem_filter.1 hl).2
      texts := h.bounded.texts } }

lemma Over.restore (hb : b.Bounded) (h : b.Over s) (h' : b.Over t) (ht : t.Ascending)
    (hsize : s.size ≤ t.size ∨ s.size < UInt32.size) : b.Over (t.restore s.checkpoint) := by
  have hbound : tablePosition t.size s.size = s.size := by
    unfold tablePosition
    split
    · rfl
    · exact Nat.mod_eq_of_lt (hsize.resolve_left ‹_›)
  have hfixups := toList_popWhile Fixup.offset s.size ht.fixups
  have hlines := toList_popWhile LineEntry.codeOffset s.size ht.lines
  have hle := h.size_le
  have hrestored : (t.restore s.checkpoint).size = min s.size t.size := size_restore
  exact {
    code := toList_take_of_prefix h'.code h.size_le
    fixups := by
      simp only [Script.restore, truncate, truncateTables, checkpoint, hbound]
      rw [hfixups]
      exact h'.fixups.filter fun f hf => by
        have := hb.fixups f hf
        simp only [decide_eq_true_eq]
        omega
    lines := by
      simp only [Script.restore, truncate, truncateTables, checkpoint, hbound]
      rw [hlines]
      exact h'.lines.filter fun l hl => by
        have := hb.lines l hl
        simp only [decide_eq_true_eq]
        omega
    strings := h'.strings.truncate hb.texts h.strings.size_le
    imports := toList_take_of_prefix h'.imports
      (show b.imports.size ≤ s.imports.size by simpa using h.imports.length_le)
    globalData := h'.globalData
    exports := h'.exports
    sections := h'.sections
    bounded := {
      fixups := fun f hf => by
        simp only [Script.restore, truncate, truncateTables, checkpoint, hbound, hfixups] at hf
        have hlt : f.offset < s.size := by simpa using (List.mem_filter.1 hf).2
        have := h'.bounded.fixups f (List.mem_filter.1 hf).1
        omega
      lines := fun l hl => by
        simp only [Script.restore, truncate, truncateTables, checkpoint, hbound, hlines] at hl
        have hlt : l.codeOffset < s.size := by simpa using (List.mem_filter.1 hl).2
        have := h'.bounded.lines l (List.mem_filter.1 hl).1
        omega
      texts := StringPool.lt_of_mem_truncate h'.bounded.texts } }

lemma pairwise_concat {a : α} (h : (l.map place).Pairwise (· ≤ ·))
    (hlt : ∀ x ∈ l, place x ≤ place a) : ((l ++ [a]).map place).Pairwise (· ≤ ·) := by
  rw [List.map_append, List.pairwise_append]
  refine ⟨h, List.pairwise_singleton _ _, fun x hx y hy => ?_⟩
  obtain ⟨e, he, rfl⟩ := List.mem_map.1 hx
  obtain rfl : y = place a := by simpa using hy
  exact hlt e he

lemma pairwise_filter (h : (l.map place).Pairwise (· ≤ ·)) :
    ((l.filter p).map place).Pairwise (· ≤ ·) :=
  List.pairwise_map.2 ((List.pairwise_map.1 h).filter p)

variable (h : s.Ascending)
include h

lemma Ascending.fixupLast (hs : s.Bounded) : (s.fixupLast kind).Ascending where
  fixups := by
    simp only [Script.fixupLast, addFixup, Array.toList_push]
    exact pairwise_concat h.fixups fun f hf => Nat.le_sub_one_of_lt (hs.fixups f hf)
  lines := h.lines

lemma Ascending.writeLine (hs : s.Bounded) : (s.writeLine line).Ascending where
  fixups := h.fixups
  lines := by
    simp only [Script.writeLine, Script.write, Array.toList_push]
    exact pairwise_concat h.lines fun l hl => le_of_lt (hs.lines l hl)

lemma Ascending.addImport : (s.addImport name).2.Ascending := by
  unfold Script.addImport
  split
  · exact h
  · exact ⟨h.fixups, h.lines⟩

lemma Ascending.writeChunk (hs : s.Bounded) (hchunk : chunk.Sound) :
    (s.writeChunk chunk).2.Ascending where
  fixups := by
    simp only [Script.writeChunk, Array.toList_append, Array.toList_map, List.map_append,
      List.map_map]
    rw [List.pairwise_append]
    have hmoved : ∀ f ∈ chunk.fixups.toList,
        tablePosition (s.size + chunk.code.size) (s.size + f.offset) = s.size + f.offset :=
      fun f hf => tablePosition_of_le (by have := hchunk.within f hf; omega)
    refine ⟨h.fixups, ?_, fun x hx y hy => ?_⟩
    · rw [List.pairwise_map]
      refine (List.pairwise_map.1 hchunk.ascending).imp_of_mem fun {f g} hf hg hle => ?_
      simp only [Function.comp_apply, hmoved f hf, hmoved g hg]
      omega
    · obtain ⟨f, hf, rfl⟩ := List.mem_map.1 hx
      obtain ⟨g, hg, rfl⟩ := List.mem_map.1 hy
      have := hs.fixups f hf
      simp only [Function.comp_apply, hmoved g hg]
      omega
  lines := h.lines

lemma Ascending.yank (hcut : s.yank start line = .ok (chunk, cut)) :
    cut.Ascending := by
  unfold Script.yank at hcut
  split at hcut
  · cases hcut
  · cases hcut
    constructor
    · rw [(take_frontSize start h.fixups).1]
      exact pairwise_filter h.fixups
    · rw [toList_popWhile LineEntry.codeOffset start h.lines]
      exact pairwise_filter h.lines

lemma Ascending.restore {c : Checkpoint}  : (s.restore c).Ascending where
  fixups := by
    simp only [Script.restore, truncate, truncateTables]
    rw [toList_popWhile Fixup.offset _ h.fixups]
    exact pairwise_filter h.fixups
  lines := by
    simp only [Script.restore, truncate, truncateTables]
    rw [toList_popWhile LineEntry.codeOffset _ h.lines]
    exact pairwise_filter h.lines

end

/-! ## Taking back -/

lemma Edits.over (h : Edits n s t) (hn : b.size = n) (hb : b.Bounded) (hs : b.Over s)
    (ha : s.Ascending) : b.Over t ∧ t.Ascending := by
  subst hn
  induction h with
  | refl => exact ⟨hs, ha⟩
  | write _ op operands ih =>
    obtain ⟨ho, ha⟩ := ih hs ha
    exact ⟨ho.write, ha.fixups, ha.lines⟩
  | fixupLast _ kind hsize ih =>
    obtain ⟨ho, ha⟩ := ih hs ha
    exact ⟨ho.fixupLast hsize, ha.fixupLast ho.bounded⟩
  | writeLine _ line ih =>
    obtain ⟨ho, ha⟩ := ih hs ha
    exact ⟨ho.writeLine, ha.writeLine ho.bounded⟩
  | addString _ text ih =>
    obtain ⟨ho, ha⟩ := ih hs ha
    exact ⟨ho.addString, ha.fixups, ha.lines⟩
  | addImport _ name ih =>
    obtain ⟨ho, ha⟩ := ih hs ha
    exact ⟨ho.addImport, ha.addImport⟩
  | patch _ position w hposition ih =>
    obtain ⟨ho, ha⟩ := ih hs ha
    exact ⟨ho.patch hposition, ha.fixups, ha.lines⟩
  | yank _ hstart hcut ih =>
    obtain ⟨ho, ha⟩ := ih hs ha
    exact ⟨ho.yank hb ha hstart hcut, ha.yank hcut⟩
  | writeChunk _ hchunk ih =>
    obtain ⟨ho, ha⟩ := ih hs ha
    exact ⟨ho.writeChunk hchunk, ha.writeChunk ho.bounded hchunk⟩
  | restore _ _ hsize ih ih' =>
    obtain ⟨ho, ha⟩ := ih hs ha
    obtain ⟨ho', ha'⟩ := ih' ho ha
    exact ⟨ho.restore hb ho' ha' hsize, ha'.restore⟩

lemma over_blank (hs : s.Bounded) :
    Over { globalData := s.globalData, exports := s.exports, sections := s.sections } s where
  code := List.nil_prefix
  fixups := ⟨_, rfl, fun _ _ => Nat.zero_le _⟩
  lines := ⟨_, rfl, fun _ _ => Nat.zero_le _⟩
  strings := ⟨List.nil_prefix, s.strings.index, by simp, fun _ _ => Nat.zero_le _⟩
  imports := List.nil_prefix
  globalData := rfl
  exports := rfl
  sections := rfl
  bounded := hs

lemma bounded_blank {globalData : Array UInt8} {exports : Array Export}
    {sections : Array SectionStart} : Bounded { globalData, exports, sections } :=
  ⟨by simp, by simp, by simp⟩

lemma Reachable.bounded (h : s.Reachable) : s.Bounded ∧ s.Ascending := by
  induction h with
  | empty => exact ⟨bounded_blank, by simp, by simp⟩
  | edits _ h' ih =>
    obtain ⟨ho, ha⟩ := h'.over rfl bounded_blank (over_blank ih.1) ih.2
    exact ⟨ho.bounded, ha⟩
  | addGlobal _ size init ih =>
    exact ⟨ih.1.grow le_rfl rfl rfl rfl, ih.2.fixups, ih.2.lines⟩
  | addExport _ ht ih =>
    unfold Script.addExport at ht
    split at ht
    · cases ht
    · split at ht
      · cases ht
        exact ih
      · cases ht
        exact ⟨ih.1.grow le_rfl rfl rfl rfl, ih.2.fixups, ih.2.lines⟩
  | startSection _ name ih =>
    exact ⟨ih.1.grow le_rfl rfl rfl rfl, ih.2.fixups, ih.2.lines⟩

structure Regained (s t : Script) : Prop where
  code : t.code = s.code
  fixups : t.fixups = s.fixups
  lines : t.lines = s.lines
  strings : t.strings = s.strings
  imports : t.imports = s.imports
  lastPosition : t.lastPosition? = s.lastPosition?
  lastOpcode : t.lastOpcode? = s.lastOpcode?
  addString : ∀ text, (t.addString text).1 = (s.addString text).1
  findImport : ∀ name, t.findImport? name = s.findImport? name
  globalData : t.globalData = s.globalData
  exports : t.exports = s.exports
  sections : t.sections = s.sections

section

variable (h : b.Over s) (hb : b.Bounded)
include h

lemma Over.code_restore : (s.restore b.checkpoint).code = b.code :=
  Gen.take_of_prefix h.code

lemma Over.imports_restore : (s.restore b.checkpoint).imports = b.imports :=
  Gen.take_of_prefix h.imports

lemma Over.lastOp_restore :
    (s.restore b.checkpoint).lastOp = b.lastOp.filter (· < b.size) := by
  simp only [Script.restore, truncate, truncateTables, checkpoint, tablePosition_of_le h.size_le]

include hb

lemma Over.fixups_restore : (s.restore b.checkpoint).fixups = b.fixups := by
  simp only [Script.restore, truncate, truncateTables, checkpoint, tablePosition_of_le h.size_le]
  exact Gen.popWhile_of_grown h.fixups hb.fixups

lemma Over.lines_restore : (s.restore b.checkpoint).lines = b.lines := by
  simp only [Script.restore, truncate, truncateTables, checkpoint, tablePosition_of_le h.size_le]
  exact Gen.popWhile_of_grown h.lines hb.lines

lemma Over.strings_restore : (s.restore b.checkpoint).strings = b.strings :=
  h.strings.truncate_eq hb.texts h.bounded.texts

lemma Over.regained : b.Regained (s.restore b.checkpoint) where
  code := h.code_restore
  fixups := h.fixups_restore hb
  lines := h.lines_restore hb
  strings := h.strings_restore hb
  imports := h.imports_restore
  lastPosition := by
    simp only [lastPosition?, size, h.code_restore, h.lastOp_restore, Option.filter_filter]
    congr 1
    funext position
    exact Bool.and_self _
  lastOpcode := by
    -- A latest instruction that was not there any more has no opcode either.
    simp only [lastOpcode?, h.code_restore, h.lastOp_restore]
    cases b.lastOp with
    | none => rfl
    | some position =>
      by_cases hlt : position < b.size
      · simp [Option.filter, hlt]
      · have hnone : b.code[position]? = none := Array.getElem?_eq_none (Nat.le_of_not_lt hlt)
        simp [Option.filter, hlt, hnone]
  addString text := by simp only [Script.addString, h.strings_restore hb]
  findImport name := by simp only [findImport?, h.imports_restore]
  globalData := h.globalData
  exports := h.exports
  sections := h.sections

lemma Over.restore_eq (hlast : ∀ {p}, b.lastOp = some p → p < b.size) :
    s.restore b.checkpoint = b := by
  have hback := h.regained hb
  ext1
  case code => exact hback.code
  case fixups => exact hback.fixups
  case imports => exact hback.imports
  case exports => exact hback.exports
  case strings => exact hback.strings
  case globalData => exact hback.globalData
  case sections => exact hback.sections
  case lines => exact hback.lines
  case lastOp =>
    rw [h.lastOp_restore]
    cases hl : b.lastOp with
    | none => rfl
    | some p => simpa using hlast hl

end

end Script
end AdventureScript
