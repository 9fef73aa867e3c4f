import AdventureScript.Proofs.Emission.Basic

/-!
The steps that write code, each with the instructions that it writes.
-/
namespace AdventureScript

variable {strings : StringPool} {imports : Array String}

namespace Assembly.Instr

variable {op : Opcode}

variable {w : Int32}

lemma wellFormed_regs (regs : List Register) (hj : op.isJump = false)
    (hl : regs.length = op.operandCount) : (plain op (regs.map Register.toWord)).WellFormed := by
  refine ⟨hj, by simpa using hl, fun i w hw _ => ?_⟩
  rw [List.getElem?_map, Option.map_eq_some_iff] at hw
  obtain ⟨r, _, rfl⟩ := hw
  simp [Register.ofWord?_toWord]

lemma wellFormed_reg_values {r : Register} {ws : List Int32} (hj : op.isJump = false)
    (hl : op.operandCount = ws.length + 1) (hr : ∀ i, op.isRegister (i + 1) = false) :
    (plain op (r.toWord :: ws)).WellFormed := by
  refine ⟨hj, by simpa using hl.symm, fun i v hv hi => ?_⟩
  match i with
  | 0 =>
    obtain rfl : r.toWord = v := by simpa using hv
    simp [Register.ofWord?_toWord]
  | i + 1 => simp [hr] at hi

lemma wellFormed_value (hj : op.isJump = false) (hl : op.operandCount = 1)
    (hr : op.isRegister 0 = false) : (plain op [w]).WellFormed := by
  refine ⟨hj, by simpa using hl.symm, fun i v hv hi => ?_⟩
  match i with
  | 0 => simp [hr] at hi
  | i + 1 => simp at hv

lemma wellFormed_bare (hj : op.isJump = false) (hl : op.operandCount = 0) :
    (plain op []).WellFormed :=
  ⟨hj, hl.symm, fun i v hv _ => by simp at hv⟩

end Assembly.Instr

namespace Script

variable {s : Script} {op : Opcode} {operands : List Int32}

@[simp] lemma toList_write :
    (s.write op operands).code.toList = s.code.toList ++ op.toWord :: operands := by
  simp [write]

@[simp] lemma lastOp_write : (s.write op operands).lastOp = some s.size := rfl

@[simp] lemma lastOpcode?_write : (s.write op operands).lastOpcode? = some op := by
  simp [lastOpcode?, write, size, Opcode.ofWord?_toWord]

@[simp] lemma fixups_write : (s.write op operands).fixups = s.fixups := rfl

end Script

namespace Gen
open Assembly

variable {q : Prop} {c : Context} {d e x : Int} {s s' t t' : State} {F : List Node} {u : Unit}
  {op : Opcode} {operands : List Int32} {reg : Register} {reference : Reference} {name : String}

/-! ## Code behind other code -/

lemma Tidy.write (h : Tidy s) (hscript : s'.script = s.script.write op operands)
    (hreferences : s'.references = s.references) (hcalls : s'.calls = s.calls)
    (hsymbols : s'.symbols = s.symbols) (huses : ∀ u ∈ s'.localUses.entries.toList,
      u ∈ s.localUses.entries.toList ∨ u.position = s.script.size) : Tidy s' := by
  have hsize : s'.script.size = s.script.size + (operands.length + 1) := by
    rw [hscript, Script.size_write]
  refine h.grow (by omega) ?_ hreferences (by rw [hscript]; rfl) hcalls hsymbols ?_
    (h.tables.grow (by omega) (by rw [hscript]; rfl) (by rw [hscript]; rfl) (by rw [hscript]; rfl))
  · intro p hp
    rw [hscript, Script.lastOp_write, Option.some.injEq] at hp
    omega
  · intro u hu
    rcases huses _ hu with hu | hu
    · have := h.uses_lt hu
      omega
    · omega

lemma stocks_write (hscript : s'.script = s.script.write op operands)
    (hsymbols : s'.symbols = s.symbols) (hrequests : s'.exportRequests = s.exportRequests) :
    Stocks s s' where
  symbols := hsymbols
  globalData := by rw [hscript]; rfl
  exports := by rw [hscript]; rfl
  requests := hrequests
  strings := by rw [hscript]; exact .refl
  imports := by rw [hscript]; exact .refl

section

variable (h : Emits q c d s t F x) (wf : (Instr.plain op operands).WellFormed)
  (hret : op ≠ .ret) (he : e = x + (Instr.plain op operands).effect)
  (hreferences : s'.references = t.references) (hcalls : s'.calls = t.calls)
  (hcalled : op = .call → ∃ m ∈ t.references.entries.toList, s.script.size ≤ m.position ∧
    m.position + 1 = t.script.size ∧ ∃ id, m.value = .function id)
  (huses : Grown (OnLocal (q ∧ Fits t) t.script.size [⟨.plain op operands, x⟩])
    t.localUses.entries.toList s'.localUses.entries.toList)
  (hoffset : q → Fits t → s'.scope.offset = Int32.ofInt e ∧ 0 ≤ e)
  (hbytes : s'.callBytes = t.callBytes) (aside : Aside t s')
include h wf hret he hreferences hcalls hcalled huses hoffset hbytes aside

lemma Emits.writeMarked {lines : Array LineEntry}
    (hscript : s'.script = { t.script.write op operands with lines })
    (hlines : Lined c.options.lineNumbers t.script.size [⟨.plain op operands, x⟩]
      t.script.lines.toList lines.toList) :
    Emits q c d s s' (F ++ [⟨.plain op operands, x⟩]) e := by
  have hsize := h.size_eq
  have hfits : Fits s' → Fits t := fun hs => by simpa only [Fits, hbytes] using hs
  have hstocks : Stocks t s' := ⟨aside.symbols, by rw [hscript]; rfl, by rw [hscript]; rfl,
    aside.exports.2, by rw [hscript]; exact .refl, by rw [hscript]; exact .refl⟩
  have hsize' : s'.script.size = t.script.size + width [⟨.plain op operands, x⟩] := by
    rw [hscript]
    exact Script.size_write
  exact {
    code := by
      rw [hscript]
      simp [h.code, Node.words, Instr.words]
    wellFormed := by
      intro n hn
      rcases List.mem_append.1 hn with hn | hn
      · exact h.wellFormed hn
      · obtain rfl := List.mem_singleton.1 hn
        exact wf
    linked := by
      refine h.linked.concat fun op' t' ht' => ?_
      cases ht'
    paced := fun hq hs => by
      refine Paced.concat (n := ⟨.plain op operands, x⟩) (h.paced hq (hfits hs)) (fun _ => he) ?_
        (h.offset hq (hfits hs)).2 (fun h => absurd h hret)
      intro op t ht
      cases ht
    offset := fun hq hs => hoffset hq (hfits hs)
    aside := h.aside.trans aside
    spent := h.spent.stay (by rw [hscript]; rfl) (by rw [hscript]; rfl)
      (by rw [hreferences]; exact fun _ => id)
    callBytes := hbytes ▸ h.callBytes
    quiet := by simp
    last := fun _ => ⟨t.script.size, _, by rw [hscript]; rfl, by rw [hsize]; exact nodeAt_middle,
      by simp [hsize, Nat.add_assoc]⟩
    references := by
      rw [hreferences]
      exact h.references.mono fun _ hm => Contains.append_left (hm.stocks hstocks)
    called := by
      rw [hreferences]
      exact h.called.concat fun hop => hsize ▸ hcalled hop
    uses := (h.uses.mono fun _ hu => (hu.imp (And.imp_right hfits)).append_left).trans
      (huses.mono fun _ hu => (hsize ▸ hu.imp (And.imp_right hfits)).append_right)
    lines := by
      rw [hscript]
      exact h.lines.append (hsize ▸ hlines)
    stocks := h.stocks.trans hstocks
    tidy := by
      refine h.tidy.grow (by omega) ?_ hreferences (by rw [hscript]; rfl) hcalls aside.symbols ?_
        ⟨by rw [hscript]; exact h.tidy.tables.strings, by rw [hscript]; exact h.tidy.tables.imports,
          fun hl => ?_⟩
      · intro p hp
        rw [hscript] at hp
        obtain rfl : t.script.size = p := Option.some.inj hp
        rw [hsize']
        exact Nat.lt_add_of_pos_right (width_pos (List.cons_ne_nil _ _))
      · intro u hu
        rw [hsize']
        exact huses.lt h.tidy.uses_lt (fun hu => hu.bounds.2) hu
      · rw [hscript] at hl
        rw [hsize']
        exact hlines.lt h.tidy.tables.lines hl }

lemma Emits.write (hline : op ≠ .lineNum) (hscript : s'.script = t.script.write op operands) :
    Emits q c d s s' (F ++ [⟨.plain op operands, x⟩]) e :=
  h.writeMarked wf hret he hreferences hcalls hcalled huses hoffset hbytes aside hscript
    (.unmarked (.plain hline))

end

lemma blocks_adjust {k : Int32} {scope : Scope} : (scope.adjust k).blocks = scope.blocks := rfl

lemma offset_adjust {k : Int32} (h : s.scope.offset = Int32.ofInt d) :
    (s.scope.adjust k).offset = Int32.ofInt (d + k.toInt) := by
  simp [Scope.adjust, h, Int32.ofInt_add]

lemma toInt_cell : cell.toInt = 4 := by decide

lemma toInt_neg_cell : (-cell).toInt = -4 := by decide

lemma wellFormed_litToReg : (Instr.plain .litToReg [reg.toWord, w]).WellFormed :=
  Instr.wellFormed_reg_values rfl rfl fun _ => rfl

lemma runs_litToReg (h : Runs (litToReg reg w) c s u s') :
    ∃ b, s' = { s with axClobbered := b, script := s.script.litToReg reg w } := by
  simp only [litToReg] at h
  by_cases hreg : reg = .ax
  · simp [hreg, runs_clobberAx, runs_modifyScript] at h
    exact ⟨_, by simpa [hreg] using h⟩
  · simp [hreg, runs_modifyScript] at h
    exact ⟨_, h⟩

lemma onLiteral_single {P : Register → Int32 → Prop} {b : Nat} (h : P reg w) :
    OnLiteral P b [⟨.plain .litToReg [reg.toWord, w], d⟩] (b + 2) :=
  ⟨b, ⟨.plain .litToReg [reg.toWord, w], d⟩, by simp [nodeAt], reg, w, rfl, rfl, h⟩

def Awaits (s s' : State) (reference : Reference) : Prop :=
  s'.calls.entries.toList = s.calls.entries.toList ++
    (Mark.waiting? s.symbols ⟨s.script.size + 2, reference⟩).toList

lemma Emits.stocked (h : Emits q c d t s' F e)
    (ht : t = { s with script := { s.script with strings, imports } }) (hstocks : Stocks s t)
    (hspent : Spends nothing s s') : Emits q c d s s' F e := by
  have haside : Aside s t := ht ▸ { Aside.refl with }
  subst ht
  exact { h with aside := haside.trans h.aside, spent := hspent, stocks := hstocks.trans h.stocks }

lemma spends_fixed {e : Entry} (h : Runs (litToReg reg w) c t u t')
    (h' : Runs (fixupLast reference) c t' u s') (hsize : t.script.size = s.script.size)
    (he : reference.needs? s.symbols = some e)
    (hnew : ∀ e', t.script.Has e' → s.script.Has e' ∨ e' = e) : Spends nothing s s' := by
  obtain ⟨b, rfl⟩ := runs_litToReg h
  obtain rfl := runs_fixupLast.1 h'
  intro e' he'
  rcases hnew e' (he'.congr rfl rfl) with he' | rfl
  · exact .inl he'
  · refine .inr ⟨reference, he, .inr ⟨⟨s.script.size + 2, reference⟩, ?_, Nat.le_add_right _ _, rfl⟩⟩
    simp [Marks.add, Script.litToReg, hsize]

section

variable (hr : Ready q c d s)
include hr

lemma emits_still {pos lastLine callBytes : Nat} {diagnostics : Diagnostics}
    {jumpTarget : Option Nat} {axClobbered : Bool} (hbytes : s.callBytes ≤ callBytes) :
    Emits q c d s { s with pos, diagnostics, lastLine, jumpTarget, axClobbered, callBytes } [] d where
  code := by simp
  wellFormed h := by cases h
  linked := .nil
  paced _ _ := .nil
  offset hq _ := hr.offset hq
  aside := { Aside.refl with }
  spent := .of_tables rfl rfl
  callBytes := hbytes
  quiet _ := rfl
  last h := absurd rfl h
  references := .refl
  called := called_nil
  uses := .refl
  lines := .unmarked .nil
  stocks := ⟨rfl, rfl, rfl, rfl, .refl, .refl⟩
  tidy := { hr.tidy with }

lemma emits_nil : Emits q c d s s [] d :=
  emits_still hr le_rfl

lemma emits_write (wf : (Instr.plain op operands).WellFormed)
    (hret : op ≠ .ret) (hline : op ≠ .lineNum) (hcall : op ≠ .call)
    (he : e = d + (Instr.plain op operands).effect)
    (hscript : s'.script = s.script.write op operands) (hreferences : s'.references = s.references)
    (hcalls : s'.calls = s.calls)
    (huses : Grown (OnLocal q s.script.size [⟨.plain op operands, d⟩])
      s.localUses.entries.toList s'.localUses.entries.toList)
    (hoffset : q → s'.scope.offset = Int32.ofInt e ∧ 0 ≤ e)
    (hbytes : s'.callBytes = s.callBytes) (aside : Aside s s') :
    Emits q c d s s' [⟨.plain op operands, d⟩] e :=
  (emits_nil hr).write wf hret he hreferences hcalls (fun h => absurd h hcall)
    (huses.mono fun _ hu => hu.imp And.left) (fun hq _ => hoffset hq) hbytes aside hline hscript

/-! ## Literals -/

lemma emits_litToReg (h : Runs (litToReg reg w) c s u s') :
    Emits q c d s s' [⟨.plain .litToReg [reg.toWord, w], d⟩] d := by
  obtain ⟨b, rfl⟩ := runs_litToReg h
  exact emits_write hr wellFormed_litToReg (by decide) (by decide) (by decide)
    (by simp [Instr.effect]) rfl rfl rfl .refl hr.offset rfl { Aside.refl with }

lemma emits_fixedLiteral (hmeans : reference.Means c s.symbols s.script reg w)
    (h : Runs (litToReg reg w) c s u t) (h' : Runs (fixupLast reference) c t u t')
    (hs : s' = { t' with calls := s'.calls }) (hcalls : Awaits s s' reference) :
    Emits q c d s s' [⟨.plain .litToReg [reg.toWord, w], d⟩] d := by
  have ht := emits_litToReg hr h
  have hsize : t.script.size - 1 = s.script.size + 2 := by simp [ht.size_eq, Node.size, Instr.size]
  obtain ⟨b, rfl⟩ := runs_litToReg h
  obtain rfl := runs_fixupLast.1 h'
  have hreferences : s'.references.entries.toList =
      s.references.entries.toList ++ [⟨s.script.size + 2, reference⟩] := by
    rw [hs]
    simp only [hsize, Marks.add, Array.toList_push]
  have hscript : s'.script = (s.script.litToReg reg w).fixupLast reference.kind := by rw [hs]
  have hsize' : s'.script.size = s.script.size + 3 := by
    rw [hscript]
    simp [Script.fixupLast, Script.addFixup, Script.litToReg, Script.size, Script.write]
  have hsymbols : s'.symbols = s.symbols := by rw [hs]
  have hstocks : Stocks s s' := {
    symbols := hsymbols
    globalData := by rw [hscript]; rfl
    exports := by rw [hscript]; rfl
    requests := by rw [hs]
    strings := by rw [hscript]; exact .refl
    imports := by rw [hscript]; exact .refl }
  exact {
    code := by rw [hscript]; exact ht.code
    wellFormed := ht.wellFormed
    linked := ht.linked
    paced := fun hq hfits => ht.paced hq (by rw [hs] at hfits; exact hfits)
    offset := fun hq hfits => by
      rw [hs] at hfits ⊢
      exact ht.offset hq hfits
    aside := by
      rw [hs]
      exact ht.aside.trans { Aside.refl with }
    spent := .of_tables (by rw [hscript]; rfl) (by rw [hscript]; rfl)
    callBytes := hs ▸ ht.callBytes
    quiet := by simp
    last := fun _ => ⟨s.script.size, _, by rw [hscript]; rfl, nodeAt_cons_self, by simp⟩
    references := by
      rw [hreferences]
      refine .concat (Refers.stocks (s := s) ?_ hstocks)
      exact onLiteral_single hmeans
    called := by
      intro p n hn hop
      simp only [nodeAt] at hn
      split at hn
      · cases hn
        cases hop
      · cases hn
    uses := by
      rw [hs]
      exact .refl
    lines := by
      rw [hscript]
      exact .unmarked (.plain (by decide))
    stocks := hstocks
    tidy := {
      lastOp := by
        rw [hscript]
        exact ht.tidy.lastOp
      sorted := by
        rw [hreferences, List.map_append]
        refine List.pairwise_append.2 ⟨hr.tidy.sorted, List.pairwise_singleton _ _, ?_⟩
        intro a ha b hb
        obtain ⟨m, hm, rfl⟩ := List.mem_map.1 ha
        obtain rfl := List.mem_singleton.1 hb
        have := hr.tidy.references_lt hm
        simp only
        omega
      references_lt := by
        intro m hm
        rw [hreferences] at hm
        rcases List.mem_append.1 hm with hm | hm
        · have := hr.tidy.references_lt hm
          omega
        · obtain rfl := List.mem_singleton.1 hm
          simp only
          omega
      fixups := by
        rw [hscript, hreferences]
        simp [Script.fixupLast, Script.addFixup, Script.litToReg, Mark.fixup, hr.tidy.fixups]
      calls := by
        rw [hcalls, hreferences, hsymbols, List.filterMap_append, ← hr.tidy.calls]
        simp [List.filterMap_cons]
        cases Mark.waiting? s.symbols ⟨s.script.size + 2, reference⟩ <;> rfl
      uses_lt := by
        intro u hu
        rw [hs] at hu
        have := hr.tidy.uses_lt hu
        omega
      tables := hr.tidy.tables.grow (by omega) (by rw [hscript]; rfl) (by rw [hscript]; rfl)
        (by rw [hscript]; rfl) } }

lemma emits_fixed (hmeans : reference.Means c s.symbols s.script reg w)
    (hwait : ∀ p, Mark.waiting? s.symbols ⟨p, reference⟩ = none) (h : Runs (litToReg reg w) c s u t)
    (h' : Runs (fixupLast reference) c t u s') :
    Emits q c d s s' [⟨.plain .litToReg [reg.toWord, w], d⟩] d := by
  refine emits_fixedLiteral hr hmeans h h' rfl ?_
  obtain ⟨b, rfl⟩ := runs_litToReg h
  obtain rfl := runs_fixupLast.1 h'
  simp [Awaits, hwait]

/-! ## Entries of the tables -/

lemma Ready.stocked (ht : t = { s with script := { s.script with strings, imports } })
    (hstrings : strings.Sound) (himports : imports.toList.Nodup) : Ready q c d t := by
  subst ht
  exact { hr with
    tidy := hr.tidy.grow le_rfl hr.tidy.lastOp rfl rfl rfl rfl hr.tidy.uses_lt
      ⟨hstrings, himports, hr.tidy.tables.lines⟩ }

end

lemma addImport_same {s : Script} : ∃ imports, (s.addImport name).2 = { s with imports } := by
  unfold Script.addImport
  split <;> exact ⟨_, rfl⟩

lemma addImport_grown {P : String → Prop} {s : Script} (h : P name) :
    Grown P s.imports.toList (s.addImport name).2.imports.toList := by
  unfold Script.addImport
  split
  · exact .refl
  · simp only [Array.toList_push]
    exact .concat h

lemma addImport_slot {s : Script} :
    (s.addImport name).2.imports[(s.addImport name).1]? = some name := by
  unfold Script.addImport
  split
  · next slot hs =>
    obtain ⟨h, hname, _⟩ := Array.findIdx?_eq_some_iff_getElem.1 hs
    simpa [h] using hname
  · simp

lemma addImport_nodup {s : Script} (h : s.imports.toList.Nodup) :
    (s.addImport name).2.imports.toList.Nodup := by
  unfold Script.addImport
  split
  · exact h
  · next hs =>
    have hnot : name ∉ s.imports.toList := by
      rw [Script.findImport?, Array.findIdx?_eq_none_iff] at hs
      intro hmem
      simpa using hs name (Array.mem_toList_iff.1 hmem)
    simp only [Array.toList_push, List.nodup_append]
    refine ⟨h, by simp, ?_⟩
    rintro a ha _ hb rfl
    obtain rfl := List.mem_singleton.1 hb
    exact hnot ha

end Gen
end AdventureScript
