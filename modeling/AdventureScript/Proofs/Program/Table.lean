import AdventureScript.Proofs.Program.Basic

/-!
The tables of a compiled script: the names that it imports and the texts of its code.
-/
namespace AdventureScript

open Assembly

variable {source : String} {options : Options} {s : State} {script : Script} {F : List Node}
  {m : Mark Reference} {w : Int32} {c : Context} {due : Agenda} {open? : Option TypeId}

def Script.Uses (script : Script) (kind : FixupKind) (w : Int32) : Prop :=
  ∃ fixup ∈ script.fixups, fixup.kind = kind ∧ script.code[fixup.offset]? = some w

structure Script.Tight (script : Script) : Prop where
  imports : script.imports.toList.Nodup
  importUsed : ∀ slot, slot < script.imports.size → script.Uses .imported (Int32.ofNat slot)
  importFound : ∀ w, script.Uses .imported w → ∃ slot, slot < script.imports.size ∧
    w = Int32.ofNat slot
  texts : ∃ texts, texts.Nodup ∧ script.strings.bytes.toList = StringPool.packed texts ∧
    (∀ a text b, texts = a ++ text :: b →
      script.Uses .string (Int32.ofNat (StringPool.packed a).length)) ∧
    ∀ w, script.Uses .string w → ∃ a text b, texts = a ++ text :: b ∧
      w = Int32.ofNat (StringPool.packed a).length

namespace Gen

lemma Holds.uses (h : Holds c s F) (hm : m ∈ s.references.entries.toList) :
    ∃ r w, m.value.Means c s.symbols s.script r w ∧ s.script.Uses m.value.kind w := by
  obtain ⟨r, w, hmeans, hword⟩ := h.exists_word hm
  refine ⟨r, w, hmeans, m.fixup, ?_, rfl, hword⟩
  rw [← Array.mem_toList_iff, h.tidy.fixups]
  exact List.mem_map.2 ⟨m, hm, rfl⟩

lemma Holds.of_uses {kind : FixupKind} (h : Holds c s F) (hw : s.script.Uses kind w) :
    ∃ m ∈ s.references.entries.toList, ∃ r, m.value.kind = kind ∧
      m.value.Means c s.symbols s.script r w := by
  obtain ⟨fixup, hfixup, rfl, hword⟩ := hw
  rw [← Array.mem_toList_iff, h.tidy.fixups] at hfixup
  obtain ⟨m, hm, rfl⟩ := List.mem_map.1 hfixup
  obtain ⟨r, w', hmeans, hword'⟩ := h.exists_word hm
  obtain rfl : w' = w := Option.some.inj (hword'.symm.trans hword)
  exact ⟨m, hm, r, rfl, hmeans⟩

/-! ## Entries -/

lemma slot_of_needs {reference : Reference} {r : Register} {name : String}
    (h : reference.Means c s.symbols s.script r w)
    (hneeds : reference.needs? s.symbols = some (.imported name)) :
    reference.kind = .imported ∧ ∃ slot, w = Int32.ofNat slot ∧
      s.script.imports[slot]? = some name := by
  cases reference with
  | data | function id | text bytes => simp [Reference.needs?] at hneeds
  | «variable» id =>
    obtain ⟨_, v, hv, _, slot, hw, hslot⟩ := h
    simp only [Reference.needs?, hv, Option.map_some, Option.some.injEq, Entry.imported.injEq]
      at hneeds
    exact ⟨rfl, slot, hw, hneeds ▸ hslot⟩
  | external id =>
    obtain ⟨_, f, hf, slot, hw, hslot⟩ := h
    simp only [Reference.needs?, hf, Option.map_some, Option.some.injEq, Entry.imported.injEq]
      at hneeds
    exact ⟨rfl, slot, hw, hneeds ▸ hslot⟩

variable (h : Coherent c due open? s)
include h

lemma Coherent.importUsed {slot : Nat}
    (hslot : slot < s.script.imports.size) : s.script.Uses .imported (Int32.ofNat slot) := by
  obtain ⟨F, hF, _⟩ := h.code
  have hhas : s.script.Has (.imported s.script.imports[slot]) :=
    Array.mem_toList_iff.2 (Array.getElem_mem hslot)
  obtain ⟨m, hm, hneeds⟩ := h.used _ hhas
  obtain ⟨r, w, hmeans, huses⟩ := hF.uses hm
  obtain ⟨hkind, slot', rfl, hslot'⟩ := slot_of_needs hmeans hneeds
  obtain ⟨hlt, heq⟩ := Array.getElem?_eq_some_iff.1 hslot'
  have hsame : slot' = slot :=
    (List.Nodup.getElem_inj_iff hF.tidy.tables.imports).1 (by
      exact heq)
  rw [hkind, hsame] at huses
  exact huses

lemma Coherent.importFound (hw : s.script.Uses .imported w) :
    ∃ slot, slot < s.script.imports.size ∧ w = Int32.ofNat slot := by
  obtain ⟨F, hF, _⟩ := h.code
  obtain ⟨m, _, r, hkind, hmeans⟩ := hF.of_uses hw
  have hslot : ∃ slot name, w = Int32.ofNat slot ∧ s.script.imports[slot]? = some name := by
    cases hvalue : m.value with
    | data | function id | text bytes => simp [hvalue, Reference.kind] at hkind
    | «variable» id =>
      rw [hvalue] at hmeans
      obtain ⟨_, v, _, _, slot, hw, hslot⟩ := hmeans
      exact ⟨slot, _, hw, hslot⟩
    | external id =>
      rw [hvalue] at hmeans
      obtain ⟨_, f, _, slot, hw, hslot⟩ := hmeans
      exact ⟨slot, _, hw, hslot⟩
  obtain ⟨slot, name, hw, hslot⟩ := hslot
  exact ⟨slot, (Array.getElem?_eq_some_iff.1 hslot).1, hw⟩

lemma Coherent.textUsed {a b : List (List UInt8)} {text : List UInt8}
    (htexts : s.script.strings.texts = a ++ text :: b) :
    s.script.Uses .string (Int32.ofNat (StringPool.packed a).length) := by
  obtain ⟨F, hF, _⟩ := h.code
  have hsound := hF.tidy.tables.strings
  have hhas : s.script.Has (.text text) := by simp [Script.Has, htexts]
  obtain ⟨m, hm, hneeds⟩ := h.used _ hhas
  obtain ⟨r, w, hmeans, huses⟩ := hF.uses hm
  cases hvalue : m.value with
  | data | function id | «variable» id | external id => simp [hvalue, Reference.needs?] at hneeds
  | text bytes =>
    obtain rfl : bytes = text := by simpa [hvalue, Reference.needs?] using hneeds
    rw [hvalue] at hmeans huses
    obtain ⟨_, _, offset, rfl, hmem⟩ := hmeans
    obtain ⟨a', b', htexts', rfl⟩ := hsound.starts hmem
    -- Since no text is there twice, its two occurrences are one.
    have hnodup := List.nodup_middle.1 (htexts ▸ hsound.nodup)
    obtain ⟨ha, hb⟩ : bytes ∉ a ∧ bytes ∉ b := by simpa using (List.nodup_cons.1 hnodup).1
    obtain ⟨rfl, _⟩ := (List.append_cons_inj_of_notMem ha hb).1 (htexts.symm.trans htexts')
    exact huses

lemma Coherent.textFound (hw : s.script.Uses .string w) :
    ∃ a text b, s.script.strings.texts = a ++ text :: b ∧
      w = Int32.ofNat (StringPool.packed a).length := by
  obtain ⟨F, hF, _⟩ := h.code
  obtain ⟨m, _, r, hkind, hmeans⟩ := hF.of_uses hw
  cases hvalue : m.value with
  | data | function id | «variable» id | external id => simp [hvalue, Reference.kind] at hkind
  | text bytes =>
    rw [hvalue] at hmeans
    obtain ⟨_, _, offset, rfl, hmem⟩ := hmeans
    obtain ⟨a, b, htexts, rfl⟩ := hF.tidy.tables.strings.starts hmem
    exact ⟨a, bytes, b, htexts, rfl⟩

lemma Coherent.tight : s.script.Tight where
  imports := h.tidy.tables.imports
  importUsed _ hslot := h.importUsed hslot
  importFound _ hw := h.importFound hw
  texts := ⟨s.script.strings.texts, h.tidy.tables.strings.nodup, h.tidy.tables.strings.bytes,
    fun _ _ _ htexts => h.textUsed htexts, fun _ hw => h.textFound hw⟩

end Gen

/-- The tables of a compiled script hold exactly what its code uses. -/
theorem compile_tight (h : (compile source options).result = .ok script) : script.Tight := by
  obtain ⟨tokens, s, hs, rfl⟩ := compile_eq_ok_iff.1 h
  exact hs.complete.toCoherent.tight

theorem compile_tight_discarded :
    let source := "import int p(const string t); import int v; import int w; " ++
      "void f(int x) \x7b p(\"a\"); p(1 ? \"b\" : \"c\"); p(\"a\"); switch (v) \x7b \x7d " ++
      "switch (x) \x7b case p(\"d\"): break; case 0 ? w : 7 * 6: break; \x7d \x7d"
    ∃ script, (compile source {}).result = .ok script ∧ script.imports = #["p"] ∧
      script.strings.bytes = #[97, 0, 98, 0, 100, 0] ∧ script.Tight := by
  intro source
  have hrun : (compiled? source {}).any (fun x => x.2.script.imports = #["p"] ∧
      x.2.script.strings.bytes = #[97, 0, 98, 0, 100, 0]) = true := by decide +kernel
  obtain ⟨script, h⟩ := exists_script_of_any hrun
  obtain ⟨tokens, s, hs, rfl⟩ := compile_eq_ok_iff.1 h
  obtain ⟨himports, hbytes⟩ := of_decide_eq_true (hs.of_any hrun)
  exact ⟨s.script, h, himports, hbytes, compile_tight h⟩

end AdventureScript
