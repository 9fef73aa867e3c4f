import AdventureScript.Proofs.Code.Relabel
import AdventureScript.Proofs.Emission.Restore
import AdventureScript.Proofs.Symbols.Growth
import Mathlib.Data.List.Nodup

/-!
The code of a program so far, and what its references stand for.
-/
namespace AdventureScript

namespace Symbols

variable {symbols : Symbols} {id id' : FuncId} {f : FuncDef} {change : FuncDef → FuncDef}

lemma function_modifyFunction (h : symbols.functions[id.index]? = some f) :
    (symbols.modifyFunction id change).function id' =
      if id = id' then change f else symbols.function id' := by
  simp only [function, getElem?_modifyFunction]
  split
  · next he => simp [← he, h]
  · rfl

lemma mem_modifyFunction (h : f ∈ (symbols.modifyFunction id change).functions) :
    ∃ g ∈ symbols.functions, f = g ∨ f = change g := by
  obtain ⟨j, hj⟩ := Array.mem_iff_getElem?.1 h
  rw [show j = (FuncId.mk j).index from rfl, getElem?_modifyFunction] at hj
  split at hj
  · obtain ⟨g, hg, rfl⟩ := Option.map_eq_some_iff.1 hj
    exact ⟨g, Array.mem_of_getElem? hg, .inr rfl⟩
  · exact ⟨f, Array.mem_of_getElem? hj, .inl rfl⟩

end Symbols

namespace Script

variable {s : Script} {address : Nat} {l : List (Mark FuncId)}

lemma patches_same : ∃ code, l.foldl (fun s k => s.patch k.position (Int32.ofNat address)) s =
    { s with code } ∧
      code.toList = (l.map (·.position)).foldl (fun ws p => ws.set p (Int32.ofNat address))
        s.code.toList := by
  induction l generalizing s with
  | nil => exact ⟨s.code, rfl, rfl⟩
  | cons k l ih =>
    obtain ⟨code, hsame, hcode⟩ := ih (s := s.patch k.position (Int32.ofNat address))
    exact ⟨code, hsame, by simpa [patch] using hcode⟩

end Script

namespace Gen
open Assembly

variable {g : Prop} {c : Context} {s s' : State} {F G : List Node} {id : FuncId} {f : FuncDef}
  {address : Nat} {m : Mark Reference}

structure Holds (c : Context) (s : State) (F : List Node) : Prop where
  code : s.script.code.toList = words 0 F
  wellFormed : ∀ {n}, n ∈ F → n.instr.WellFormed
  references : ∀ {m}, m ∈ s.references.entries.toList → Refers c s 0 F m
  called : Called 0 F s.references.entries.toList
  lines : Lined c.options.lineNumbers 0 F [] s.script.lines.toList
  tidy : Tidy s

lemma Holds.size_eq (h : Holds c s F) : s.script.size = width F := by
  have := congrArg List.length h.code
  simpa [Script.size] using this

lemma Holds.exists_word (h : Holds c s F) (hm : m ∈ s.references.entries.toList) :
    ∃ r w, m.value.Means c s.symbols s.script r w ∧ s.script.code[m.position]? = some w := by
  obtain ⟨k, n, hn, r, w, hk, hlit, hmeans⟩ := h.references hm
  refine ⟨r, w, hmeans, ?_⟩
  have hsize : n.size = 3 := by simp [Node.size, hlit, Instr.size]
  have hword := @getElem?_words 0 k F n hn 2 (by omega)
  rw [hk, ← Array.getElem?_toList, h.code]
  simpa [Node.words, Instr.words, hlit] using hword

lemma Holds.write (h : Holds c s F) (hw : Written g c s s' G) : Holds c s' (F ++ G) where
  code := by
    rw [hw.code, h.code, h.size_eq, words_append, Nat.zero_add]
  wellFormed hn := (List.mem_append.1 hn).elim h.wellFormed hw.wellFormed
  references hm := by
    rcases hw.references.mem hm with hm | hm
    · exact Contains.append_left ((h.references hm).stocks hw.stocks)
    · refine Contains.append_right ?_
      rw [Nat.zero_add, ← h.size_eq]
      exact hm
  called := (h.called.mono fun _ hm => hw.references.subset hm).append
    (by rw [Nat.zero_add, ← h.size_eq]; exact hw.called)
  lines := h.lines.append (by rw [Nat.zero_add, ← h.size_eq]; exact hw.lines)
  tidy := hw.tidy

/-! ## The start of a function -/

def started (symbols : Symbols) (id : FuncId) (start : Nat) : Symbols :=
  symbols.modifyFunction id fun f =>
    { f with hasBody := true, isImport := false, codeOffset := some start }

def atStart (s : State) (id : FuncId) : State :=
  { s with
    symbols := started s.symbols id s.script.size
    calls := (s.calls.resolve id s.script.size s.script).1
    script := (s.calls.resolve id s.script.size s.script).2
    function? := some id
    scope := {}
    nesting := []
    localBytes := 0
    callBytes := 0 }

lemma runs_startFunction {r : FuncDef} (h : Runs (startFunction id) c s r s') :
    r = (atStart s id).symbols.function id ∧
      ∃ t, Runs (emit .thisBase [Int32.ofNat s.script.size]) c (atStart s id) () t ∧
        (Runs (emit .loopCheckOff []) c t () s' ∨ s' = t) := by
  simp [startFunction, and_assoc] at h
  obtain ⟨_, f, hf, t, ht, hrest⟩ := h
  have hfunction : (atStart s id).symbols.function id = f := Symbols.function_eq hf
  obtain ⟨_, ⟨_, h⟩, rfl⟩ | ⟨_, rfl, rfl⟩ := hrest
  · exact ⟨hfunction.symm, t, ht, .inl h⟩
  · exact ⟨hfunction.symm, _, ht, .inr rfl⟩

def waitingFor (s : State) (id : FuncId) : List Nat :=
  (s.calls.entries.toList.filter (·.value = id)).map (·.position)

lemma Tidy.eq_of_position (h : Tidy s) {k : Mark Reference} (hm : m ∈ s.references.entries.toList)
    (hk : k ∈ s.references.entries.toList) (he : m.position = k.position) : m = k :=
  List.inj_on_of_nodup_map (h.sorted.imp Nat.ne_of_lt) hm hk he

lemma Tidy.mem_waitingFor (h : Tidy s) (hnone : (s.symbols.function id).codeOffset = none)
    (hm : m ∈ s.references.entries.toList) :
    m.position ∈ waitingFor s id ↔ m.value = .function id := by
  simp only [waitingFor, h.calls, List.mem_map, List.mem_filter, List.mem_filterMap,
    Mark.waiting?_eq_some_iff, decide_eq_true_eq]
  constructor
  · rintro ⟨k, ⟨⟨_, hk, rfl, _⟩, rfl⟩, hpos⟩
    rw [h.eq_of_position hm hk hpos.symm]
  · intro hv
    obtain ⟨p, v⟩ := m
    obtain rfl : v = .function id := hv
    exact ⟨⟨p, id⟩, ⟨⟨_, hm, rfl, hnone⟩, rfl⟩, rfl⟩

lemma means_started {script : Script} {r : Register} {w : Int32} {reference : Reference}
    (hf : s.symbols.functions[id.index]? = some f)
    (h : reference.Means c s.symbols script r w) :
    reference.Means c (started s.symbols id address) script r
      (if reference = .function id then Int32.ofNat address else w) := by
  cases reference with
  | data | text bytes | «variable» id' => exact h
  | external id' =>
    obtain ⟨hr, f', hf', hslot⟩ := h
    refine ⟨hr, ?_⟩
    rw [started, Symbols.getElem?_modifyFunction, hf']
    split
    · exact ⟨_, rfl, hslot⟩
    · exact ⟨_, rfl, hslot⟩
  | function id' =>
    obtain ⟨hr, hid, hw⟩ := h
    refine ⟨hr, by simpa [started, Symbols.modifyFunction] using hid, ?_⟩
    rw [started, Symbols.function_modifyFunction hf]
    by_cases he : id' = id
    · simp [he]
    · simp [he, Ne.symm he, hw]

lemma waiting?_started (hf : s.symbols.functions[id.index]? = some f) :
    m.waiting? (started s.symbols id address) =
      (m.waiting? s.symbols).filter (fun k => decide (k.value ≠ id)) := by
  obtain ⟨p, v⟩ := m
  cases v with
  | function id' =>
    simp only [Mark.waiting?, started, Symbols.function_modifyFunction hf]
    by_cases he : id = id'
    · subst he
      by_cases hn : (s.symbols.function id).codeOffset = none <;> simp [hn, Option.filter]
    · simp only [he, if_false]
      split
      · simp [Option.filter, Ne.symm he]
      · rfl
  | _ => rfl

lemma script_atStart : ∃ code, (atStart s id).script = { s.script with code } ∧
    code.toList = (waitingFor s id).foldl (fun ws p => ws.set p (Int32.ofNat s.script.size))
      s.script.code.toList := by
  obtain ⟨code, hsame, hcode⟩ := @Script.patches_same s.script s.script.size
    (s.calls.entries.toList.filter (·.value = id))
  refine ⟨code, ?_, hcode⟩
  rw [← hsame]
  simp [atStart, PendingCalls.resolve, ← Array.foldl_toList]

lemma Holds.start (h : Holds c s F) (hf : s.symbols.functions[id.index]? = some f)
    (hnone : f.codeOffset = none) :
    Holds c (atStart s id)
      (relit (revalue (waitingFor s id) (Int32.ofNat s.script.size)) 0 F) := by
  obtain ⟨code, hscript, hcode⟩ := @script_atStart s id
  have hnone' : (s.symbols.function id).codeOffset = none := by
    simpa [Symbols.function, hf] using hnone
  have hwords : code.toList =
      words 0 (relit (revalue (waitingFor s id) (Int32.ofNat s.script.size)) 0 F) := by
    rw [hcode, h.code, words_revalue]
    · rfl
    · intro p hp
      simp only [waitingFor, h.tidy.calls, List.mem_map, List.mem_filter, List.mem_filterMap,
        Mark.waiting?_eq_some_iff] at hp
      obtain ⟨k, ⟨⟨_, hm, rfl, _⟩, _⟩, rfl⟩ := hp
      exact (h.references hm).imp fun _ => trivial
  have hsize : (atStart s id).script.size = s.script.size := by
    rw [h.size_eq, hscript]
    have := congrArg List.length hwords
    simpa [Script.size] using this
  exact {
    code := by rw [hscript, hwords]
    wellFormed := fun hn => by
      obtain ⟨q, n, hq, rfl⟩ := mem_relabel hn
      exact Node.wellFormed_relit (h.wellFormed (nodeAt_mem hq))
    references := fun {m} hm => by
      refine OnLiteral.relit (h.references hm) fun {r w} hw => ?_
      have := @means_started _ _ id f s.script.size _ _ _ _ hf hw
      rw [revalue]
      simp only [h.tidy.mem_waitingFor hnone' hm, hscript]
      exact this.grow .refl (List.prefix_refl _)
    called := h.called.relabel
    lines := by
      rw [hscript]
      exact h.lines.congr lineMarks_relabel
    tidy := {
      lastOp := fun hp => by
        rw [hsize]
        rw [hscript] at hp
        exact h.tidy.lastOp hp
      sorted := h.tidy.sorted
      references_lt := fun hm => hsize ▸ h.tidy.references_lt hm
      fixups := by
        rw [hscript]
        exact h.tidy.fixups
      calls := by
        have hcalls : (atStart s id).calls.entries.toList =
            s.calls.entries.toList.filter (fun k => decide (k.value ≠ id)) := by
          simp [atStart, PendingCalls.resolve]
        rw [hcalls, h.tidy.calls, List.filter_filterMap]
        exact List.filterMap_congr fun m _ => (waiting?_started hf).symm
      uses_lt := fun hu => hsize ▸ h.tidy.uses_lt hu
      tables := h.tidy.tables.grow (le_of_eq hsize.symm) (by rw [hscript]) (by rw [hscript])
        (by rw [hscript]) } }

lemma Known.start (h : Known c s.symbols) : Known c (started s.symbols id address) := by
  refine ⟨fun hf hp ht => ?_, h.globals⟩
  obtain ⟨g, hg, rfl | rfl⟩ := Symbols.mem_modifyFunction hf <;> exact h.texts hg hp ht

end Gen
end AdventureScript
