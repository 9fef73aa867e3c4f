import AdventureScript.Proofs.Emission.Jump

/-!
Taking code back: the code, and all that is known of it, is again what it was at the checkpoint.
-/
namespace AdventureScript.Gen
open Assembly

variable {q : Prop} {c : Context} {d e x : Int} {s s' t : State} {F : List Node} {u : Unit}
  {α : Type}

structure Regains (s s' : State) : Prop where
  code : s'.script.code = s.script.code
  fixups : s'.script.fixups = s.script.fixups
  references : s'.references = s.references
  calls : s'.calls = s.calls
  uses : s'.localUses = s.localUses
  lines : s'.script.lines = s.script.lines
  stocks : Stocks s s'
  tables : s'.script.Orderly
  lastOp : ∀ {p}, s'.script.lastOp = some p → p < s.script.size

lemma Regains.size_eq (h : Regains s s') : s'.script.size = s.script.size := by
  rw [Script.size, h.code, Script.size]

lemma Regains.tidy (h : Regains s s') (hs : Tidy s) : Tidy s' :=
  hs.grow (le_of_eq h.size_eq.symm) (fun hp => h.size_eq ▸ h.lastOp hp) h.references h.fixups
    h.calls h.stocks.symbols (fun hu => h.size_eq ▸ hs.uses_lt (h.uses ▸ hu)) h.tables

lemma not_refers_nil {b : Nat} {m : Mark Reference} : ¬Refers c s b [] m := by
  rintro ⟨k, n, hn, _⟩
  cases hn

lemma entries_inj {m m' : Marks α} : m.entries.toList = m'.entries.toList ↔ m = m' := by
  rcases m with ⟨⟨l⟩⟩
  rcases m' with ⟨⟨l'⟩⟩
  simp

lemma Emits.lines_eq (h : Emits q c d s s' [] e) : s'.script.lines = s.script.lines := by
  obtain ⟨l, hl, hmarks⟩ := h.lines.told
  rw [← Array.toList_inj, hl, List.map_eq_nil_iff.1 hmarks, List.append_nil]

lemma Emits.regains (hs : Tidy s) (h : Emits q c d s s' [] e) : Regains s s' := by
  have hreferences : s'.references = s.references := by
    rw [← entries_inj]
    exact h.references.eq fun _ hm => not_refers_nil hm
  exact {
    code := by
      simpa using h.code
    fixups := by
      rw [← Array.toList_inj, h.tidy.fixups, hs.fixups, hreferences]
    references := hreferences
    calls := by
      rw [← entries_inj, h.tidy.calls, hs.calls, hreferences, h.aside.symbols]
    uses := by
      rw [← entries_inj]
      refine h.uses.eq fun _ hu => ?_
      obtain ⟨n, w, hn, _⟩ := hu
      cases hn
    lines := h.lines_eq
    stocks := h.stocks
    tables := h.tidy.tables
    lastOp := fun hp => hs.lastOp (h.quiet rfl ▸ hp) }

structure Extends (s t : State) : Prop where
  code : s.script.code.toList <+: t.script.code.toList
  references : Grown (fun m => s.script.size ≤ m.position) s.references.entries.toList
    t.references.entries.toList
  uses : Grown (fun u => s.script.size ≤ u.position) s.localUses.entries.toList
    t.localUses.entries.toList
  lines : Grown (s.script.size ≤ ·.codeOffset) s.script.lines.toList t.script.lines.toList
  stocks : Stocks s t
  tidy : Tidy t

lemma Extends.size_le (h : Extends s t) : s.script.size ≤ t.script.size := by
  have := h.code.length_le
  simpa [Script.size] using this

lemma Written.extends {g : Prop} (h : Written g c s t F) : Extends s t where
  code := ⟨_, h.code.symm⟩
  references := h.references.mono fun _ hm => by have := OnLiteral.bounds hm; omega
  uses := h.uses.mono fun _ hu => hu.bounds.1
  lines := grown_of_lined h.lines
  stocks := h.stocks
  tidy := h.tidy

lemma Extends.fixups (h : Extends s t) (hs : Tidy s) :
    Grown (fun f => s.script.size ≤ f.offset) s.script.fixups.toList t.script.fixups.toList := by
  obtain ⟨l, hl, hp⟩ := h.references
  refine ⟨l.map Mark.fixup, by rw [h.tidy.fixups, hs.fixups, hl, List.map_append], fun f hf => ?_⟩
  obtain ⟨m, hm, rfl⟩ := List.mem_map.1 hf
  exact hp m hm

lemma Extends.calls (h : Extends s t) (hs : Tidy s) :
    Grown (fun k => s.script.size ≤ k.position) s.calls.entries.toList
      t.calls.entries.toList := by
  obtain ⟨l, hl, hp⟩ := h.references
  refine ⟨l.filterMap (Mark.waiting? s.symbols), ?_, fun k hk => ?_⟩
  · rw [h.tidy.calls, hs.calls, hl, h.stocks.symbols, List.filterMap_append]
  · obtain ⟨m, hm, hk⟩ := List.mem_filterMap.1 hk
    exact Mark.position_of_waiting? hk ▸ hp m hm

structure Restored (s t s' : State) : Prop where
  code : s'.script.code = s.script.code
  lastOp : s'.script.lastOp = s.script.lastOp
  fixups : s'.script.fixups = s.script.fixups
  lines : s'.script.lines = s.script.lines
  imports : s'.script.imports = s.script.imports
  strings : s'.script.strings = s.script.strings
  globalData : s'.script.globalData = t.script.globalData
  references : s'.references = s.references
  calls : s'.calls = s.calls
  uses : s'.localUses = s.localUses
  scope : s'.scope = t.scope
  pos : s'.pos = t.pos
  jumpTarget : s'.jumpTarget = t.jumpTarget.filter (· ≤ s.script.size)
  callBytes : s'.callBytes = t.callBytes
  aside : Aside t s'

lemma take_of_prefix {xs ys : Array α} (h : xs.toList <+: ys.toList) : ys.take xs.size = xs := by
  obtain ⟨l, hl⟩ := h
  rw [← Array.toList_inj]
  simp [← hl]

lemma popWhile_of_grown {place : α → Nat} {bound : Nat} {xs ys : Array α}
    (h : Grown (bound ≤ place ·) xs.toList ys.toList) (hx : ∀ x ∈ xs.toList, place x < bound) :
    ys.popWhile (bound ≤ place ·) = xs := by
  obtain ⟨l, hl, hb⟩ := h
  obtain rfl : ys = xs ++ l.toArray := by
    rw [← Array.toList_inj]
    simpa using hl
  rw [Array.popWhile_append_of_pos (by simpa using hb)]
  rcases xs with ⟨xs⟩
  rcases List.eq_nil_or_concat xs with rfl | ⟨ys, f, rfl⟩
  · simp
  · have := hx f (by simp)
    simp [show ¬bound ≤ place f by omega]

lemma keepBefore_of_grown {bound : Nat} {m m' : Marks α}
    (h : Grown (fun k => bound ≤ k.position) m.entries.toList m'.entries.toList)
    (hm : ∀ k ∈ m.entries.toList, k.position < bound) : m'.keepBefore bound = m := by
  obtain ⟨l, hl, hb⟩ := h
  rcases m with ⟨⟨m⟩⟩
  rcases m' with ⟨⟨m'⟩⟩
  obtain rfl : m' = m ++ l := hl
  have hkeep : m.filter (fun k => decide (k.position < bound)) = m :=
    List.filter_eq_self.2 fun k hk => by simpa using hm k hk
  have hdrop : l.filter (fun k => decide (k.position < bound)) = [] :=
    List.filter_eq_nil_iff.2 fun k hk => by simpa using hb k hk
  simp [Marks.keepBefore, hkeep, hdrop]

lemma restored (hs : Tidy s) (h : Extends s t)
    (ht : Runs (restore s.script.checkpoint) c t u s') : Restored s t s' := by
  simp only [restore, runs_modify] at ht
  subst ht
  have hsize := h.size_le
  exact {
    code := take_of_prefix h.code
    lastOp := by
      simp only [Script.restore, Script.truncate, Script.truncateTables, Script.checkpoint,
        tablePosition_of_le hsize]
      cases hl : s.script.lastOp with
      | none => rfl
      | some p => simpa using hs.lastOp hl
    fixups := by
      simp only [Script.restore, Script.truncate, Script.truncateTables, Script.checkpoint,
        tablePosition_of_le hsize]
      exact popWhile_of_grown (h.fixups hs) fun f hf => hs.fixups_lt hf
    lines := by
      simp only [Script.restore, Script.truncate, Script.truncateTables, Script.checkpoint,
        tablePosition_of_le hsize]
      exact popWhile_of_grown h.lines fun l hl => hs.tables.lines hl
    imports := by
      obtain ⟨l, hl, _⟩ := h.stocks.imports
      exact take_of_prefix ⟨l, hl.symm⟩
    strings := StringPool.truncate_of_grows h.stocks.strings hs.tables.strings h.tidy.tables.strings
    globalData := rfl
    references := keepBefore_of_grown h.references fun m hm => hs.references_lt hm
    calls := keepBefore_of_grown (h.calls hs) fun k hk => hs.calls_lt hk
    uses := keepBefore_of_grown h.uses fun k hk => hs.uses_lt hk
    scope := rfl
    pos := rfl
    jumpTarget := rfl
    callBytes := rfl
    aside := { Aside.refl with } }

lemma Restored.stocks (h : Restored s t s') (ht : Stocks s t) : Stocks s s' where
  symbols := h.aside.symbols.trans ht.symbols
  globalData := h.globalData.trans ht.globalData
  exports := h.aside.exports.1.trans ht.exports
  requests := h.aside.exports.2.trans ht.requests
  strings := h.strings ▸ .refl
  imports := h.imports ▸ .refl

lemma Restored.size_eq (h : Restored s t s') : s'.script.size = s.script.size := by
  rw [Script.size, h.code, Script.size]

lemma Restored.regains (h : Restored s t s') (ht : Stocks s t) (hs : Tidy s) : Regains s s' :=
  { h with
    stocks := h.stocks ht
    tables := hs.tables.grow (le_of_eq h.size_eq.symm) h.imports h.strings h.lines
    lastOp := fun hp => hs.lastOp (h.lastOp ▸ hp) }

attribute [ext] Script Scope State

lemma tried {x : Gen α} {a : α} {n : Nat} (hr : Ready q c d s)
    (h : Runs (dryRun x) c s (a, n) s') (hx : ∀ {t}, Runs x c s a t → ∃ F e, Emits q c d s t F e) :
    ∃ t, Runs x c s a t ∧ n = t.pos ∧
      s' = { s with jumpTarget := t.jumpTarget.filter (· ≤ s.script.size) } := by
  obtain ⟨t, ht, rfl, rfl⟩ := runs_dryRun.1 h
  obtain ⟨F, e, hF⟩ := hx ht
  refine ⟨t, ht, rfl, ?_⟩
  have hext := hF.toWritten.extends
  have haside := hF.aside
  have hr := restored hr.tidy hext ((runs_modify (c := c) (u := ())).2 rfl)
  have hscript : t.script.restore s.script.checkpoint = s.script := by
    ext1
    · exact hr.code
    · exact hr.fixups
    · exact hr.imports
    · exact haside.exports.1
    · exact hr.strings
    · exact hext.stocks.globalData
    · exact haside.sections.1
    · exact hr.lines
    · exact hr.lastOp
  have hscope : t.scope.adjust (s.scope.offset - t.scope.offset) = s.scope := by
    ext1
    · exact haside.blocks
    · exact (Int32.add_comm _ _).trans (Int32.sub_add_cancel _ _)
  ext1
  case script => exact hscript
  case symbols => exact haside.symbols
  case scope => exact hscope
  case nesting => exact haside.nesting
  case calls => exact hr.calls
  case function? => exact haside.function?
  case sectionIndex? => exact haside.sections.2
  case exportRequests => exact haside.exports.2
  case references => exact hr.references
  case localUses => exact hr.uses
  case localBytes => exact haside.localBytes
  case bodies => exact haside.bodies
  all_goals rfl

lemma emits_unsave (hr : Ready q c d s) (h : Extends s t) (aside : Aside s t)
    (hbytes : s.callBytes ≤ t.callBytes) (hoffset : q → Fits t → t.scope.offset = Int32.ofInt (d + 4))
    (ht : Runs (do restore s.script.checkpoint; adjustStack (-cell)) c t u s') :
    Emits q c d s s' [] d ∧ s'.pos = t.pos ∧
      s'.jumpTarget = t.jumpTarget.filter (· ≤ s.script.size) := by
  simp only [runs_seq, runs_adjustStack] at ht
  obtain ⟨t', ht, rfl⟩ := ht
  have hr' := restored hr.tidy h ht
  have hstocks := hr'.stocks h.stocks
  have htidy := (hr'.regains h.stocks hr.tidy).tidy hr.tidy
  refine ⟨?_, hr'.pos, hr'.jumpTarget⟩
  exact {
    code := by simp [hr'.code]
    wellFormed := by
      intro n h
      cases h
    linked := .nil
    paced := fun _ _ => .nil
    callBytes := hr'.callBytes ▸ hbytes
    offset := fun hq hs => by
      refine ⟨?_, (hr.offset hq).2⟩
      have ht : Fits t := by simpa only [Fits, hr'.callBytes] using hs
      rw [offset_adjust (hr'.scope ▸ hoffset hq ht), toInt_neg_cell]
      congr 1
      omega
    aside := aside.trans (hr'.aside.trans ⟨rfl, blocks_adjust, rfl, rfl, rfl, rfl, ⟨rfl, rfl⟩, ⟨rfl, rfl⟩⟩)
    spent := .of_tables hr'.imports hr'.strings
    quiet := fun _ => hr'.lastOp
    last := fun h => absurd rfl h
    references := by simp only [hr'.references]; exact .refl
    called := called_nil
    uses := by simp only [hr'.uses]; exact .refl
    lines := by simp only [hr'.lines]; exact .unmarked .nil
    stocks := ⟨hstocks.symbols, hstocks.globalData, hstocks.exports, hstocks.requests, hstocks.strings,
      hstocks.imports⟩
    tidy := htidy.grow le_rfl htidy.lastOp rfl rfl rfl rfl htidy.uses_lt
      (htidy.tables.grow le_rfl rfl rfl rfl) }

end AdventureScript.Gen
