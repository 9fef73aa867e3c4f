import AdventureScript.Proofs.Emission.Step

/-!
Jumps: written without a destination, landed later, or written with a destination behind.
-/
namespace AdventureScript

namespace Script

lemma toList_landHere {s : Script} {p : Nat} :
    (s.landHere ⟨p⟩).code.toList = s.code.toList.set p (jumpDistance p s.size) := by
  simp [landHere, land, patch]

end Script

namespace Gen
open Assembly

variable {q : Prop} {c : Context} {d e x : Int} {s s' t : State} {F G : List Node} {u : Unit}
  {op : Opcode} {j : PendingJump} {p : Nat} {n : Node} {js : Array PendingJump} {dest? : Option Nat}

lemma runs_jump :
    Runs (jump op) c s j s' ↔
      s' = { s with script := s.script.write op [0] } ∧ j = ⟨s.script.size + 1⟩ := by
  simp [jump, Script.jump, runs_updateScript]

lemma runs_landHere :
    Runs (landHere j) c s u s' ↔ j.operand < s.script.size ∧
      s' = { s with
        script := s.script.landHere j
        jumpTarget := some s.script.size } := by
  simp [landHere, runs_modifyScript, runs_markJumpTarget]

lemma eq_of_landHere (h : Runs (landHere j) c s u s') :
    s' = { s with
      script := s.script.landHere j
      jumpTarget := some s.script.size } :=
  (runs_landHere.1 h).2

lemma runs_landAllHere :
    Runs (landAllHere js) c s u s' ↔ Runs (forM js.toList landHere) c s u s' := by
  have main : ∀ {js : List PendingJump} {s : State}, Runs (forM js landHere) c s u s' ↔
      (∀ j ∈ js, j.operand < s.script.size) ∧ s' = { s with
        script := js.foldl Script.landHere s.script
        jumpTarget := if js = [] then s.jumpTarget else some s.script.size } := by
    intro js
    induction js with
    | nil => simp
    | cons j js ih =>
      simp [runs_landHere, ih, and_assoc]
  rw [main]
  by_cases hjs : js = #[]
  · simp [landAllHere, hjs]
  · simp [landAllHere, hjs, runs_modifyScript, runs_markJumpTarget]
    rw [Script.landAllHere, Array.forall_mem_iff_forall_getElem]

lemma runs_jumpTo :
    Runs (jumpTo op p) c s u s' ↔
      s' = { s with script := s.script.write op [jumpDistance (s.script.size + 1) p] } := by
  simp [jumpTo, Script.jumpTo, runs_modifyScript]

lemma pos_jump (h : Runs (jump op) c s j s') : s'.pos = s.pos := by
  rw [(runs_jump.1 h).1]

lemma pos_landHere (h : Runs (landHere j) c s u s') : s'.pos = s.pos := by
  rw [eq_of_landHere h]

lemma stocks_landHere (h : Runs (landHere j) c s u s') : Stocks s s' := by
  obtain rfl := eq_of_landHere h
  exact ⟨rfl, rfl, rfl, rfl, .refl, .refl⟩

lemma pos_landAllHere (h : Runs (landAllHere js) c s u s') : s'.pos = s.pos :=
  runs_forM (P := fun t => t.pos = s.pos) (fun _ hp h => (pos_landHere h).trans hp)
    (runs_landAllHere.1 h) rfl

lemma references_landAllHere (h : Runs (landAllHere js) c s u s') :
    s'.references = s.references :=
  runs_forM (P := fun t => t.references = s.references)
    (fun _ hp h => by rw [eq_of_landHere h, ← hp]) (runs_landAllHere.1 h) rfl

lemma pos_jumpTo (h : Runs (jumpTo op p) c s u s') : s'.pos = s.pos := by
  rw [runs_jumpTo.1 h]

lemma emits_jump (hr : Ready q c d s) (hj : op.isJump = true) (h : Runs (jump op) c s j s') :
    j = ⟨s.script.size + 1⟩ ∧ Emits q c d s s' [⟨.jump op none, d⟩] d := by
  obtain ⟨rfl, rfl⟩ := runs_jump.1 h
  refine ⟨rfl, ?_⟩
  exact {
    code := by simp [Node.words, Instr.words]
    wellFormed := by
      intro n hn
      obtain rfl := List.mem_singleton.1 hn
      exact hj
    linked := by
      intro n hn op t ht
      obtain rfl := List.mem_singleton.1 hn
      cases ht
    paced := fun hq _ => by
      refine Paced.concat (F := []) (n := ⟨.jump op none, d⟩) .nil ?_ ?_ (hr.offset hq).2 ?_
      · simp [Node.depthAfter]
      · intro op t ht
        cases ht
      · intro hop
        obtain rfl : op = .ret := hop
        simp [Opcode.isJump] at hj
    offset := fun hq _ => hr.offset hq
    spent := .of_tables rfl rfl
    aside := { Aside.refl with }
    callBytes := le_rfl
    quiet := by
      intro h
      cases h
    last := fun _ => ⟨s.script.size, _, rfl, nodeAt_cons_self, by simp⟩
    references := .refl
    called := by
      intro p n hn hop
      simp only [nodeAt] at hn
      split at hn
      · cases hn
        obtain rfl : op = .call := hop
        simp [Opcode.isJump] at hj
      · cases hn
    uses := .refl
    lines := .unmarked .jump
    stocks := stocks_write rfl rfl rfl
    tidy := hr.tidy.write rfl rfl rfl rfl fun u hu => .inl hu }

lemma Written.land {g : Prop} (h : Written g c s t F) (hn : nodeAt s.script.size F p = some n)
    (hi : n.instr = .jump op dest?) (ht : Runs (landHere ⟨p + 1⟩) c t u s') :
    Written g c s s' (landAt s.script.size F p t.script.size) := by
  obtain rfl := eq_of_landHere ht
  obtain ⟨_, depth⟩ := n
  obtain rfl := hi
  have hb := (nodeAt_bounds hn).1
  have hstocks : Stocks t { t with
      script := t.script.landHere ⟨p + 1⟩
      jumpTarget := some t.script.size } := ⟨rfl, rfl, rfl, rfl, .refl, .refl⟩
  have hcode : (t.script.landHere ⟨p + 1⟩).code.toList =
      s.script.code.toList ++ words s.script.size (landAt s.script.size F p t.script.size) := by
    rw [Script.toList_landHere, h.code, words_landAt hn,
      List.set_append_right _ _ (by simp [Script.size] at hb ⊢; omega)]
    rfl
  exact {
    code := hcode
    wellFormed := by
      intro m hm
      obtain ⟨q, k, hk, rfl⟩ := mem_relabel hm
      unfold landing
      split
      · exact Node.land_wellFormed.2 (h.wellFormed (nodeAt_mem hk))
      · exact h.wellFormed (nodeAt_mem hk)
    callBytes := h.callBytes
    references := h.references.mono fun _ hm => OnLiteral.landAt (hm.stocks hstocks)
    called := h.called.relabel
    uses := h.uses.mono fun _ hu => hu.relabel_self landing_plain
    lines := h.lines.congr lineMarks_relabel
    stocks := h.stocks.trans hstocks
    tidy := h.tidy.grow (by simp) (fun hp => by simpa using h.tidy.lastOp hp) rfl rfl rfl rfl
      (fun hu => by simpa using h.tidy.uses_lt hu)
      (h.tidy.tables.grow (by simp) rfl rfl rfl) }

lemma Emits.land (h : Emits q c d s t F e) (hn : nodeAt s.script.size F p = some n)
    (hi : n.instr = .jump op dest?) (hd : q → Fits t → n.depth = e)
    (ht : Runs (landHere ⟨p + 1⟩) c t u s') :
    Emits q c d s s' (landAt s.script.size F p t.script.size) e := by
  have hw := h.toWritten.land hn hi ht
  obtain rfl := eq_of_landHere ht
  have hF : F ≠ [] := by
    rintro rfl
    cases hn
  have hboundary : Boundary s.script.size F t.script.size := h.size_eq ▸ boundary_end
  exact {
    toWritten := hw
    linked := h.linked.landAt hboundary
    paced := by
      intro hq hs
      refine (h.paced hq hs).landAt fun m hm => ?_
      rw [hn] at hm
      cases hm
      exact hd hq hs ▸ h.size_eq ▸ arrives_end
    offset := h.offset
    aside := h.aside.trans { Aside.refl with }
    spent := h.spent.stay rfl rfl fun _ => id
    quiet := fun hF' => absurd (relabel_eq_nil.1 hF') hF
    last := by
      intro _
      obtain ⟨k, m, hk, hm, he⟩ := h.last hF
      refine ⟨k, _, hk, by rw [nodeAt_relabel_self, hm]; rfl, ?_⟩
      rw [(Relabels.alike k m).size, width_relabel]
      exact he }

lemma Emits.landMiddle (h : Emits q c d s t (F ++ ⟨.jump op dest?, x⟩ :: G) e)
    (hp : p = s.script.size + width F) (hd : q → Fits t → x = e)
    (ht : Runs (landHere ⟨p + 1⟩) c t u s') :
    Emits q c d s s' (F ++ ⟨.jump op (some t.script.size), x⟩ :: G) e := by
  subst hp
  have := h.land nodeAt_middle rfl hd ht
  rwa [landAt_middle] at this

lemma Written.jumpTo {g : Prop} (h : Written g c s t F) (hj : op.isJump = true)
    (ht : Runs (jumpTo op p) c t u s') : Written g c s s' (F ++ [⟨.jump op (some p), e⟩]) := by
  obtain rfl := runs_jumpTo.1 ht
  have hstocks : Stocks t { t with
      script := t.script.write op [jumpDistance (t.script.size + 1) p] } := stocks_write rfl rfl rfl
  exact {
    code := by simp [h.code, h.size_eq, Node.words, Instr.words]
    wellFormed := by
      intro n hn
      rcases List.mem_append.1 hn with hn | hn
      · exact h.wellFormed hn
      · obtain rfl := List.mem_singleton.1 hn
        exact hj
    callBytes := h.callBytes
    references := h.references.mono fun _ hm => Contains.append_left (hm.stocks hstocks)
    called := h.called.concat fun hop => by
      obtain rfl : op = .call := hop
      simp [Opcode.isJump] at hj
    uses := h.uses.mono fun _ hu => hu.append_left
    lines := h.lines.append (.unmarked .jump)
    stocks := h.stocks.trans hstocks
    tidy := h.tidy.write rfl rfl rfl rfl fun u hu => .inl hu }

lemma Emits.jumpTo (h : Emits q c d s t F e) (hj : op.isJump = true)
    (hb : Boundary s.script.size F p) (ha : q → Fits t → Arrives s.script.size F e p e)
    (ht : Runs (jumpTo op p) c t u s') :
    Emits q c d s s' (F ++ [⟨.jump op (some p), e⟩]) e := by
  have hw := h.toWritten.jumpTo (e := e) hj ht
  obtain rfl := runs_jumpTo.1 ht
  exact {
    toWritten := hw
    linked := by
      refine h.linked.concat fun op' t' ht' => ?_
      cases ht'
      exact .inl hb.append_left
    paced := fun hq hs => (h.paced hq hs).jumpTo hj (h.offset hq hs).2 (.inl (ha hq hs))
    offset := h.offset
    aside := h.aside.trans { Aside.refl with }
    spent := h.spent.stay rfl rfl fun _ => id
    quiet := by simp
    last := fun _ => ⟨t.script.size, ⟨.jump op (some p), e⟩, rfl,
      by rw [h.size_eq]; exact nodeAt_middle, by simp [h.size_eq, Nat.add_assoc]⟩ }

end Gen
end AdventureScript
