import AdventureScript.Proofs.Emission.Parse

/-!
Code that is cut out and put back elsewhere.
-/
namespace AdventureScript.Gen
open Assembly

variable {q g g' : Prop} {c : Context} {d e x : Int} {s s' t : State} {F G : List Node} {u : Unit}
  {b line bound a : Nat} {chunk : Chunk} {marks : ChunkMarks} {α : Type} {l : List (Mark Reference)}
  {symbols : Symbols}

def behind {α : Type} (b : Nat) (m : Mark α) : Mark α :=
  { m with position := b + m.position }

/-! ## Cutting out -/

/-- What was cut out is the code `F`, which stood at `b` on a stack of depth `d`. The tables that it
refers to are those of `s`. -/
structure Cut (g : Prop) (c : Context) (s : State) (d : Int) (chunk : Chunk) (marks : ChunkMarks)
    (b : Nat) (F : List Node) : Prop where
  code : chunk.code.toList = words b F
  ne_nil : F ≠ []
  wellFormed : ∀ {n}, n ∈ F → n.instr.WellFormed
  linked : Linked nowhere b F
  settled : Settled F
  unmarked : Unmarked F
  paced : g → Paced nowhere b F d d
  references : ∀ {m}, m ∈ marks.references.toList → Refers c s b F (behind b m)
  called : Called b F (marks.references.toList.map (behind b))
  sorted : (marks.references.toList.map (·.position)).Pairwise (· < ·)
  fixups : chunk.fixups.toList = marks.references.toList.map Mark.fixup
  calls : marks.calls.toList = marks.references.toList.filterMap (Mark.waiting? s.symbols)
  uses : ∀ {u}, u ∈ marks.localUses.toList → OnLocal g b F (behind b u)

lemma Cut.imp (h : Cut g c s d chunk marks b F) (hg : g' → g) : Cut g' c s d chunk marks b F :=
  { h with paced := h.paced ∘ hg, uses := fun hu => (h.uses hu).imp hg }

def ChunkMarks.Owes (marks : ChunkMarks) (reference : Reference) : Prop :=
  ∃ m ∈ marks.references.toList, m.value = reference

lemma Cut.stocks (h : Cut g c s d chunk marks b F) (hs : Stocks s s') :
    Cut g c s' d chunk marks b F :=
  { h with
    references := fun hm => (h.references hm).stocks hs
    calls := by rw [hs.symbols, h.calls] }

lemma frontSize_of_grown {xs ys : Array Fixup}
    (h : Grown (fun f => bound ≤ f.offset) xs.toList ys.toList)
    (hx : ∀ f ∈ xs.toList, f.offset < bound) :
    frontSize ys (fun f => decide (f.offset < bound)) = xs.size := by
  obtain ⟨l, hl, hb⟩ := h
  obtain rfl : ys = xs ++ l.toArray := by
    rw [← Array.toList_inj]
    simpa using hl
  refine frontSize_eq (fun i hi => ?_) (by simp)
  by_cases hlt : i < xs.size
  · simpa [hlt] using hx xs[i] (by simp)
  · have hi' : i - xs.size < l.length := by
      simp only [List.size_toArray, Array.size_append] at hi
      omega
    have := hb l[i - xs.size] (List.getElem_mem _)
    simp [Array.getElem_append, hlt]
    omega

lemma yank_of_append {m m' : Marks α} {l : List (Mark α)}
    (h : m'.entries.toList = m.entries.toList ++ l) (hl : ∀ k ∈ l, bound ≤ k.position)
    (hm : ∀ k ∈ m.entries.toList, k.position < bound) :
    (m'.yank bound).2 = m ∧
      (m'.yank bound).1.toList = l.map fun k => { k with position := k.position - bound } := by
  refine ⟨keepBefore_of_grown ⟨l, h, hl⟩ hm, ?_⟩
  have hdrop : m.entries.toList.filter (fun k => decide (bound ≤ k.position)) = [] :=
    List.filter_eq_nil_iff.2 fun k hk => by simpa using hm k hk
  have hkeep : l.filter (fun k => decide (bound ≤ k.position)) = l :=
    List.filter_eq_self.2 fun k hk => by simpa using hl k hk
  simp only [Marks.yank, Array.toList_map, Array.toList_filter, h, List.filter_append, hdrop, hkeep,
    List.nil_append]

lemma behind_sub {k : Mark α} (h : bound ≤ k.position) :
    behind bound { k with position := k.position - bound } = k := by
  simp [behind, Nat.add_sub_cancel' h]

lemma map_behind_sub {l : List (Mark α)} (h : ∀ k ∈ l, bound ≤ k.position) :
    (l.map fun k => { k with position := k.position - bound }).map (behind bound) = l := by
  rw [List.map_map]
  exact (List.map_congr_left fun k hk => behind_sub (h k hk)).trans (List.map_id _)

lemma toList_drop {xs ys : Array α} {l : List α} (h : ys.toList = xs.toList ++ l) :
    (ys.drop xs.size).toList = l := by
  obtain rfl : ys = xs ++ l.toArray := by
    rw [← Array.toList_inj]
    simpa using h
  simp

lemma pairwise_sub (h : ∀ k ∈ l, bound ≤ k.position)
    (hs : (l.map (·.position)).Pairwise (· < ·)) :
    ((l.map fun k => { k with position := k.position - bound : Mark Reference }).map
      (·.position)).Pairwise (· < ·) := by
  rw [List.map_map]
  refine List.pairwise_map.2 ((List.pairwise_map.1 hs).imp_of_mem fun {k k'} hk hk' hlt => ?_)
  have := h k hk
  simp only [Function.comp_apply]
  omega

lemma waiting?_sub :
    (l.map fun k => { k with position := k.position - bound : Mark Reference }).filterMap
        (Mark.waiting? symbols) =
      (l.filterMap (Mark.waiting? symbols)).map fun k =>
        { k with position := k.position - bound } := by
  rw [List.filterMap_map, List.map_filterMap]
  congr 1
  funext ⟨position, value⟩
  cases value <;> simp only [Function.comp_apply, Mark.waiting?, Option.map_none]
  split <;> rfl

lemma cut_cutCode (hr : Ready q c d s) (h : Writes q c d s t F d) (hF : F ≠ []) {v : CaseValue}
    (ht : Runs (cutCode s.script.size line) c t v s') :
    ∃ chunk marks, v = .code chunk marks ∧
      Cut (q ∧ Fits t) c s' d chunk marks s.script.size F ∧ Regains s s' ∧ Stocks t s' ∧
      Spends (ChunkMarks.Owes marks) s s' ∧ ∃ code fixups lines lastOp calls references localUses, s' = { t with
        script := { t.script with code, fixups, lines, lastOp }
        calls, references, localUses } := by
  have hsize := h.size_eq
  have hext := h.extends
  obtain ⟨l, hl, hrefers⟩ := h.references
  have hle : ∀ m ∈ l, s.script.size ≤ m.position := fun m hm => by
    have := OnLiteral.bounds (hrefers m hm)
    omega
  have hfixups : t.script.fixups.toList = s.script.fixups.toList ++ l.map Mark.fixup := by
    rw [h.tidy.fixups, hl, List.map_append, hr.tidy.fixups]
  have hcalls : t.calls.entries.toList = s.calls.entries.toList ++
      l.filterMap (Mark.waiting? s.symbols) := by
    rw [h.tidy.calls, hl, h.stocks.symbols, List.filterMap_append, hr.tidy.calls]
  have hfront := frontSize_of_grown (hext.fixups hr.tidy) fun f hf => hr.tidy.fixups_lt hf
  have href := yank_of_append hl hle fun m hm => hr.tidy.references_lt hm
  have hcal := yank_of_append hcalls (fun k hk => by
    obtain ⟨m, hm, hk⟩ := List.mem_filterMap.1 hk
    exact Mark.position_of_waiting? hk ▸ hle m hm) fun k hk => hr.tidy.calls_lt hk
  obtain ⟨lu, hlu, hlocal⟩ := h.uses
  have huse := yank_of_append hlu (fun k hk => (hlocal k hk).bounds.1) fun k hk =>
    hr.tidy.uses_lt hk
  simp only [cutCode, runs_bind, runs_get, exists_eq_left, and_assoc, Script.yank, hfront, runs_set,
    runs_pure, if_neg (show ¬t.script.size < s.script.size by omega)] at ht
  obtain ⟨_, hs', rfl⟩ := ht
  have hstocks : Stocks t s' := by
    rw [hs']
    exact ⟨rfl, rfl, rfl, rfl, .refl, .refl⟩
  have hsorted : (l.map (·.position)).Pairwise (· < ·) := by
    have := h.tidy.sorted
    rw [hl, List.map_append] at this
    exact (List.pairwise_append.1 this).2.1
  have hcode : s'.script.code = s.script.code := by
    rw [hs']
    exact take_of_prefix ⟨_, h.code.symm⟩
  have hlines : s'.script.lines = s.script.lines := by
    rw [hs']
    exact popWhile_of_grown (grown_of_lined h.lines) fun l hl => hr.tidy.tables.lines hl
  refine ⟨_, _, rfl, ?_, ?_, hstocks, ?_, _, _, _, _, _, _, _, hs'⟩
  · exact {
      code := toList_drop h.code
      ne_nil := hF
      wellFormed := h.wellFormed
      linked := h.linked
      settled := h.settled
      unmarked := h.unmarked
      paced := fun hq => h.paced hq.1 hq.2
      references := fun hm => by
        simp only [href.2, List.mem_map] at hm
        obtain ⟨m, hm, rfl⟩ := hm
        rw [behind_sub (hle m hm)]
        exact (hrefers m hm).stocks hstocks
      called := by
        rw [href.2, map_behind_sub hle]
        intro p n hn hop
        obtain ⟨m, hm, hge, hrest⟩ := h.called p n hn hop
        rw [hl] at hm
        rcases List.mem_append.1 hm with hm | hm
        · have := hr.tidy.references_lt hm
          omega
        · exact ⟨m, hm, hge, hrest⟩
      sorted := by
        rw [href.2]
        exact pairwise_sub hle hsorted
      fixups := by
        rw [Array.toList_map, toList_drop hfixups, href.2, List.map_map, List.map_map]
        refine List.map_congr_left fun m hm => ?_
        simp [Mark.fixup, positionFrom_of_le (hle m hm)]
      calls := by
        rw [hcal.2, href.2, waiting?_sub, hstocks.symbols, h.stocks.symbols]
      uses := fun hu => by
        simp only [huse.2, List.mem_map] at hu
        obtain ⟨u, hu, rfl⟩ := hu
        rw [behind_sub (hlocal u hu).bounds.1]
        exact hlocal u hu }
  · exact {
      code := hcode
      fixups := by rw [hs']; exact take_of_prefix ⟨_, hfixups.symm⟩
      references := by rw [hs']; exact href.1
      calls := by rw [hs']; exact hcal.1
      uses := by rw [hs']; exact huse.1
      lines := hlines
      stocks := h.stocks.trans hstocks
      tables := by
        refine ⟨?_, ?_, fun hl => ?_⟩
        · rw [hs']
          exact h.tidy.tables.strings
        · rw [hs']
          exact h.tidy.tables.imports
        · rw [Script.size, hcode]
          exact hr.tidy.tables.lines (hlines ▸ hl)
      lastOp := fun hp => by
        rw [hs'] at hp
        simpa using (Option.filter_eq_some_iff.1 hp).2 }
  · -- The marks that used what is new went out with the code.
    intro e he
    rcases h.spent e (he.congr (by rw [hs']) (by rw [hs'])) with he | ⟨reference, hr', hused⟩
    · exact .inl he
    · obtain ⟨m, hm, hge, rfl⟩ := hused.resolve_left False.elim
      refine .inr ⟨m.value, hr', .inl ⟨{ m with position := m.position - s.script.size }, ?_, rfl⟩⟩
      rw [href.2]
      refine List.mem_map.2 ⟨m, ?_, rfl⟩
      rw [hl] at hm
      rcases List.mem_append.1 hm with hm | hm
      · have := hr.tidy.references_lt hm
        omega
      · exact hm

/-! ## Putting back -/

lemma Cut.size_eq (h : Cut g c s d chunk marks b F) : chunk.code.size = width F := by
  simpa using congrArg List.length h.code

lemma toList_putBack {m : Marks α} {base : Nat} {moved : Array (Mark α)} :
    (m.putBack base moved).entries.toList = m.entries.toList ++ moved.toList.map (behind base) := by
  simp [Marks.putBack, behind]

lemma Called.move (h : Called b F (l.map (behind b))) :
    Called a (move F b a) (l.map (behind a)) := by
  intro p n hn hop
  obtain ⟨q, k, hk, rfl, rfl⟩ := exists_of_nodeAt_relabel hn
  obtain ⟨_, hb, hge, hpos, hid⟩ := h q k hk 
    ((Relabels.alike (f := fun _ n => n.move b a) q k).op ▸ hop)
  obtain ⟨m, hm, rfl⟩ := List.mem_map.1 hb
  refine ⟨behind a m, List.mem_map_of_mem hm, by simp [behind], ?_, hid⟩
  simp only [behind, moved] at hpos ⊢
  omega

lemma Cut.refers (h : Cut g c s d chunk marks b F) {m : Mark Reference}
    (hm : m ∈ marks.references.toList) : Refers c s a (move F b a) (behind a m) := by
  have := OnLiteral.move (a := a) (h.references hm)
  rwa [behind, moved_add] at this

lemma Cut.sorted_append (h : Cut g c t d chunk marks b F) (hs : Tidy s) :
    ((s.references.entries.toList ++ marks.references.toList.map (behind s.script.size)).map
      (·.position)).Pairwise (· < ·) := by
  rw [List.map_append, List.pairwise_append]
  refine ⟨hs.sorted, ?_, fun x hx y hy => ?_⟩
  · rw [List.map_map]
    refine List.pairwise_map.2 ((List.pairwise_map.1 h.sorted).imp fun {k k'} hlt => ?_)
    simp only [Function.comp_apply, behind]
    omega
  · obtain ⟨m, hm, rfl⟩ := List.mem_map.1 hx
    obtain ⟨m', hm', rfl⟩ := List.mem_map.1 hy
    obtain ⟨k, _, rfl⟩ := List.mem_map.1 hm'
    have := hs.references_lt hm
    simp only [behind]
    omega

lemma waiting?_behind :
    (l.map (behind b)).filterMap (Mark.waiting? symbols) =
      (l.filterMap (Mark.waiting? symbols)).map (behind b) := by
  rw [List.filterMap_map, List.map_filterMap]
  congr 1
  funext ⟨position, value⟩
  cases value <;> simp only [Function.comp_apply, Mark.waiting?, behind, Option.map_none]
  split <;> rfl

lemma pays_putCode (h : Runs (putCode chunk marks) c s u s') :
    Pays (ChunkMarks.Owes marks) s s' := by
  simp only [putCode, runs_bind, runs_updateScript, runs_modify, exists_eq_left, and_assoc,
    Script.writeChunk] at h
  subst h
  rintro _ ⟨m, hm, rfl⟩
  refine ⟨behind s.script.size m, ?_, Nat.le_add_right _ _, rfl⟩
  rw [toList_putBack]
  exact List.mem_append_right _ (List.mem_map_of_mem hm)

lemma written_putCode (hs : Tidy s) (hcut : Cut g c s d chunk marks b F)
    (h : Runs (putCode chunk marks) c s u s') :
    Written g c s s' (move F b s.script.size) ∧
      ∃ code fixups lastOp calls references localUses, s' = { s with
        script := { s.script with code, fixups, lastOp }
        calls, references, localUses } := by
  simp only [putCode, runs_bind, runs_updateScript, runs_modify, exists_eq_left, and_assoc,
    Script.writeChunk] at h
  subst h
  refine ⟨?_, _, _, _, _, _, _, rfl⟩
  have hsize : (s.script.code ++ chunk.code).size = s.script.size + width F := by
    simp [Script.size, hcut.size_eq]
  have hpos := width_pos hcut.ne_nil
  have hlt : ∀ {m}, m ∈ marks.references.toList →
      (behind s.script.size m).position < s.script.size + width F := fun hm => by
    simpa using (OnLiteral.bounds (hcut.refers hm)).2
  have huses : Grown (OnLocal g s.script.size (move F b s.script.size)) s.localUses.entries.toList
      (s.localUses.putBack s.script.size marks.localUses).entries.toList := by
    refine ⟨_, toList_putBack, fun u hu => ?_⟩
    obtain ⟨k, hk, rfl⟩ := List.mem_map.1 hu
    have := (hcut.uses hk).relabel (f := fun _ n => n.move b s.script.size)
      (a := s.script.size) Node.move_plain
    rwa [behind, moved_add] at this
  exact {
    code := by simp [hcut.code, hcut.linked.words_move]
    wellFormed := fun hn => by
      obtain ⟨q, n, hq, rfl⟩ := mem_relabel hn
      exact Node.move_wellFormed.2 (hcut.wellFormed (nodeAt_mem hq))
    callBytes := le_rfl
    references := by
      refine ⟨_, toList_putBack, fun m hm => ?_⟩
      obtain ⟨k, hk, rfl⟩ := List.mem_map.1 hm
      exact (hcut.refers hk).stocks ⟨rfl, rfl, rfl, rfl, .refl, .refl⟩
    called := by
      rw [toList_putBack]
      exact (Called.move hcut.called).mono fun m hm => List.mem_append_right _ hm
    uses := huses
    lines := .unmarked hcut.unmarked.relabel
    stocks := ⟨rfl, rfl, rfl, rfl, .refl, .refl⟩
    tidy := {
      lastOp := fun {p} hp => by
        have hne : chunk.code ≠ #[] := fun he => by
          have := hcut.size_eq
          simp [he] at this
          omega
        obtain rfl : s.script.size = p := by simpa [hne] using hp
        simp only [Script.size, hsize]
        omega
      sorted := by
        rw [toList_putBack]
        exact hcut.sorted_append hs
      references_lt := fun hm => by
        rw [toList_putBack] at hm
        refine Nat.lt_of_lt_of_eq ?_ hsize.symm
        rcases List.mem_append.1 hm with hm | hm
        · have := hs.references_lt hm
          omega
        · obtain ⟨k, hk, rfl⟩ := List.mem_map.1 hm
          exact hlt hk
      fixups := by
        rw [Array.toList_append, Array.toList_map, hcut.fixups, toList_putBack, hs.fixups,
          List.map_append, List.map_map, List.map_map]
        congr 1
        refine List.map_congr_left fun m hm => ?_
        have hlt := hlt hm
        have := hcut.size_eq
        simp only [behind] at hlt
        simp [Mark.fixup, behind, tablePosition_of_le (show s.script.size + m.position ≤
          s.script.size + chunk.code.size by omega)]
      calls := by
        rw [toList_putBack, toList_putBack, hcut.calls, hs.calls, List.filterMap_append,
          waiting?_behind]
      uses_lt := fun hu =>
        Nat.lt_of_lt_of_eq (huses.lt hs.uses_lt (fun hu => by simpa using hu.bounds.2) hu) hsize.symm
      tables := hs.tables.grow (by simp [Script.size]) rfl rfl rfl } }

lemma Written.emits (hw : Written g c s t F) (hg : q ∧ Fits t → g)
    (hlinked : Linked nowhere s.script.size F)
    (hpaced : q → Fits t → Paced nowhere s.script.size F d x) (haside : Aside s t)
    (hspent : Spends nothing s t)
    (h : Emits q c x t s' G e) (hG : G ≠ []) : Emits q c d s s' (F ++ G) e where
  toWritten := hw.trans h.toWritten (fun ⟨hq, hs⟩ => hg ⟨hq, h.fits hs⟩) id
  linked := hlinked.append (hw.size_eq ▸ h.linked)
  paced hq hs := (hpaced hq (h.fits hs)).append (hw.size_eq ▸ h.paced hq hs)
  offset := h.offset
  aside := haside.trans h.aside
  spent := hspent.trans h.spent haside.symbols (hw.size_eq ▸ Nat.le_add_right ..)
    fun _ hm => h.references.subset hm
  quiet hFG := absurd (List.append_eq_nil_iff.1 hFG).2 hG
  last _ := by
    obtain ⟨p, n, hp, hn, he⟩ := h.last hG
    rw [hw.size_eq] at hn he
    exact ⟨p, n, hp, nodeAt_append_right hn, by rw [width_append]; omega⟩

lemma parses_caseCode (hr : Ready q c d s) (hcut : Cut q c s (d + 4) chunk marks b F)
    (h : Runs (caseToAx (.code chunk marks)) c s u s') :
    ∃ G, G ≠ [] ∧ Parses q c d s s' G d ∧ s'.pos = s.pos ∧ Pays (ChunkMarks.Owes marks) s s' := by
  simp only [caseToAx, runs_bind] at h
  obtain ⟨_, t1, h1, _, t2, h2, h3⟩ := h
  have hA := parses_pushReg hr h1
  have hr1 := hA.ready hr
  obtain ⟨hB, _, _, _, _, _, _, ht2⟩ := written_putCode hr1.tidy (hcut.stocks hA.stocks) h2
  have haside : Aside t1 t2 := ht2 ▸ { Aside.refl with }
  have hr2 : Ready (q ∧ Fits t1) c (d + 4) t2 := {
    stream := hr.stream
    known := haside.symbols ▸ hr1.known
    tidy := hB.tidy
    offset := ht2 ▸ hr1.offset }
  have hC := parses_popReg hr2 (fun hq => by have := (hr.offset hq.1).2; omega) h3
  have hBC : Emits (q ∧ Fits t1) c (d + 4) t1 s' _ (d + 4 - 4) :=
    hB.emits (fun hq => hq.1.1) hcut.linked.move (fun hq _ => (hcut.paced hq.1).move)
      haside (ht2 ▸ .of_tables rfl rfl) hC.toEmits (List.cons_ne_nil _ _)
  have hpos : s'.pos = t1.pos := by
    obtain ⟨_, rfl, rfl⟩ := h3
    rw [ht2]
  have hBC := hBC.parses_of_ne_nil (c := c) (by simp) (hpos ▸ .refl)
    (hcut.settled.move.append hC.settled) (hC.live.append_left (List.cons_ne_nil _ _))
    (hcut.unmarked.relabel.append hC.unmarked)
  refine ⟨_, ?_, hA.trans (hBC.cast fun _ _ => by omega), ?_,
    (pays_putCode h2).within hA.extends.size_le fun _ hm => hC.references.subset hm⟩
  · simp
  · obtain ⟨_, rfl, rfl⟩ := h1
    exact hpos

end AdventureScript.Gen
