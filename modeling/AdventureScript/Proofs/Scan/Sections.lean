import AdventureScript.Proofs.Scan.Marker

/-!
Sections and the texts they are made of.
-/
namespace AdventureScript.Scan

variable {c : Char} {cs rest text : List Char} {s s1 own : State} {name source : String} {t : Token}
  {sections : List SourceSection} {i : Item} {x : SourceSection}

/-- Reads the rest of a text and lets its brackets be: what `run` does as long as they match. -/
def read (s : State) : List Char → Except Error State
  | [] => .ok s
  | c :: cs =>
    let r := item c cs
    let text := c :: cs.take r.used
    match r.outcome with
    | .error f => .error ⟨f, s.position.span text⟩
    | .ok i => read (s.add i text s.opened) (cs.drop r.used)
termination_by cs => cs.length
decreasing_by simp only [List.length_drop, List.length_cons]; omega

lemma read_item {n : Nat} (h : item c cs = .ok i n) :
    read s (c :: cs) = read (s.add i (c :: cs.take n) s.opened) (cs.drop n) := by
  rw [read]
  simp only [h, Reading.ok]

lemma read_blank (hc : isBlank c = true) : read s (c :: cs) = read (s.step c) cs := by
  rw [read_item (item_blank hc)]
  cases cs with
  | nil => rfl
  | cons d cs =>
    by_cases hd : isBlank d = true
    · rw [read_item (item_blank hd), List.takeWhile_cons_of_pos hd]
      rfl
    · rw [List.takeWhile_cons_of_neg hd]
      rfl

lemma read_append {s : State} : {cs : List Char} → read s cs = .ok s1 →
    read s (cs ++ '\n' :: rest) = read (s1.step '\n') rest
  | [], h => by
    rw [read] at h
    cases h
    exact read_blank (by decide)
  | c :: cs, h => by
    cases hc : isBlank c with
    | true =>
      rw [read_blank hc] at h
      rw [List.cons_append, read_blank hc, read_append h]
    | false =>
      cases hi : (item c cs).outcome with
      | error f =>
        rw [read] at h
        simp [hi] at h
      | ok i =>
        have hitem : item c cs = .ok i (item c cs).used := Reading.eq_ok_iff.2 ⟨hi, rfl⟩
        obtain ⟨hle, hrest⟩ := settles_item (d := '\n') (by decide) hc (fun _ _ => rfl) i _ hitem
        rw [read_item hitem] at h
        rw [List.cons_append, read_item (hrest _ (alike_append hle)),
          List.take_append_of_le_length hle, List.drop_append_of_le_length hle, read_append h]
termination_by cs => cs.length
decreasing_by all_goals simp only [List.length_drop, List.length_cons]; omega

lemma read_marker (h : verbatim name.toList = true) :
    read s ('"' :: (markerStart.toList ++ name.toList ++ '"' :: '\n' :: rest)) =
      read (s.enter name) rest := by
  rw [read_item (item_marker h), List.drop_length_add_append]
  exact read_blank (by decide)

def inSection (i : UInt16) (t : Token) : Token :=
  { t with sectionIndex := i }

@[simp]
lemma sectionIndex_inSection {i : UInt16} : (inSection i t).sectionIndex = i :=
  rfl

def State.graft (base own : State) : State :=
  { base with
    position := own.position
    tokens := base.tokens ++ own.tokens.map (inSection base.sectionIndex) }

lemma size_sections_read (h : read s cs = .ok s1) : s.sections.size ≤ s1.sections.size := by
  fun_induction read s cs with
  | case1 s => cases h; exact le_rfl
  | case2 s c cs r text f hf => cases h
  | case3 s c cs r text i hi ih =>
    refine le_trans ?_ (ih h)
    cases i <;> simp [State.add]

lemma State.graft_add {base : State} (hi : ∀ name, i ≠ .marker name) :
    (base.graft s).add i text base.opened = base.graft (s.add i text s.opened) := by
  cases i with
  | gap => rfl
  | marker name => exact absurd rfl (hi name)
  | token kind => simp [State.add, State.graft, State.token, State.sectionIndex, inSection]

lemma read_graft {base : State} (h : read s cs = .ok s1)
    (hsections : s1.sections.size = s.sections.size) :
    read (base.graft s) cs = .ok (base.graft s1) := by
  fun_induction read s cs with
  | case1 s => cases h; rw [read]
  | case2 s c cs r text f hf => cases h
  | case3 s c cs r text i hi ih =>
    have hmarker : ∀ name, i ≠ .marker name := by
      rintro name rfl
      have hle := size_sections_read h
      simp [State.add] at hle
      omega
    have hsize : (s.add i text s.opened).sections.size = s.sections.size := by
      cases i with
      | marker name => exact absurd rfl (hmarker name)
      | _ => rfl
    rw [read_item (Reading.eq_ok_iff.2 ⟨hi, rfl⟩)]
    exact (congrArg (read · _) (State.graft_add hmarker)).trans (ih h (hsections.trans hsize.symm))

structure Standalone (source : String) (own : State) : Prop where
  reads : read {} source.toList = .ok own
  unmarked : own.sections = #[""]

lemma toList_text (x : SourceSection) : x.text.toList =
    '"' :: (markerStart.toList ++ x.name.toList ++ '"' :: '\n' :: (x.source.toList ++ ['\n'])) := by
  simp [SourceSection.text]

lemma read_section (hname : verbatim x.name.toList = true) (hown : Standalone x.source own) :
    read s (x.text.toList ++ rest) = read (((s.enter x.name).graft own).step '\n') rest := by
  have hsource : read (s.enter x.name) x.source.toList = .ok ((s.enter x.name).graft own) := by
    have hgraft := @read_graft _ {} own (s.enter x.name) hown.reads (by rw [hown.unmarked])
    simpa [State.graft, State.enter] using hgraft
  rw [toList_text, List.cons_append, ← read_append hsource, ← @read_marker _ s x.name hname]
  simp

def tokensOf (source : String) : List Token :=
  match read {} source.toList with
  | .ok own => own.tokens.toList
  | .error _ => []

lemma Standalone.tokensOf (h : Standalone source own) :
    Scan.tokensOf source = own.tokens.toList := by
  simp only [Scan.tokensOf, h.reads]

def sectionTokens (sections : List (SourceSection × Nat)) : List Token :=
  sections.flatMap fun (x, i) => (tokensOf x.source).map (inSection i.toUInt16)

lemma read_sections (hnames : ∀ x ∈ sections, verbatim x.name.toList = true)
    (hsources : ∀ x ∈ sections, ∃ own, Standalone x.source own) :
    ∃ whole, read s (sections.flatMap (·.text.toList)) = .ok whole ∧
      whole.sections = s.sections ++ (sections.map (·.name)).toArray ∧
      whole.tokens.toList = s.tokens.toList ++ sectionTokens (sections.zipIdx s.sections.size) := by
  induction sections generalizing s with
  | nil => exact ⟨s, by simp [read], by simp, by simp [sectionTokens]⟩
  | cons x sections ih =>
    obtain ⟨hname, hnames⟩ := List.forall_mem_cons.1 hnames
    obtain ⟨⟨own, hown⟩, hsources⟩ := List.forall_mem_cons.1 hsources
    obtain ⟨whole, hread, hsections, htokens⟩ :=
      @ih (((s.enter x.name).graft own).step '\n') hnames hsources
    refine ⟨whole, ?_, ?_, ?_⟩
    · rw [List.flatMap_cons, read_section hname hown, hread]
    · simpa [State.step, State.graft, State.enter] using hsections
    · simpa [State.step, State.graft, State.enter, State.sectionIndex, sectionTokens, hown.tokensOf]
        using htokens

lemma mem_sectionTokens {k : Nat} (h : t ∈ sectionTokens (sections.zipIdx k)) :
    ∃ i < sections.length, t.sectionIndex = (k + i).toUInt16 := by
  obtain ⟨⟨x, j⟩, hx, ht⟩ := List.mem_flatMap.1 h
  obtain ⟨own, -, rfl⟩ := List.mem_map.1 ht
  obtain ⟨hle, hlt, -⟩ := List.mem_zipIdx hx
  exact ⟨j - k, by omega, by rw [Nat.add_sub_cancel' hle]; rfl⟩

lemma toUInt16_inj {m n : Nat} (hm : m < 65536) (hn : n < 65536) :
    m.toUInt16 = n.toUInt16 ↔ m = n := by
  rw [← UInt16.toNat_inj]
  simp [Nat.toUInt16, UInt16.toNat_ofNat', Nat.mod_eq_of_lt hm, Nat.mod_eq_of_lt hn]

lemma filter_sectionTokens {k i : Nat}
    (hcount : k + sections.length ≤ 65536) (hx : sections[i]? = some x) :
    (sectionTokens (sections.zipIdx k)).filter (·.sectionIndex = (k + i).toUInt16) =
      (tokensOf x.source).map (inSection (k + i).toUInt16) := by
  induction sections generalizing k i with
  | nil => simp at hx
  | cons y sections ih =>
    rw [List.length_cons] at hcount
    rw [List.zipIdx_cons, sectionTokens, List.flatMap_cons, List.filter_append]
    cases i with
    | zero =>
      cases hx
      rw [List.filter_eq_self.2, List.filter_eq_nil_iff.2, List.append_nil]
      · rfl
      · intro t ht
        obtain ⟨j, hj, hindex⟩ := mem_sectionTokens ht
        simp only [hindex, decide_eq_true_eq]
        rw [toUInt16_inj (by omega) (by omega)]
        omega
      · intro t ht
        obtain ⟨own, -, rfl⟩ := List.mem_map.1 ht
        simp
    | succ i =>
      rw [List.getElem?_cons_succ] at hx
      have hi : i < sections.length := (List.getElem?_eq_some_iff.1 hx).1
      rw [List.filter_eq_nil_iff.2, List.nil_append]
      · have := ih (k := k + 1) (by omega) hx
        rwa [Nat.add_assoc, Nat.add_comm 1 i] at this
      · intro t ht hindex
        obtain ⟨own, -, rfl⟩ := List.mem_map.1 ht
        have hk : k.toUInt16 = (k + (i + 1)).toUInt16 := of_decide_eq_true hindex
        rw [toUInt16_inj (by omega) (by omega)] at hk
        omega

/-! ## Scans -/

def Fault.ofBrackets : Fault → Bool
  | .unmatchedCloser _ | .mismatchedCloser .. | .unclosedOpener _ => true
  | _ => false

/-- A scan that goes along a reading as far as its brackets match. -/
structure Follows (r : Result) (s : State) : Prop where
  tokens : r.state.tokens.toList <+: s.tokens.toList
  sections : r.state.sections.toList <+: s.sections.toList
  all : ∀ last, r.finish = .ok last →
    r.state.tokens = s.tokens ∧ r.state.sections = s.sections
  brackets : ∀ e, r.finish = .error e → e.fault.ofBrackets = true

lemma prefix_read (h : read s cs = .ok s1) :
    s.tokens.toList <+: s1.tokens.toList ∧ s.sections.toList <+: s1.sections.toList := by
  fun_induction read s cs with
  | case1 s => cases h; exact ⟨List.prefix_rfl, List.prefix_rfl⟩
  | case2 s c cs r text f hf => cases h
  | case3 s c cs r text i hi ih =>
    obtain ⟨htokens, hsections⟩ := ih h
    refine ⟨.trans ?_ htokens, .trans ?_ hsections⟩ <;> cases i <;> simp [State.add]

lemma ofBrackets_nest {opened : List OpenBracket} {sections : Array String} {e : Error}
    (h : nest opened t sections = .error e) : e.fault.ofBrackets = true := by
  unfold nest at h
  repeat' split at h
  all_goals cases h
  all_goals rfl

lemma ofBrackets_openedAfter {e : Error} (h : s.openedAfter i text = .error e) :
    e.fault.ofBrackets = true := by
  cases i with
  | token kind => exact ofBrackets_nest h
  | gap => cases h
  | marker name => cases h

lemma follows_run (h : read s cs = .ok s1) (opened : List OpenBracket) :
    Follows (run { s with opened } cs) s1 := by
  fun_induction read s cs generalizing opened with
  | case1 s =>
    cases h
    rw [run]
    refine ⟨List.prefix_rfl, List.prefix_rfl, fun _ _ => ⟨rfl, rfl⟩, fun e he => ?_⟩
    unfold State.close at he
    split at he <;> cases he
    rfl
  | case2 s c cs r text f hf => cases h
  | case3 s c cs r text i hi ih =>
    rw [run]
    simp only [hi, r]
    split
    · next e he =>
      have hread : read s (c :: cs) = .ok s1 :=
        (read_item (Reading.eq_ok_iff.2 ⟨hi, rfl⟩)).trans h
      obtain ⟨htokens, hsections⟩ := prefix_read hread
      refine ⟨htokens, hsections, by simp, fun e' he' => ?_⟩
      cases he'
      exact ofBrackets_openedAfter he
    · next opened' ho =>
      have hadd : State.add { s with opened } i text opened' =
          { s.add i text s.opened with opened := opened' } := by
        cases i <;> rfl
      rw [hadd]
      exact ih h opened'

lemma follows_scan (h : read {} source.toList = .ok own) : Follows (scan source) own :=
  follows_run h []

lemma toList_join_text :
    (String.join (sections.map SourceSection.text)).toList = sections.flatMap (·.text.toList) := by
  rw [String.toList_join, List.flatMap_def, List.map_map]
  rfl

/-- A marker starts a section of the name written in it exactly when a string literal leaves the
name as it is. Its line then adds that section to a scan and nothing else, and all sections of a
text have the names they were given. -/
theorem marker_keeps_name_iff (name : String) :
    ((∀ rest, item '"' (markerStart.toList ++ name.toList ++ '"' :: rest) =
      .ok (.marker name) ((markerStart.toList ++ name.toList).length + 1)) ↔
        verbatim name.toList = true) ∧
    (verbatim name.toList = true → ∀ s rest,
      run s (("\"" ++ markerStart ++ name ++ "\"\n").toList ++ rest) = run (s.enter name) rest) ∧
    ∀ sections : List SourceSection, (∀ x ∈ sections, verbatim x.name.toList = true) →
      (∀ x ∈ sections, ∃ own, Standalone x.source own) →
      (scan (String.join (sections.map SourceSection.text))).state.sections.toList <+:
        "" :: sections.map (·.name) := by
  refine ⟨item_marker_iff, fun h s rest => ?_, fun sections hnames hsources => ?_⟩
  · rw [← @run_marker rest name s h]
    simp
  · obtain ⟨whole, hread, hwhole, -⟩ := @read_sections {} sections hnames hsources
    rw [← toList_join_text] at hread
    have hsections := (follows_scan hread).sections
    rw [hwhole, Array.toList_append] at hsections
    exact hsections

theorem marker_keeps_name_bracket : verbatim "Maps\\[1] é.asc".toList = true ∧
    run {} ("\"__NEWSCRIPTSTART_Maps\\[1] é.asc\"\n".toList ++ "int x;".toList) =
      run ({ sections := #["", "Maps\\[1] é.asc"] } : State) "int x;".toList :=
  ⟨by decide, (marker_keeps_name_iff "Maps\\[1] é.asc").2.1 (by decide) {} "int x;".toList⟩

/-! ## Independence -/

lemma verbatim_of_plain (h : ∀ c ∈ cs, c ≠ '"' ∧ c ≠ '\\' ∧ c ≠ '\r' ∧ c ≠ '\n') :
    verbatim cs = true := by
  induction cs with
  | nil => rfl
  | cons c cs ih =>
    obtain ⟨⟨hquote, hslash, hreturn, hfeed⟩, hcs⟩ := List.forall_mem_cons.1 h
    rw [verbatim, ih hcs]
    · simp [hquote, hslash, isLineBreak, hreturn, hfeed]
    · exact fun _ hc _ => hslash hc

/-- Sections are scanned independently of each other. Where each source reads by itself, brackets
aside, the tokens of a section are those of its source, and its number stands for its name. -/
theorem sections_scanned_apart (sections : List SourceSection) (hcount : sections.length < 65535)
    (hnames : ∀ x ∈ sections, ∀ c ∈ x.name.toList, c ≠ '"' ∧ c ≠ '\\' ∧ c ≠ '\r' ∧ c ≠ '\n')
    (hsources : ∀ x ∈ sections, ∃ own, Standalone x.source own) :
    ∃ whole, read {} (String.join (sections.map SourceSection.text)).toList = .ok whole ∧
      Follows (scan (String.join (sections.map SourceSection.text))) whole ∧
      (∀ t ∈ whole.tokens, ∃ i < sections.length, t.sectionIndex = (i + 1).toUInt16) ∧
      ∀ i x, sections[i]? = some x →
        ∃ own, Standalone x.source own ∧ Follows (scan x.source) own ∧
          whole.tokens.toList.filter (·.sectionIndex = (i + 1).toUInt16) =
            own.tokens.toList.map (inSection (i + 1).toUInt16) ∧
          whole.sections[(i + 1).toUInt16.toNat]? = some x.name := by
  obtain ⟨whole, hread, hwhole, htokens⟩ := @read_sections {} sections
    (fun x hx => verbatim_of_plain (hnames x hx)) hsources
  rw [← toList_join_text] at hread
  have hsize : ({} : State).sections.size = 1 := rfl
  simp only [hsize, List.nil_append] at htokens
  refine ⟨whole, hread, follows_scan hread, fun t ht => ?_, fun i x hx => ?_⟩
  · rw [← Array.mem_toList_iff, htokens] at ht
    obtain ⟨i, hi, hindex⟩ := mem_sectionTokens ht
    exact ⟨i, hi, by rw [hindex, Nat.add_comm]⟩
  · obtain ⟨own, hown⟩ := hsources x (List.mem_of_getElem? hx)
    have hi : i < sections.length := (List.getElem?_eq_some_iff.1 hx).1
    refine ⟨own, hown, follows_scan hown.reads, ?_, ?_⟩
    · have hfilter := filter_sectionTokens (k := 1) (by omega) hx
      rw [htokens, Nat.add_comm i 1, ← hown.tokensOf]
      exact hfilter
    · have hindex : (i + 1).toUInt16.toNat = i + 1 := by
        rw [Nat.toUInt16, UInt16.toNat_ofNat', Nat.mod_eq_of_lt (by omega)]
      rw [hindex, hwhole, Array.getElem?_append_right (by simp)]
      simp [hx]

lemma exists_standalone (h : (read {} source.toList).toOption.map (·.sections) = some #[""]) :
    ∃ own, Standalone source own := by
  cases hread : read {} source.toList with
  | error e => simp [hread, Except.toOption] at h
  | ok own => exact ⟨own, hread, by simpa [hread, Except.toOption] using h⟩

theorem sections_scanned_apart_parenthesis :
    ∃ whole own, read {} (String.join ([⟨"a.ash", "f(1 // one"⟩, ⟨"b.asc", "2) /* two */ ;"⟩].map
        SourceSection.text)).toList = .ok whole ∧
      Standalone "2) /* two */ ;" own ∧
      whole.tokens.toList.filter (·.sectionIndex = 2) = own.tokens.toList.map (inSection 2) ∧
      whole.sections[2]? = some "b.asc" := by
  obtain ⟨whole, hread, -, -, hsections⟩ := sections_scanned_apart
    [⟨"a.ash", "f(1 // one"⟩, ⟨"b.asc", "2) /* two */ ;"⟩] (by decide) (by simp)
    (List.forall_mem_cons.2 ⟨exists_standalone (by decide +kernel),
      List.forall_mem_singleton.2 (exists_standalone (by decide +kernel))⟩)
  obtain ⟨own, hown, -, htokens, hname⟩ := hsections 1 _ rfl
  exact ⟨whole, own, hread, hown, htokens, hname⟩

end AdventureScript.Scan
