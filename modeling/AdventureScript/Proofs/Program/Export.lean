import AdventureScript.Proofs.Program.Flow

/-!
The export table of a compiled script. No name stands in it twice, each entry leads to the start of a
function or to a variable with storage, and everything that was to be published is there.
-/
namespace AdventureScript

variable {c : Context} {symbols : Symbols} {s s' t : State} {u : Unit} {name : String}
  {tag offset tag' offset' : UInt32} {source : String} {options : Options} {tokens : Stream}
  {r : ExportRequest}

section

variable (ho : offset < exportLimit) (ht : tag < 256)
include ho ht

lemma toNat_address : (offset ||| tag <<< 24).toNat = tag.toNat * 2 ^ 24 + offset.toNat := by
  have ho' : offset.toNat < 2 ^ 24 := ho
  have ht' : tag.toNat < 256 := ht
  have hshift : (tag <<< 24).toNat = tag.toNat <<< 24 := by
    rw [UInt32.toNat_shiftLeft, show (24 : UInt32).toNat % 32 = 24 from rfl, Nat.shiftLeft_eq,
      Nat.mod_eq_of_lt (by omega)]
  rw [UInt32.toNat_or, hshift, Nat.or_comm, ← Nat.shiftLeft_add_eq_or_of_lt ho', Nat.shiftLeft_eq]

lemma Export.offset_mk : Export.offset ⟨name, offset ||| tag <<< 24⟩ = offset := by
  have ho' : offset.toNat < 2 ^ 24 := ho
  rw [Export.offset, ← UInt32.toNat_inj, UInt32.toNat_and, toNat_address ho ht,
    show (exportLimit - 1).toNat = 2 ^ 24 - 1 from rfl, Nat.and_two_pow_sub_one_eq_mod]
  omega

lemma Export.tag_mk : Export.tag ⟨name, offset ||| tag <<< 24⟩ = tag := by
  have ho' : offset.toNat < 2 ^ 24 := ho
  rw [Export.tag, ← UInt32.toNat_inj, UInt32.toNat_shiftRight, toNat_address ho ht,
    show (24 : UInt32).toNat % 32 = 24 from rfl, Nat.shiftRight_eq_div_pow]
  omega

end

/-- The symbols have something to publish under the name, with the tag and at the offset. -/
inductive Symbols.Provides (symbols : Symbols) : String → UInt32 → UInt32 → Prop where
  | function {id : FuncId} {f : FuncDef} {start : Nat}
      (hf : symbols.functions[id.index]? = some f) (hbody : f.hasBody = true)
      (hstart : f.codeOffset = some start) :
      symbols.Provides f.exportName exportFunction start.toUInt32
  | data {id : GlobalId} {v : GlobalVar} (hv : symbols.globals[id.index]? = some v)
      (himport : v.isImport = false) : symbols.Provides v.name exportData v.offset

namespace Symbols.Provides

lemma tag_lt (h : symbols.Provides name tag offset) : tag < 256 := by
  cases h <;> decide

lemma eq_function (h : symbols.Provides name exportFunction offset) :
    ∃ f ∈ symbols.functions, ∃ start, f.hasBody = true ∧ f.codeOffset = some start ∧
      name = f.exportName ∧ offset = start.toUInt32 := by
  generalize htag : exportFunction = tag at h
  cases h with
  | @function _ f start hf hbody hstart =>
    exact ⟨f, Array.mem_of_getElem? hf, start, hbody, hstart, rfl, rfl⟩
  | data => simp [exportFunction, exportData] at htag

lemma eq_data (h : symbols.Provides name exportData offset) :
    ∃ v ∈ symbols.globals, v.isImport = false ∧ name = v.name ∧ offset = v.offset := by
  generalize htag : exportData = tag at h
  cases h with
  | function => simp [exportFunction, exportData] at htag
  | @data _ v hv himport => exact ⟨v, Array.mem_of_getElem? hv, himport, rfl, rfl⟩

lemma unique (hnamed : symbols.Named) (h : symbols.Provides name tag offset)
    (h' : symbols.Provides name tag' offset') : tag' = tag ∧ offset' = offset := by
  cases h with
  | @function id f start hf hbody hstart =>
    have hplain := hnamed.plainFunction hf
    generalize hn : f.exportName = n at h'
    cases h' with
    | @function id' g start' hg hbody' hstart' =>
      have hname := FuncDef.name_eq_of_exportName hplain (hnamed.plainFunction hg) hn
      obtain rfl := hnamed.eq_of_name hf hg hname
      obtain rfl := Option.some.inj (hf.symm.trans hg)
      obtain rfl := Option.some.inj (hstart.symm.trans hstart')
      exact ⟨rfl, rfl⟩
    | data hv himport =>
      exact absurd hn (FuncDef.exportName_ne (hnamed.found (hnamed.storage hv himport)).1)
  | @data id v hv himport =>
    have hfind := hnamed.storage hv himport
    generalize hn : v.name = n at h'
    cases h' with
    | function hg => exact absurd hn.symm (FuncDef.exportName_ne (hnamed.found hfind).1)
    | @data id' w hw himport' =>
      have hfind' := hnamed.storage hw himport'
      rw [← hn, hfind] at hfind'
      cases hfind'
      obtain rfl := Option.some.inj (hv.symm.trans hw)
      exact ⟨rfl, rfl⟩

end Symbols.Provides

lemma Gen.provides_exported (hnamed : symbols.Named) {n : String}
    (h : exported symbols name = .ok (n, tag, offset)) : symbols.Provides n tag offset := by
  unfold exported at h
  split at h
  · split at h
    · cases h
    · next f hf =>
      split at h
      · next start hbody hstart =>
        cases h
        exact .function hf hbody hstart
      · cases h
  · next id hfind =>
    split at h
    · cases h
    · next v hv =>
      split at h
      · cases h
      · next himport =>
        cases h
        obtain ⟨w, hw, rfl⟩ := (hnamed.found hfind).2
        obtain rfl := Option.some.inj (hv.symm.trans hw)
        exact .data hv (by simpa using himport)
  · cases h
  · cases h

/-! ## Publishing -/

def Script.Publishes (script : Script) (name : String) (tag offset : UInt32) : Prop :=
  offset < exportLimit ∧ ∃ e ∈ script.exports, e.name = name ∧ e.tag = tag ∧ e.offset = offset

structure State.Issued (s : State) : Prop where
  distinct : (s.script.exports.toList.map (·.name)).Nodup
  offered : ∀ e ∈ s.script.exports, s.symbols.Provides e.name e.tag e.offset

namespace Gen

structure Issues (s s' : State) : Prop where
  symbols : s'.symbols = s.symbols
  exports : ∀ e ∈ s.script.exports, e ∈ s'.script.exports
  issued : s'.Issued

lemma Issues.refl (h : s.Issued) : Issues s s :=
  ⟨rfl, fun _ he => he, h⟩

lemma Issues.trans (h : Issues s t) (h' : Issues t s') : Issues s s' :=
  ⟨h'.symbols.trans h.symbols, fun e he => h'.exports e (h.exports e he), h'.issued⟩

lemma Issues.publishes (h : Issues s s') (hp : s.script.Publishes name tag offset) :
    s'.script.Publishes name tag offset := by
  obtain ⟨hlt, e, he, hentry⟩ := hp
  exact ⟨hlt, e, h.exports e he, hentry⟩

lemma issues_publish {sectionIndex : UInt16} {line : Nat} (hnamed : s.symbols.Named)
    (h : s.Issued) (ho : s.symbols.Provides name tag offset)
    (hrun : Runs (publish name tag offset sectionIndex line) c s u s') :
    Issues s s' ∧ s'.script.Publishes name tag offset := by
  simp only [publish, runs_bind, runs_get, exists_eq_left, and_assoc] at hrun
  split at hrun
  · next script hscript =>
    obtain rfl := runs_modify.1 hrun
    unfold Script.addExport at hscript
    split at hscript
    · cases hscript
    · next hlt =>
      have hlt : offset < exportLimit := UInt32.not_le.1 hlt
      split at hscript
      · next hany =>
        -- The first entry of a name stays; it is the one that would be added.
        cases hscript
        obtain ⟨e, he, hname⟩ := Array.any_eq_true'.1 hany
        have hname : e.name = name := of_decide_eq_true hname
        have hoffer := h.offered e he
        rw [hname] at hoffer
        exact ⟨.refl h, hlt, e, he, hname, ho.unique hnamed hoffer⟩
      · next hnew =>
        cases hscript
        have htag : Export.tag ⟨name, offset ||| tag <<< 24⟩ = tag := Export.tag_mk hlt ho.tag_lt
        have hoffset : Export.offset ⟨name, offset ||| tag <<< 24⟩ = offset :=
          Export.offset_mk hlt ho.tag_lt
        refine ⟨⟨rfl, fun e he => ?_, ?_, fun e he => ?_⟩, hlt, _, by simp, rfl, htag, hoffset⟩
        · simp [he]
        · have hnotMem : ∀ e ∈ s.script.exports, e.name ≠ name := fun e he hname =>
            hnew (Array.any_eq_true'.2 ⟨e, he, decide_eq_true hname⟩)
          simp only [Array.toList_push, List.map_append, List.map_cons, List.map_nil]
          refine List.nodup_append.2 ⟨h.distinct, by simp, fun a ha b hb => ?_⟩
          obtain ⟨e, he, rfl⟩ := List.mem_map.1 ha
          obtain rfl := List.mem_singleton.1 hb
          exact hnotMem e (Array.mem_toList_iff.1 he)
        · rcases Array.mem_push.1 he with he | rfl
          · exact h.offered e he
          · rw [htag, hoffset]
            exact ho
  · simp at hrun

def FunctionIssued (f : FuncDef) (s : State) : Prop :=
  f.hasBody = true → ∀ start, f.codeOffset = some start →
    s.script.Publishes f.exportName exportFunction start.toUInt32

def RequestIssued (symbols : Symbols) (r : ExportRequest) (s : State) : Prop :=
  ∃ name tag offset, exported symbols r.name = .ok (name, tag, offset) ∧
    s.script.Publishes name tag offset

lemma FunctionIssued.mono {f : FuncDef} (h : FunctionIssued f s) (hs : Issues s s') :
    FunctionIssued f s' :=
  fun hbody start hstart => hs.publishes (h hbody start hstart)

lemma RequestIssued.mono (h : RequestIssued symbols r s)
    (hs : Issues s s') : RequestIssued symbols r s' := by
  obtain ⟨name, tag, offset, hexported, hpublishes⟩ := h
  exact ⟨name, tag, offset, hexported, hs.publishes hpublishes⟩

lemma issues_exportFunction {f : FuncDef} {id : FuncId} (hnamed : s.symbols.Named) (h : s.Issued)
    (hf : s.symbols.functions[id.index]? = some f)
    (hrun : Runs (do
      if f.hasBody then
        if let some offset := f.codeOffset then
          publish f.exportName exportFunction offset.toUInt32 f.sectionIndex f.line) c s u s') :
    Issues s s' ∧ FunctionIssued f s' := by
  rcases runs_ite.1 hrun with ⟨hbody, hrun⟩ | ⟨hbody, hrun⟩
  · split at hrun
    · next start hstart =>
      obtain ⟨hissues, hpublishes⟩ := issues_publish hnamed h (.function hf hbody hstart) hrun
      refine ⟨hissues, fun _ start' hstart' => ?_⟩
      obtain rfl := Option.some.inj (hstart.symm.trans hstart')
      exact hpublishes
    · next hnone =>
      obtain ⟨rfl, _⟩ := runs_pure.1 hrun
      exact ⟨.refl h, fun _ start hstart => absurd hstart (hnone start)⟩
  · obtain ⟨rfl, _⟩ := runs_pure.1 hrun
    exact ⟨.refl h, fun hbody' => absurd hbody' hbody⟩

lemma issues_exportFunctions (hnamed : s.symbols.Named) (h : s.Issued)
    (hrun : Runs exportFunctions c s u s') :
    Issues s s' ∧ ∀ f ∈ s.symbols.functions, FunctionIssued f s' := by
  simp only [exportFunctions, runs_bind, runs_getSymbols, exists_eq_left, and_assoc] at hrun
  rw [forM_eq_forM_toList] at hrun
  refine (runs_forM_each (P := Issues s) (Q := FunctionIssued) ?_ hrun (.refl h)).imp_right
    fun hall f hf => hall.1 f (Array.mem_toList_iff.2 hf)
  intro f t t' hf ht hrun
  obtain ⟨i, hi⟩ := Array.mem_iff_getElem?.1 (Array.mem_toList_iff.1 hf)
  have hsymbols := ht.symbols
  obtain ⟨hissues, hissued⟩ := @issues_exportFunction c t t' () f ⟨i⟩ (hsymbols ▸ hnamed)
    ht.issued (hsymbols ▸ hi) hrun
  exact ⟨ht.trans hissues, hissued, fun _ hg => hg.mono hissues⟩

lemma issues_exportRequested (hnamed : s.symbols.Named) (h : s.Issued)
    (hrun : Runs (exportRequested r) c s u s') :
    Issues s s' ∧ RequestIssued s.symbols r s' := by
  simp only [exportRequested, runs_bind, runs_getSymbols, exists_eq_left, and_assoc] at hrun
  split at hrun
  · next name tag offset hexported =>
    obtain ⟨hissues, hpublishes⟩ :=
      issues_publish hnamed h (provides_exported hnamed hexported) hrun
    exact ⟨hissues, name, tag, offset, hexported, hpublishes⟩
  · simp at hrun

lemma issues_exportRequests {requests : Array ExportRequest} (hnamed : s.symbols.Named)
    (h : s.Issued) (hrun : Runs (requests.forM exportRequested) c s u s') :
    Issues s s' ∧ ∀ r ∈ requests, RequestIssued s.symbols r s' := by
  rw [forM_eq_forM_toList] at hrun
  refine (runs_forM_each (P := Issues s) (Q := RequestIssued s.symbols) ?_ hrun (.refl h)).imp_right
    fun hall r hr => hall.1 r (Array.mem_toList_iff.2 hr)
  intro r t t' _ ht hrun
  have hsymbols := ht.symbols
  obtain ⟨hissues, hissued⟩ := issues_exportRequested (hsymbols ▸ hnamed) ht.issued hrun
  exact ⟨ht.trans hissues, hsymbols ▸ hissued, fun _ hr => hr.mono hissues⟩

lemma issues_finish (hnamed : s.symbols.Named) (h : s.Issued) (hrun : Runs finish c s u s') :
    Issues s s' ∧
      (c.options.exportAll = true → ∀ f ∈ s.symbols.functions, FunctionIssued f s') ∧
      ∀ r ∈ s.exportRequests, RequestIssued s.symbols r s' := by
  simp only [finish, runs_bind, runs_get, exists_eq_left, and_assoc] at hrun
  split at hrun
  · simp at hrun
  · simp only [runs_bind, runs_getOptions, exists_eq_left, and_assoc, runs_ite] at hrun
    rcases hrun with ⟨_, _, t, h1, h2⟩ | ⟨hall, h2⟩
    · obtain ⟨hissues, hfunctions⟩ := issues_exportFunctions hnamed h h1
      have hsymbols := hissues.symbols
      obtain ⟨hissues', hrequests⟩ := issues_exportRequests (hsymbols ▸ hnamed) hissues.issued h2
      exact ⟨hissues.trans hissues', fun _ f hf => (hfunctions f hf).mono hissues',
        hsymbols ▸ hrequests⟩
    · obtain ⟨hissues, hrequests⟩ := issues_exportRequests hnamed h h2
      exact ⟨hissues, fun hall' => absurd hall' hall, hrequests⟩

end Gen

/-! ## Export lists -/

/-- The list of names that starts at the token contains the name. -/
inductive Stream.Lists (tokens : Stream) : Nat → String → Prop where
  | head {i : Nat} (hname : (tokens.get i).kind = .identifier) :
      tokens.Lists i (tokens.get i).lexeme
  | tail {i : Nat} {name : String} (hname : (tokens.get i).kind = .identifier)
      (hcomma : (tokens.get (i + 1)).kind = .symbol .comma) (h : tokens.Lists (i + 2) name) :
      tokens.Lists i name

def State.Requests (s : State) (name : String) : Prop :=
  ∃ r ∈ s.exportRequests, r.name = name

namespace Gen

variable {q : Qualifiers}

lemma after_of_kind {i : Nat} {kind : Token.Kind} (h : (tokens.get i).kind = kind)
    (hne : kind ≠ .endOfInput) : tokens.after i = i + 1 := by
  rw [Stream.after, if_neg (h ▸ hne)]

section

variable (hk : (c.tokens.get s.pos).kind = .keyword .kwExport)
include hk

lemma requests_compileExport
    (hrun : Runs (compileExport q) c s u s') (hname : c.tokens.Lists (s.pos + 1) name) :
    s'.Requests name := by
  simp [compileExport, and_assoc] at hrun
  obtain ⟨_, t, h1, _, rfl⟩ := hrun
  rw [after_of_kind hk (by simp)] at h1
  change t.Requests name
  -- What is listed has been noted, or is listed from here on.
  refine runs_repeatWhile (P := fun t => t.Requests name ∨ c.tokens.Lists t.pos name)
    (Q := fun t => t.Requests name) ?again ?done h1 (Or.inr hname)
  case again =>
    intro t t' h hrun
    simp [and_assoc] at hrun
    obtain ⟨hident, hcomma, rfl⟩ := hrun
    rw [after_of_kind hident (by simp)] at hcomma
    rcases h with ⟨r, hr, hn⟩ | h
    · exact .inl ⟨r, Array.mem_push_of_mem _ hr, hn⟩
    · cases h with
      | head => exact .inl ⟨_, Array.mem_push_self, rfl⟩
      | tail _ _ h =>
        refine .inr ?_
        rw [after_of_kind hident (by simp), after_of_kind hcomma (by simp)]
        exact h
  case done =>
    intro t t' h hrun
    simp [and_assoc] at hrun
    obtain ⟨hident, hcomma, rfl⟩ := hrun
    rw [after_of_kind hident (by simp)] at hcomma
    rcases h with ⟨r, hr, hn⟩ | h
    · exact ⟨r, Array.mem_push_of_mem _ hr, hn⟩
    · cases h with
      | head => exact ⟨_, Array.mem_push_self, rfl⟩
      | tail _ hcomma' => exact absurd hcomma' hcomma

lemma qualifiers_export (hrun : Runs qualifiers c s q t) : t = s := by
  refine runs_rounds (P := fun _ t => t = s) (Q := fun _ t => t = s) ?again ?done hrun rfl
  case again =>
    rintro _ _ _ _ rfl hrun
    simp [hk, Keyword.isQualifier] at hrun
  case done =>
    rintro _ _ _ _ rfl hrun
    simp [hk, Keyword.isQualifier] at hrun
    exact hrun.1

lemma requests_compileDeclaration
    (hrun : Runs compileDeclaration c s u s') (hname : c.tokens.Lists (s.pos + 1) name) :
    s'.Requests name := by
  simp [compileDeclaration, and_assoc, hk] at hrun
  obtain ⟨q, t, h1, h2⟩ := hrun
  obtain rfl := qualifiers_export hk h1
  simp only [compileQualified, runs_bind, runs_checkWord, exists_eq_left, and_assoc,
    runs_ite, hk] at h2
  rcases h2 with ⟨hw, _⟩ | ⟨_, h2⟩
  · simp at hw
  split at h2
  · simp at h2
  split at h2
  · simp at h2
  simp [hk] at h2
  exact requests_compileExport hk h2 hname

end

lemma requests_declares (hc : c.tokens.Lexed) (h : Coherent c {} none s) (hrun : Declares c s s')
    (hk : (c.tokens.get s.pos).kind = .keyword .kwExport)
    (hend : (c.tokens.get s'.pos).kind = .endOfInput)
    (hname : c.tokens.Lists (s.pos + 1) name) : s'.Requests name := by
  cases hrun with
  | refl => simp [hk] at hend
  | @next _ t t' _ _ hsection hdeclaration hrest =>
    have ht := h.noteSection hsection
    have hpos : t.pos = s.pos := by
      simp [noteSection, and_assoc] at hsection
      rcases hsection with ⟨_, rfl⟩ | ⟨_, rfl⟩ <;> rfl
    obtain ⟨r, hr, hn⟩ := requests_compileDeclaration (hpos ▸ hk) hdeclaration (hpos ▸ hname)
    have ht' : Coherent c t'.agenda none t' :=
      { ht.compileDeclaration hc hdeclaration with kept := t'.kept_agenda }
    refine ⟨r, Array.mem_toList_iff.1 ?_, hn⟩
    exact (ht'.declares hc hrest).kept.requests.subset (Array.mem_toList_iff.2 hr)

end Gen

/-! ## Compiled scripts -/

structure State.Published (s : State) (c : Context) (code : List Instruction) : Prop where
  distinct : (s.script.exports.toList.map (·.name)).Nodup
  tags : ∀ e ∈ s.script.exports, e.tag = exportFunction ∨ e.tag = exportData
  functions : ∀ e ∈ s.script.exports, e.tag = exportFunction →
    ∃ f ∈ s.symbols.functions, f.hasBody = true ∧ e.name = s!"{f.name}${f.params.length}" ∧
      ∃ b ∈ s.bodies, s.symbols.functions[b.function.index]? = some f ∧
        ⟨b.start, .thisBase, [Int32.ofNat b.start]⟩ ∈ code ∧ e.offset = b.start.toUInt32 ∧
        (s.script.size ≤ 2 ^ 32 → e.offset.toNat = b.start)
  data : ∀ e ∈ s.script.exports, e.tag = exportData →
    ∃ v ∈ s.symbols.globals, v.isImport = false ∧ e.name = v.name ∧ e.offset = v.offset ∧
      Gen.InData s.symbols.types s.script v
  all : c.options.exportAll = true → ∀ f ∈ s.symbols.functions, f.hasBody = true →
    ∃ e ∈ s.script.exports, e.tag = exportFunction ∧ e.name = s!"{f.name}${f.params.length}"
  listed : ∀ t, Gen.Declares c {} t → (c.tokens.get t.pos).kind = .keyword .kwExport →
    ∀ name, c.tokens.Lists (t.pos + 1) name → ∃ e ∈ s.script.exports,
      (∃ f ∈ s.symbols.functions, f.name = name ∧ f.hasBody = true ∧ e.tag = exportFunction ∧
        e.name = s!"{f.name}${f.params.length}") ∨
      (∃ v ∈ s.symbols.globals, v.name = name ∧ v.isImport = false ∧ e.tag = exportData ∧
        e.name = name)

/-- What is to be published in the end, with its tag and its offset. -/
inductive State.Exporting (s : State) (options : Options) : String → UInt32 → UInt32 → Prop where
  | all {f : FuncDef} {start : Nat} (hall : options.exportAll = true)
      (hf : f ∈ s.symbols.functions) (hbody : f.hasBody = true)
      (hstart : f.codeOffset = some start) :
      s.Exporting options f.exportName exportFunction start.toUInt32
  | listed {r : ExportRequest} {name : String} {tag offset : UInt32} (hr : r ∈ s.exportRequests)
      (hname : Gen.exported s.symbols r.name = .ok (name, tag, offset)) :
      s.Exporting options name tag offset

namespace Gen

lemma issued_of_coherent (h : Coherent c {} none s) : s.Issued := by
  have hempty := h.kept.exports
  constructor
  · simp [hempty]
  · simp [hempty]

lemma RequestIssued.entry (h : RequestIssued symbols r s)
    (hnamed : symbols.Named) : ∃ e ∈ s.script.exports,
      (∃ f ∈ symbols.functions, f.name = r.name ∧ f.hasBody = true ∧ e.tag = exportFunction ∧
        e.name = f.exportName) ∨
      (∃ v ∈ symbols.globals, v.name = r.name ∧ v.isImport = false ∧ e.tag = exportData ∧
        e.name = r.name) := by
  obtain ⟨n, tag, offset, hexported, _, e, he, hname, htag, _⟩ := h
  refine ⟨e, he, ?_⟩
  unfold exported at hexported
  split at hexported
  · next id hfind =>
    obtain ⟨g, hg, hn⟩ := (hnamed.found hfind).2
    rw [hg] at hexported
    dsimp only at hexported
    split at hexported
    · next start hbody hstart =>
      cases hexported
      exact .inl ⟨g, Array.mem_of_getElem? hg, hn, hbody, htag, hname⟩
    · cases hexported
  · next id hfind =>
    obtain ⟨v, hv, hn⟩ := (hnamed.found hfind).2
    rw [hv] at hexported
    dsimp only at hexported
    split at hexported
    · cases hexported
    · next himport =>
      cases hexported
      exact .inr ⟨v, Array.mem_of_getElem? hv, hn, by simpa using himport, htag, hname⟩
  · cases hexported
  · cases hexported

lemma Complete.published {code : List Instruction} (h : Complete c s) (hordered : s.Ordered code)
    (hissues : Issues t s) (hnamed : t.symbols.Named)
    (hall : c.options.exportAll = true → ∀ f ∈ t.symbols.functions, FunctionIssued f s)
    (hlisted : ∀ t', Declares c {} t' → (c.tokens.get t'.pos).kind = .keyword .kwExport →
      ∀ name, c.tokens.Lists (t'.pos + 1) name → ∃ r, r.name = name ∧ RequestIssued t.symbols r s) :
    s.Published c code where
  distinct := hissues.issued.distinct
  tags e he := by
    have hoffer := hissues.issued.offered e he
    generalize e.name = n, e.tag = tag, e.offset = offset at hoffer
    cases hoffer with
    | function => exact .inl rfl
    | data => exact .inr rfl
  functions e he htag := by
    obtain ⟨f, hf, start, hbody, hstart, hname, hoffset⟩ :=
      (htag ▸ hissues.issued.offered e he).eq_function
    obtain ⟨b, hb, hbf, hbs⟩ := hordered.functions f hf hbody
    obtain rfl := Option.some.inj (hstart.symm.trans hbs)
    refine ⟨f, hf, hbody, hname, b, hb, hbf, hordered.starts b hb, hoffset, fun hsize => ?_⟩
    have hlt := hordered.tiles.start_lt (Array.mem_toList_iff.2 hb)
    rw [hoffset, Nat.toUInt32, UInt32.toNat_ofNat_of_lt' (lt_of_lt_of_le hlt hsize)]
  data e he htag := by
    obtain ⟨v, hv, himport, hname, hoffset⟩ := (htag ▸ hissues.issued.offered e he).eq_data
    exact ⟨v, hv, himport, hname, hoffset, h.data v hv himport⟩
  all hexport f hf hbody := by
    obtain ⟨b, _, _, hstart⟩ := hordered.functions f hf hbody
    rw [hissues.symbols] at hf
    obtain ⟨_, e, he, hname, htag, _⟩ := hall hexport f hf hbody b.start hstart
    exact ⟨e, he, htag, hname⟩
  listed t' ht' hk name hname := by
    obtain ⟨r, rfl, hr⟩ := hlisted t' ht' hk name hname
    have := hr.entry hnamed
    rw [hissues.symbols]
    exact this

end Gen

lemma Gen.exporting_lt (ht : Coherent c {} none t) (hfinish : Runs finish c t u s)
    (h : t.Exporting c.options name tag offset) : offset < exportLimit := by
  obtain ⟨_, hall, hrequests⟩ := issues_finish ht.named (issued_of_coherent ht) hfinish
  cases h with
  | all hexport hf hbody hstart => exact (hall hexport _ hf hbody _ hstart).1
  | listed hr hname =>
    obtain ⟨_, _, _, hname', hlt, _⟩ := hrequests _ hr
    rw [hname] at hname'
    cases hname'
    exact hlt

lemma Compiles.declared (h : Compiles source options tokens s) :
    ∃ t, Gen.Coherent ⟨tokens, options⟩ {} none t ∧
      Gen.Runs Gen.compileDeclarations ⟨tokens, options⟩ {} () t ∧
      Gen.Runs Gen.finish ⟨tokens, options⟩ t () s := by
  obtain ⟨t, hdeclarations, hfinish⟩ := Gen.runs_seq.1 h.run
  exact ⟨t, .compileDeclarations (Scan.lexed_tokens h.scanned) hdeclarations, hdeclarations, hfinish⟩

lemma Compiles.exports (h : Compiles source options tokens s) :
    ∃ code, decode 0 s.script.code.toList = some code ∧
      s.Published ⟨tokens, options⟩ code := by
  obtain ⟨F, hF, hassembled⟩ := h.complete.code
  obtain ⟨t, ht, hdeclarations, hfinish⟩ := h.declared
  obtain ⟨hissues, hall, hrequests⟩ := Gen.issues_finish ht.named (Gen.issued_of_coherent ht) hfinish
  obtain ⟨hdeclares, hend⟩ := Gen.declares_compileDeclarations hdeclarations
  refine ⟨_, hF.decode_eq, h.complete.published (h.complete.ordered hF hassembled) hissues ht.named
    hall fun t' ht' hk name hname => ?_⟩
  have hlexed := Scan.lexed_tokens h.scanned
  obtain ⟨r, hr, hn⟩ := Gen.requests_declares hlexed (Gen.Coherent.initial.declares hlexed ht')
    (ht'.rest hdeclares hend) hk hend hname
  exact ⟨r, hn, hrequests r hr⟩

/-- The names of a compiled script resolve. A program that would have to publish an offset which
does not fit beside a tag is not compiled. -/
theorem compile_published :
    (∀ script, (compile source options).result = .ok script →
      ∃ tokens s code, Compiles source options tokens s ∧ s.script = script ∧
        decode 0 script.code.toList = some code ∧ s.Published ⟨tokens, options⟩ code) ∧
    (∀ tokens s, Scan.tokens source = .ok tokens →
      Gen.Runs Gen.compileDeclarations ⟨tokens, options⟩ {} () s →
      ∀ name tag offset, s.Exporting options name tag offset → exportLimit ≤ offset →
        ∃ error, (compile source options).result = .error error) := by
  constructor
  · intro script h
    obtain ⟨tokens, s, hs, rfl⟩ := compile_eq_ok_iff.1 h
    obtain ⟨code, hcode, hpublished⟩ := hs.exports
    exact ⟨tokens, s, code, hs, rfl, hcode, hpublished⟩
  · intro tokens s hscanned hrun name tag offset hexporting hlimit
    cases hresult : (compile source options).result with
    | error e => exact ⟨e, rfl⟩
    | ok script =>
      obtain ⟨tokens', s', hs', rfl⟩ := compile_eq_ok_iff.1 hresult
      obtain rfl := Except.ok.inj (hscanned.symm.trans hs'.scanned)
      obtain ⟨t, ht, hdeclarations, hfinish⟩ := hs'.declared
      obtain ⟨_, rfl⟩ := hdeclarations.unique hrun
      exact absurd hlimit (UInt32.not_le.2 (Gen.exporting_lt ht hfinish hexporting))

theorem compile_published_list :
    let source := "export v, f; int v; int g() \x7b return 1; \x7d int f(int n) \x7b return n + v; \x7d"
    ∃ script tokens s code, (compile source {}).result = .ok script ∧
      Compiles source {} tokens s ∧ s.script = script ∧
      decode 0 script.code.toList = some code ∧
      ((tokens.get 0).kind = .keyword .kwExport ∧ tokens.Lists 1 "f") ∧
      script.exports.toList.map (fun e => (e.name, e.tag, e.offset)) =
        [("v", exportData, 0), ("f$1", exportFunction, 6)] ∧ s.Published ⟨tokens, {}⟩ code := by
  intro source
  have hrun : (compiled? source {}).any (fun x =>
      x.2.script.exports.toList.map (fun e => (e.name, e.tag, e.offset)) =
        [("v", exportData, 0), ("f$1", exportFunction, 6)] ∧
      (x.1.get 0).kind = .keyword .kwExport ∧ (x.1.get 1).kind = .identifier ∧
      (x.1.get 2).kind = .symbol .comma ∧ (x.1.get 3).kind = .identifier ∧
      (x.1.get 3).lexeme = "f") = true := by decide +kernel
  obtain ⟨script, h⟩ := exists_script_of_any hrun
  obtain ⟨tokens, s, code, hs, rfl, hcode, hpublished⟩ := compile_published.1 script h
  obtain ⟨hexports, hk, hfirst, hcomma, hsecond, hname⟩ := of_decide_eq_true (hs.of_any hrun)
  refine ⟨s.script, tokens, s, code, h, hs, rfl, hcode, ⟨hk, .tail hfirst hcomma ?_⟩, hexports,
    hpublished⟩
  rw [← hname]
  exact .head hsecond

end AdventureScript
