import AdventureScript.Proofs.Expression.Basic
import AdventureScript.Proofs.Program.Body
import AdventureScript.Proofs.Symbols.Names

/-!
What holds between the declarations of a program.
-/
namespace AdventureScript

open Assembly

structure Stream.Lexed (tokens : Stream) : Prop where
  ends : tokens.Sealed
  plain : ∀ i, (tokens.get i).kind = .identifier → PlainName (tokens.get i).lexeme

inductive Assembled (tokens : Stream) (uses : List (Mark Int32)) :
    List Body → List Node → Prop where
  | nil : Assembled tokens uses [] []
  | concat {bodies F b G} (h : Assembled tokens uses bodies F) (hstart : b.start = width F)
      (hb : b.Piece tokens uses G) : Assembled tokens uses (bodies ++ [b]) (F ++ G)

namespace Assembled

variable {tokens : Stream} {uses more : List (Mark Int32)} {bodies : List Body} {F : List Node}
  {b : Body} {f : Nat → Int32 → Int32}

lemma relit (h : Assembled tokens uses bodies F) :
    Assembled tokens uses bodies (relit f 0 F) := by
  induction h with
  | nil => exact .nil
  | concat _ hstart hb ih =>
    rw [Assembly.relit, relabel_append, Nat.zero_add, ← hstart]
    exact .concat ih (by rw [width_relabel, hstart]) hb.relit

lemma grow (h : Assembled tokens uses bodies F) (hmore : ∀ u ∈ more, width F ≤ u.position) :
    Assembled tokens (uses ++ more) bodies F := by
  induction h with
  | nil => exact .nil
  | concat _ hstart hb ih =>
    refine .concat (ih fun u hu => ?_) hstart (hb.grow fun u hu => ?_)
    · have := hmore u hu
      rw [width_append] at this
      omega
    · have := hmore u hu
      rw [width_append] at this
      rw [hb.stop_eq, hstart]
      exact this

lemma mem (h : Assembled tokens uses bodies F) (hb : b ∈ bodies) :
    ∃ A G B, F = A ++ G ++ B ∧ b.start = width A ∧ b.Piece tokens uses G := by
  induction h with
  | nil => cases hb
  | @concat bodies F b' G h hstart hpiece ih =>
    rcases List.mem_append.1 hb with hb | hb
    · obtain ⟨A, H, B, rfl, hA, hH⟩ := ih hb
      exact ⟨A, H, B ++ G, by simp, hA, hH⟩
    · obtain rfl := List.mem_singleton.1 hb
      exact ⟨F, G, [], by simp, hstart, hpiece⟩

end Assembled

structure Agenda where
  published : Array Export := #[]
  requests : List ExportRequest := []

def State.agenda (s : State) : Agenda :=
  ⟨s.script.exports, s.exportRequests.toList⟩

structure Agenda.Kept (due : Agenda) (s : State) : Prop where
  exports : s.script.exports = due.published
  requests : due.requests <+: s.exportRequests.toList

lemma State.kept_agenda (s : State) : s.agenda.Kept s :=
  ⟨rfl, List.prefix_refl _⟩

lemma Agenda.Kept.request {due : Agenda} {s : State} (h : due.Kept s) (r : ExportRequest) :
    due.Kept { s with exportRequests := s.exportRequests.push r } where
  exports := h.exports
  requests := by
    rw [Array.toList_push]
    exact h.requests.trans (List.prefix_append _ _)

namespace Gen

variable {c : Context} {due due' : Agenda} {open? open?' : Option TypeId} {s s' : State}
  {F : List Node} {u : Unit}
  {symbols : Symbols} {id : FuncId} {f : FuncDef}

def Fills (value : Constant) (size : Nat) (bytes : List UInt8) : Prop :=
  size ≤ 4 ∧ bytes = littleEndian size value.toWord

/-- The variable lies within the global data, which holds the value that it is known to have. -/
def InData (types : TypeTable) (script : Script) (v : GlobalVar) : Prop :=
  ∃ n, v.offset = UInt32.ofNat n ∧ n + (v.ty.size types).toNat ≤ script.globalData.size ∧
    ∀ value, v.value? = some value → Fills value (v.ty.size types).toNat
      ((script.globalData.toList.drop n).take (v.ty.size types).toNat)

lemma InData.append {types : TypeTable} {script script' : Script} {v : GlobalVar}
    (h : InData types script v) (hdata : script.globalData.toList <+: script'.globalData.toList) :
    InData types script' v := by
  obtain ⟨n, hn, hle, hvalue⟩ := h
  obtain ⟨more, hmore⟩ := hdata
  rw [← Array.length_toList] at hle
  refine ⟨n, hn, ?_, fun value hv => ?_⟩
  · rw [← Array.length_toList, ← hmore, List.length_append]
    omega
  · rw [← hmore, List.drop_append_of_le_length (by omega),
      List.take_append_of_le_length (by rw [List.length_drop]; omega)]
    exact hvalue value hv

/-- What holds between declarations, and within the body of a struct for that one. -/
structure Coherent (c : Context) (due : Agenda) (open? : Option TypeId) (s : State) : Prop where
  named : s.symbols.Named
  known : Known c s.symbols
  types : s.symbols.types.Sound open?
  stored : s.symbols.Stored
  data : ∀ v ∈ s.symbols.globals, v.isImport = false → InData s.symbols.types s.script v
  code : ∃ F, Holds c s F ∧
    Assembled c.tokens s.localUses.entries.toList s.bodies.toList F
  hasBody : ∀ {id : FuncId} {f}, s.symbols.functions[id.index]? = some f →
    f.hasBody = f.codeOffset.isSome
  started : ∀ {id : FuncId} {f o}, s.symbols.functions[id.index]? = some f →
    f.codeOffset = some o → ∃ b ∈ s.bodies, b.function = id ∧ b.start = o
  bodies : ∀ b ∈ s.bodies, ∃ f, s.symbols.functions[b.function.index]? = some f ∧
    f.codeOffset = some b.start
  imports : ∀ name ∈ s.script.imports, s.symbols.Imports name
  used : ∀ e, s.script.Has e →
    ∃ m ∈ s.references.entries.toList, m.value.needs? s.symbols = some e
  lent : c.options.noImportOverride = true → ∀ name ∈ s.symbols.imported, s.symbols.Lent name
  kept : due.Kept s

lemma Holds.stay (h : Holds c s F) (hcode : s'.script.code = s.script.code)
    (hlast : ∀ {p}, s'.script.lastOp = some p → p < s.script.size)
    (hfixups : s'.script.fixups = s.script.fixups) (hlines : s'.script.lines = s.script.lines)
    (htables : s'.script.Orderly)
    (hreferences : s'.references = s.references) (hcalls : s'.calls = s.calls)
    (huses : s'.localUses = s.localUses)
    (hwaiting : ∀ {m : Mark Reference}, m.waiting? s'.symbols = m.waiting? s.symbols)
    (hmeans : ∀ {reference : Reference} {r w}, reference.Means c s.symbols s.script r w →
      reference.Means c s'.symbols s'.script r w) : Holds c s' F := by
  have hsize : s'.script.size = s.script.size := by rw [Script.size, hcode, Script.size]
  exact {
    code := by rw [hcode, h.code]
    wellFormed := h.wellFormed
    references := fun hm => (h.references (hreferences ▸ hm)).imp hmeans
    called := hreferences ▸ h.called
    lines := hlines ▸ h.lines
    tidy := {
      lastOp := fun hp => hsize ▸ hlast hp
      sorted := hreferences ▸ h.tidy.sorted
      references_lt := fun hm => hsize ▸ h.tidy.references_lt (hreferences ▸ hm)
      fixups := by rw [hfixups, h.tidy.fixups, hreferences]
      calls := by
        rw [hcalls, h.tidy.calls, hreferences]
        exact List.filterMap_congr fun m _ => hwaiting.symm
      uses_lt := fun hu => hsize ▸ h.tidy.uses_lt (huses ▸ hu)
      tables := htables } }

section

variable (h : Coherent c due open? s)
include h

lemma Coherent.tidy : Tidy s := by
  obtain ⟨F, hF, _⟩ := h.code
  exact hF.tidy

lemma Coherent.ready (hc : c.tokens.Sealed) : Ready False c 0 s :=
  ⟨hc, h.known, h.tidy, False.elim⟩

lemma Coherent.outer (pos : Nat) (jumpTarget : Option Nat)
    (sectionIndex? : Option UInt16) (exportRequests : Array ExportRequest) (exports : Array Export)
    (sections : Array SectionStart) (hkept : due'.Kept { s with
      exportRequests, script := { s.script with exports } }) :
    Coherent c due' open? { s with
      pos, jumpTarget, sectionIndex?, exportRequests
      script := { s.script with exports, sections } } :=
  { h with
    code := by
      obtain ⟨F, hF, hassembled⟩ := h.code
      exact ⟨F, hF.stay rfl hF.tidy.lastOp rfl rfl
        (hF.tidy.tables.grow le_rfl rfl rfl rfl) rfl rfl rfl rfl fun hm => hm.grow .refl
        (List.prefix_refl _), hassembled⟩
    used := fun e he => h.used e (he.congr rfl rfl)
    kept := ⟨hkept.exports, hkept.requests⟩ }

lemma Coherent.passes (hp : Passes s s') : Coherent c due open? s' := by
  obtain ⟨pos, jumpTarget, rfl⟩ := hp
  exact h.outer pos jumpTarget s.sectionIndex? s.exportRequests s.script.exports s.script.sections
    ⟨h.kept.exports, h.kept.requests⟩

variable (hg : s.symbols.Grows symbols) (hnamed : symbols.Named)
  (htypes : symbols.types.Sound open?')
  (hparams : ∀ {f p bytes}, f ∈ symbols.functions → p ∈ f.params →
    p.default? = some (.string bytes) →
    (∃ f ∈ s.symbols.functions, ∃ p ∈ f.params, p.default? = some (.string bytes)) ∨
      c.tokens.HasText bytes)
include hg hnamed htypes hparams

lemma Coherent.declare {globalData : Array UInt8}
    (hdata : s.script.globalData.toList <+: globalData.toList)
    (hnew : ∀ v ∈ symbols.globals, v.isImport = false → v ∈ s.symbols.globals ∨
      (v.ty.Complete symbols.types ∧ InData symbols.types { s.script with globalData } v))
    (hkeep : ∀ {name m}, name ∈ s.script.imports ∨
        (c.options.noImportOverride = true ∧ name ∈ s.symbols.imported) →
      s.symbols.find? name = some m → symbols.find? name = some m)
    (hlent : ∀ name ∈ symbols.imported, name ∈ s.symbols.imported ∨ symbols.Lent name) :
    Coherent c due open?' { s with symbols, script := { s.script with globalData } } where
  named := hnamed
  known := by
    refine ⟨fun hf hp ht => ?_, fun hm => (hnamed.found hm).2⟩
    rcases hparams hf hp ht with ⟨f, hf, p, hp, ht⟩ | ht
    · exact h.known.texts hf hp ht
    · exact ht
  types := htypes
  stored v hv hi := by
    rcases hnew v hv hi with hv | ⟨hcomplete, _⟩
    · exact hg.types.complete (h.stored v hv hi)
    · exact hcomplete
  data v hv hi := by
    rcases hnew v hv hi with hv | ⟨_, hin⟩
    · rw [InData, hg.types.size (h.stored v hv hi)]
      exact (h.data v hv hi).append hdata
    · exact hin
  code := by
    obtain ⟨F, hF, hassembled⟩ := h.code
    refine ⟨F, hF.stay rfl hF.tidy.lastOp rfl rfl (hF.tidy.tables.grow le_rfl rfl rfl rfl)
      rfl rfl rfl (Mark.waiting?_declare hg) fun hm => ?_, hassembled⟩
    exact (hm.declare hg h.types h.stored).grow .refl (List.prefix_refl _)
  hasBody {id f'} hf' := by
    cases hf : s.symbols.functions[id.index]? with
    | none =>
      obtain ⟨hoffset, hbody⟩ := hg.fresh hf hf'
      simp [hoffset, hbody]
    | some f =>
      obtain ⟨f'', hf'', hs⟩ := hg.functions hf
      obtain rfl := Option.some.inj (hf'.symm.trans hf'')
      rw [hs.hasBody, hs.codeOffset, h.hasBody hf]
  started {id f' o} hf' ho := by
    cases hf : s.symbols.functions[id.index]? with
    | none => simp [(hg.fresh hf hf').1] at ho
    | some f =>
      obtain ⟨f'', hf'', hs⟩ := hg.functions hf
      obtain rfl := Option.some.inj (hf'.symm.trans hf'')
      exact h.started hf (hs.codeOffset ▸ ho)
  bodies b hb := by
    obtain ⟨f, hf, ho⟩ := h.bodies b hb
    obtain ⟨f', hf', hs⟩ := hg.functions hf
    exact ⟨f', hf', hs.codeOffset.trans ho⟩
  imports name hname := (h.imports name hname).grow hg (hkeep (.inl hname))
  used e he := by
    obtain ⟨m, hm, hentry⟩ := h.used e (he.congr rfl rfl)
    exact ⟨m, hm, Reference.needs?_grows hg hentry⟩
  lent ho name hname := by
    rcases hlent name hname with hname | hl
    · exact (h.lent ho name hname).grow hg (hkeep (.inr ⟨ho, hname⟩))
    · exact hl
  kept := ⟨h.kept.exports, h.kept.requests⟩

lemma Coherent.declare_symbols
    (hnew : ∀ v ∈ symbols.globals, v.isImport = false → v ∈ s.symbols.globals)
    (hkeep : ∀ {name m}, s.symbols.find? name = some m → symbols.find? name = some m)
    (hlent : ∀ name ∈ symbols.imported, name ∈ s.symbols.imported ∨ symbols.Lent name) :
    Coherent c due open?' { s with symbols } :=
  @Coherent.declare c due open? open?' s symbols h hg hnamed htypes hparams s.script.globalData
    (List.prefix_refl _) (fun v hv hi => .inl (hnew v hv hi)) (fun _ => hkeep) hlent

end

/-! ## Bodies -/

lemma findImport?_eq_none {script : Script} {name : String} :
    script.findImport? name = none ↔ name ∉ script.imports := by
  simp only [Script.findImport?, Array.findIdx?_eq_none_iff, decide_eq_false_iff_not]
  exact ⟨fun h hm => h name hm rfl, fun h x hx he => h (he ▸ hx)⟩

structure Definable (c : Context) (s : State) (f : FuncDef) : Prop where
  hasBody : f.hasBody = false
  unused : f.isImport = true → f.importName ∉ s.script.imports
  overridable : f.isImport = true → c.options.noImportOverride = false

lemma Definable.importName (hd : Definable c s f) (h : Coherent c due open? s)
    (hf : s.symbols.functions[id.index]? = some f) : f.importName ∉ s.script.imports := by
  intro hmem
  cases himport : f.isImport with
  | true => exact hd.unused himport hmem
  | false =>
    exact h.named.not_imports_function hf (by simp [FuncDef.isExternal, himport])
      (h.imports _ hmem)

lemma Definable.name (hd : Definable c s f) (h : Coherent c due open? s)
    (hf : s.symbols.functions[id.index]? = some f) (ho : c.options.noImportOverride = true) :
    f.name ∉ s.symbols.imported := by
  intro hmem
  cases himport : f.isImport with
  | true => simp [hd.overridable himport] at ho
  | false =>
    exact h.named.not_lent_function hf (by simp [FuncDef.isExternal, himport]) (h.lent ho _ hmem)

section

variable {address : Nat} {name : String}

lemma getElem?_started {id' : FuncId} (h : id ≠ id') :
    (started symbols id address).functions[id'.index]? = symbols.functions[id'.index]? := by
  rw [started, Symbols.getElem?_modifyFunction, if_neg h]

lemma getElem?_started_self (h : symbols.functions[id.index]? = some f) :
    (started symbols id address).functions[id.index]? =
      some { f with hasBody := true, isImport := false, codeOffset := some address } := by
  rw [started, Symbols.getElem?_modifyFunction, if_pos rfl, h]
  rfl

lemma imports_started (hf : symbols.functions[id.index]? = some f) (h : symbols.Imports name)
    (hne : f.importName ≠ name) : (started symbols id address).Imports name := by
  rcases h with ⟨g, hg, he, hn⟩ | h
  · obtain ⟨j, hj⟩ := Array.mem_iff_getElem?.1 hg
    refine .inl ⟨g, Array.mem_of_getElem? (i := j) ?_, he, hn⟩
    rw [show j = (FuncId.mk j).index from rfl, getElem?_started, hj]
    rintro rfl
    obtain rfl := Option.some.inj (hf.symm.trans hj)
    exact hne hn
  · exact .inr h

lemma needs?_started {reference : Reference} :
    reference.needs? (started symbols id address) = reference.needs? symbols := by
  cases reference with
  | external id' =>
    simp only [Reference.needs?, started, Symbols.getElem?_modifyFunction]
    split
    · simp [Function.comp_def]
      rfl
    · rfl
  | _ => rfl

lemma lent_started (hnamed : symbols.Named) (hf : symbols.functions[id.index]? = some f)
    (h : symbols.Lent name) (hne : f.name ≠ name) : (started symbols id address).Lent name := by
  obtain ⟨m, hm, hlent⟩ := h
  refine ⟨m, hm, ?_⟩
  cases m with
  | function id' =>
    obtain ⟨g, hg, he⟩ := hlent
    refine ⟨g, ?_, he⟩
    rw [getElem?_started, hg]
    rintro rfl
    obtain ⟨g', hg', hn⟩ := (hnamed.found hm).2
    obtain rfl := Option.some.inj (hf.symm.trans hg')
    exact hne hn
  | _ => exact hlent

end

lemma Coherent.compileBody (hc : c.tokens.Lexed) (h : Coherent c due none s)
    (hf : s.symbols.functions[id.index]? = some f) (hd : Definable c s f)
    (hrun : Runs (compileBody id) c s u s') : Coherent c due none s' := by
  obtain ⟨F, hF, hassembled⟩ := h.code
  have hnone : f.codeOffset = none := by
    have := h.hasBody hf
    simpa [hd.hasBody] using this.symm
  obtain ⟨b, G, hbodies, hfunction, hstart, hpiece, hw, hspent, _⟩ :=
    piece_compileBody hc.ends h.known hF hf hnone hrun
  obtain ⟨code, hscript, _⟩ := @script_atStart s id
  have hsymbols : s'.symbols = Gen.started s.symbols id s.script.size := hw.stocks.symbols
  have hdata : s'.script.globalData = s.script.globalData := by
    rw [hw.stocks.globalData, hscript]
  have himports : Grown (Gen.started s.symbols id s.script.size).Imports s.script.imports.toList
      s'.script.imports.toList := by
    have := hw.stocks.imports
    rw [hscript] at this
    exact this
  have hself := @getElem?_started_self s.symbols id f s.script.size hf
  exact {
    named := hsymbols ▸ h.named.modifyFunction fun _ => rfl
    known := hsymbols ▸ h.known.start
    types := hsymbols ▸ h.types
    stored := hsymbols ▸ h.stored
    data := fun v hv hi => by
      rw [hsymbols] at hv ⊢
      rw [InData, hdata]
      exact h.data v hv hi
    code := by
      have hall := (hF.start hf hnone).write hw
      obtain ⟨more, hmore, hlocal⟩ := hw.uses
      refine ⟨_, hall, ?_⟩
      rw [hbodies, Array.toList_push]
      refine .concat ?_ (by rw [hstart, width_relabel, hF.size_eq]) hpiece
      rw [hmore]
      refine hassembled.relit.grow fun u hu => ?_
      have := (hlocal u hu).bounds
      rw [(hF.start hf hnone).size_eq] at this
      exact this.1
    hasBody := fun {id' f'} hf' => by
      rw [hsymbols] at hf'
      by_cases he : id = id'
      · subst he
        rw [hself] at hf'
        cases hf'
        rfl
      · rw [getElem?_started he] at hf'
        exact h.hasBody hf'
    started := fun {id' f' o} hf' ho => by
      rw [hsymbols] at hf'
      rw [hbodies]
      by_cases he : id = id'
      · subst he
        rw [hself] at hf'
        cases hf'
        cases ho
        exact ⟨b, by simp, hfunction, hstart⟩
      · rw [getElem?_started he] at hf'
        obtain ⟨b', hb', hrest⟩ := h.started hf' ho
        exact ⟨b', by simp [hb'], hrest⟩
    bodies := fun b' hb' => by
      rw [hbodies] at hb'
      rw [hsymbols]
      rcases Array.mem_push.1 hb' with hb' | rfl
      · obtain ⟨f', hf', ho⟩ := h.bodies b' hb'
        refine ⟨f', ?_, ho⟩
        rw [getElem?_started, hf']
        rintro rfl
        obtain rfl := Option.some.inj (hf.symm.trans hf')
        simp [hnone] at ho
      · exact ⟨_, by rw [hfunction, hself], by rw [hstart]⟩
    imports := fun name hname => by
      rw [hsymbols]
      rcases himports.mem (Array.mem_toList_iff.2 hname) with hname | hname
      · have hname := Array.mem_toList_iff.1 hname
        refine imports_started hf (h.imports name hname) ?_
        rintro rfl
        exact hd.importName h hf hname
      · exact hname
    used := fun e he => by
      rw [hsymbols]
      rcases hspent e he with he | ⟨reference, hentry, hused⟩
      · obtain ⟨m, hm, hentry⟩ := h.used e (he.congr (by rw [hscript]) (by rw [hscript]))
        exact ⟨m, hw.references.subset hm, needs?_started.trans hentry⟩
      · obtain ⟨m, hm, _, rfl⟩ := hused.resolve_left False.elim
        exact ⟨m, hm, hentry⟩
    lent := fun ho name hname => by
      rw [hsymbols] at hname ⊢
      refine lent_started h.named hf (h.lent ho name hname) ?_
      rintro rfl
      exact hd.name h hf ho hname
    kept := by
      have hexports := hw.stocks.exports
      rw [hscript] at hexports
      exact ⟨hexports.trans h.kept.exports, hw.stocks.requests ▸ h.kept.requests⟩ }

end Gen
end AdventureScript
