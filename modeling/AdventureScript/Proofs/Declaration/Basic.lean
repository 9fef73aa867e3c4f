import AdventureScript.Proofs.Declaration.Struct

/-!
Every declaration keeps a program coherent.
-/
namespace AdventureScript.Gen
open Assembly

variable {c : Context} {due : Agenda} {s s' t : State} {u : Unit} {q : Qualifiers}

section

variable (hc : c.tokens.Lexed) (h : Coherent c due none s)
include hc h

lemma Coherent.compileTyped
    (hrun : Runs (Gen.compileTyped q) c s u s') : Coherent c due none s' := by
  simp only [Gen.compileTyped, runs_bind] at hrun
  obtain ⟨base, t, h1, closed, t', h2, hrun⟩ := hrun
  have hpass := passes_parseType hc.ends h1
  have declared {t t1 t2 : State} {ty : Ty} (h : Coherent c due none t)
      (hf : base.Found t.symbols.types) (hk : (c.tokens.get t.pos).kind = .identifier)
      (h1 : Runs (arraySuffix base (some (c.tokens.get t.pos).lexeme)) c
        { t with pos := c.tokens.after t.pos } ty t1)
      (h2 : Runs (Gen.declareGlobal q ty (c.tokens.get t.pos).lexeme) c t1 () t2) :
      Coherent c due none t2 ∧ t2.symbols.types = t.symbols.types := by
    obtain ⟨_, hsuffix, hbase, _⟩ := parses_arraySuffix
      ((Passes.refl.skip _).ready (h.ready hc.ends)) h1
    have hpass := (Passes.refl.skip _).trans hsuffix
    have hf' := hf.of_base hbase
    rw [← hpass.symbols_eq] at hf' ⊢
    exact (h.passes hpass).declareGlobal hc.ends hf' (hc.plain _ hk) h2
  have hend : Coherent c due none t' := by
    refine runs_rounds (P := fun _ t => Coherent c due none t ∧ base.Found t.symbols.types)
      (Q := fun _ t => Coherent c due none t) ?again ?done h2
      ⟨h.passes hpass, hpass.symbols_eq ▸ (shape_parseType h.named h1).1⟩
    case again =>
      rintro _ _ t t' ⟨h, hf⟩ hrun
      simp [and_assoc] at hrun
      obtain ⟨hk, _, _, _, ty, t1, h1, t2, h2, _, rfl⟩ := hrun
      obtain ⟨h', htypes⟩ := declared h hf hk h1 h2
      exact ⟨h'.passes (Passes.refl.skip _), htypes ▸ hf⟩
    case done =>
      rintro _ _ t t' ⟨h, hf⟩ hrun
      simp [and_assoc] at hrun
      obtain ⟨hk, hrun⟩ := hrun
      rcases hrun with ⟨_, ⟨_, ⟨_, h1⟩, _⟩ | ⟨_, _, ty, t1, h1, h2, _⟩⟩ |
        ⟨_, hk', struct, t1, h1, ⟨_, h2⟩, _⟩
      · exact (h.passes (Passes.refl.skip _)).compileFunction hc (hc.plain _ hk) (by simp) h1
      · exact (declared h hf hk h1 h2).1
      · obtain ⟨rfl, d, hd⟩ := runs_structNamed h1
        refine (h.passes (Passes.refl.skip _)).compileFunction hc (hc.plain _ hk') ?_ h2
        intro struct' hs
        cases hs
        exact ⟨d, hd⟩
  rcases runs_ite.1 hrun with ⟨_, hrun⟩ | ⟨_, hrun⟩
  · obtain ⟨_, rfl⟩ := runs_expect.1 hrun
    exact hend.passes (Passes.refl.skip _)
  · exact (runs_pure.1 hrun).1 ▸ hend

lemma Coherent.compileQualified
    (hrun : Runs (Gen.compileQualified q) c s u s') : Coherent c due none s' := by
  simp only [Gen.compileQualified, runs_bind, runs_checkWord, exists_eq_left, and_assoc,
    runs_ite] at hrun
  rcases hrun with ⟨_, hrun⟩ | ⟨_, hrun⟩
  · exact h.compileStruct hc hrun
  split at hrun
  · simp at hrun
  split at hrun
  · simp at hrun
  simp only [runs_bind, runs_checkWord, exists_eq_left, and_assoc, runs_ite] at hrun
  rcases hrun with ⟨_, hrun⟩ | ⟨_, ⟨_, hrun⟩ | ⟨_, hrun⟩⟩
  · exact h.compileEnum hc hrun
  · exact h.compileExport hrun
  · exact h.compileTyped hc hrun

lemma Coherent.compileDeclaration
    (hrun : Runs Gen.compileDeclaration c s u s') : Coherent c due none s' := by
  simp [Gen.compileDeclaration, and_assoc] at hrun
  rcases hrun with ⟨_, q, t, h1, h2⟩ | ⟨_, rfl⟩
  · exact (h.passes (passes_qualifiers h1)).compileQualified hc h2
  · exact h.passes (Passes.refl.skip _)

end

lemma Coherent.noteSection (h : Coherent c due none s) (hrun : Runs Gen.noteSection c s u s') :
    Coherent c due none s' := by
  simp [Gen.noteSection, and_assoc] at hrun
  rcases hrun with ⟨_, rfl⟩ | ⟨_, rfl⟩
  · exact h
  · exact h.outer s.pos s.jumpTarget _ s.exportRequests s.script.exports _
      ⟨h.kept.exports, h.kept.requests⟩

inductive Declares (c : Context) : State → State → Prop where
  | refl {s : State} : Declares c s s
  | next {s t t' s' : State} (hmore : (c.tokens.get s.pos).kind ≠ .endOfInput)
      (hsection : Runs Gen.noteSection c s () t) (hrun : Runs Gen.compileDeclaration c t () t')
      (hrest : Declares c t' s') : Declares c s s'

lemma Declares.trans (h : Declares c s t) (h' : Declares c t s') : Declares c s s' := by
  induction h with
  | refl => exact h'
  | next hmore hsection hrun _ ih => exact .next hmore hsection hrun (ih h')

lemma Declares.rest (h : Declares c s t) (h' : Declares c s s')
    (hend : (c.tokens.get s'.pos).kind = .endOfInput) : Declares c t s' := by
  induction h with
  | refl => exact h'
  | next hmore hsection hrun _ ih =>
    cases h' with
    | refl => exact absurd hend hmore
    | next _ hsection' hrun' h' =>
      obtain ⟨_, rfl⟩ := hsection.unique hsection'
      obtain ⟨_, rfl⟩ := hrun.unique hrun'
      exact ih h'

lemma declares_compileDeclarations (hrun : Runs Gen.compileDeclarations c s u s') :
    Declares c s s' ∧ (c.tokens.get s'.pos).kind = .endOfInput := by
  refine runs_repeatWhile (P := Declares c s)
    (Q := fun t => Declares c s t ∧ (c.tokens.get t.pos).kind = .endOfInput) ?again ?done hrun .refl
  case again =>
    intro t t' h hrun
    simp [and_assoc] at hrun
    obtain ⟨hmore, t1, h1, _, h2⟩ := hrun
    exact h.trans (.next hmore h1 h2 .refl)
  case done =>
    intro t t' h hrun
    simp [and_assoc] at hrun
    obtain ⟨hend, rfl⟩ := hrun
    exact ⟨h, hend⟩

lemma Coherent.declares (hc : c.tokens.Lexed) (h : Coherent c due none s)
    (hrun : Declares c s s') : Coherent c due none s' := by
  induction hrun with
  | refl => exact h
  | next _ hsection hrun _ ih => exact ih ((h.noteSection hsection).compileDeclaration hc hrun)

/-! ## Programs -/

structure Complete (c : Context) (s : State) : Prop extends Coherent c s.agenda none s where
  calls : s.calls.entries = #[]

lemma Complete.publish {name : String} {tag offset : UInt32} {sectionIndex : UInt16} {line : Nat}
    (h : Complete c s) (hrun : Runs (Gen.publish name tag offset sectionIndex line) c s u s') :
    Complete c s' := by
  simp only [Gen.publish, runs_bind, runs_get, exists_eq_left, and_assoc] at hrun
  split at hrun
  · next script hscript =>
    obtain rfl := runs_modify.1 hrun
    obtain ⟨exports, rfl⟩ : ∃ exports, script = { s.script with exports } := by
      unfold Script.addExport at hscript
      split at hscript
      · cases hscript
      · split at hscript <;> cases hscript <;> exact ⟨_, rfl⟩
    exact ⟨h.toCoherent.outer s.pos s.jumpTarget s.sectionIndex? s.exportRequests _
      s.script.sections (State.kept_agenda _), h.calls⟩
  · simp at hrun

lemma Complete.exportFunctions (h : Complete c s) (hrun : Runs Gen.exportFunctions c s u s') :
    Complete c s' := by
  refine runs_forM_array (fun {f t t'} h hrun => ?_) hrun h
  rcases runs_ite.1 hrun with ⟨_, hrun⟩ | ⟨_, hrun⟩
  · split at hrun
    · exact h.publish hrun
    · exact (runs_pure.1 hrun).1 ▸ h
  · exact (runs_pure.1 hrun).1 ▸ h

lemma Complete.exportRequested {r : ExportRequest} (h : Complete c s)
    (hrun : Runs (Gen.exportRequested r) c s u s') : Complete c s' := by
  simp only [Gen.exportRequested, runs_bind, runs_getSymbols, exists_eq_left, and_assoc] at hrun
  split at hrun
  · exact h.publish hrun
  · simp at hrun

lemma Coherent.finish (h : Coherent c due none s) (hrun : Runs Gen.finish c s u s') :
    Complete c s' := by
  simp only [Gen.finish, runs_bind, runs_get, exists_eq_left, and_assoc] at hrun
  split at hrun
  · simp at hrun
  · next hnone =>
    have hcalls : s.calls.entries = #[] := by
      have hfirst : s.calls.entries[0]? = none := by
        have := Option.eq_none_iff_forall_ne_some.2 hnone
        simpa [PendingCalls.firstUnresolved?] using this
      simpa using hfirst
    have hcomplete : Complete c s := ⟨{ h with kept := s.kept_agenda }, hcalls⟩
    simp only [runs_bind, runs_getOptions, exists_eq_left, and_assoc, runs_ite] at hrun
    rcases hrun with ⟨_, _, t, h1, h2⟩ | ⟨_, h2⟩
    · exact runs_forM_array Complete.exportRequested h2 (hcomplete.exportFunctions h1)
    · exact runs_forM_array Complete.exportRequested h2 hcomplete

lemma named_empty : ({} : Symbols).Named where
  function h := by simp at h
  storage h := by simp at h
  found h := by simp [Symbols.find?] at h
  plainTypes h := by simp [TypeTable.get?] at h

lemma struct?_empty {id : TypeId} : ({} : TypeTable).struct? id = none := by
  simp [TypeTable.struct?, TypeTable.get?]

lemma sound_empty : ({} : TypeTable).Sound none where
  fields h := by simp [struct?_empty] at h
  sized h := by simp [struct?_empty] at h
  ordered := ⟨fun _ => 0, fun h => by simp [struct?_empty] at h⟩
  parent h := by simp [struct?_empty] at h
  placed h := by simp [struct?_empty] at h
  blank h := by simp [struct?_empty] at h
  distinct h := by simp [struct?_empty] at h

lemma holds_empty : Holds c {} [] where
  code := rfl
  wellFormed h := by simp at h
  references h := by simp at h
  called := called_nil
  lines := .unmarked .nil
  tidy := {
    lastOp := fun h => by simp at h
    sorted := by simp
    references_lt := fun h => by simp at h
    fixups := by simp
    calls := by simp
    uses_lt := fun h => by simp at h
    tables := ⟨⟨rfl, List.nodup_nil, fun h => by simp at h⟩, List.nodup_nil, fun h => by simp at h⟩ }

lemma Coherent.initial : Coherent c {} none {} where
  named := named_empty
  known := ⟨fun h => by simp at h, fun h => by simp [Symbols.find?] at h⟩
  types := sound_empty
  stored v h := by simp at h
  data v h := by simp at h
  code := ⟨[], holds_empty, .nil⟩
  hasBody h := by simp at h
  started h := by simp at h
  bodies b h := by simp at h
  imports name h := by simp at h
  used e h := by cases e <;> simp [Script.Has, StringPool.texts] at h
  lent _ name h := by simp at h
  kept := ⟨rfl, List.nil_prefix⟩

lemma Coherent.compileDeclarations (hc : c.tokens.Lexed)
    (hrun : Runs Gen.compileDeclarations c {} u s) : Coherent c {} none s :=
  Coherent.initial.declares hc (declares_compileDeclarations hrun).1

lemma complete_compileProgram (hc : c.tokens.Lexed)
    (hrun : Runs Gen.compileProgram c {} u s) : Complete c s := by
  obtain ⟨t, h1, h2⟩ := runs_seq.1 hrun
  exact (Coherent.compileDeclarations hc h1).finish h2

end AdventureScript.Gen
