import AdventureScript.Proofs.Declaration.Basic
import AdventureScript.Proofs.Scan

/-!
Compilations that succeed. The state in which one ends tells more than the script.
-/
namespace AdventureScript

variable {source : String} {options : Options} {tokens : Stream} {s : State} {script : Script}
  {p : Stream × State → Bool}

structure Compiles (source : String) (options : Options) (tokens : Stream) (s : State) : Prop where
  scanned : Scan.tokens source = .ok tokens
  run : Gen.Runs Gen.compileProgram ⟨tokens, options⟩ {} () s

lemma compile_eq_ok_iff : (compile source options).result = .ok script ↔
    ∃ tokens s, Compiles source options tokens s ∧ s.script = script := by
  constructor
  · intro h
    unfold compile at h
    split at h
    · next tokens htokens =>
      unfold compileTokens at h
      split at h
      · next s hrun => exact ⟨tokens, s, ⟨htokens, hrun⟩, by simpa using h⟩
      · cases h
    · cases h
  · rintro ⟨tokens, s, ⟨htokens, hrun⟩, rfl⟩
    have hrun : Gen.compileProgram { tokens, options } {} = .ok ((), s) := hrun
    simp [compile, htokens, compileTokens, hrun]

lemma Compiles.complete (h : Compiles source options tokens s) :
    Gen.Complete ⟨tokens, options⟩ s :=
  Gen.complete_compileProgram (Scan.lexed_tokens h.scanned) h.run

def ran? (step : Gen Unit) (source : String) (options : Options) : Option (Stream × State) :=
  match Scan.tokens source with
  | .ok tokens =>
    match step ⟨tokens, options⟩ {} with
    | .ok (_, s) => some (tokens, s)
    | .error _ => none
  | .error _ => none

lemma ran?_eq_some_iff {step : Gen Unit} : ran? step source options = some (tokens, s) ↔
    Scan.tokens source = .ok tokens ∧ Gen.Runs step ⟨tokens, options⟩ {} () s := by
  constructor
  · intro h
    unfold ran? at h
    split at h
    · next tokens' htokens =>
      split at h
      · next s' hrun =>
        obtain ⟨rfl, rfl⟩ : tokens' = tokens ∧ s' = s := by simpa using h
        exact ⟨htokens, hrun⟩
      · cases h
    · cases h
  · rintro ⟨htokens, hrun⟩
    have hrun : step ⟨tokens, options⟩ {} = .ok ((), s) := hrun
    simp [ran?, htokens, hrun]

abbrev compiled? := ran? Gen.compileProgram

lemma compiles_iff : Compiles source options tokens s ↔
    compiled? source options = some (tokens, s) :=
  ⟨fun h => ran?_eq_some_iff.2 ⟨h.scanned, h.run⟩, fun h =>
    ⟨(ran?_eq_some_iff.1 h).1, (ran?_eq_some_iff.1 h).2⟩⟩

lemma Compiles.of_any (h : Compiles source options tokens s)
    (hp : (compiled? source options).any p = true) : p (tokens, s) = true := by
  rwa [compiles_iff.1 h] at hp

lemma exists_script_of_any (hp : (compiled? source options).any p = true) :
    ∃ script, (compile source options).result = .ok script := by
  cases h : compiled? source options with
  | none => simp [h] at hp
  | some x => exact ⟨x.2.script, compile_eq_ok_iff.2 ⟨x.1, x.2, compiles_iff.2 h, rfl⟩⟩

structure State.Separate (options : Options) (s : State) : Prop where
  function : ∀ f ∈ s.symbols.functions, f.hasBody = true → f.importName ∉ s.script.imports
  storage : ∀ v ∈ s.symbols.globals, v.isImport = false → v.name ∉ s.script.imports
  keepFunction : options.noImportOverride = true → ∀ f ∈ s.symbols.functions, f.hasBody = true →
    f.name ∉ s.symbols.imported
  keepStorage : options.noImportOverride = true → ∀ v ∈ s.symbols.globals, v.isImport = false →
    v.name ∉ s.symbols.imported

lemma FuncDef.isExternal_of_hasBody {f : FuncDef} (h : f.hasBody = true) :
    f.isExternal = false := by
  simp [isExternal, h]

lemma Gen.Coherent.separate {c : Context} {due : Agenda} {open? : Option TypeId}
    (h : Coherent c due open? s) :
    s.Separate c.options where
  function f hf hbody hmem := by
    obtain ⟨i, hi⟩ := Array.mem_iff_getElem?.1 hf
    exact @Symbols.Named.not_imports_function _ ⟨i⟩ f h.named hi (f.isExternal_of_hasBody hbody)
      (h.imports _ hmem)
  storage v hv himport hmem := by
    obtain ⟨i, hi⟩ := Array.mem_iff_getElem?.1 hv
    exact @Symbols.Named.not_imports_storage _ v h.named ⟨i⟩ hi himport (h.imports _ hmem)
  keepFunction hkeep f hf hbody hmem := by
    obtain ⟨i, hi⟩ := Array.mem_iff_getElem?.1 hf
    exact @Symbols.Named.not_lent_function _ ⟨i⟩ f h.named hi (f.isExternal_of_hasBody hbody)
      (h.lent hkeep _ hmem)
  keepStorage hkeep v hv himport hmem := by
    obtain ⟨i, hi⟩ := Array.mem_iff_getElem?.1 hv
    exact @Symbols.Named.not_lent_storage _ v h.named ⟨i⟩ hi himport (h.lent hkeep _ hmem)

/-- No symbol of a compiled script is both imported and defined. -/
theorem compile_separate (h : (compile source options).result = .ok script) :
    ∃ tokens s, Compiles source options tokens s ∧ s.script = script ∧ s.Separate options := by
  obtain ⟨tokens, s, hs, rfl⟩ := compile_eq_ok_iff.1 h
  exact ⟨tokens, s, hs, rfl, hs.complete.toCoherent.separate⟩

theorem compile_separate_overridden :
    let source := "import int g(); import int v; import int h(int n); int v; int g() \x7b return h(v); \x7d"
    ∃ script tokens s, (compile source {}).result = .ok script ∧ script.imports = #["h"] ∧
      Compiles source {} tokens s ∧ s.script = script ∧ s.Separate {} := by
  intro source
  have hrun : (compiled? source {}).any (·.2.script.imports = #["h"]) = true := by decide +kernel
  obtain ⟨script, h⟩ := exists_script_of_any hrun
  obtain ⟨tokens, s, hs, rfl, hsep⟩ := compile_separate h
  exact ⟨s.script, tokens, s, h, by simpa using hs.of_any hrun, hs, rfl, hsep⟩

end AdventureScript
