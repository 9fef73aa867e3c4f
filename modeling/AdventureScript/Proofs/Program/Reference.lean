import AdventureScript.Proofs.Program.Flow

/-!
The words of a compiled script that need adjusting.
-/
namespace AdventureScript

open Assembly

variable {source : String} {options : Options} {tokens : Stream} {s : State} {script : Script}
  {code : List Instruction} {F : List Node} {m : Mark Reference} {id : FuncId} {r : Register}
  {w : Int32} {c : Context} {open? : Option TypeId}

/-! ## What words stand for -/

structure Symbols.Counted (symbols : Symbols) : Prop where
  structs : symbols.types.Exact
  globals : ∀ v ∈ symbols.globals.toList, v.isImport = false → v.ty.bytes symbols.types < 2 ^ 32

/-- The register and the value of a literal are right for what it refers to. -/
def Reference.Denotes (tokens : Stream) (s : State) (code : List Instruction) (r : Register)
    (w : Int32) : Reference → Prop
  | .data => r = .mar ∧ ∃ v ∈ s.symbols.globals, v.isImport = false ∧
      v.offset.toNat ≤ w.toInt ∧ w.toInt ≤ v.offset.toNat + v.ty.bytes s.symbols.types
  | .text bytes => r = .ax ∧ tokens.HasText bytes ∧
      ∃ offset, w = Int32.ofNat offset ∧ s.script.strings.Holds bytes offset
  | .variable id => r = .mar ∧ ∃ v, s.symbols.globals[id.index]? = some v ∧ v.isImport = true ∧
      ∃ slot, w = Int32.ofNat slot ∧ s.script.imports[slot]? = some v.name
  | .external id => r = .ax ∧ ∃ f, s.symbols.functions[id.index]? = some f ∧
      ∃ slot, w = Int32.ofNat slot ∧ s.script.imports[slot]? = some f.importName
  | .function id => r = .ax ∧ ∃ b ∈ s.bodies, b.function = id ∧ w = Int32.ofNat b.start ∧
      ⟨b.start, .thisBase, [w]⟩ ∈ code

namespace Gen

lemma Coherent.within {due : Agenda} (h : Coherent c due open? s)
    (hcounted : s.symbols.Counted) (hdata : s.script.globalData.size < 2 ^ 31) {v : GlobalVar}
    (hv : v ∈ s.symbols.globals) (himport : v.isImport = false) {k : UInt32} {u : Ty}
    (hpart : v.ty.HasPart s.symbols.types k u) :
    v.offset.toNat ≤ (v.offset.toInt32 + k.toInt32).toInt ∧
      (v.offset.toInt32 + k.toInt32).toInt ≤ v.offset.toNat + v.ty.bytes s.symbols.types := by
  have hlt := hcounted.globals v (Array.mem_toList_iff.2 hv) himport
  have hbounds := TypeTable.hasPart_bounds h.types hcounted.structs (h.stored v hv himport) hlt hpart
  obtain ⟨n, hn, hle, _⟩ := h.data v hv himport
  rw [Ty.toNat_size hlt] at hle
  have hoffset : v.offset.toNat = n := by
    rw [hn, UInt32.toNat_ofNat', Nat.mod_eq_of_lt (by omega)]
  have hword : (v.offset.toInt32 + k.toInt32).toInt = v.offset.toNat + k.toNat := by
    rw [Int32.toInt_add, toInt_toInt32 (by omega), toInt_toInt32 (by omega), Int.bmod_def]
    omega
  omega

lemma Complete.exists_body (h : Complete c s) (hm : m ∈ s.references.entries)
    (hid : m.value = .function id) :
    ∃ b ∈ s.bodies, b.function = id ∧ (s.symbols.function id).codeOffset = some b.start := by
  obtain ⟨F, hF, _⟩ := h.code
  have hcalls := hF.tidy.calls
  rw [h.calls] at hcalls
  cases hoffset : (s.symbols.function id).codeOffset with
  | none =>
    have hwaits : m.waiting? s.symbols = some ⟨m.position, id⟩ :=
      Mark.waiting?_eq_some_iff.2 ⟨by rw [← hid], hoffset⟩
    have hmem := List.mem_filterMap.2 ⟨m, Array.mem_toList_iff.2 hm, hwaits⟩
    rw [← hcalls] at hmem
    cases hmem
  | some o =>
    cases hf : s.symbols.functions[id.index]? with
    | none =>
      simp only [Symbols.function, hf, Option.getD_none] at hoffset
      cases hoffset
    | some f =>
      have hf' : s.symbols.function id = f := by simp [Symbols.function, hf]
      obtain ⟨b, hb, hfun, rfl⟩ := h.started hf (hf' ▸ hoffset)
      exact ⟨b, hb, hfun, rfl⟩

lemma Complete.denotes (h : Complete c s) (hF : Holds c s F)
    (hassembled : Assembled c.tokens s.localUses.entries.toList s.bodies.toList F)
    (hcounted : s.symbols.Counted) (hdata : s.script.globalData.size < 2 ^ 31)
    (hm : m ∈ s.references.entries) :
    OnLiteral (fun r w => m.value.Denotes c.tokens s (readings 0 F) r w) 0 F m.position := by
  refine (hF.references (Array.mem_toList_iff.2 hm)).imp fun {r w} hmeans => ?_
  cases hvalue : m.value with
  | data =>
    rw [hvalue] at hmeans
    obtain ⟨hr, v, hv, himport, k, u, hpart, rfl⟩ := hmeans
    exact ⟨hr, v, hv, himport, h.within hcounted hdata hv himport hpart⟩
  | text bytes =>
    rw [hvalue] at hmeans
    obtain ⟨hr, htext, offset, hw, hmem⟩ := hmeans
    exact ⟨hr, htext, offset, hw, hF.tidy.tables.strings.holds hmem⟩
  | «variable» id | external id =>
    rw [hvalue] at hmeans
    exact hmeans
  | function id =>
    rw [hvalue] at hmeans
    obtain ⟨hr, _, rfl⟩ := hmeans
    obtain ⟨b, hb, hfun, hoffset⟩ := h.exists_body hm hvalue
    rw [hoffset, Option.getD_some]
    exact ⟨hr, b, hb, hfun, rfl, (h.ordered hF hassembled).starts b hb⟩

end Gen

/-! ## Fixups -/

structure State.Fixed (tokens : Stream) (s : State) (code : List Instruction) : Prop where
  ascending : (s.script.fixups.toList.map (·.offset)).Pairwise (· < ·)
  kinds : ∀ fixup ∈ s.script.fixups,
    fixup.kind ∈ [FixupKind.globalData, .string, .imported, .function]
  meaning : ∀ fixup ∈ s.script.fixups, ∃ m ∈ s.references.entries, m.fixup = fixup ∧
    ∃ p r w, ⟨p, .litToReg, [Register.toWord r, w]⟩ ∈ code ∧ fixup.offset = p + 2 ∧
      m.value.Denotes tokens s code r w

lemma Assembly.OnLiteral.exists_mem {P : Register → Int32 → Prop} {p : Nat}
    (h : OnLiteral P 0 F p) :
    ∃ k r w, ⟨k, .litToReg, [Register.toWord r, w]⟩ ∈ readings 0 F ∧ p = k + 2 ∧ P r w := by
  obtain ⟨k, n, hn, r, w, hp, hi, h⟩ := h
  refine ⟨k, r, w, ?_, hp, h⟩
  have hread : n.read k = ⟨k, .litToReg, [Register.toWord r, w]⟩ := by
    simp [Node.read, Node.words, Instr.words, Instr.op, hi]
  exact hread ▸ read_mem_readings hn

lemma Gen.Complete.fixed (h : Complete c s) (hF : Holds c s F)
    (hassembled : Assembled c.tokens s.localUses.entries.toList s.bodies.toList F)
    (hcounted : s.symbols.Counted) (hdata : s.script.globalData.size < 2 ^ 31) :
    s.Fixed c.tokens (readings 0 F) := by
  have hmark : ∀ fixup ∈ s.script.fixups, ∃ m ∈ s.references.entries, m.fixup = fixup := by
    intro fixup hfixup
    rw [← Array.mem_toList_iff, hF.tidy.fixups] at hfixup
    obtain ⟨m, hm, hfix⟩ := List.mem_map.1 hfixup
    exact ⟨m, Array.mem_toList_iff.1 hm, hfix⟩
  exact {
    ascending := by
      have hsorted := hF.tidy.sorted
      rw [hF.tidy.fixups, List.map_map]
      exact hsorted
    kinds := fun fixup hfixup => by
      obtain ⟨m, _, rfl⟩ := hmark fixup hfixup
      cases hvalue : m.value <;> simp [Mark.fixup, Reference.kind, hvalue]
    meaning := fun fixup hfixup => by
      obtain ⟨m, hm, rfl⟩ := hmark fixup hfixup
      exact ⟨m, hm, rfl, (h.denotes hF hassembled hcounted hdata hm).exists_mem⟩ }

/-- Every fixup of a compiled script is meaningful. -/
theorem compile_fixed (h : (compile source options).result = .ok script) :
    ∃ tokens s code, Compiles source options tokens s ∧ s.script = script ∧
      decode 0 script.code.toList = some code ∧
      (s.symbols.Counted → script.globalData.size < 2 ^ 31 → s.Fixed tokens code) := by
  obtain ⟨tokens, s, hs, rfl⟩ := compile_eq_ok_iff.1 h
  obtain ⟨F, hF, hassembled⟩ := hs.complete.code
  exact ⟨tokens, s, _, hs, rfl, hF.decode_eq, hs.complete.fixed hF hassembled⟩

theorem compile_fixed_kinds :
    let source := "struct S \x7b int a; int b[3]; \x7d; S s; import int v; " ++
      "import void p(const string t); void g(int n); " ++
      "void f() \x7b p(\"x\"); g(s.b[2] + v); \x7d void g(int n) \x7b \x7d"
    ∃ script tokens s code, (compile source {}).result = .ok script ∧
      Compiles source {} tokens s ∧ s.script = script ∧
      decode 0 script.code.toList = some code ∧
      script.fixups.toList.map (·.kind) =
        [.string, .imported, .globalData, .imported, .function] ∧ s.Fixed tokens code := by
  intro source
  have hrun : (compiled? source {}).any (fun x =>
      x.2.symbols.types.Exact ∧
      (∀ v ∈ x.2.symbols.globals.toList, v.isImport = false →
        v.ty.bytes x.2.symbols.types < 2 ^ 32) ∧
      x.2.script.globalData.size < 2 ^ 31 ∧
      x.2.script.fixups.toList.map (·.kind) =
        [.string, .imported, .globalData, .imported, .function]) = true := by decide +kernel
  obtain ⟨script, h⟩ := exists_script_of_any hrun
  obtain ⟨tokens, s, code, hs, rfl, hcode, hfixed⟩ := compile_fixed h
  obtain ⟨hexact, hglobals, hdata, hkinds⟩ := of_decide_eq_true (hs.of_any hrun)
  exact ⟨s.script, tokens, s, code, h, hs, rfl, hcode, hkinds, hfixed ⟨hexact, hglobals⟩ hdata⟩

/-! ## Calls -/

structure State.Called (s : State) (code : List Instruction) : Prop where
  address : ∀ i ∈ code, i.op = .call → ∃ m ∈ s.references.entries, m.position + 1 = i.position ∧
    ∃ id, m.value = .function id
  reaches : ∀ m ∈ s.references.entries, ∀ id, m.value = .function id →
    ⟨m.position, .function⟩ ∈ s.script.fixups ∧
    ∃ f b, s.symbols.functions[id.index]? = some f ∧ f.codeOffset = some b.start ∧
      b ∈ s.bodies ∧ b.function = id ∧ s.script.code[m.position]? = some (Int32.ofNat b.start)

namespace Gen

lemma Complete.called (h : Complete c s) (hF : Holds c s F) : s.Called (readings 0 F) where
  address i hi hop := by
    obtain ⟨n, hn, hread⟩ := mem_readings.1 hi
    obtain ⟨m, hm, _, hpos, hid⟩ :=
      hF.called i.position n hn ((congrArg Instruction.op hread).symm.trans hop)
    exact ⟨m, Array.mem_toList_iff.1 hm, hpos, hid⟩
  reaches m hm id hid := by
    have hm' := Array.mem_toList_iff.2 hm
    refine ⟨?_, ?_⟩
    · rw [← Array.mem_toList_iff, hF.tidy.fixups]
      exact List.mem_map.2 ⟨m, hm', by simp [Mark.fixup, hid, Reference.kind]⟩
    · obtain ⟨b, hb, rfl, hoffset⟩ := h.exists_body hm hid
      obtain ⟨f, hf, hstart⟩ := h.bodies b hb
      refine ⟨f, b, hf, hstart, hb, rfl, ?_⟩
      obtain ⟨r, w, hmeans, hword⟩ := hF.exists_word hm'
      rw [hid] at hmeans
      obtain ⟨_, _, rfl⟩ := hmeans
      rw [hword, hoffset, Option.getD_some]

lemma finish_of_firstUnresolved? {f : FuncDef} (h : s.calls.firstUnresolved? = some id)
    (hf : s.symbols.functions[id.index]? = some f) :
    ∃ failure, finish c s = .error failure ∧
      failure.error.message = (Fault.neverDefined f.name).message := by
  have hfunction : functionAt id c s = .ok (f, s) := runs_functionAt.2 ⟨rfl, hf⟩
  have hfail : finish c s = failAt (.neverDefined f.name) f.sectionIndex f.line c s := by
    simp only [finish, bind, ReaderT.bind, StateT.bind, Except.bind, get, getThe, MonadStateOf.get,
      StateT.get, liftM, monadLift, MonadLift.monadLift, pure, Except.pure, h, hfunction]
    rfl
  exact ⟨_, hfail, rfl⟩

lemma finish_error {due : Agenda} (h : Coherent c due open? s)
    (hm : m ∈ s.references.entries) (hid : m.value = .function id)
    (hbody : (s.symbols.function id).hasBody = false) :
    ∃ m' ∈ s.references.entries, ∃ id', m'.value = .function id' ∧
      (s.symbols.function id').hasBody = false ∧ ∃ failure, finish c s = .error failure ∧
      failure.error.message = (Fault.neverDefined (s.symbols.function id').name).message := by
  have hnone : ∀ id : FuncId, (s.symbols.function id).hasBody = false ↔
      (s.symbols.function id).codeOffset = none := by
    intro id
    cases hf : s.symbols.functions[id.index]? with
    | none => simp only [Symbols.function, hf, Option.getD_none]; exact ⟨fun _ => rfl, fun _ => rfl⟩
    | some f => simp [Symbols.function, hf, h.hasBody hf]
  obtain ⟨F, hF, _⟩ := h.code
  have hcalls := hF.tidy.calls
  have hwaits : (⟨m.position, id⟩ : Mark FuncId) ∈ s.calls.entries.toList := by
    rw [hcalls]
    exact List.mem_filterMap.2 ⟨m, Array.mem_toList_iff.2 hm,
      Mark.waiting?_eq_some_iff.2 ⟨by rw [← hid], (hnone id).1 hbody⟩⟩
  obtain ⟨k, hk⟩ : ∃ k, s.calls.entries[0]? = some k := by
    have := List.length_pos_of_mem hwaits
    exact ⟨s.calls.entries[0], by simp⟩
  have hmem : k ∈ s.calls.entries.toList := Array.mem_toList_iff.2 (Array.mem_of_getElem? hk)
  rw [hcalls] at hmem
  obtain ⟨m', hm', hk'⟩ := List.mem_filterMap.1 hmem
  obtain ⟨hvalue, hoffset⟩ := Mark.waiting?_eq_some_iff.1 hk'
  refine ⟨m', Array.mem_toList_iff.1 hm', k.value, by rw [hvalue], (hnone _).2 hoffset, ?_⟩
  have hfirst : s.calls.firstUnresolved? = some k.value := by
    simp [PendingCalls.firstUnresolved?, hk]
  obtain ⟨f, hf⟩ : ∃ f, s.symbols.functions[k.value.index]? = some f := by
    obtain ⟨_, _, hmeans, _⟩ := hF.exists_word hm'
    rw [hvalue] at hmeans
    exact ⟨_, Array.getElem?_eq_getElem hmeans.2.1⟩
  rw [Symbols.function_eq hf]
  exact finish_of_firstUnresolved? hfirst hf

end Gen

/-- Every call that stays in a compiled script leads to the body of the function that it names. If
there is none for one of them, then the compilation fails. -/
theorem compile_called :
    (∀ script, (compile source options).result = .ok script →
      ∃ tokens s code, Compiles source options tokens s ∧ s.script = script ∧
        decode 0 script.code.toList = some code ∧ s.Called code) ∧
    ∀ tokens s m id, Scan.tokens source = .ok tokens →
      Gen.Runs Gen.compileDeclarations ⟨tokens, options⟩ {} () s →
      m ∈ s.references.entries → m.value = .function id →
      (s.symbols.function id).hasBody = false →
      ∃ m' ∈ s.references.entries, ∃ id', m'.value = .function id' ∧
        (s.symbols.function id').hasBody = false ∧
        ∃ error, (compile source options).result = .error error ∧
          error.message = (Fault.neverDefined (s.symbols.function id').name).message := by
  constructor
  · intro script h
    obtain ⟨tokens, s, hs, rfl⟩ := compile_eq_ok_iff.1 h
    obtain ⟨F, hF, _⟩ := hs.complete.code
    exact ⟨tokens, s, _, hs, rfl, hF.decode_eq, hs.complete.called hF⟩
  · intro tokens s m id htokens hrun hm hid hbody
    have hcoherent := Gen.Coherent.compileDeclarations (Scan.lexed_tokens htokens) hrun
    obtain ⟨m', hm', id', hid', hbody', failure, hfinish, hmessage⟩ :=
      Gen.finish_error hcoherent hm hid hbody
    refine ⟨m', hm', id', hid', hbody', failure.error, ?_, hmessage⟩
    have hrun : Gen.compileDeclarations ⟨tokens, options⟩ {} = .ok ((), s) := hrun
    have hfail : Gen.compileProgram ⟨tokens, options⟩ {} = .error failure := by
      simp [Gen.compileProgram, bind, ReaderT.bind, StateT.bind, Except.bind, hrun, hfinish]
    simp [compile, htokens, compileTokens, hfail, Compilation.failed]

theorem compile_called_case :
    let source := "int g(); void f(int x) \x7b switch (x) \x7b case g(): break; \x7d \x7d " ++
      "int g() \x7b return 3; \x7d"
    let source' := "int g(int n); void f() \x7b g(1); \x7d"
    (∃ script tokens s code, (compile source {}).result = .ok script ∧
      Compiles source {} tokens s ∧ s.script = script ∧
      decode 0 script.code.toList = some code ∧ s.references.entries.size = 1 ∧
      s.Called code) ∧
    ∃ error name, (compile source' {}).result = .error error ∧
      error.message = (Fault.neverDefined name).message := by
  intro source source'
  constructor
  · have hrun : (compiled? source {}).any (·.2.references.entries.size = 1) = true := by
      decide +kernel
    obtain ⟨script, h⟩ := exists_script_of_any hrun
    obtain ⟨tokens, s, code, hs, rfl, hcode, hcalled⟩ := compile_called.1 script h
    exact ⟨s.script, tokens, s, code, h, hs, rfl, hcode, of_decide_eq_true (hs.of_any hrun),
      hcalled⟩
  · have hrun : (ran? Gen.compileDeclarations source' {}).any (fun x =>
        x.2.references.entries.any fun m => m.value = .function ⟨0⟩ ∧
          (x.2.symbols.function ⟨0⟩).hasBody = false) = true := by decide +kernel
    cases hran : ran? Gen.compileDeclarations source' {} with
    | none => simp [hran] at hrun
    | some x =>
      obtain ⟨htokens, hdeclared⟩ := ran?_eq_some_iff.1 hran
      rw [hran] at hrun
      obtain ⟨m, hm, hcall⟩ := Array.any_eq_true'.1 hrun
      obtain ⟨hid, hbody⟩ := of_decide_eq_true hcall
      obtain ⟨_, _, id, _, _, error, herror, hmessage⟩ :=
        compile_called.2 x.1 x.2 m ⟨0⟩ htokens hdeclared hm hid hbody
      exact ⟨error, _, herror, hmessage⟩

end AdventureScript
