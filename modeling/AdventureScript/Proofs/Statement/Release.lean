import AdventureScript.Proofs.Program.Basic
import AdventureScript.Proofs.Symbols.Handles

/-!
Releasing handles. The code written for the variables of the blocks that are left zeroes every
handle within them, each of them once, and does nothing else.
-/
namespace AdventureScript

variable {c : Context} {s s' : State} {types : TypeTable} {t : Ty}

lemma Ty.Exact.of_table (h : types.Exact) (hbytes : t.bytes types < 2 ^ 32) : t.Exact types :=
  ⟨hbytes, fun _ _ _ _ hs => h _ _ hs⟩

namespace Gen

def releaseCode (scope : Scope) (position : Int32) : List Int32 :=
  [Opcode.loadSpOffs.toWord, scope.distance position, Opcode.memZeroPtr.toWord]

lemma exists_runs_zeroHandles (positions : List Int32) :
    ∃ s', Runs (forM positions fun slot => do loadLocal slot; emit .memZeroPtr []) c s () s' ∧
      s'.script.code.toList =
        s.script.code.toList ++ positions.flatMap (releaseCode s.scope) := by
  induction positions generalizing s with
  | nil => exact ⟨s, by simp, by simp⟩
  | cons position positions ih =>
    obtain ⟨t, ht, hcode, hscope⟩ : ∃ t, Runs (do loadLocal position; emit .memZeroPtr []) c s () t ∧
        t.script.code.toList = s.script.code.toList ++ releaseCode s.scope position ∧
        t.scope = s.scope := by
      simp [loadLocal, runs_emit, and_assoc, Script.write, releaseCode]
    obtain ⟨s', hs', hcode'⟩ := ih (s := t)
    refine ⟨s', runs_forM_cons.2 ⟨t, ht, hs'⟩, ?_⟩
    rw [hcode', hcode, hscope, List.flatMap_cons, List.append_assoc]

lemma exists_runs_releaseHandles (c : Context) (s : State) (depth : Nat) :
    ∃ b s', Runs (releaseHandles depth) c s b s' ∧
      s'.script.code.toList = s.script.code.toList ++ (s.scope.varsFrom depth).flatMap (fun v =>
        (v.ty.slots s.symbols.types).flatMap fun k => releaseCode s.scope (v.offset + k.toInt32)) ∧
      (b = true ↔ ∃ v ∈ s.scope.varsFrom depth, v.ty.slots s.symbols.types ≠ []) := by
  let positions := (s.scope.varsFrom depth).flatMap fun v =>
    (v.ty.handleSlots s.symbols.types).map (v.offset + ·)
  obtain ⟨s', hrun, hcode⟩ := exists_runs_zeroHandles (c := c) (s := s) positions
  refine ⟨!positions.isEmpty, s', ?_, ?_, ?_⟩
  · simp only [releaseHandles, runs_bind, runs_getTypes, runs_get]
    exact ⟨_, _, ⟨rfl, rfl⟩, _, _, ⟨rfl, rfl⟩, _, _, hrun, runs_pure.2 ⟨rfl, rfl⟩⟩
  · simp only [hcode, positions, Ty.handleSlots_eq, List.map_map, List.flatMap_assoc, List.flatMap_map,
      Function.comp_def]
  · simp [positions, Ty.slots, Ty.slotsWithin, Ty.handleSlots]

/-- In every program, the code that leaves blocks zeroes the handles within their variables, and
nothing else. A variable has none exactly when its type holds none. -/
theorem releaseHandles_each_once {source : String} {options : Options} {tokens : Stream}
    {declared : State} {depth : Nat} (hscan : Scan.tokens source = .ok tokens)
    (hdeclares : Declares ⟨tokens, options⟩ {} declared)
    (htypes : s.symbols.types = declared.symbols.types)
    (hvars : ∀ v ∈ s.scope.varsFrom depth, v.ty.Complete s.symbols.types ∧ v.ty.Sized ∧
      v.ty.Exact s.symbols.types) :
    ∃ (slots : Variable → List UInt32) (b : Bool) (s' : State),
      Runs (releaseHandles depth) c s b s' ∧
      s'.script.code.toList = s.script.code.toList ++ (s.scope.varsFrom depth).flatMap (fun v =>
        (slots v).flatMap fun k => releaseCode s.scope (v.offset + k.toInt32)) ∧
      (b = true ↔ ∃ v ∈ s.scope.varsFrom depth, v.ty.holdsHandle s.symbols.types = true) ∧
      ∀ v ∈ s.scope.varsFrom depth,
        (∀ k, k ∈ slots v ↔ v.ty.HasHandle s.symbols.types k) ∧
        (slots v).Pairwise Ty.SlotsApart ∧
        (∀ k ∈ slots v, k.toNat + handleSize.toNat ≤ (v.ty.size s.symbols.types).toNat) ∧
        (slots v = [] ↔ v.ty.holdsHandle s.symbols.types = false) := by
  have hsound : s.symbols.types.Sound none :=
    htypes ▸ (Coherent.initial.declares (Scan.lexed_tokens hscan) hdeclares).types
  have hslotted : ∀ v ∈ s.scope.varsFrom depth,
      Ty.Slotted s.symbols.types s.symbols.types.defs.size v.ty := by
    intro v hv
    obtain ⟨hcomplete, hsized, hexact⟩ := hvars v hv
    exact Ty.slotted hsound hcomplete hsized hexact
  obtain ⟨b, s', hrun, hcode, hb⟩ := exists_runs_releaseHandles c s depth
  refine ⟨fun v => v.ty.slots s.symbols.types, b, s', hrun, hcode, hb.trans ?_, fun v hv => ?_⟩
  · refine exists_congr fun v => and_congr_right fun hv => ?_
    have hempty : v.ty.slots s.symbols.types = [] ↔ v.ty.holdsHandle s.symbols.types = false :=
      (hslotted v hv).empty
    rw [Ne, hempty, Bool.not_eq_false]
  · have h := hslotted v hv
    rw [Ty.toNat_size (hvars v hv).2.2.bytes]
    exact ⟨h.mem, h.apart, h.within, h.empty⟩

theorem releaseHandles_each_once_nested :
    let source := "managed struct M \x7b int x; \x7d; struct A \x7b M *p; int n; \x7d;
      struct B extends A \x7b A pair[2]; int list[]; \x7d;"
    let v : Variable := {
      name := "v", ty := { base := .struct ⟨2⟩, shape := .static [3] }, offset := 8 }
    ∃ tokens declared, Scan.tokens source = .ok tokens ∧
      Declares ⟨tokens, {}⟩ {} declared ∧
      ∃ (slots : List UInt32) (b : Bool) (s' : State),
        Runs (releaseHandles 1) ⟨tokens, {}⟩ { declared with scope := ⟨[⟨8, [v]⟩], 92⟩ } b s' ∧
        s'.script.code.toList = declared.script.code.toList ++
          slots.flatMap (fun k => releaseCode ⟨[⟨8, [v]⟩], 92⟩ (8 + k.toInt32)) ∧
        b = true ∧ (∀ k, k ∈ slots ↔ v.ty.HasHandle declared.symbols.types k) ∧
        slots.Pairwise Ty.SlotsApart ∧ slots ≠ [] := by
  intro source v
  have hran : (ran? compileDeclarations source {}).any (fun x =>
      (x.2.symbols.types.struct? ⟨2⟩).any (·.defined) && decide x.2.symbols.types.Exact &&
      v.ty.bytes x.2.symbols.types < 2 ^ 32 && v.ty.holdsHandle x.2.symbols.types) = true := by
    decide +kernel
  cases hrun : ran? compileDeclarations source {} with
  | none => simp [hrun] at hran
  | some x =>
    obtain ⟨tokens, declared⟩ := x
    obtain ⟨hscan, hdeclared⟩ := ran?_eq_some_iff.1 hrun
    have hdeclares := (declares_compileDeclarations hdeclared).1
    simp only [hrun, Option.any_some, Bool.and_eq_true, decide_eq_true_eq] at hran
    obtain ⟨⟨⟨hdefined, hexact⟩, hbytes⟩, hholds⟩ := hran
    obtain ⟨b, hb, hdefined⟩ := (Option.any_eq_true ..).1 hdefined
    have hvars : ∀ w ∈ [v], w.ty.Complete declared.symbols.types ∧ w.ty.Sized ∧
        w.ty.Exact declared.symbols.types := by
      intro w hw
      obtain rfl := List.mem_singleton.1 hw
      refine ⟨fun _ id hid => ?_, fun dims hdims d hd => ?_, .of_table hexact hbytes⟩
      · obtain rfl : (⟨2⟩ : TypeId) = id := Base.struct.inj hid
        exact ⟨b, hb, hdefined⟩
      · obtain rfl : [3] = dims := Shape.static.inj hdims
        obtain rfl := List.mem_singleton.1 hd
        decide
    obtain ⟨slots, b, s', hrun, hcode, hbool, hslots⟩ := releaseHandles_each_once
      (c := ⟨tokens, {}⟩) (s := { declared with scope := ⟨[⟨8, [v]⟩], 92⟩ }) hscan hdeclares rfl
      (show ∀ w ∈ Scope.varsFrom ⟨[⟨8, [v]⟩], 92⟩ 1, _ from hvars)
    obtain ⟨hmem, hapart, _, hempty⟩ := hslots v List.mem_cons_self
    refine ⟨tokens, declared, hscan, hdeclares, slots v, b, s', hrun, ?_,
      hbool.2 ⟨v, List.mem_cons_self, hholds⟩, hmem, hapart, fun hnil => ?_⟩
    · simpa [Scope.varsFrom, Scope.depth] using hcode
    · simp [hempty.1 hnil] at hholds

end Gen
end AdventureScript
