import AdventureScript.Proofs.Program.Basic
import AdventureScript.Proofs.Symbols.Handles

/-!
Structs that need each other. At no time of a compilation does a struct need itself, so everything
that follows parents and fields gets to an end before its bound does.
-/
namespace AdventureScript
namespace TypeTable

variable {types : TypeTable} {id p a b : TypeId} {f : Field} {t : Ty} {name : String}
  {rank : TypeId → Nat} {n : Nat}

def Extends (types : TypeTable) (id p : TypeId) : Prop :=
  types.parent? id = some p

/-- The struct `id` extends `p`, or has a field that is a value of it or an array of values. -/
inductive Needs (types : TypeTable) (id p : TypeId) : Prop
  | parent (hp : types.Extends id p)
  | field {s : StructDef} {name : String} {f : Field} (hs : types.struct? id = some s)
      (hf : (name, f) ∈ s.fields) (hpointer : f.ty.pointer = false) (hbase : f.ty.base = .struct p)

/-- No struct needs itself. What is asked of a type obeys the equations of the search for it, in
which nothing bounds the number of steps; and descent is a partial order. -/
structure Grounded (types : TypeTable) : Prop where
  acyclic : ∀ id, ¬Relation.TransGen types.Needs id id
  lineage : ∀ id, types.lineage id = id :: ((types.parent? id).map types.lineage).getD []
  findComponent? : ∀ id name, types.findComponent? id name =
    (((types.struct? id).bind (·.component? name)).map (id, ·)).or
      ((types.parent? id).bind (types.findComponent? · name))
  allFields : ∀ id, types.allFields id = ((types.struct? id).map (·.fields.map (·.2))).getD [] ++
    ((types.parent? id).map types.allFields).getD []
  holdsHandle : ∀ t : Ty, t.holdsHandle types = (t.isHandle || (t.pointer && t.isStaticArray) ||
    t.structId?.any fun id => !t.pointer && (types.allFields id).any (·.ty.holdsHandle types))
  handleSlots : ∀ t : Ty, t.handleSlots types = (t.elementStarts types).flatMap fun start =>
    (if t.pointer || t.isDynamicArray then [0]
      else t.structId?.elim [] fun id => (types.allFields id).flatMap fun f =>
        (f.ty.handleSlots types).map (f.offset.toInt32 + ·)).map (start + ·)
  isSameOrDerived : ∀ a b, types.isSameOrDerived a b = true ↔
    Relation.ReflTransGen types.Extends a b
  refl : ∀ a, types.isSameOrDerived a a = true
  trans : ∀ a b c, types.isSameOrDerived a b = true → types.isSameOrDerived b c = true →
    types.isSameOrDerived a c = true
  antisymm : ∀ a b, types.isSameOrDerived a b = true → types.isSameOrDerived b a = true → a = b

section

variable (h : types.Ranked rank)
include h

lemma Ranked.extends (hp : types.Extends id p) : rank p < rank id := by
  obtain ⟨s, hs, hp⟩ := Option.bind_eq_some_iff.1 hp
  exact h.parent hs hp

lemma Ranked.needs (hn : types.Needs id p) : rank p < rank id := by
  cases hn with
  | parent hp => exact h.extends hp
  | field hs hf hpointer hbase => exact h.field hs hf hpointer hbase

lemma Ranked.lt_of_transGen (hn : Relation.TransGen types.Needs id p) : rank p < rank id := by
  induction hn with
  | single hn => exact h.needs hn
  | tail _ hn ih => exact (h.needs hn).trans ih

lemma Ranked.lineage_eq_cons :
    types.lineage id = id :: ((types.parent? id).map types.lineage).getD [] := by
  cases hs : types.struct? id with
  | none =>
    rw [lineage]
    cases types.defs.size <;> simp [lineageFrom, parent?, hs]
  | some s =>
    rw [h.lineage_eq hs]
    simp [parent?, hs]

lemma Ranked.mem_lineage : b ∈ types.lineage a ↔ Relation.ReflTransGen types.Extends a b := by
  constructor
  · intro hb
    induction hn : rank a using Nat.strong_induction_on generalizing a with
    | _ n ih =>
      rw [h.lineage_eq_cons] at hb
      rcases List.mem_cons.1 hb with rfl | hb
      · exact .refl
      · cases hp : types.parent? a with
        | none => simp [hp] at hb
        | some p =>
          rw [hp] at hb
          exact .head hp (ih _ (hn ▸ h.extends hp) hb rfl)
  · intro hb
    induction hb using Relation.ReflTransGen.head_induction_on with
    | refl =>
      rw [h.lineage_eq_cons]
      exact List.mem_cons_self
    | head hp _ ih =>
      rw [h.lineage_eq_cons, hp]
      exact List.mem_cons_of_mem _ ih

lemma Ranked.eq_or_lt (hb : Relation.ReflTransGen types.Extends a b) : a = b ∨ rank b < rank a := by
  induction hb with
  | refl => exact .inl rfl
  | tail _ hp ih =>
    have := h.extends hp
    rcases ih with rfl | ih
    · exact .inr this
    · exact .inr (by omega)

lemma Ranked.within_field (hf : f ∈ types.allFields id) :
    ∃ n, types.defs.size = n + 1 ∧ f.ty.Within rank n := by
  have hf := h.mem_allFields.1 hf
  obtain ⟨s, hs⟩ : ∃ s, types.struct? id = some s := by
    cases hf with
    | own hs _ => exact ⟨_, hs⟩
    | inherited hs _ _ => exact ⟨_, hs⟩
  have hlt := h.lt hs
  refine ⟨types.defs.size - 1, by omega, fun hpointer id' hbase => ?_⟩
  have := h.hasField hf hpointer hbase
  omega

end
end TypeTable

namespace Ty

variable {types : TypeTable} {t : Ty} {id : TypeId} {rank : TypeId → Nat} {m n : Nat}

/-! ## Handles -/

lemma any_holdsHandle_congr (hfields : ∀ f ∈ types.allFields id,
      holdsHandleWithin types m f.ty = holdsHandleWithin types n f.ty) :
    ((types.allFields id).any fun f => holdsHandleWithin types m f.ty) =
      (types.allFields id).any fun f => holdsHandleWithin types n f.ty := by
  rw [Bool.eq_iff_iff, List.any_eq_true, List.any_eq_true]
  exact exists_congr fun f => and_congr_right fun hf => by rw [hfields f hf]

lemma flatMap_handleSlots_congr (hfields : ∀ f ∈ types.allFields id,
      handleSlotsWithin types m f.ty = handleSlotsWithin types n f.ty) :
    ((types.allFields id).flatMap fun f =>
        (handleSlotsWithin types m f.ty).map (f.offset.toInt32 + ·)) =
      (types.allFields id).flatMap fun f =>
        (handleSlotsWithin types n f.ty).map (f.offset.toInt32 + ·) :=
  List.flatMap_congr fun f hf => by rw [hfields f hf]

section

variable (h : types.Ranked rank)
include h

lemma Within.holdsHandle_succ (ht : t.Within rank n) :
    holdsHandleWithin types (n + 1) t = holdsHandleWithin types n t := by
  induction n using Nat.strong_induction_on generalizing t with
  | _ n ih =>
    cases hid : t.structId? with
    | none => cases n <;> simp [holdsHandleWithin, hid]
    | some id =>
      cases hpointer : t.pointer with
      | true => cases n <;> simp [holdsHandleWithin, hid, hpointer]
      | false =>
        obtain ⟨m, rfl⟩ := ht.pos hpointer hid
        rw [holdsHandleWithin, holdsHandleWithin, hid]
        simp only [any_holdsHandle_congr fun f hf =>
          ih m (Nat.lt_succ_self m) (ht.field hpointer hid h (h.mem_allFields.1 hf))]

lemma Within.handleSlots_succ (ht : t.Within rank n) :
    handleSlotsWithin types (n + 1) t = handleSlotsWithin types n t := by
  induction n using Nat.strong_induction_on generalizing t with
  | _ n ih =>
    rw [handleSlotsWithin_eq, handleSlotsWithin_eq]
    cases hhandle : t.pointer || t.isDynamicArray with
    | true => rw [elementSlots_of_handle hhandle, elementSlots_of_handle hhandle]
    | false =>
      cases hid : t.structId? with
      | none => rw [elementSlots_of_none hhandle hid, elementSlots_of_none hhandle hid]
      | some id =>
        have hpointer := (Bool.or_eq_false_iff.1 hhandle).1
        obtain ⟨m, rfl⟩ := ht.pos hpointer hid
        rw [elementSlots_of_struct hhandle hid, elementSlots_of_struct hhandle hid,
          flatMap_handleSlots_congr fun f hf =>
            ih m (Nat.lt_succ_self m) (ht.field hpointer hid h (h.mem_allFields.1 hf))]

end
end Ty

namespace TypeTable

variable {types : TypeTable} {id : TypeId} {rank : TypeId → Nat}

lemma Ranked.size_eq_zero_or (h : types.Ranked rank) :
    (types.defs.size = 0 ∧ ∀ id, types.allFields id = []) ∨ ∃ n, types.defs.size = n + 1 ∧
      ∀ id, ∀ f ∈ types.allFields id, f.ty.Within rank n := by
  cases hsize : types.defs.size with
  | zero =>
    refine .inl ⟨rfl, fun id => List.eq_nil_iff_forall_not_mem.2 fun f hf => ?_⟩
    obtain ⟨n, hn, _⟩ := h.within_field hf
    omega
  | succ n =>
    refine .inr ⟨n, rfl, fun id f hf => ?_⟩
    obtain ⟨m, hm, hw⟩ := h.within_field hf
    obtain rfl : n = m := by omega
    exact hw

lemma Ranked.grounded (h : types.Ranked rank) : types.Grounded where
  acyclic id hid := Nat.lt_irrefl _ (h.lt_of_transGen hid)
  lineage id := h.lineage_eq_cons
  findComponent? id name := by
    rw [TypeTable.findComponent?, h.lineage_eq_cons, List.findSome?_cons]
    cases types.parent? id <;>
      cases ((types.struct? id).bind (·.component? name)).map (id, ·) <;> rfl
  allFields id := by
    rw [TypeTable.allFields, h.lineage_eq_cons, List.flatMap_cons]
    cases types.parent? id <;> rfl
  holdsHandle t := by
    rcases h.size_eq_zero_or with ⟨hsize, hnil⟩ | ⟨n, hsize, hw⟩
    · cases hid : t.structId? <;> simp [Ty.holdsHandle, hsize, Ty.holdsHandleWithin, hnil]
    · simp only [Ty.holdsHandle, hsize]
      rw [Ty.holdsHandleWithin]
      cases hid : t.structId? with
      | none => rfl
      | some id =>
        rw [Option.any_some, Ty.any_holdsHandle_congr fun f hf => (hw id f hf).holdsHandle_succ h]
  handleSlots t := by
    simp only [Ty.handleSlots, Ty.handleSlotsWithin_eq (t := t)]
    cases hhandle : t.pointer || t.isDynamicArray with
    | true => simp [Ty.elementSlots_of_handle hhandle]
    | false =>
      cases hid : t.structId? with
      | none => simp [Ty.elementSlots_of_none hhandle hid]
      | some id =>
        rcases h.size_eq_zero_or with ⟨hsize, hnil⟩ | ⟨n, hsize, hw⟩
        · simp [hnil, hsize, Ty.elementSlots, hhandle]
        · rw [hsize, Ty.elementSlots_of_struct hhandle hid,
            ← Ty.flatMap_handleSlots_congr fun f hf => (hw id f hf).handleSlots_succ h]
          rfl
  isSameOrDerived a b := by rw [TypeTable.isSameOrDerived, List.contains_iff_mem, h.mem_lineage]
  refl a := by
    rw [TypeTable.isSameOrDerived, List.contains_iff_mem, h.mem_lineage]
  trans a b c hab hbc := by
    rw [TypeTable.isSameOrDerived, List.contains_iff_mem, h.mem_lineage] at *
    exact hab.trans hbc
  antisymm a b hab hba := by
    rw [TypeTable.isSameOrDerived, List.contains_iff_mem, h.mem_lineage] at hab hba
    rcases h.eq_or_lt hab with hab | hab
    · exact hab
    · rcases h.eq_or_lt hba with hba | hba
      · exact hba.symm
      · omega

end TypeTable

namespace Gen

variable {c : Context} {open? : Option TypeId} {s : State}

/-- What compiling comes through: states between declarations, and states within the body of a
struct. -/
inductive Reached (c : Context) : Option TypeId → State → Prop
  | start : Reached c none {}
  | move {open? : Option TypeId} {s : State} (h : Reached c open? s) (pos : Nat) :
      Reached c open? { s with pos }
  | noted {s s' : State} (h : Reached c none s) (hrun : Runs noteSection c s () s') :
      Reached c none s'
  | declaration {s s' : State} (h : Reached c none s) (hrun : Runs compileDeclaration c s () s') :
      Reached c none s'
  | opened {q : Qualifiers} {name : String} {struct : TypeId} {s t s' : State}
      (h : Reached c none s) (hname : Runs expectIdentifier c s name t)
      (hrun : Runs (openStruct q name) c t struct s') : Reached c (some struct) s'
  | extended {q : Qualifiers} {name : String} {struct : TypeId} {managed : Bool} {s t t' s' : State}
      (h : Reached c none s) (hname : Runs expectIdentifier c s name t)
      (hopen : Runs (openStruct q name) c t struct t') (pos : Nat)
      (hrun : Runs (extendStruct struct name managed) c { t' with pos } () s') :
      Reached c (some struct) s'
  | member {q : Qualifiers} {isConst : Bool} {ty : Ty} {name : String} {struct : TypeId}
      {member : Gen Unit} {s t t' t'' s' : State} (h : Reached c (some struct) s)
      (htype : Runs (parseType isConst) c s ty t) (pos : Nat)
      (hname : Runs expectIdentifier c { t with pos } name t')
      (hnew : Runs (checkNewComponent struct name) c t' () t'')
      (hmember : member ∈ [declareField struct q ty name, declareAttribute struct q ty name,
        declareMemberFunction struct q ty name])
      (hrun : Runs member c t'' () s') : Reached c (some struct) s'

def Invariant (c : Context) : Option TypeId → State → Prop
  | none, s => Coherent c {} none s
  | some struct, s => Opened c {} struct s

lemma Invariant.sound (h : Invariant c open? s) : s.symbols.types.Sound open? := by
  cases open? with
  | none => exact Coherent.types h
  | some struct => exact (Opened.toCoherent h).types

lemma Reached.invariant (hc : c.tokens.Lexed) (h : Reached c open? s) : Invariant c open? s := by
  induction h with
  | start => exact Coherent.initial
  | @move open? s _ pos ih =>
    cases open? with
    | none => exact Coherent.passes ih (Passes.refl.skip _)
    | some struct => exact Opened.passes ih (Passes.refl.skip _)
  | noted _ hrun ih => exact Coherent.noteSection ih hrun
  | declaration _ hrun ih => exact Coherent.compileDeclaration hc ih hrun
  | opened _ hname hrun ih =>
    obtain ⟨hk, rfl, rfl⟩ := runs_expectIdentifier.1 hname
    obtain ⟨h, d, hd, hblank⟩ :=
      (Coherent.passes ih (Passes.refl.skip _)).openStruct (hc.plain _ hk) hrun
    exact ⟨{ h with types := h.types.opened }, d, hd, hblank⟩
  | extended _ hname hopen pos hrun ih =>
    obtain ⟨hk, rfl, rfl⟩ := runs_expectIdentifier.1 hname
    obtain ⟨h, d, hd, hblank⟩ :=
      (Coherent.passes ih (Passes.refl.skip _)).openStruct (hc.plain _ hk) hopen
    exact (h.passes (Passes.refl.skip pos)).extendStruct hd hblank hrun
  | @member q isConst ty name struct member s t _ _ _ _ htype pos hname hnew hmember hrun ih =>
    obtain ⟨hk, rfl, rfl⟩ := runs_expectIdentifier.1 hname
    have hpass := passes_parseType hc.ends htype
    obtain ⟨hfound, hsized⟩ := shape_parseType (Opened.toCoherent ih).named htype
    rw [← hpass.symbols_eq] at hfound
    have ho := (Opened.passes ih hpass).passes (Passes.refl.skip pos)
    obtain ⟨hgoes, hlacks⟩ := ho.goes_name hnew
    simp only [List.mem_cons, List.not_mem_nil, or_false] at hmember
    rcases hmember with rfl | rfl | rfl
    · exact (hgoes.1.declareField hc.ends (hfound.grow hgoes.2) hsized hlacks hrun).1
    · exact (hgoes.1.declareAttribute (hc.plain _ hk) hlacks hrun).1
    · exact (hgoes.1.declareMemberFunction hc (hc.plain _ hk) hrun).1

end Gen

variable {source : String} {options : Options} {tokens : Stream}

lemma TypeTable.Sound.grounded {types : TypeTable} {open? : Option TypeId}
    (h : types.Sound open?) : types.Grounded := by
  obtain ⟨rank, hrank⟩ := h.exists_ranked
  exact hrank.grounded

/-- No struct of a compilation ever needs itself, neither in the end nor on the way. -/
theorem compile_grounded (htokens : Scan.tokens source = .ok tokens) :
    (∀ s, Compiles source options tokens s → s.symbols.types.Grounded) ∧
      ∀ open? s, Gen.Reached ⟨tokens, options⟩ open? s → s.symbols.types.Grounded :=
  ⟨fun _ h => h.complete.toCoherent.types.grounded,
    fun _ _ h => (h.invariant (Scan.lexed_tokens htokens)).sound.grounded⟩

theorem compile_grounded_later :
    let source := "managed struct A; managed struct B \x7b int x; \x7d; struct P \x7b A *a; \x7d; " ++
      "managed struct A extends B \x7b P p[2]; B *b; \x7d;"
    ∃ tokens s, Compiles source {} tokens s ∧ s.symbols.types.parent? ⟨0⟩ = some ⟨1⟩ ∧
      s.symbols.types.isSameOrDerived ⟨0⟩ ⟨1⟩ = true ∧
      s.symbols.types.isSameOrDerived ⟨1⟩ ⟨0⟩ = false ∧ s.symbols.types.Grounded := by
  intro source
  have hrun : (compiled? source {}).any (fun (_, s) => s.symbols.types.parent? ⟨0⟩ = some ⟨1⟩ ∧
      s.symbols.types.isSameOrDerived ⟨0⟩ ⟨1⟩ = true ∧
      s.symbols.types.isSameOrDerived ⟨1⟩ ⟨0⟩ = false) = true := by decide +kernel
  obtain ⟨⟨tokens, s⟩, hs, hp⟩ := (Option.any_eq_true _ _).1 hrun
  have h := compiles_iff.2 hs
  simp only [decide_eq_true_eq] at hp
  exact ⟨tokens, s, h, hp.1, hp.2.1, hp.2.2, (compile_grounded h.scanned).1 s h⟩

end AdventureScript
