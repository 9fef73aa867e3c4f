import AdventureScript.Proofs.Declaration.Basic
import AdventureScript.Proofs.Protection.Target
import AdventureScript.Proofs.Trial.Expression

/-!
Storing keeps the value. From where AX holds the value that is stored to the instruction that takes it,
no instruction changes AX, or AX is on the stack meanwhile.
-/
namespace AdventureScript

variable {reg : Register} {attr : AttributeUse}

def setterTypes (indexed : Bool) (ty : Ty) : List Ty :=
  (if indexed then [.int] else []) ++ [ty]

def Symbols.SettersFit (symbols : Symbols) : Prop :=
  ∀ {struct owner : TypeId} {name : String} {a : Attribute},
    symbols.types.findComponent? struct name = some (owner, .attribute a) → ∀ id ∈ a.setter,
      ∃ f, symbols.functions[id.index]? = some f ∧
        f.params.map (·.ty) = setterTypes a.indexed a.ty

def Value.Settable (symbols : Symbols) (v : Value) (ty : Ty) : Prop :=
  ∀ attr, v = .stored (.attribute attr) → ∀ id ∈ attr.attr.setter, ∃ f,
    symbols.functions[id.index]? = some f ∧
      f.params.map (·.ty) = setterTypes attr.index.isSome ty

namespace Gen
open Assembly Chain

variable {α β : Type} {q : Prop} {c : Context} {d : Int} {s s' t : State} {u : Unit} {parts : Parts}
  {ty source : Ty} {place : Place} {stop : Nat} {tokens : Stretch} {x : Gen α} {f : α → Gen β}
  {use : List Int32} {r : Target × Ty}

/-! ## Finding the target -/

lemma agree_compileTarget {k : Pair} (hk : k.c' = k.c) :
    Agree k (fun p p' => p' = p) (Same fun p p' => p' = p) (compileTarget stop)
      (compileTarget stop) := by
  have hr : (Alignment.refl k hk).Respects (partsOf k.c) (partsOf k.c') :=
    respects_compilePart (le_of_eq (by rw [hk]))
  refine ⟨fun {s t r s'} hst hrun => ?_⟩
  obtain ⟨h, hpos, hty⟩ := runs_compileTarget.1 hrun
  obtain ⟨o', t', h', hst'⟩ := (agree_compileAccess (Alignment.operands_from (i := ()) (n := 0)) hr).run
    (hst.mono fun hp => ⟨hp, Nat.zero_le _⟩) h
  obtain rfl := hst'.pos.1.eq_of_refl
  exact ⟨r, t', runs_compileTarget.2 ⟨h', hst'.pos.2.1.trans hpos, hty⟩,
    hst'.mono fun hp => ⟨rfl, hp.2.1⟩⟩

lemma spared_compileTarget (hs : s.Within) (h : Runs (compileTarget stop) c s r t)
    (ht : t.axClobbered = false) : Spared s t := by
  have hends : Ends True s (compileTarget stop) c s := adds_compileTarget c s (.refl hs)
  rw [Ends, h] at hends
  exact hends.1.spares trivial ht

lemma compileTarget_again {r' : Target × Ty} {t' : State} (hs : s'.Within)
    (h : Runs (compileTarget stop) c { s with axClobbered := false } r t) (hst : Stays s s')
    (hpos : s'.pos = s.pos) (h' : Runs (compileTarget stop) c s' r' t') :
    r' = r ∧ (t.axClobbered = false → Spared s' t') := by
  obtain ⟨_, t1, h1, hst1⟩ := (agree_compileTarget
    (k := ⟨c, c, s, False, False, s.script.size, s'.script.size, True⟩) rfl).run
      (s := { s with axClobbered := false }) (t := { s' with axClobbered := false })
      ⟨hpos, ⟨rfl, rfl, rfl⟩, hst.trans ⟨rfl, rfl, rfl⟩, Nat.add_comm .., False.elim, False.elim, fun _ => rfl⟩ h
  -- From here on the two runs write the same code, whatever is noted of AX.
  obtain ⟨_, t2, h2, hst2⟩ := (agree_compileTarget (k := ⟨c, c, s', True, False, 0, 0, False⟩) rfl).run
    (s := { s' with axClobbered := false }) (t := s')
    ⟨rfl, ⟨rfl, rfl, rfl⟩, .refl, rfl, fun _ => rfl, fun _ => False.elim, False.elim⟩ h1
  obtain ⟨rfl, rfl⟩ := h2.unique h'
  refine ⟨hst2.pos.1.trans hst1.pos.1, fun ht => ?_⟩
  have hspared : Spared s' t1 := spared_compileTarget (s := { s' with axClobbered := false })
    ⟨hs.script, hs.lastOp, hs.calls, hs.references, hs.uses⟩ h1 ((hst1.flag trivial).trans ht)
  rwa [Spared, hst2.rest trivial]

section

variable {struct owner : TypeId} {object : Option Place} {name : String} {component : Component}
  {sel : Selection} {v : Value} {p p' : Nat}

lemma settable_of_leads {id : FuncId} {o : Operand}
    (h : Leads c s (withParts (compileCall · id object)) p o p') :
    o.value.Settable s.symbols o.ty := by
  obtain ⟨_, h, _⟩ := h
  rw [value_compileCall (runs_withParts.1 h)]
  exact fun _ h => nomatch h

variable (hfit : s.symbols.SettersFit)
include hfit

lemma settable_of_picks
    (hcomponent : s.symbols.types.findComponent? struct name = some (owner, component))
    (h : Picks c s owner object p component sel v ty p') : v.Settable s.symbols ty := by
  cases h with
  | field => exact fun _ h => nomatch h
  | «attribute» _ hindexed =>
    rintro _ ⟨⟩ id hid
    simpa [hindexed] using hfit hcomponent id hid
  | indexed _ hindexed =>
    rintro _ ⟨⟩ id hid
    simpa [hindexed] using hfit hcomponent id hid
  | function _ _ _ hcall => exact settable_of_leads hcall

lemma settable_of_starts (h : Starts c s sel v ty p) :
    v.Settable s.symbols ty := by
  cases h with
  | this => exact fun _ h => nomatch h
  | «local» => exact fun _ h => nomatch h
  | member _ _ hcomponent hpicks =>
    obtain ⟨_, _, hcomponent⟩ := Option.bind_eq_some_iff.1 hcomponent
    exact settable_of_picks hfit hcomponent hpicks
  | named _ _ _ _ hdenotes =>
    cases hdenotes with
    | function _ hcall => exact settable_of_leads hcall
    | static _ _ hcomponent hpicks => exact settable_of_picks hfit hcomponent hpicks
    | _ => exact fun _ h => nomatch h

lemma settable_of_extends {links : List Link} {v' : Value} {ty' : Ty}
     (hv : v.Settable s.symbols ty)
    (h : Chain.Extends c s v ty p links v' ty' p') : v'.Settable s.symbols ty' := by
  induction h with
  | nil => exact hv
  | cons hlink _ ih =>
    refine ih ?_
    cases hlink with
    | member _ _ _ _ _ hcomponent hpicks => exact settable_of_picks hfit hcomponent hpicks
    | _ => exact fun _ h => nomatch h

lemma settable_compileTarget (h : Runs (compileTarget stop) c s r t) :
    (Value.stored r.1).Settable s.symbols r.2 := by
  obtain ⟨haccess, -⟩ := runs_compileTarget.1 h
  obtain ⟨_, ⟨_, _, _, _, _, -, hstart, hlinks⟩, -⟩ := exists_reads haccess nofun
  exact settable_of_extends hfit (settable_of_starts hfit hstart) hlinks

end

lemma since_of_runs {a : α} (hx : ∀ b, Adds False b x) (hs : s.Within) (h : Runs x c s a t) :
    Since False s t := by
  have hends := hx s c s (.refl hs)
  rw [Ends, h] at hends
  exact hends.1

/-- Code that leaves AX alone is written, then the instruction `use`, and then more. -/
def Feeds (use : List Int32) (s t : State) : Prop :=
  ∃ before after, t.script.code.toList = s.script.code.toList ++ (before ++ use ++ after) ∧
    Spares before

lemma Feeds.behind (h : Feeds use s' t) (hs : Spared s s') : Feeds use s t := by
  obtain ⟨v, hv, hspares⟩ := hs
  obtain ⟨w, after, hw, hspares'⟩ := h
  exact ⟨v ++ w, after, by simp [hw, hv], hspares.append hspares'⟩

lemma Feeds.before (h : Feeds use s s') (ht : Since False s' t) : Feeds use s t := by
  obtain ⟨before, after, hcode, hspares⟩ := h
  obtain ⟨more, hmore⟩ := ht.script.code
  exact ⟨before, after ++ more, by simp [← hmore, hcode], hspares⟩

lemma feeds_write {op : Opcode} {operands : List Int32} :
    Feeds (op.toWord :: operands) s { s with script := s.script.write op operands } :=
  ⟨[], [], by simp [Script.write], .nil⟩

lemma spared_litToReg {value : Int32} (hreg : reg ≠ .ax)
    (h : Runs (litToReg reg value) c s u t) : Spared s t := by
  simp only [litToReg, hreg, if_false, runs_modifyScript] at h
  exact h ▸ .write (by cases reg <;> first | rfl | exact absurd rfl hreg)

lemma spared_addToMar {bytes : Int32} (h : Runs (addToMar bytes) c s u t) : Spared s t := by
  simp only [addToMar, runs_ite, runs_emit, runs_pure] at h
  rcases h with ⟨_, rfl⟩ | ⟨_, rfl, _⟩
  · exact .write rfl
  · exact .refl

lemma spared_loadAddress (h : Runs (loadAddress place) c s u t) : Spared s t := by
  unfold loadAddress at h
  split at h
  · simp only [runs_seq, runs_fixupLast] at h
    obtain ⟨t1, h1, rfl⟩ := h
    have hspared : Spared s t1 := spared_litToReg (by decide) h1
    exact hspared
  · obtain ⟨_, _, rfl, _, _, ⟨rfl, rfl⟩, rfl⟩ := h
    exact Spared.write (s := s) rfl
  · simp only [importToReg, runs_bind, runs_globalAt, runs_updateScript, runs_fixupLast] at h
    obtain ⟨v, s, ⟨rfl, _⟩, _, _, ⟨_, _, ⟨rfl, _⟩, _, t1, h1, rfl⟩, h2⟩ := h
    have hsame : Spared s { s with script := (s.script.addImport v.name).2 } := by
      unfold Script.addImport
      split <;> exact .refl
    have hspared : Spared s t1 := hsame.trans (spared_litToReg (by decide) h1)
    refine Spared.trans ?_ (spared_addToMar h2)
    exact hspared
  · simp only [runs_seq, runs_emitRegs, runs_emit] at h
    obtain ⟨_, rfl, _, rfl, h⟩ := h
    exact ((Spared.write rfl).trans (.write rfl)).trans (spared_addToMar h)
  · exact spared_addToMar h

lemma spared_pushReg (h : Runs (pushReg reg) c s u t) : Spared s t := by
  obtain ⟨_, rfl, rfl⟩ := h
  exact Spared.write (s := s) rfl

/-! ## Setting an attribute -/

def pushAx (f : FuncDef) : List Int32 :=
  [(if f.isExternal then Opcode.pushReal else .pushReg).toWord, Register.ax.toWord]

lemma feeds_pushCell {f : FuncDef}
    (h : Runs (pushCell parts f.isExternal ⟨.inAx ty, some ty⟩) c s u t) : Feeds (pushAx f) s t := by
  have hnone (types : TypeTable) : ¬(ty.isOldString = true ∧ ty.isStringPointer types = true) := by
    cases hp : ty.pointer <;> simp [Ty.isOldString, Ty.isStringPointer, Ty.isPointer, hp]
  simp [pushCell, loadArgument, convertAx, emitConversion, runs_emitRegs, runs_emit, pushReg,
    runs_adjustStack] at h
  obtain ⟨t1, ⟨_, _, ⟨hc, _⟩ | ⟨_, rfl⟩⟩, h⟩ := h
  · exact absurd hc (hnone _)
  · rcases h with ⟨hf, rfl⟩ | ⟨hf, _, rfl, rfl⟩
    · rw [pushAx, hf]
      exact feeds_write
    · rw [pushAx, hf]
      exact feeds_write (s := t1)

lemma feeds_callWithCells {id : FuncId} {f : FuncDef} {object : Option Place}
    {cells rest : List Cell} (hp : AddsParts parts) (hs : s.Within)
    (hcells : cells.reverse = ⟨.inAx ty, some ty⟩ :: rest)
    (hcount : Int32.ofNat cells.length ≠ 0)
    (h : Runs (callWithCells parts id f object cells) c s u t) : Feeds (pushAx f) s t := by
  have hpush (b : State) : Adds False b (forM cells.reverse (pushCell parts f.isExternal)) :=
    adds_forM fun _ => adds_pushCell hp
  have hfirst {s t : State} (hs : s.Within)
      (h : Runs (forM cells.reverse (pushCell parts f.isExternal)) c s () t) : Feeds (pushAx f) s t := by
    rw [hcells] at h
    obtain ⟨t1, h1, h⟩ := runs_forM_cons.1 h
    have hw := (since_of_runs (fun _ => adds_pushCell hp) hs h1).within_right
    exact (feeds_pushCell h1).before
      (since_of_runs (fun _ => adds_forM fun _ => adds_pushCell hp) hw h)
  simp only [callWithCells, saveObject, runs_bind, runs_ite] at h
  obtain ⟨saved, t1, ⟨_, place, _, hplace, _, t2, h2, k, t3, h3, _, t4, h4, h5⟩ | ⟨_, h1⟩, h⟩ := h
  · obtain ⟨rfl, rfl⟩ := runs_pure.1 h5
    obtain ⟨rfl, _⟩ := runs_orFail.1 hplace
    obtain ⟨rfl, _⟩ := runs_checkpoint.1 h3
    have hw := (since_of_runs (fun _ => adds_loadAddress) hs h2).within_right
    have hw' := (since_of_runs (fun _ => adds_pushReg) hw h4).within_right
    obtain ⟨t6, h6, h⟩ := runs_seq.1 h
    have hpass (b : State) : Adds False b (passObject k f (Int32.ofNat cells.length)) := by
      rw [passObject, if_neg hcount]
      exact .write (fun _ => rfl) <| .write (fun _ => rfl) <|
      adds_emitRegs fun _ => rfl
    have hrest := since_of_runs (fun b => (hpass b).then <| adds_emitCallInstruction.then <|
      .ite (adds_popReg fun _ => rfl) adds_pure) (since_of_runs hpush hw' h6).within_right h
    exact ((hfirst hw' h6).before hrest).behind ((spared_loadAddress h2).trans (spared_pushReg h4))
  · obtain ⟨rfl, rfl⟩ := runs_pure.1 h1
    obtain ⟨t2, h2, h⟩ := runs_seq.1 h
    exact (hfirst hs h2).before (since_of_runs (fun _ => adds_emitCallInstruction)
      (since_of_runs hpush hs h2).within_right h)

lemma reverse_cells {f : FuncDef} {cells : List Cell}
    (hf : f.params.map (·.ty) = setterTypes attr.index.isSome ty)
    (h : f.cells (indexArguments attr ++ [.inAx ty]) = .ok cells) :
    (∃ rest, cells.reverse = ⟨.inAx ty, some ty⟩ :: rest) ∧ Int32.ofNat cells.length ≠ 0 := by
  cases hi : attr.index with
  | none =>
    obtain ⟨v, hv, rfl⟩ : ∃ v, f.params = [v] ∧ v.ty = ty := by simpa [setterTypes, hi] using hf
    simp [FuncDef.cells, matchCells, defaultCells, indexArguments, hi, hv, Except.map] at h
    exact h ▸ ⟨⟨[], rfl⟩, (by decide : Int32.ofNat 1 ≠ 0)⟩
  | some r =>
    obtain ⟨w, v, hv, _, rfl⟩ : ∃ w v, f.params = [w, v] ∧ w.ty = .int ∧ v.ty = ty := by
      simpa [setterTypes, hi, List.map_eq_cons_iff] using hf
    simp [FuncDef.cells, matchCells, defaultCells, indexArguments, hi, hv, Except.map] at h
    exact h ▸ ⟨⟨_, rfl⟩, (by decide : Int32.ofNat 2 ≠ 0)⟩

lemma feeds_setAttribute {setter : FuncId} {f : FuncDef}
    (hp : AddsParts parts) (hs : s.Within) (hsetter : attr.attr.setter = some setter)
    (hf : s.symbols.functions[setter.index]? = some f)
    (hparams : f.params.map (·.ty) = setterTypes attr.index.isSome ty)
    (h : Runs (setAttribute parts attr ty) c s u t) : Feeds (pushAx f) s t := by
  simp [setAttribute, emitCall, hsetter, hf, and_assoc, runs_clobberAx, keepingThis] at h
  obtain ⟨cells, t1, h1, _, t2, h, rfl⟩ := h
  obtain ⟨rfl, hcells⟩ : t1 = s ∧ f.cells (indexArguments attr ++ [.inAx ty]) = .ok cells := by
    unfold getCells at h1
    split at h1
    · next heq => simpa [heq, eq_comm] using h1
    · simp at h1
  obtain ⟨⟨rest, hrest⟩, hcount⟩ := reverse_cells hparams hcells
  have hw {bytes : Nat} : State.Within { t1 with callBytes := bytes } :=
    ⟨hs.script, hs.lastOp, hs.calls, hs.references, hs.uses⟩
  rcases h with ⟨_, _, t3, h3, t4, h4, h5⟩ | ⟨_, h⟩
  · have hw3 := (since_of_runs (fun _ => adds_pushReg) hw h3).within_right
    have hw4 := (since_of_runs (fun _ => adds_callWithCells hp) hw3 h4).within_right
    have hfeeds := ((feeds_callWithCells hp hw3 hrest hcount h4).before
      (since_of_runs (fun _ => adds_popReg fun _ => rfl) hw4 h5)).behind (spared_pushReg h3)
    exact hfeeds
  · have hfeeds := feeds_callWithCells hp hw hrest hcount h
    exact hfeeds

/-- The instruction that takes the value for a target: the one that writes it, the first one of those
that copy a text, or the one that pushes it for the function that sets an attribute. -/
inductive Takes (symbols : Symbols) : Target → Ty → List Int32 → Prop
  | write {place : Place} {ty : Ty} (hty : ty.isOldString = false) :
      Takes symbols (.memory place) ty [(ty.writeOpcode symbols.types).toWord, Register.ax.toWord]
  | copy {place : Place} {ty : Ty} (hty : ty.isOldString = true) : Takes symbols (.memory place) ty
      [Opcode.regToReg.toWord, Register.ax.toWord, Register.bx.toWord]
  | set {attr : AttributeUse} {ty : Ty} {setter : FuncId} {f : FuncDef}
      (hsetter : attr.attr.setter = some setter)
      (hf : symbols.functions[setter.index]? = some f) : Takes symbols (.attribute attr) ty (pushAx f)

lemma feeds_copyString (hs : s.Within) (h : Runs copyString c s u t) :
    Feeds [Opcode.regToReg.toWord, Register.ax.toWord, Register.bx.toWord] s t := by
  obtain ⟨t1, h1, h⟩ := runs_seq.1 h
  have hw := (since_of_runs (fun _ => adds_emitRegs fun _ => rfl) hs h1).within_right
  rw [runs_emitRegs, runs_emit] at h1
  refine (h1 ▸ feeds_write : Feeds _ s t1).before (since_of_runs (fun b => ?_) hw h)
  refine .write (fun _ => rfl) <| adds_litToReg.then <|
    adds_codeSize.bind fun loop => ?_
  refine .write (fun _ => rfl) <|
    .write False.elim <| .write (fun _ => rfl) ?_
  refine .write (fun _ => rfl) <| .jump fun done hdone =>
    .write (fun _ => rfl) ?_
  refine .write (fun _ => rfl) <| .write (fun _ => rfl) <|
    .write False.elim ?_
  have hjump : Adds False b (jumpTo .jnz loop) := adds_modify (fun _ => id) fun _ hs =>
    hs.write False.elim
  refine hjump.then <| .write (fun _ => rfl) ?_
  exact .write (fun _ => rfl) <| (adds_landHere hdone).then adds_clobberAx

lemma feeds_writeTarget {target : Target} (hs : s.Within)
    (hfit : (Value.stored target).Settable s.symbols ty)
    (h : Runs (writeTarget target ty) c s u t) : ∃ use, Takes s.symbols target ty use ∧ Feeds use s t := by
  cases target with
  | memory place =>
    obtain ⟨t1, h1, h⟩ := runs_seq.1 h
    have hsince := since_of_runs (fun _ => adds_loadAddress) hs h1
    rcases runs_ite.1 h with ⟨hty, h⟩ | ⟨hty, h⟩
    · exact ⟨_, .copy hty, (feeds_copyString hsince.within_right h).behind (spared_loadAddress h1)⟩
    · obtain ⟨_, _, ⟨rfl, rfl⟩, rfl⟩ := h
      refine ⟨_, .write (by simpa using hty), ?_⟩
      rw [← hsince.aside.symbols]
      exact feeds_write.behind (spared_loadAddress h1)
  | «attribute» attr =>
    have h : Runs (withParts (setAttribute · attr ty)) c s u t := h
    have h := runs_withParts.1 h
    cases hsetter : attr.attr.setter with
    | none => simp [setAttribute, hsetter] at h
    | some setter =>
      obtain ⟨f, hf, hparams⟩ := hfit attr rfl setter hsetter
      exact ⟨_, .set hsetter hf,
        feeds_setAttribute (addsParts_compilePart _) hs hsetter hf hparams h⟩

/-! ## Storing -/

/-- The code that finds a target, behind `p` words of code and `d` bytes on the stack: it leaves AX
alone, or AX is pushed in front of it and popped behind it, from where it was pushed to. -/
def Finds (saves : Bool) (d : Int) (p : Nat) (find : List Int32) : Prop :=
  if saves then ∃ F, Paced nowhere (p + 2) F (d + 4) (d + 4) ∧
    find = [Opcode.pushReg.toWord, Register.ax.toWord] ++ words (p + 2) F ++
      [Opcode.popReg.toWord, Register.ax.toWord]
  else Spares find

lemma stays_of_aside (h : Aside s s') : Stays s s' :=
  ⟨h.symbols, h.blocks, h.function?⟩

def conversion (types : TypeTable) (source ty : Ty) : List Int32 :=
  if source.isOldString && ty.isStringPointer types then
    [Opcode.createString.toWord, Register.ax.toWord]
  else []

lemma code_convertAxForStore (h : Runs (convertAxForStore source ty) c s u t) :
    t.pos = s.pos ∧
      t.script.code.toList = s.script.code.toList ++ conversion s.symbols.types source ty := by
  have hty (types : TypeTable) : ({ ty with isConst := ty.isConst || ty.isOldString } :
      Ty).isStringPointer types = ty.isStringPointer types := rfl
  simp [convertAxForStore, emitConversion, hty, runs_emitRegs, runs_emit] at h
  obtain ⟨_, _, ⟨hc, rfl⟩ | ⟨hc, rfl⟩⟩ := h
  · simp [conversion, hc, Script.write]
  · simpa [conversion] using hc

lemma exists_finds {b : State} (hr : Ready q c d s) (hq : Fits s → q)
    (htried : Runs (compileTarget stop) c { b with axClobbered := false } r t) (hst : Stays b s)
    (hpos : s.pos = b.pos) (hs' : Fits s')
    (h : Runs (do
      if t.axClobbered then pushReg .ax
      let (target, ty) ← compileTarget stop
      if t.axClobbered then popReg .ax
      writeTarget target ty) c s u s') :
    ∃ s1 find, Runs (writeTarget r.1 r.2) c s1 u s' ∧ Aside s s1 ∧ Tidy s1 ∧
      s1.script.code.toList = s.script.code.toList ++ find ∧
      Finds t.axClobbered d s.script.size find := by
  cases hflag : t.axClobbered with
  | false =>
    simp only [hflag, Bool.false_eq_true, if_false, runs_bind] at h
    obtain ⟨_, s1, h1, h⟩ := h
    obtain ⟨F, hF, _⟩ := parses_compileTarget hr h1
    obtain ⟨rfl, hspared⟩ := compileTarget_again hr.tidy.within htried hst hpos h1
    obtain ⟨find, hfind, hspares⟩ := hspared hflag
    exact ⟨s1, find, h, hF.aside, hF.tidy, hfind, hspares⟩
  | true =>
    simp only [hflag, if_true, runs_bind] at h
    obtain ⟨_, t1, h1, _, t2, h2, _, t3, h3, h⟩ := h
    have hpush := parses_pushReg hr h1
    have hpos1 : t1.pos = s.pos := by
      simp [pushReg, runs_emitRegs, runs_emit, runs_adjustStack] at h1
      simp [h1]
    obtain ⟨rfl, _⟩ := compileTarget_again hpush.tidy.within htried
      (hst.trans (stays_of_aside hpush.aside)) (hpos1.trans hpos) h2
    obtain ⟨F, hF, _, ht⟩ := parses_compileTarget (hpush.ready hr) h2
    have hE := hpush.toWrites.trans hF.toWrites
    have hpop := parses_popReg (hE.ready hr) (fun ⟨hq, _⟩ => by have := (hr.offset hq).2; omega) h3
    have hG := hE.trans hpop.toWrites
    obtain ⟨I, _, hI⟩ := parses_writeTarget (hG.ready hr)
      ((hF.aside.trans hpop.aside).symbols ▸ ht) h
    have hfits2 : Fits t2 := hpop.fits (hI.fits hs')
    have hfits1 : Fits t1 := hF.fits hfits2
    have hpaced := hF.paced ⟨hq (hpush.fits hfits1), hfits1⟩ hfits2
    have hsize : t1.script.size = s.script.size + 2 := hpush.size_eq
    exact ⟨t3, _, h, hG.aside, hG.tidy, hG.code, F, hsize ▸ hpaced, words_append.trans rfl⟩

/-- From `s` to `s'` AX is stored: it is converted, the target in the tokens is found, and then no
instruction in front of the one that takes the value changes AX. -/
def Stores (c : Context) (d : Int) (tokens : Stretch) (source : Ty) (s s' : State) : Prop :=
  ∃ target ty t find before use after,
    Runs (compileTarget tokens.stop) c { s with pos := tokens.start, axClobbered := false }
      (target, ty) t ∧
    s'.script.code.toList = s.script.code.toList ++
      (conversion s.symbols.types source ty ++ find ++ before ++ use ++ after) ∧
    Finds t.axClobbered d (s.script.size + (conversion s.symbols.types source ty).length) find ∧
    Spares before ∧ Takes s.symbols target ty use

end Gen
end AdventureScript
