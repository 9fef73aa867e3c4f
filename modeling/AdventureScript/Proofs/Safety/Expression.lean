import AdventureScript.Proofs.Safety.Emission
import AdventureScript.Proofs.Safety.Symbols

/-!
Names, members, elements and calls fail by a fault of the program only, and they end where brackets
are balanced.
-/
namespace AdventureScript

variable {types : TypeTable} {op : BinaryOp} {count : Int32} {cells : List Cell}

/-! ## Operands in range -/

def Place.InRange (symbols : Symbols) (place : Place) : Prop :=
  ∀ id, place.anchor = .imported id → id.index < symbols.globals.size

lemma Place.inRange_of_ne {symbols : Symbols} {place : Place}
    (h : ∀ id, place.anchor ≠ .imported id) : place.InRange symbols :=
  fun id hid => absurd hid (h id)

/-- The functions of an attribute can be called for its object, and its index stands behind `start`.
-/
structure AttributeUse.Fits (symbols : Symbols) (start : Nat) (use : AttributeUse) : Prop where
  getter : symbols.Callable use.attr.getter (use.object.isSome = true)
  setter : ∀ id ∈ use.attr.setter, symbols.Callable id (use.object.isSome = true)
  object : ∀ place ∈ use.object, place.InRange symbols
  index : ∀ stretch ∈ use.index, start < stretch.start

def Target.Fits (symbols : Symbols) (start : Nat) : Target → Prop
  | .memory place => place.InRange symbols
  | .attribute use => use.Fits symbols start

structure Operand.Fits (symbols : Symbols) (start : Nat) (o : Operand) : Prop where
  array : o.ty.isStaticArray = true → o.ty.Proper ∧ ∃ place, o.value = .stored (.memory place)
  stored : ∀ target, o.value = .stored target → target.Fits symbols start
  fault : ∀ fault ∈ o.writeFault, fault.kind ≠ .internal

namespace Operand

variable {symbols : Symbols} {start : Nat} {o : Operand} {ty : Ty} {fault : Option Fault}

lemma fits_of_value (hty : ty.isStaticArray = false) {value : Value}
    (hvalue : ∀ target, value ≠ .stored target) (hfault : ∀ f ∈ fault, f.kind ≠ .internal) :
    Fits symbols start ⟨value, ty, fault⟩ where
  array h := by simp [hty] at h
  stored target h := absurd h (hvalue target)
  fault := hfault

lemma fits_constant {value : Constant} (hty : ty.isStaticArray = false) :
    (constant value ty).Fits symbols start :=
  fits_of_value hty (fun _ h => by cases h) (by simp)

lemma fits_inAx (hty : ty.isStaticArray = false) : (inAx ty).Fits symbols start :=
  fits_of_value hty (fun _ h => by cases h) (by simp)

lemma fits_memory {place : Place} (hty : ty.Proper) (hplace : place.InRange symbols)
    (hfault : ∀ f ∈ fault, f.kind ≠ .internal) : (memory place ty fault).Fits symbols start where
  array _ := ⟨hty, place, rfl⟩
  stored _ h := by
    cases h
    exact hplace
  fault := hfault

lemma Fits.withFault (h : o.Fits symbols start) (hfault : ∀ f ∈ fault, f.kind ≠ .internal) :
    Fits symbols start { o with writeFault := fault } :=
  ⟨h.array, h.stored, hfault⟩

lemma Fits.later {start' : Nat} (h : o.Fits symbols start) (hle : start' ≤ start) :
    o.Fits symbols start' where
  array := h.array
  stored target ht := by
    have hfits := h.stored target ht
    cases target with
    | memory place => exact hfits
    | «attribute» use =>
      exact { hfits with index := fun r hr => lt_of_le_of_lt hle (hfits.index r hr) }
  fault := h.fault

lemma Fits.not_static (h : o.Fits symbols start)
    (hvalue : ∀ place, o.value ≠ .stored (.memory place)) : o.ty.isStaticArray = false := by
  refine Bool.eq_false_iff.2 fun hty => ?_
  obtain ⟨_, place, hplace⟩ := h.array hty
  exact hvalue place hplace

end Operand

lemma Ty.Proper.afterIndex {t : Ty} : t.afterIndex.Proper := by
  unfold Ty.Proper Ty.afterIndex
  split <;> simp [Ty.element]

lemma Ty.not_static_of_isScalar {t : Ty} (h : t.isScalar = true) : t.isStaticArray = false := by
  have hshape : t.shape = .scalar := by simpa [Ty.isScalar] using h
  simp [Ty.isStaticArray, hshape]

lemma Ty.not_static_of_convertsTo {source target : Ty}
    (h : source.convertsTo target types = true) (hs : source.isStaticArray = false) :
    target.isStaticArray = false := by
  refine Bool.eq_false_iff.2 fun ht => ?_
  obtain ⟨dims, hdims⟩ : ∃ dims, target.shape = .static dims := by
    cases hshape : target.shape <;> simp [Ty.isStaticArray, hshape] at ht ⊢
  unfold Ty.convertsTo at h
  by_cases heq : source.withoutConst = target.withoutConst
  · have hshape : source.shape = .static dims := (congrArg Ty.shape heq).trans hdims
    simp [Ty.isStaticArray, hshape] at hs
  · simp [heq, Ty.isHandle, Ty.isPointer, Ty.isDynamicArray, Ty.isScalar, hdims, Ty.isAnyString,
      Ty.isOldString, Ty.isStringPointer, Ty.isInteger] at h

def Argument.Behind (start : Nat) : Argument → Prop
  | .tokens stretch => start < stretch.start
  | _ => True

namespace Gen.Safety

variable {α : Type} {m : Mode} {base : State} {n p start number : Nat} {parts : Parts}
  {place : Place} {ty source target : Ty} {o : Operand} {id : FuncId} {f : FuncDef}
  {params : List Param} {given : List Argument} {object : Option Place} {use : AttributeUse}
  {fault : Fault}

structure Lexical (m : Mode) : Prop where
  closed : m.c.tokens.Sealed
  words : m.strict → ∀ i, (m.c.tokens.get i).kind = .identifier →
    ':' ∉ (m.c.tokens.get i).lexeme.toList

structure Ground (m : Mode) (base : State) : Prop extends Lexical m where
  symbols : m.strict → base.symbols.Ranged
  function? : m.strict → ∀ id ∈ base.function?, id.index < base.symbols.functions.size

structure Fit (m : Mode) (base : State) : Prop extends Ground m base where
  scope : m.strict → base.scope.Proper

def Gives (m : Mode) (base : State) (start p : Nat) (o : Operand) (q : Nat) : Prop :=
  m.c.tokens.Nested p q ∧ (m.strict → o.Fits base.symbols start)

def Reliable (m : Mode) (base : State) (start : Nat) (parts : Parts) : Prop :=
  ∀ {part n p}, (m.strict → start < p) → Calmly m base n p (parts part) (Gives m base start p)

def Loaded (m : Mode) (p : Nat) (ty : Ty) (q : Nat) : Prop :=
  (m.strict → ty.isStaticArray = false) ∧ q = p

lemma calmly_functionAt (h : m.strict → id.index < base.symbols.functions.size) :
    Calmly m base n p (functionAt id) fun f q =>
      base.symbols.functions[id.index]? = some f ∧ q = p :=
  .getSymbols (sure_orFail_of_isSome fun hs => by simp [h hs])

lemma calmly_globalAt {id : GlobalId} (h : m.strict → id.index < base.symbols.globals.size) :
    Calmly m base n p (globalAt id) fun v q => base.symbols.globals[id.index]? = some v ∧ q = p :=
  .getSymbols (sure_orFail_of_isSome fun hs => by simp [h hs])

lemma calmly_currentFunction? (hf : Fit m base) :
    Calmly m base n p currentFunction? fun f? q =>
      f? = base.function?.map base.symbols.function ∧ q = p := by
  refine .get fun s hs => ?_
  rw [hs.function?]
  cases hid : base.function? with
  | none => exact .ret ⟨rfl, rfl⟩
  | some id =>
    have hrun : Calmly m base n p (some <$> functionAt id) fun f? q =>
        f? = some (base.symbols.function id) ∧ q = p :=
      .map ((calmly_functionAt fun h => hf.function? h id hid).mono fun h =>
        ⟨by rw [Symbols.function_eq h.1], h.2⟩)
    exact hrun

lemma calmly_currentStruct? (hf : Fit m base) :
    Calmly m base n p currentStruct? fun struct q =>
      struct = (base.function?.map base.symbols.function).bind (·.structOf) ∧ q = p :=
  (calmly_currentFunction? hf).with fun _ h => .ret ⟨by rw [h], rfl⟩

lemma calmly_hasThis (hf : Fit m base) :
    Calmly m base n p hasThis fun b q =>
      b = (base.function?.map base.symbols.function).any (·.needsObject) ∧ q = p :=
  (calmly_currentFunction? hf).with fun _ h => .ret ⟨by rw [h], rfl⟩

lemma calmly_failConversion {Q : α → Nat → Prop} :
    Calmly m base n p (failConversion source target) Q :=
  sure_textOf.then <| sure_textOf.then <| .fail nofun

lemma calmly_emitConversion : Quiet m base n p (emitConversion source target) :=
  .getTypes (.ite calmly_emitRegs <| .ret rfl)

lemma calmly_convertAx : Calmly m base n p (convertAx source target) fun _ q =>
    source.convertsTo target base.symbols.types = true ∧ q = p := by
  refine .unless nofun <| Sure.getTypes (.dite (fun _ => ?_) fun h => ?_)
  · exact Sure.bind (Q := fun _ _ => False) calmly_failConversion fun _ _ => False.elim
  · exact calmly_emitConversion.mono fun hq => ⟨by simpa using h, hq⟩

lemma calmly_convertAxForStore : Quiet m base n p (convertAxForStore source target) := by
  refine .unless nofun <| Sure.getTypes (.ite ?_ calmly_emitConversion)
  exact sure_textOf.then <| sure_textOf.then <| .fail_bind nofun

lemma calmly_checkCondition : Quiet m base n p (checkCondition ty) :=
  .ite (sure_textOf.then <| .fail nofun) <| .ret rfl

lemma not_static_select {lhs rhs : Ty} {r : Opcode × Ty}
    (h : op.select lhs rhs types = .ok r) : r.2.isStaticArray = false := by
  unfold BinaryOp.select at h
  repeat' split at h
  all_goals cases h
  all_goals rfl

lemma calmly_selectOpcode {lhs rhs : Ty} :
    Calmly m base n p (selectOpcode op lhs rhs) fun r q => r.2.isStaticArray = false ∧ q = p := by
  refine .getTypes ?_
  cases h : op.select lhs rhs base.symbols.types with
  | ok r => exact .ret ⟨not_static_select h, rfl⟩
  | error fault => cases fault <;> first | exact .fail nofun | exact calmly_failConversion

lemma calmly_addToMar {bytes : Int32} : Quiet m base n p (addToMar bytes) :=
  .ite calmly_emit <| .ret rfl

lemma calmly_loadAddress (h : m.strict → place.InRange base.symbols) :
    Quiet m base n p (loadAddress place) := by
  obtain ⟨anchor, component⟩ := place
  cases anchor with
  | global offset => exact calmly_litToReg.then calmly_fixupLast
  | «local» offset => exact calmly_loadLocal
  | imported id =>
    exact (calmly_globalAt fun hs => h hs id rfl).with fun _ _ => calmly_importToReg.then
      calmly_addToMar
  | this => exact calmly_emitRegs.then <| calmly_emit.then calmly_addToMar
  | mar => exact calmly_addToMar

lemma calmly_readAx : Quiet m base n p (readAx ty) :=
  .getTypes calmly_emitRegs

lemma calmly_writeAx : Quiet m base n p (writeAx ty) :=
  .getTypes calmly_emitRegs

lemma calmly_copyString : Quiet m base n p copyString := by
  refine calmly_emitRegs.then <| calmly_emitRegs.then <| calmly_litToReg.then <|
    .codeSize fun _ _ => calmly_emitRegs.then <|
    calmly_emitRegs.then <| calmly_emitRegs.then <| calmly_emitRegs.then <|
    .jump fun j n' hj _ => ?_
  exact calmly_emit.then <| calmly_emit.then <| calmly_emit.then <|
    calmly_emitRegs.then <| calmly_jumpTo.then <| calmly_emitRegs.then <|
    calmly_emitRegs.then <| (calmly_landHere hj).then calmly_clobberAx

lemma kind_ne_of_defaultCells (h : defaultCells number params = .error fault) :
    fault.kind ≠ .internal := by
  induction params generalizing number with
  | nil => cases h
  | cons param params ih =>
    rw [defaultCells] at h
    split at h
    · cases hrest : defaultCells (number + 1) params with
      | ok cells =>
        rw [hrest] at h
        cases h
      | error fault' =>
        rw [hrest] at h
        cases h
        exact ih hrest
    · cases h
      nofun

lemma kind_ne_of_matchCells (h : matchCells number params given = .error fault) :
    fault.kind ≠ .internal := by
  induction given generalizing number params with
  | nil => cases params <;> exact kind_ne_of_defaultCells h
  | cons a given ih =>
    cases params with
    | nil => cases h
    | cons param params =>
      rw [matchCells] at h
      cases hrest : matchCells (number + 1) params given with
      | ok cells =>
        rw [hrest] at h
        cases h
      | error fault' =>
        rw [hrest] at h
        cases h
        exact ih hrest

lemma calmly_getCells :
    Calmly m base n p (getCells f given) fun cells q => f.cells given = .ok cells ∧ q = p := by
  unfold getCells
  cases h : f.cells given with
  | ok cells => exact .ret ⟨rfl, rfl⟩
  | error fault =>
    refine .fail ?_
    rw [FuncDef.cells] at h
    split at h
    · cases h
      nofun
    · exact kind_ne_of_matchCells h

lemma calmly_loadDefault {value : Default} : Quiet m base n p (loadDefault value) := by
  cases value with
  | string bytes => exact calmly_stringToAx.then <| .ret rfl
  | _ => exact calmly_litToReg.then <| .ret rfl

lemma calmly_loadArgument (hr : Reliable m base start parts) {a : Argument}
    (ha : m.strict → a.Behind start) :
    Calmly m base n p (loadArgument parts a) fun _ _ => True := by
  cases a with
  | tokens stretch => exact .setPos ((hr ha).bind fun _ _ _ => .ret trivial)
  | inAx ty => exact .ret trivial
  | default value => exact calmly_loadDefault.mono fun _ => trivial

lemma calmly_pushCell (hr : Reliable m base start parts) {external : Bool} {c : Cell}
    (hc : m.strict → c.argument.Behind start) :
    Calmly m base n p (pushCell parts external c) fun _ _ => True := by
  have hpush {p} : Calmly m base n p (if external then emitRegs .pushReal [.ax] else pushReg .ax)
      fun _ _ => True :=
    .ite (calmly_emitRegs.mono fun _ => trivial) <| calmly_pushReg.mono fun _ => trivial
  refine (calmly_loadArgument hr hc).bind fun ty q _ => ?_
  cases c.ty? with
  | none => exact .unless nofun hpush
  | some target => exact calmly_convertAx.with fun _ _ => hpush

/-! ## Calls -/

lemma calmly_emitCallInstruction (hid : m.strict → id.index < base.symbols.functions.size) :
    Quiet m base n p (emitCallInstruction id f count) := by
  have hcall {n} : Quiet m base n p (do emitRegs .call [.ax]; release (count * cell)) :=
    calmly_emitRegs.then calmly_release
  refine .ite ?_ ?_
  · exact calmly_emit.then <| calmly_importToReg.then <| calmly_emitRegs.then <|
      .ite calmly_emit <| .ret rfl
  · refine .litToReg fun n' hn' _ => calmly_fixupLast.then <| .ite ?_ hcall
    exact (calmly_noteCall hn' hid).then hcall

lemma calmly_saveObject (hobject : m.strict → f.needsObject = true → object.isSome = true)
    (hplace : m.strict → ∀ place ∈ object, place.InRange base.symbols) :
    Calmly m base n p (saveObject f object) fun saved q =>
      (∀ k ∈ saved, n ≤ k.codeSize) ∧ q = p := by
  refine .dite (fun hn => ?_) fun _ => .ret ⟨by simp, rfl⟩
  refine (sure_orFail_of_isSome fun hs => hobject hs hn).with fun place hp => ?_
  refine (calmly_loadAddress fun hs => hplace hs place hp).then <| .checkpoint fun k hk => ?_
  exact calmly_pushReg.then <| .ret ⟨by simpa using hk, rfl⟩

lemma calmly_passObject {saved : Checkpoint} (h : n ≤ saved.codeSize) :
    Quiet m base n p (passObject saved f count) := by
  refine .ite ?_ ?_
  · exact (calmly_restore h).then <| calmly_adjustStack.then calmly_emitRegs
  · exact calmly_emit.then <| calmly_emitRegs.then calmly_emitRegs

lemma calmly_callWithCells (hr : Reliable m base start parts)
    (hid : m.strict → id.index < base.symbols.functions.size)
    (hobject : m.strict → f.needsObject = true → object.isSome = true)
    (hplace : m.strict → ∀ place ∈ object, place.InRange base.symbols)
    (hcells : m.strict → ∀ c ∈ cells, c.argument.Behind start) :
    Calmly m base n p (callWithCells parts id f object cells) fun _ _ => True := by
  have hpush {p} : Calmly m base n p (cells.reverse.forM (pushCell parts f.isExternal))
      fun _ _ => True :=
    sure_forM (fun c hc _ _ => calmly_pushCell hr fun hs => hcells hs c (List.mem_reverse.1 hc))
      trivial
  refine (calmly_saveObject hobject hplace).with fun saved hsaved => ?_
  cases saved with
  | none =>
    exact hpush.bind fun _ _ _ => (calmly_emitCallInstruction hid).mono fun _ => trivial
  | some k =>
    exact hpush.bind fun _ _ _ => (calmly_passObject (hsaved k rfl)).then <|
      (calmly_emitCallInstruction hid).then <| .ite
        (calmly_popReg.mono fun _ => trivial) <| .ret trivial

lemma calmly_keepingThis (hf : Fit m base) {call : Gen Unit}
    (h : ∀ {p}, Calmly m base n p call fun _ _ => True) :
    Calmly m base n p (keepingThis f call) fun _ _ => True :=
  (calmly_hasThis hf).with fun _ _ => .ite (calmly_pushReg.then <|
    h.bind fun _ _ _ => calmly_popReg.mono fun _ => trivial) h

lemma behind_of_matchCells (h : matchCells number params given = .ok cells)
    (hgiven : ∀ a ∈ given, a.Behind start) : ∀ c ∈ cells, c.argument.Behind start := by
  have hdefault {number : Nat} {params : List Param} {cells : List Cell}
      (h : defaultCells number params = .ok cells) : ∀ c ∈ cells, c.argument.Behind start := by
    induction params generalizing number cells with
    | nil =>
      cases h
      simp
    | cons param params ih =>
      rw [defaultCells] at h
      split at h
      · obtain ⟨rest, hrest, rfl⟩ := map_eq_ok_iff.1 h
        exact List.forall_mem_cons.2 ⟨trivial, ih hrest⟩
      · cases h
  induction given generalizing number params cells with
  | nil => cases params <;> exact hdefault h
  | cons a given ih =>
    obtain ⟨ha, hgiven⟩ := List.forall_mem_cons.1 hgiven
    cases params with
    | nil =>
      cases h
      simpa using ⟨ha, hgiven⟩
    | cons param params =>
      obtain ⟨rest, hrest, rfl⟩ := map_eq_ok_iff.1 h
      exact List.forall_mem_cons.2 ⟨ha, ih hrest hgiven⟩

variable (hf : Fit m base) (hr : Reliable m base start parts)
include hf hr

lemma calmly_emitCall (hid : m.strict → base.symbols.Callable id (object.isSome = true))
    (hplace : m.strict → ∀ place ∈ object, place.InRange base.symbols)
    (hgiven : m.strict → ∀ a ∈ given, a.Behind start) :
    Calmly m base n p (emitCall parts id object given) fun o q =>
      (∀ start, m.strict → o.Fits base.symbols start) ∧ q = p := by
  refine .getPos ((calmly_functionAt fun hs => (hid hs).lt_size).with fun f hfunc => ?_)
  refine calmly_getCells.with fun cells hcells => Sure.then
    (calmly_modify fun _ => ⟨rfl, rfl, rfl, rfl, rfl, le_rfl, rfl⟩) @fun _ => ?_
  have hobject (hs : m.strict) (hn : f.needsObject = true) : object.isSome = true := by
    obtain ⟨g, hg, hr⟩ := hid hs
    obtain rfl : f = g := Option.some.inj (hfunc.symm.trans hg)
    exact hr hn
  have hbehind (hs : m.strict) : ∀ c ∈ cells, c.argument.Behind start := by
    rw [FuncDef.cells] at hcells
    split at hcells
    · cases hcells
    · exact behind_of_matchCells hcells (hgiven hs)
  refine (calmly_keepingThis hf (calmly_callWithCells hr (fun hs => (hid hs).lt_size) hobject hplace
    hbehind)).bind fun _ _ _ => calmly_clobberAx.then <| .setPos (.ret ⟨fun _ hs => ?_, rfl⟩)
  exact Operand.fits_inAx ((hf.symbols hs).functions f (Array.mem_of_getElem? hfunc)).result

omit hf hr in
lemma behind_indexArguments (h : use.Fits base.symbols start) :
    ∀ a ∈ indexArguments use, a.Behind start := by
  intro a ha
  obtain ⟨stretch, hs, rfl⟩ : ∃ stretch, use.index = some stretch ∧ Argument.tokens stretch = a := by
    simpa [indexArguments] using ha
  exact h.index stretch hs

lemma calmly_getAttribute (h : m.strict → use.Fits base.symbols start) :
    Quiet m base n p (getAttribute parts use) :=
  (calmly_emitCall hf hr (fun hs => (h hs).getter) (fun hs => (h hs).object) fun hs =>
    behind_indexArguments (h hs)).with fun _ _ => .ret rfl

lemma calmly_setAttribute (h : m.strict → use.Fits base.symbols start) :
    Quiet m base n p (setAttribute parts use ty) := by
  refine (sure_orFail (by nofun)).with fun setter hsetter => ?_
  refine (calmly_emitCall hf hr (fun hs => (h hs).setter setter hsetter) (fun hs => (h hs).object)
    fun hs => ?_).with fun _ _ => .ret rfl
  exact List.forall_mem_append.2 ⟨behind_indexArguments (h hs), List.forall_mem_singleton.2 trivial⟩

omit hf hr in
lemma calmly_loadPlace (h : m.strict → place.InRange base.symbols) :
    Calmly m base n p (loadPlace place ty) (Loaded m p) := by
  refine .require nofun fun hty => .ite ?_ ?_
  · exact Sure.getTypes (.unless nofun <| (calmly_loadAddress h).then <|
      calmly_emitRegs.then <| .ret ⟨fun _ => by simpa [Ty.isStaticArray] using hty, rfl⟩)
  · have hend : Loaded m p ty p := ⟨fun _ => by simpa using hty, rfl⟩
    exact (calmly_loadAddress h).then <| .ite (calmly_emitRegs.then <| .ret hend) <|
        calmly_readAx.then <| .ret hend

lemma calmly_loadToAx (ho : m.strict → o.Fits base.symbols start) :
    Calmly m base n p (loadToAx parts o) (Loaded m p) := by
  have hend {ty : Ty} (hty : m.strict → ty.isStaticArray = false) :
      Calmly m base n p (do clobberAx; return ty) (Loaded m p) :=
    calmly_clobberAx.then <| .ret ⟨hty, rfl⟩
  have hvalue (h : ∀ place, o.value ≠ .stored (.memory place)) (hs : m.strict) :
      o.ty.isStaticArray = false :=
    (ho hs).not_static h
  unfold loadToAx
  cases hv : o.value with
  | const value => exact calmly_litToReg.then <| hend (hvalue (by simp [hv]))
  | ax => exact hend (hvalue (by simp [hv]))
  | this => exact calmly_emitRegs.then <| hend (hvalue (by simp [hv]))
  | stored target =>
    have hfits (hs : m.strict) := (ho hs).stored target hv
    cases target with
    | memory place => exact (calmly_loadPlace hfits).with fun _ hty => hend hty
    | «attribute» use =>
      exact (calmly_getAttribute hf hr hfits).then <| hend (hvalue (by simp [hv]))

lemma calmly_partToAx {part : Part}
    (hp : m.strict → start < p) : Calmly m base n p (partToAx parts part) fun ty q =>
      m.c.tokens.Nested p q ∧ (m.strict → ty.isStaticArray = false) :=
  (hr hp).bind fun _ _ ho => (calmly_loadToAx hf hr ho.2).mono fun h => ⟨h.2 ▸ ho.1, h.1⟩

end Gen.Safety
end AdventureScript
