import Mathlib
import AdventureScript.Proofs.Runs
import AdventureScript.Proofs.Scan.Marker

/-!
Integer literals: a number in the range of `int`, written in decimal, is what the program that
returns it returns, and a number outside of it is refused.
-/
namespace AdventureScript

namespace Gen

/-- The step `x` comes to the step `y` in the state `t` and depends on it: if `y` fails, so does
`x`, and if `y` ends with `b` in the state `t'`, then `x` ends with `a` in the state `s'`. -/
structure Reaches {α β : Type} (x : Gen α) (c : Context) (s : State) (y : Gen β) (t : State) (b : β)
    (t' : State) (a : α) (s' : State) : Prop where
  fails : ∀ e, y c t = .error e → x c s = .error e
  ends : Runs y c t b t' → Runs x c s a s'

namespace Reaches

variable {α β γ : Type} {x : Gen α} {y : Gen β} {f : α → Gen γ} {c : Context}
  {s s' t t' u : State} {a : α} {b : β} {d : γ}

lemma refl : Reaches y c t y t b t' b t' :=
  ⟨fun _ h => h, fun h => h⟩

lemma after (h : Runs x c s a u) (h' : Reaches (f a) c u y t b t' d s') :
    Reaches (x >>= f) c s y t b t' d s' := by
  refine ⟨fun e he => ?_, fun hy => h.bind (h'.ends hy)⟩
  simp only [Bind.bind, ReaderT.bind, StateT.bind, Except.bind]
  rw [show x c s = _ from h]
  exact h'.fails e he

lemma bind (h : Reaches x c s y t b t' a u) (h' : Runs (f a) c u d s') :
    Reaches (x >>= f) c s y t b t' d s' := by
  refine ⟨fun e he => ?_, fun hy => (h.ends hy).bind h'⟩
  simp only [Bind.bind, ReaderT.bind, StateT.bind, Except.bind]
  rw [h.fails e he]

end Reaches
end Gen

/-! ## The program around a literal -/

/-- A function that returns a number: `n`, written with `digits`, or the negative of it. Its tokens
may stand anywhere. -/
structure Literal where
  negative : Bool
  n : Nat
  digits : String
  span : Nat → Span

namespace Literal

open Gen

def words (l : Literal) : List (Token.Kind × String) :=
  [(.keyword .kwInt, "int"), (.identifier, "f"), (.symbol .leftParen, "("),
    (.symbol .rightParen, ")"), (.symbol .leftBrace, "\x7b"), (.keyword .kwReturn, "return")] ++
  (if l.negative then [(.symbol .minus, "-")] else []) ++
  [(.int l.n, l.digits), (.symbol .semicolon, ";"), (.symbol .rightBrace, "\x7d")]

def stream (l : Literal) : Stream where
  body := (l.words.zipIdx.map fun w => ⟨w.1.1, w.1.2, l.span w.2, 0⟩).toArray
  last := ⟨.endOfInput, "", l.span l.words.length, 0⟩
  sections := #[""]

def context (l : Literal) (options : Options) : Context :=
  ⟨l.stream, { options with lineNumbers := false }⟩

def behind (l : Literal) : Nat :=
  if l.negative then 8 else 7

def outside (pos : Nat) : State where
  pos
  script := { sections := #[⟨"", 0⟩] }
  sectionIndex? := some 0

def function (l : Literal) (hasBody : Bool) : FuncDef :=
  { name := "f", returnType := .int, line := (l.span 1).line, hasBody
    codeOffset := if hasBody then some 0 else none }

def declared (l : Literal) (hasBody : Bool) (pos : Nat) : State :=
  { outside pos with
    symbols := { functions := #[l.function hasBody], names := [("f", .function ⟨0⟩)] } }

def inBody (l : Literal) (pos : Nat) (code : Array Int32) (lastOp : Nat) : State :=
  { l.declared true pos with
    script := { sections := #[⟨"", 0⟩], code, lastOp := some lastOp }
    function? := some ⟨0⟩
    scope := { blocks := [⟨0, []⟩, ⟨0, []⟩] } }

def started (l : Literal) (pos : Nat) : State :=
  l.inBody pos #[38, 0] 0

def wrote (l : Literal) (pos : Nat) (code : Array Int32) (lastOp : Nat) : State :=
  { l.inBody pos code lastOp with axClobbered := true }

def compiled (l : Literal) (v : Int32) : State :=
  { l.declared true (l.behind + 2) with
    script := { sections := #[⟨"", 0⟩], code := #[38, 0, 6, 3, v, 5], lastOp := some 5 }
    axClobbered := true
    bodies := #[⟨⟨0⟩, ⟨4, l.behind + 2⟩, 0, 6, 0, 0⟩] }

variable {l : Literal} {options : Options} {v : Int32}

/-- A step that waits for the expression in the `return` statement, the value of which is `v`. -/
abbrev Awaits {α : Type} (l : Literal) (options : Options) (v : Int32) (x : Gen α) (s : State)
    (a : α) (s' : State) : Prop :=
  Reaches x (l.context options) s expression (l.started 6) (.constant (.int v) .int)
    (l.started l.behind) a s'

lemma awaits_expressionToAx : l.Awaits options v expressionToAx (l.started 6) .int
    (l.wrote l.behind #[38, 0, 6, 3, v] 2) := by
  rcases l with ⟨_ | _, _, _, _⟩ <;> exact .bind .refl rfl

lemma awaits_compileReturned : l.Awaits options v (compileReturned .int) (l.started 6) ()
    (l.wrote (l.behind + 1) #[38, 0, 6, 3, v] 2) := by
  rcases l with ⟨_ | _, _, _, _⟩ <;>
    exact .after rfl <| .bind awaits_expressionToAx <| .bind rfl <| .bind rfl (by cbv)

lemma awaits_statement : l.Awaits options v statement (l.started 5) ()
    (l.wrote (l.behind + 1) #[38, 0, 6, 3, v, 5] 5) := by
  have h : l.Awaits options v compileReturn (l.started 5) ()
      (l.wrote (l.behind + 1) #[38, 0, 6, 3, v, 5] 5) := by
    rcases l with ⟨_ | _, _, _, _⟩ <;>
      exact .after rfl <| .after rfl <| .after rfl <| .bind awaits_compileReturned rfl
  exact .after rfl <| .after rfl <| .after rfl <| .after rfl h

lemma awaits_compileUntilBrace : l.Awaits options v
    (compileUntilBrace statement (.endInBody "f")) (l.started 5) ()
    (l.wrote (l.behind + 2) #[38, 0, 6, 3, v, 5] 5) := by
  rcases l with ⟨_ | _, _, _, _⟩ <;>
    exact .bind (.after rfl <| .bind (.bind (.after rfl <| .after rfl <|
      .bind awaits_statement rfl) rfl) rfl) rfl

lemma awaits_compileBody : l.Awaits options v (compileBody ⟨0⟩) (l.declared false 4) ()
    (l.compiled v) := by
  -- The calls that wait for the function are searched by a loop that does not unfold.
  have hstart : Runs (startFunction ⟨0⟩) (l.context options) (l.declared false 4)
      (l.function true) { l.started 4 with scope := {} } := by
    cbv
  rcases l with ⟨_ | _, _, _, _⟩ <;>
    exact .after rfl <| .after rfl <| .after hstart <| .after rfl <| .after rfl <| .after rfl <|
      .after rfl <| .after rfl <| .bind awaits_compileUntilBrace rfl

lemma awaits_compileDeclaration : l.Awaits options v compileDeclaration (outside 0) ()
    (l.compiled v) := by
  have h : l.Awaits options v (compileFunction {} .int "f" none) (outside 2) ()
      (l.compiled v) := by
    rcases l with ⟨_ | _, _, _, _⟩ <;>
      exact .after rfl <| .after rfl <| .after rfl <| .after rfl <| .after rfl <| .after rfl <|
        .after rfl awaits_compileBody
  have htyped : l.Awaits options v (compileTyped {}) (outside 0) () (l.compiled v) := by
    rcases l with ⟨_ | _, _, _, _⟩ <;>
      exact .after rfl <| .bind (.after rfl <| .bind (.after rfl <| .after rfl <| .after rfl <|
        .bind h rfl) rfl) rfl
  rcases l with ⟨_ | _, _, _, _⟩ <;>
    exact .after rfl <| .after rfl <| .after rfl <| .after rfl <| .after rfl htyped

lemma runs_finish {c : Context} : Runs finish c (l.compiled v) ()
    { l.compiled v with
      script := { (l.compiled v).script with
        exports := if c.options.exportAll then #[⟨"f$0", 16777216⟩] else #[] } } := by
  obtain ⟨_, exportAll, _, _, _, _, _, _⟩ := c
  cases exportAll <;> cbv

lemma awaits_compileProgram :
    ∃ s', l.Awaits options v compileProgram {} () s' ∧
      s'.script.code = #[38, 0, 6, 3, v, 5] ∧ s'.script.fixups = #[] := by
  have h : l.Awaits options v compileDeclarations {} () (l.compiled v) := by
    rcases l with ⟨_ | _, _, _, _⟩ <;>
      exact .after rfl <| .bind (.bind (.after rfl <| .after rfl <|
        .bind awaits_compileDeclaration rfl) rfl) rfl
  exact ⟨_, .bind h runs_finish, rfl, rfl⟩

/-! ## The literal -/

abbrev narrowed (l : Literal) : Gen Int32 :=
  orFail (narrow? l.n) (.literalOutOfRange l.digits)

lemma runs_narrowed {c : Context} {s : State} (hn : l.n ≤ 2147483647) :
    Runs l.narrowed c s (Int32.ofInt l.n) s := by
  simp [narrow?, show (-2147483648 : Int) ≤ l.n ∧ (l.n : Int) ≤ 2147483647 by omega]

lemma reaches_narrowed (hl : l.negative = false) :
    Reaches expression (l.context options) (l.started 6) l.narrowed (l.started 7) v (l.started 7)
      (.constant (.int v) .int) (l.started l.behind) := by
  obtain ⟨negative, _, _, _⟩ := l
  obtain rfl : negative = false := hl
  exact .after rfl <| .after rfl <| .bind
    (.after rfl <| .after rfl <| .after rfl <| .bind .refl rfl) rfl

lemma reaches_narrowed_negative (hl : l.negative = true) (hn : l.n ≠ 2147483648)
    (hv : foldUnary .neg (.int v) = .ok (.int (-v))) :
    Reaches expression (l.context options) (l.started 6) l.narrowed (l.started 8) v (l.started 8)
      (.constant (.int (-v)) .int) (l.started l.behind) := by
  obtain ⟨negative, n, digits, span⟩ := l
  obtain rfl : negative = true := hl
  set l : Literal := ⟨true, n, digits, span⟩
  have hkind : Runs (checkKind (.int 2147483648)) (l.context options) (l.started 7) false
      (l.started 7) := by
    have hget : ((l.context options).tokens.get (l.started 7).pos).kind = .int n := rfl
    simpa [hget] using hn
  have hfold : Runs (foldUnaryOperand .neg (.int v) .int) (l.context options) (l.started 8)
      (.constant (.int (-v)) .int) (l.started 8) := by
    have hinteger : Ty.int.isInteger = true := rfl
    have hfloat : Ty.int.isFloat = false := rfl
    simp [foldUnaryOperand, hv, arithmeticType, hinteger, hfloat]
  exact .after rfl <| .after rfl <| .bind (.after rfl <| .after rfl <| .after hkind <| .after rfl <|
    .bind (.after rfl <| .after rfl <| .after rfl <| .after rfl <| .after rfl <|
      .bind .refl rfl) hfold) rfl

lemma runs_expression_least (hl : l.negative = true) (hn : l.n = 2147483648) :
    Runs expression (l.context options) (l.started 6) (.constant (.int Int32.minValue) .int)
      (l.started l.behind) := by
  obtain ⟨negative, n, _, _⟩ := l
  obtain ⟨rfl, rfl⟩ : negative = true ∧ n = 2147483648 := ⟨hl, hn⟩
  rfl

lemma foldUnary_neg {n : Nat} (hn : n ≤ 2147483647) :
    foldUnary .neg (.int (Int32.ofInt n)) = .ok (.int (-Int32.ofInt n)) := by
  have htoInt : (Int32.ofInt n).toInt = n :=
    Int32.toInt_ofInt_of_le (by simp) (by simp; omega)
  simp only [foldUnary, htoInt, narrow?, Int32.ofInt_neg,
    show (-2147483648 : Int) ≤ -n ∧ -(n : Int) ≤ 2147483647 by omega, and_self, if_true]

lemma runs_expression {value : Int} (hvalue : value = if l.negative then -(l.n : Int) else l.n)
    (h : -2147483648 ≤ value ∧ value ≤ 2147483647) :
    Runs expression (l.context options) (l.started 6)
      (.constant (.int (Int32.ofInt value)) .int) (l.started l.behind) := by
  cases hl : l.negative with
  | false =>
    obtain rfl : value = l.n := by simpa [hl] using hvalue
    exact (reaches_narrowed hl).ends (runs_narrowed (by omega))
  | true =>
    obtain rfl : value = -l.n := by simpa [hl] using hvalue
    obtain hn | hn := eq_or_ne l.n 2147483648
    · rw [hn]
      exact runs_expression_least hl hn
    · have hle : l.n ≤ 2147483647 := by omega
      rw [Int32.ofInt_neg]
      exact (reaches_narrowed_negative hl hn (foldUnary_neg hle)).ends (runs_narrowed hle)

lemma result_compileTokens {value : Int}
    (hvalue : value = if l.negative then -(l.n : Int) else l.n)
    (h : -2147483648 ≤ value ∧ value ≤ 2147483647) :
    ∃ script, (compileTokens l.stream { options with lineNumbers := false }).result = .ok script ∧
      script.code = #[38, 0, 6, 3, Int32.ofInt value, 5] ∧ script.fixups = #[] := by
  obtain ⟨s', hprogram, hs'⟩ := awaits_compileProgram
  have hrun : Runs compileProgram (l.context options) {} () s' :=
    hprogram.ends (runs_expression hvalue h)
  refine ⟨s'.script, ?_, hs'⟩
  rw [compileTokens, show compileProgram ⟨l.stream, _⟩ _ = _ from hrun]

lemma result_compileTokens_error (hl : l.negative = false) (hn : l.n = 2147483648) :
    ∃ error, (compileTokens l.stream { options with lineNumbers := false }).result = .error error ∧
      error.kind = .lexical ∧ error.message = s!"Numeric literal '{l.digits}' is out of range" := by
  have hresult : ∀ e, compileProgram (l.context options) {} = .error e →
      (compileTokens l.stream { options with lineNumbers := false }).result = .error e.error := by
    intro e he
    rw [compileTokens, show compileProgram ⟨l.stream, _⟩ _ = _ from he]
    rfl
  obtain ⟨negative, n, _, _⟩ := l
  obtain rfl : n = 2147483648 := hn
  obtain ⟨s', hprogram, -⟩ := awaits_compileProgram (v := 0)
  exact ⟨_, hresult _ (hprogram.fails _ ((reaches_narrowed (v := 0) hl).fails _ rfl)), rfl, rfl⟩

end Literal

/-! ## The text of a literal -/

namespace Scan

variable {c : Char} {ds rest : List Char} {s : State} {negative : Bool} {n : Nat}

lemma numberExtent_digits (h : ∀ d ∈ ds, d.isDigit) (hc : c.isDigit) :
    numberExtent c (ds ++ ';' :: rest) = (ds.length, false) := by
  have hrun : digitRun (ds ++ ';' :: rest) = ds.length := by
    rw [digitRun, List.takeWhile_append_of_pos h]
    simp [List.takeWhile_cons_of_neg]
  have hne : c ≠ '.' := by
    rintro rfl
    exact absurd hc (by decide)
  simp [numberExtent, hrun, hne, fractionExtent, exponentExtent]

lemma item_digits (hc : c.isDigit) (h : ∀ d ∈ ds, d.isDigit) :
    item c (ds ++ ';' :: rest) = ⟨(numberKind (c :: ds) false).map .token, ds.length⟩ := by
  have hblank : isBlank c = false := by
    by_contra hblank
    simp [(not_blank (eq_true_of_ne_false hblank)).2.2.1] at hc
  have hne : c ≠ '/' ∧ c ≠ '"' ∧ c ≠ '\'' := by
    refine ⟨?_, ?_, ?_⟩ <;> rintro rfl <;> exact absurd hc (by decide)
  simp [item, hblank, hne, startsNumber, hc, number, numberExtent_digits h hc, Reading.map]

lemma item_minus (hc : c.isDigit) : item '-' (c :: rest) = .ok (.token (.symbol .minus)) 0 := by
  have hne : c ≠ '-' ∧ c ≠ '=' := by
    refine ⟨?_, ?_⟩ <;> rintro rfl <;> exact absurd hc (by decide)
  have hsymbol : symbol? '-' (c :: rest) = some (.minus, 0) := by
    simp [symbol?, hne]
  have hitem : item '-' (c :: rest) = (symbolToken '-' (c :: rest)).map .token := rfl
  rw [hitem]
  simp only [symbolToken, hsymbol]
  rfl

def returned : State where
  position := ⟨1, 18⟩
  opened := [⟨.leftBrace, 1, 0⟩]
  tokens := #[⟨.keyword .kwInt, "int", ⟨1, 1, 3⟩, 0⟩, ⟨.identifier, "f", ⟨1, 5, 1⟩, 0⟩,
    ⟨.symbol .leftParen, "(", ⟨1, 6, 1⟩, 0⟩, ⟨.symbol .rightParen, ")", ⟨1, 7, 1⟩, 0⟩,
    ⟨.symbol .leftBrace, "\x7b", ⟨1, 9, 1⟩, 0⟩, ⟨.keyword .kwReturn, "return", ⟨1, 11, 6⟩, 0⟩]

lemma run_returned {cs : List Char} :
    run {} ("int f() \x7b return ".toList ++ cs) = run returned cs := by
  change run _ (['i', 'n', 't', ' ', 'f', '(', ')', ' ', '\x7b', ' ', 'r', 'e', 't', 'u', 'r', 'n',
    ' '] ++ cs) = _
  refine (run_item rfl rfl).trans <| (run_item rfl rfl).trans <| (run_item rfl rfl).trans <|
    (run_item rfl rfl).trans <| (run_item rfl rfl).trans <| (run_item rfl rfl).trans <|
    (run_item rfl rfl).trans <| (run_item rfl rfl).trans <| (run_item rfl rfl).trans <|
    (run_blank rfl).trans ?_
  rfl

def signed (negative : Bool) : State :=
  if negative then returned.add (.token (.symbol .minus)) ['-'] returned.opened else returned

lemma run_signed (hc : c.isDigit) :
    run {} ("int f() \x7b return ".toList ++ ((if negative then ['-'] else []) ++ c :: rest)) =
      run (signed negative) (c :: rest) := by
  rw [run_returned]
  cases negative with
  | false => rfl
  | true => exact run_item (item_minus hc) rfl

lemma run_out_of_range (hc : c.isDigit) (h : ∀ d ∈ ds, d.isDigit) {f : Fault}
    (hkind : numberKind (c :: ds) false = .error f) :
    run s (c :: (ds ++ ';' :: rest)) = ⟨s, .error ⟨f, s.position.span (c :: ds)⟩⟩ := by
  rw [run, item_digits hc h, hkind]
  simp [Except.map]

def ended (negative : Bool) (n : Nat) (text : List Char) : State :=
  let number := (signed negative).add (.token (.int n)) text (signed negative).opened
  let mark := number.add (.token (.symbol .semicolon)) [';'] number.opened
  (mark.add .gap [' '] mark.opened).add (.token (.symbol .rightBrace)) ['\x7d'] []

lemma run_in_range (hc : c.isDigit) (h : ∀ d ∈ ds, d.isDigit)
    (hkind : numberKind (c :: ds) false = .ok (.int n)) :
    run (signed negative) (c :: (ds ++ [';', ' ', '\x7d'])) =
      ⟨ended negative n (c :: ds), (ended negative n (c :: ds)).close⟩ := by
  have hitem : item c (ds ++ [';', ' ', '\x7d']) = .ok (.token (.int n)) ds.length := by
    rw [item_digits hc h, hkind]
    rfl
  rw [run_item hitem rfl, List.take_left, List.drop_left]
  have hnil : ∀ s : State, run s [] = ⟨s, s.close⟩ := fun _ => by rw [run]
  cases negative <;>
    exact (run_item rfl rfl).trans <| (run_item rfl rfl).trans <| (run_item rfl rfl).trans (hnil _)

lemma exists_stream {text : List Char} :
    let s := ended negative n text
    ∃ span, ∃ last, s.close = .ok last ∧
      ⟨s.tokens, last, s.sections⟩ =
        Literal.stream ⟨negative, n, String.ofList text, span⟩ := by
  intro s
  refine ⟨fun i => (s.tokens[i]?.map (·.span)).getD (.point s.position.line s.position.col),
    ⟨.endOfInput, "", .point s.position.line s.position.col, 0⟩, ?_, ?_⟩ <;>
    cases negative <;> rfl

lemma tokens_returning {source : String} (hc : c.isDigit) (h : ∀ d ∈ ds, d.isDigit)
    (hsource : source.toList = "int f() \x7b return ".toList ++
      ((if negative then ['-'] else []) ++ c :: (ds ++ [';', ' ', '\x7d']))) :
    if digitsValue (c :: ds) ≤ greatestInt then
      ∃ span, tokens source = .ok
        (Literal.stream ⟨negative, digitsValue (c :: ds), String.ofList (c :: ds), span⟩)
    else
      ∃ error, tokens source = .error error ∧ error.kind = .lexical ∧
        error.message = s!"Numeric literal '{String.ofList (c :: ds)}' is out of range" := by
  have hscan : scan source = run (signed negative) (c :: (ds ++ [';', ' ', '\x7d'])) := by
    rw [scan, hsource, run_signed hc]
  split_ifs with hle
  · obtain ⟨span, last, hlast, hstream⟩ := @exists_stream negative (digitsValue (c :: ds)) (c :: ds)
    refine ⟨span, ?_⟩
    rw [tokens, hscan, run_in_range hc h (if_pos hle)]
    simp only [hlast, hstream]
  · rw [tokens, hscan, run_out_of_range hc h (if_neg hle)]
    exact ⟨_, rfl, rfl, rfl⟩

end Scan

lemma result_compile {cs : List Char} {value : Int} {source : String} {options : Options}
    (h : options.lineNumbers = false) (hne : cs ≠ []) (hdigits : ∀ d ∈ cs, d.isDigit)
    (hn : Scan.digitsValue cs = value.natAbs)
    (hsource : source.toList = "int f() \x7b return ".toList ++
      ((if decide (value < 0) then ['-'] else []) ++ (cs ++ [';', ' ', '\x7d']))) :
    if -2 ^ 31 ≤ value ∧ value ≤ 2 ^ 31 - 1 then
      ∃ script, (compile source options).result = .ok script ∧
        script.code.map Int32.toInt = #[38, 0, 6, 3, value, 5] ∧ script.fixups = #[]
    else
      ∃ error, (compile source options).result = .error error ∧ error.kind = .lexical ∧
        error.message = s!"Numeric literal '{String.ofList cs}' is out of range" := by
  obtain ⟨c, ds, rfl⟩ := List.exists_cons_of_ne_nil hne
  have htokens := Scan.tokens_returning (hdigits c List.mem_cons_self)
    (fun d hd => hdigits d (List.mem_cons_of_mem _ hd)) hsource
  rw [hn] at htokens
  by_cases hle : value.natAbs ≤ 2147483648
  · obtain ⟨span, hspan⟩ := (if_pos hle).mp htokens
    let l : Literal := ⟨value < 0, value.natAbs, String.ofList (c :: ds), span⟩
    have hcompile : compile source options =
        compileTokens l.stream { options with lineNumbers := false } := by
      simp only [compile, hspan, ← h]
      rfl
    rw [hcompile]
    split_ifs with hrange
    · have hvalue : value = if l.negative then -(l.n : Int) else l.n := by
        change value = if decide (value < 0) then -(value.natAbs : Int) else value.natAbs
        simp only [decide_eq_true_eq]
        omega
      have htoInt : (Int32.ofInt value).toInt = value :=
        Int32.toInt_ofInt_of_le (by simp; omega) (by simp; omega)
      obtain ⟨script, hscript, hcode, hfixups⟩ :=
        Literal.result_compileTokens hvalue (by omega)
      exact ⟨script, hscript, by simp [hcode, htoInt], hfixups⟩
    · exact Literal.result_compileTokens_error (decide_eq_false (by omega))
        (show value.natAbs = 2147483648 by omega)
  · obtain ⟨error, herror, hmessage⟩ := (if_neg hle).mp htokens
    rw [if_neg (by omega)]
    exact ⟨error, by simp only [compile, herror, Compilation.failed], hmessage⟩

/-- A number that an `int` can hold, written in decimal with any number of zeros in front, is the
number that is returned; any other number is refused with its digits. -/
theorem integer_literal_exact (value : Int) (zeros : Nat) (options : Options)
    (h : options.lineNumbers = false) :
    let digits := String.ofList (List.replicate zeros '0' ++ Nat.toDigits 10 value.natAbs)
    let text := if value < 0 then "-" ++ digits else digits
    let result := (compile ("int f() \x7b return " ++ text ++ "; \x7d") options).result
    if -2 ^ 31 ≤ value ∧ value ≤ 2 ^ 31 - 1 then
      ∃ script, result = .ok script ∧
        script.code.map Int32.toInt = #[38, 0, 6, 3, value, 5] ∧ script.fixups = #[]
    else
      ∃ error, result = .error error ∧ error.kind = .lexical ∧
        error.message = s!"Numeric literal '{digits}' is out of range" := by
  intro digits text
  apply result_compile h
  · simp [Nat.toDigits_ne_nil]
  · intro d hd
    rcases List.mem_append.1 hd with hd | hd
    · rw [List.eq_of_mem_replicate hd]
      rfl
    · exact Nat.isDigit_of_mem_toDigits (by decide) (by decide) hd
  · have hzeros : ∀ zeros ds, Scan.digitsValue (List.replicate zeros '0' ++ ds) =
        Scan.digitsValue ds := by
      intro zeros ds
      induction zeros with
      | zero => rfl
      | succ zeros ih => exact ih
    rw [hzeros]
    simp only [Scan.digitsValue, Nat.mul_comm _ 10]
    exact Nat.ofDigitChars_toDigits (by decide) (by decide)
  · simp only [text, digits]
    split <;> simp [*]

theorem integer_literal_exact_least :
    ({} : Options).lineNumbers = false ∧
      ∃ script, (compile "int f() \x7b return -002147483648; \x7d" {}).result = .ok script ∧
        script.code.map Int32.toInt = #[38, 0, 6, 3, -2147483648, 5] ∧ script.fixups = #[] := by
  have hdigits : String.ofList (Nat.toDigits 10 2147483648) = "2147483648" := by decide
  have h := integer_literal_exact (-2147483648) 2 {} rfl
  exact ⟨rfl, by simpa [hdigits] using h⟩

end AdventureScript
