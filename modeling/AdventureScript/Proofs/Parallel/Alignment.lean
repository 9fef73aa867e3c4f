import AdventureScript.Proofs.Parallel.Basic
import AdventureScript.Proofs.Tokens

/-!
Places in two token lists between which compiling an expression goes alike.
-/
namespace AdventureScript.Gen

variable {k : Pair} {p p' q q' n : Nat}

/-- Places of two token lists that belong together. Those within the same brackets have tokens
that are written alike, up to and including the bracket that closes. -/
structure Alignment (k : Pair) where
  Index : Type
  within : Index → Nat → Nat → Prop
  shift : Nat → Nat → Prop
  options : k.c'.options = k.c.options
  shift_of_within : ∀ {i p p'}, within i p p' → shift p p'
  lt_iff : ∀ {p p' q q'}, shift p p' → shift q q' → (p' < q' ↔ p < q)
  lt_size : ∀ {p p'}, shift p p' → p < k.c.tokens.size → p' < k.c'.tokens.size
  limit : k.c.tokens.size ≤ k.c'.tokens.size ∨ ∀ p p', shift p p' → p' ≤ k.c'.tokens.size
  copied : ∀ {i}, Copied k (within i)
  next : ∀ {i p p'}, within i p p' → (k.c.tokens.get p).kind.isOpener = false →
    (k.c.tokens.get p).kind.isCloser = false →
    within i (k.c.tokens.after p) (k.c'.tokens.after p')
  find : ∀ {i p p' stop}, within i p p' →
    within i (k.c.tokens.findAtDepthZero p stop) (k.c'.tokens.findAtDepthZero p' stop)
  enter : ∀ {i p p'}, within i p p' → (k.c.tokens.get p).kind.isOpener = true →
    ∃ j, within j (k.c.tokens.after p) (k.c'.tokens.after p') ∧
      ∀ {q q'}, within j q q' → (k.c.tokens.get q).kind.isCloser = true →
        within i (k.c.tokens.after q) (k.c'.tokens.after q')

namespace Alignment

variable {A : Alignment k} {i : A.Index} {P M : Nat → Nat → Prop} {mark : Symbol} {kind : Token.Kind}

lemma eq_iff (hp : A.shift p p') (hq : A.shift q q') : p' = q' ↔ p = q := by
  have := A.lt_iff hp hq
  have := A.lt_iff hq hp
  omega

def From (A : Alignment k) (i : A.Index) (n : Nat) : Nat → Nat → Prop :=
  fun p p' => A.within i p p' ∧ n ≤ p'

def Closes (A : Alignment k) (i : A.Index) (n : Nat) (P : Nat → Nat → Prop) : Prop :=
  ∀ {q q'}, A.From i n q q' → (k.c.tokens.get q).kind.isCloser = true →
    P (k.c.tokens.after q) (k.c'.tokens.after q')

def Inner (A : Alignment k) (P : Nat → Nat → Prop) : Nat → Nat → Prop :=
  fun p p' => ∃ i n, A.Closes i n P ∧ A.From i n p p'

def Opens (A : Alignment k) (P : Nat → Nat → Prop) : Nat → Nat → Prop :=
  fun p p' => A.Inner P (k.c.tokens.after p) (k.c'.tokens.after p')

lemma agree_inner {γ δ : Type} {W : γ → δ → Nat → Nat → Prop} {z : Gen γ} {z' : Gen δ}
    (h : ∀ i n, A.Closes i n P → Agree k (A.From i n) W z z') : Agree k (A.Inner P) W z z' :=
  .pull_exists fun i => .pull_exists fun n => .pull (h i n)

lemma Opens.mono (h : A.Opens P p p') (hP : ∀ {q q'}, p' < q' → P q q' → M q q') :
    A.Opens M p p' := by
  obtain ⟨i, m, hclose, hi, hm⟩ := h
  refine ⟨i, max m p', fun {q q'} hq hk => ?_, hi, ?_⟩
  · have hle : max m p' ≤ q' := hq.2
    have hne : (k.c'.tokens.get q').kind ≠ .endOfInput := by
      rw [(A.copied hq.1).kind]
      exact fun he => by simp [he, Token.Kind.isCloser] at hk
    exact hP (by rw [Stream.after_of_ne hne]; omega) (hclose ⟨hq.1, by omega⟩ hk)
  · have := @Stream.le_after k.c'.tokens p'
    omega

lemma after_of_symbol {tokens : Stream} (h : (tokens.get p).kind = .symbol mark) :
    tokens.after p = p + 1 :=
  Stream.after_of_ne (by simp [h])

lemma copied_from : Copied k (A.From i n) :=
  fun hp => A.copied hp.1

lemma sees_from : Sees k (A.From i n) kind :=
  copied_from.sees

lemma From.next (hp : A.From i n p p') (hk : (k.c.tokens.get p).kind = kind)
    (ho : kind.isOpener = false) (hc : kind.isCloser = false) :
    A.From i n (k.c.tokens.after p) (k.c'.tokens.after p') :=
  ⟨A.next hp.1 (hk ▸ ho) (hk ▸ hc), le_trans hp.2 Stream.le_after⟩

lemma From.step (hp : A.From i n p p') (hk : (k.c.tokens.get p).kind = .symbol mark)
    (ho : mark.isOpener = false) (hc : mark.isCloser = false) :
    A.From i (n + 1) (k.c.tokens.after p) (k.c'.tokens.after p') := by
  refine ⟨(hp.next hk ho hc).1, ?_⟩
  rw [after_of_symbol ((A.copied hp.1).kind.trans hk)]
  exact Nat.succ_le_succ hp.2

lemma From.opens (hp : A.From i n p p') (hk : (k.c.tokens.get p).kind = kind)
    (ho : kind.isOpener = true) : A.Opens (A.From i n) p p' := by
  obtain ⟨j, hj, hclose⟩ := A.enter hp.1 (hk ▸ ho)
  exact ⟨j, n, fun {q q'} hq hk => ⟨hclose hq.1 hk, le_trans hq.2 Stream.le_after⟩, hj,
    le_trans hp.2 Stream.le_after⟩

lemma agree_expect_mark (ho : mark.isOpener = false) (hc : mark.isCloser = false) :
    Agree k (A.From i n) (Any (A.From i n)) (expect mark) (expect mark) :=
  agree_expect sees_from fun hp hk => hp.next hk ho hc

lemma agree_expect_closer (h : A.Closes i n P) (hc : mark.isCloser = true) :
    Agree k (A.From i n) (Any P) (expect mark) (expect mark) :=
  agree_expect sees_from fun hp hk => h hp (by rw [hk]; exact hc)

/-! ## Parts of operands -/

def Named (k : Pair) (P : Nat → Nat → Prop) : Nat → Nat → Prop :=
  fun p p' => Twin (k.c.tokens.get p) (k.c'.tokens.get p') ∧
    ((k.c.tokens.get p).kind = .identifier → P (k.c.tokens.after p) (k.c'.tokens.after p'))

structure Suffixed (A : Alignment k) (P : Nat → Nat → Prop) : Prop where
  shift : ∀ {p p'}, P p p' → A.shift p p'
  sees : ∀ {mark}, mark = .dot ∨ mark = .leftBracket ∨ mark = .leftParen →
    Sees k P (.symbol mark)
  dot : ∀ {p p'}, P p p' → (k.c.tokens.get p).kind = .symbol .dot →
    Named k P (k.c.tokens.after p) (k.c'.tokens.after p')
  opens : ∀ {p p'}, P p p' → (k.c.tokens.get p).kind = .symbol .leftBracket ∨
    (k.c.tokens.get p).kind = .symbol .leftParen → A.Opens P p p'

lemma Suffixed.limit (h : Suffixed A P) : k.c.tokens.size ≤ k.c'.tokens.size ∨
    ∀ p p', P p p' → p' ≤ k.c'.tokens.size :=
  A.limit.imp_right fun hlimit p p' hp => hlimit p p' (h.shift hp)

lemma Suffixed.above (h : Suffixed A P) (n : Nat) : Suffixed A fun p p' => P p p' ∧ n ≤ p' where
  shift hp := h.shift hp.1
  sees hm := fun hp => h.sees hm hp.1
  dot hp hk := ⟨(h.dot hp.1 hk).1, fun hk' => ⟨(h.dot hp.1 hk).2 hk',
    le_trans hp.2 (le_trans Stream.le_after Stream.le_after)⟩⟩
  opens hp hk := (h.opens hp.1 hk).mono fun hlt hq => ⟨hq, le_of_lt (lt_of_le_of_lt hp.2 hlt)⟩

lemma suffixed_from : Suffixed A (A.From i n) where
  shift hp := A.shift_of_within hp.1
  sees _ := sees_from
  dot {p p'} hp hk := by
    have hq : A.From i n _ _ := hp.next hk rfl rfl
    exact ⟨A.copied hq.1, fun hk' => hq.next hk' rfl rfl⟩
  opens hp hk := by
    rcases hk with hk | hk <;> exact hp.opens hk rfl

/-- Places where an operand starts, those behind a name or behind parentheses in it, and those where
it ends. -/
structure Operands (A : Alignment k) (start suffix stop : Nat → Nat → Prop) : Prop where
  shift : ∀ {p p'}, start p p' → A.shift p p'
  copied : Copied k start
  literal : ∀ {p p'}, start p p' → (k.c.tokens.get p).kind.isLiteral = true ∨
    (k.c.tokens.get p).kind = .keyword .kwNull → stop (k.c.tokens.after p) (k.c'.tokens.after p')
  name : ∀ {p p'}, start p p' → (k.c.tokens.get p).kind = .identifier ∨
    (k.c.tokens.get p).kind = .keyword .kwThis →
    suffix (k.c.tokens.after p) (k.c'.tokens.after p')
  sign : ∀ {p p' mark}, start p p' → (k.c.tokens.get p).kind = .symbol mark →
    (UnaryOp.ofSymbol? mark).isSome = true → start (k.c.tokens.after p) (k.c'.tokens.after p')
  opens : ∀ {p p'}, start p p' → (k.c.tokens.get p).kind = .symbol .leftParen →
    A.Opens suffix p p'
  fresh : ∀ {p p'}, start p p' → (k.c.tokens.get p).kind = .keyword .kwNew →
    ∃ i n, A.From i n p p' ∧ ∀ {q q'}, A.From i n q q' → stop q q'
  suffixed : Suffixed A suffix
  stop : ∀ {p p'}, suffix p p' → (k.c.tokens.get p).kind ≠ .symbol .dot →
    (k.c.tokens.get p).kind ≠ .symbol .leftBracket → stop p p'

lemma operands_from : Operands A (A.From i n) (A.From i n) (A.From i n) where
  shift hp := A.shift_of_within hp.1
  copied := copied_from
  literal {p p'} hp hk := by
    cases hkind : (k.c.tokens.get p).kind <;>
      simp only [hkind, Token.Kind.isLiteral, reduceCtorEq, Token.Kind.keyword.injEq, or_self,
        or_false, false_or, Bool.false_eq_true] at hk <;>
      exact hp.next hkind rfl rfl
  name hp hk := by
    rcases hk with hk | hk <;> exact hp.next hk rfl rfl
  sign {p p' mark} hp hk hop := by
    cases mark <;> simp only [UnaryOp.ofSymbol?, Option.isSome_none, Bool.false_eq_true] at hop <;>
      exact hp.next hk rfl rfl
  opens hp hk := hp.opens hk rfl
  fresh hp _ := ⟨i, n, hp, id⟩
  suffixed := suffixed_from
  stop hp _ _ := hp

def Span (A : Alignment k) (r r' : Stretch) : Prop :=
  (∃ i, A.within i r.start r'.start) ∧ A.shift r.stop r'.stop

def Behind (P : Nat → Nat → Prop) : Nat → Nat → Prop :=
  fun p p' => P p p' ∧ ∃ q q', P q q' ∧ q < p ∧ q' < p'

end Alignment

section

variable {S : Stretch → Stretch → Prop} {o o' : Operand} {ty : Ty}

inductive ValueMoved (S : Stretch → Stretch → Prop) : Value → Value → Prop
  | const (value : Constant) : ValueMoved S (.const value) (.const value)
  | ax : ValueMoved S .ax .ax
  | this : ValueMoved S .this .this
  | memory (place : Place) : ValueMoved S (.stored (.memory place)) (.stored (.memory place))
  | attribute {attr object index index'} (h : Option.Rel S index index') : ValueMoved S
    (.stored (.attribute ⟨attr, object, index⟩)) (.stored (.attribute ⟨attr, object, index'⟩))

structure Moved (S : Stretch → Stretch → Prop) (o o' : Operand) : Prop where
  value : ValueMoved S o.value o'.value
  ty : o'.ty = o.ty
  writeFault : o'.writeFault = o.writeFault

lemma Moved.exists_eq (h : Moved S o o') :
    ∃ value', o' = { o with value := value' } ∧ ValueMoved S o.value value' := by
  obtain ⟨value, ty, writeFault⟩ := o'
  obtain ⟨hvalue, rfl, rfl⟩ := h
  exact ⟨value, rfl, hvalue⟩

lemma Moved.constant? (h : Moved S o o') : o'.constant? = o.constant? := by
  obtain ⟨value', rfl, hvalue⟩ := h.exists_eq
  obtain ⟨value, ty, writeFault⟩ := o
  cases hvalue <;> rfl

lemma moved_inAx : Moved S (.inAx ty) (.inAx ty) :=
  ⟨.ax, rfl, rfl⟩

lemma moved_constant {value : Constant} : Moved S (.constant value ty) (.constant value ty) :=
  ⟨.const value, rfl, rfl⟩

lemma moved_memory {place : Place} {writeFault : Option Fault} :
    Moved S (.memory place ty writeFault) (.memory place ty writeFault) :=
  ⟨.memory place, rfl, rfl⟩

inductive ArgumentMoved (S : Stretch → Stretch → Prop) : Argument → Argument → Prop
  | tokens {r r'} (h : S r r') : ArgumentMoved S (.tokens r) (.tokens r')
  | inAx (ty : Ty) : ArgumentMoved S (.inAx ty) (.inAx ty)
  | default (value : Default) : ArgumentMoved S (.default value) (.default value)

def anywhere (_ _ : Nat) : Prop :=
  True

def LoadsAlike (k : Pair) (S : Stretch → Stretch → Prop) (parts parts' : Parts) : Prop :=
  ∀ {P r r'}, S r r' → Agree k P (Same anywhere) (loadArgument parts (.tokens r))
    (loadArgument parts' (.tokens r'))

end

structure Alignment.Respects (A : Alignment k) (parts parts' : Parts) : Prop where
  argument : ∀ {i n stop stop'}, A.shift stop stop' → Agree k (A.From i n)
    (With (Moved A.Span) (A.From i n)) (parts (.argument stop)) (parts' (.argument stop'))
  upTo : ∀ {i n priority}, Agree k (A.From i n) (With (Moved A.Span) (A.From i n))
    (parts (.upTo priority)) (parts' (.upTo priority))
  prefixed : ∀ {start suffix stop}, Operands A start suffix stop →
    Agree k (Behind start) (With (Moved A.Span) stop) (parts .prefixed) (parts' .prefixed)

lemma Alignment.Respects.loads {A : Alignment k} {parts parts' : Parts}
    (hr : A.Respects parts parts') : LoadsAlike k A.Span parts parts' := by
  rintro P r r' ⟨⟨i, hi⟩, hstop⟩
  exact (agree_setPos (M := A.From i 0) ⟨hi, Nat.zero_le _⟩).skip <|
    (hr.argument hstop).with fun _ _ ho => .pure fun _ => ⟨ho.ty, trivial⟩

end AdventureScript.Gen
