import AdventureScript.Proofs.Parallel.Portable

/-!
Access chains: a variable, `this` or another name, and the members and elements that are selected
from it.
-/
namespace AdventureScript

inductive Selection where
  | variable (readOnly : Bool)
  | this
  | value
  | field (owner : TypeId) (f : Field)
  | attribute (a : Attribute)
  | function (owner : TypeId) (f : FuncDef)
  | element

namespace Selection

variable (inside : TypeId → Bool)

def barred : Selection → Bool
  | .field owner f => f.access = .guarded && !inside owner
  | .function owner f => f.isGuarded && !inside owner
  | _ => false

def frozen : Selection → Bool
  | .variable readOnly => readOnly
  | .this => true
  | .field owner f => f.access = .readOnly || f.access = .writeGuarded && !inside owner
  | .attribute a => a.setter.isNone
  | _ => false

end Selection

structure Link where
  dereferences : Bool
  selection : Selection

/-- A chain must not be the target of an assignment: it selects something that is not accessible, or
it selects something that must not be written and follows no pointer and no dynamic array later. -/
def Forbidden (inside : TypeId → Bool) (chain : List Link) : Prop :=
  (∃ l ∈ chain, l.selection.barred inside) ∨
    ∃ before l after, chain = before ++ l :: after ∧ l.selection.frozen inside ∧
      ∀ m ∈ after, m.dereferences = false

def Link.frozen (inside : TypeId → Bool) (holder : Bool) (l : Link) : Bool :=
  l.selection.frozen inside || !l.dereferences && holder

lemma foldl_frozen {inside : TypeId → Bool} {holder : Bool} {links : List Link} :
    links.foldl (Link.frozen inside) holder = true ↔
      (holder = true ∧ ∀ m ∈ links, m.dereferences = false) ∨
        ∃ before l after, links = before ++ l :: after ∧ l.selection.frozen inside = true ∧
          ∀ m ∈ after, m.dereferences = false := by
  induction links generalizing holder with
  | nil => simp
  | cons l links ih =>
    rw [List.foldl_cons, ih]
    constructor
    · rintro (⟨hl, hlinks⟩ | ⟨before, m, after, rfl, hm, hafter⟩)
      · simp only [Link.frozen, Bool.or_eq_true, Bool.and_eq_true, Bool.not_eq_true'] at hl
        rcases hl with hl | ⟨hl, hholder⟩
        · exact .inr ⟨[], l, links, rfl, hl, hlinks⟩
        · exact .inl ⟨hholder, List.forall_mem_cons.2 ⟨hl, hlinks⟩⟩
      · exact .inr ⟨l :: before, m, after, rfl, hm, hafter⟩
    · rintro (⟨hholder, hlinks⟩ | ⟨before, m, after, heq, hm, hafter⟩)
      · obtain ⟨hl, hlinks⟩ := List.forall_mem_cons.1 hlinks
        exact .inl ⟨by simp [Link.frozen, hl, hholder], hlinks⟩
      · cases before with
        | nil =>
          obtain ⟨rfl, rfl⟩ := List.cons.inj heq
          exact .inl ⟨by simp [Link.frozen, hm], hafter⟩
        | cons k before =>
          obtain ⟨rfl, rfl⟩ := List.cons.inj heq
          exact .inr ⟨before, m, after, rfl, hm, hafter⟩

lemma not_forbidden {inside : TypeId → Bool} {chain : List Link} :
    ¬Forbidden inside chain ↔ (∀ l ∈ chain, l.selection.barred inside = false) ∧
      chain.foldl (Link.frozen inside) false = false := by
  rw [← Bool.not_eq_true (List.foldl _ _ _), foldl_frozen, Forbidden, not_or]
  simp

namespace State

def struct? (s : State) : Option TypeId :=
  (s.function?.map s.symbols.function).bind (·.structOf)

def hasThis (s : State) : Bool :=
  (s.function?.map s.symbols.function).any (·.needsObject)

def inside (s : State) (owner : TypeId) : Bool :=
  s.struct?.any (s.symbols.types.isSameOrDerived · owner)

end State

namespace Chain
open Gen

/-! ## Parts of chains -/

section

variable (c : Context) (s : State)

/-- The tokens from `p` up to the bracket at `q` are an index: the constant `i?`, which has to fit,
or an integer that the program computes. -/
def IndexAt (fits : Int32 → Prop) (p : Nat) (i? : Option Int32) (q : Nat) : Prop :=
  (c.tokens.get q).kind = .symbol .rightBracket ∧ ∃ o, Leads c s expression p o q ∧
    match o.constant? with
    | some (.int i) => i? = some i ∧ 0 ≤ i ∧ fits i
    | _ => i? = none ∧ ∃ ty t, Runs (toAx o) c s ty t ∧ ty.isInteger = true

/-- A value that can be followed. An attribute has to be read for that. -/
def CanFollow (o : Operand) : Prop :=
  match o.value with
  | .const _ => False
  | .stored (.attribute _) => ∃ ty t, Runs (toAx o) c s ty t
  | _ => True

def pointee : Value → Place
  | .this => ⟨.this, 0⟩
  | _ => ⟨.mar, 0⟩

def ObjectAt (v : Value) (ty : Ty) (place : Place) : Prop :=
  if ty.pointer then CanFollow c s ⟨v, ty, none⟩ ∧ pointee v = place
  else v = .stored (.memory place)

/-- A component of a struct is selected from an object or from the struct itself. The token behind
its name is at `p`, the one behind all of it at `q`. -/
inductive Picks (owner : TypeId) (object : Option Place) (p : Nat) :
    Component → Selection → Value → Ty → Nat → Prop
  | field {f : Field} {place : Place} (hobject : object = some place) :
      Picks owner object p (.field f) (.field owner f)
        (.stored (.memory (place.plus f.offset))) f.ty p
  | attribute {a : Attribute} (hobject : a.isStatic = true ∨ object.isSome = true)
      (hindexed : a.indexed = false) :
      Picks owner object p (.attribute a) (.attribute a)
        (.stored (.attribute ⟨a, if a.isStatic then none else object, none⟩)) a.ty p
  | indexed {a : Attribute} {q : Nat} (hobject : a.isStatic = true ∨ object.isSome = true)
      (hindexed : a.indexed = true) (hopen : (c.tokens.get p).kind = .symbol .leftBracket)
      (hq : c.tokens.findAtDepthZero (p + 1) (· = .symbol .rightBracket) = q)
      (hclose : (c.tokens.get q).kind = .symbol .rightBracket) :
      Picks owner object p (.attribute a) (.attribute a)
        (.stored (.attribute ⟨a, if a.isStatic then none else object, some ⟨p + 1, q⟩⟩)) a.ty
        (q + 1)
  | function {id : FuncId} {f : FuncDef} {o : Operand} {q : Nat}
      (hf : s.symbols.functions[id.index]? = some f)
      (hopen : (c.tokens.get p).kind = .symbol .leftParen)
      (hobject : f.needsObject = true → object.isSome = true)
      (hcall : Leads c s
        (withParts (compileCall · id (if f.needsObject then object else none))) p o q) :
      Picks owner object p (.function id) (.function owner f) o.value o.ty q

/-- A link is put to a chain: from a value of the given type, with the token at `p` next, to the
selected one, with the token at `q` next. -/
inductive Selects (v : Value) (ty : Ty) (p : Nat) : Link → Value → Ty → Nat → Prop
  | member {id owner : TypeId} {component : Component} {place : Place} {sel : Selection}
      {v' : Value} {ty' : Ty} {q : Nat} (hdot : (c.tokens.get p).kind = .symbol .dot)
      (hname : (c.tokens.get (p + 1)).kind = .identifier) (hscalar : ty.isScalar = true)
      (hid : ty.structId? = some id)
      (hplace : ObjectAt c s v ty place)
      (hcomponent : s.symbols.types.findComponent? id (c.tokens.get (p + 1)).lexeme =
        some (owner, component))
      (hpicks : Picks c s owner (some place) (p + 2) component sel v' ty' q) :
      Selects v ty p ⟨ty.pointer, sel⟩ v' ty' q
  | static {dims : List UInt32} {dim : UInt32} {place : Place} {i? : Option Int32} {q : Nat}
      (hopen : (c.tokens.get p).kind = .symbol .leftBracket) (hshape : ty.shape = .static dims)
      (hdim : dims.head? = some dim) (hplace : v = .stored (.memory place))
      (hindex : IndexAt c s (fun i => i.toUInt32 < dim) (p + 1) i? q) :
      Selects v ty p ⟨false, .element⟩
        (.stored (.memory (i?.elim ⟨.mar, 0⟩ fun i =>
          place.plus (i.toUInt32 * ty.afterIndex.size s.symbols.types)))) ty.afterIndex (q + 1)
  | dynamic {i? : Option Int32} {q : Nat}
      (hopen : (c.tokens.get p).kind = .symbol .leftBracket) (hshape : ty.shape = .dynamic)
      (hfollow : CanFollow c s ⟨v, ty, none⟩)
      (hindex : IndexAt c s (fun _ => True) (p + 1) i? q) :
      Selects v ty p ⟨true, .element⟩ (.stored (.memory ⟨.mar, 0⟩)) ty.element (q + 1)

inductive Extends : Value → Ty → Nat → List Link → Value → Ty → Nat → Prop
  | nil {v : Value} {ty : Ty} {p : Nat} (hdot : (c.tokens.get p).kind ≠ .symbol .dot)
      (hbracket : (c.tokens.get p).kind ≠ .symbol .leftBracket) : Extends v ty p [] v ty p
  | cons {v v' v'' : Value} {ty ty' ty'' : Ty} {p q r : Nat} {l : Link} {links : List Link}
      (hlink : Selects c s v ty p l v' ty' q) (hlinks : Extends v' ty' q links v'' ty'' r) :
      Extends v ty p (l :: links) v'' ty'' r

def IsLocal (v : Variable) : Prop :=
  s.scope.get? (c.tokens.get s.pos).lexeme = some v ∧
    (c.tokens.get (s.pos + 1)).kind ≠ .symbol .leftParen

inductive Denotes : Meaning → Selection → Value → Ty → Nat → Prop
  | global {id : GlobalId} {v : GlobalVar} (hv : s.symbols.globals[id.index]? = some v)
      (hvalue : v.value? = none ∨ v.readOnly = false) :
      Denotes (.variable id) (.variable v.readOnly) (.stored (.memory
        ⟨if v.isImport then .imported id else .global v.offset, 0⟩)) v.ty (s.pos + 1)
  | known {id : GlobalId} {v : GlobalVar} {value : Constant}
      (hv : s.symbols.globals[id.index]? = some v) (hvalue : v.value? = some value)
      (hread : v.readOnly = true) :
      Denotes (.variable id) (.variable true) (.const value) v.ty (s.pos + 1)
  | constant {value : Int32} {enum : TypeId} :
      Denotes (.constant value enum) .value (.const (.int value)) { base := .enum enum } (s.pos + 1)
  | function {id : FuncId} {o : Operand} {q : Nat}
      (hopen : (c.tokens.get (s.pos + 1)).kind = .symbol .leftParen)
      (hcall : Leads c s (withParts (compileCall · id none)) (s.pos + 1) o q) :
      Denotes (.function id) .value o.value o.ty q
  | static {id owner : TypeId} {component : Component} {sel : Selection} {v : Value} {ty : Ty}
      {q : Nat} (hdot : (c.tokens.get (s.pos + 1)).kind = .symbol .dot)
      (hmember : (c.tokens.get (s.pos + 2)).kind = .identifier)
      (hcomponent : s.symbols.types.findComponent? id (c.tokens.get (s.pos + 2)).lexeme =
        some (owner, component))
      (hpicks : Picks c s owner none (s.pos + 3) component sel v ty q) :
      Denotes (.type id) sel v ty q

inductive Starts : Selection → Value → Ty → Nat → Prop
  | this {id : TypeId} (hthis : (c.tokens.get s.pos).kind = .keyword .kwThis)
      (hobject : s.hasThis = true) (hid : s.struct? = some id) :
      Starts .this .this (.pointerTo id) (s.pos + 1)
  | local {v : Variable} (hname : (c.tokens.get s.pos).kind = .identifier)
      (hv : IsLocal c s v) :
      Starts (.variable v.readOnly) (.stored (.memory
        ⟨if v.isParam && v.ty.isOldString then .mar else .local v.offset, 0⟩)) v.ty (s.pos + 1)
  | member {owner : TypeId} {component : Component} {sel : Selection} {v : Value} {ty : Ty}
      {q : Nat} (hname : (c.tokens.get s.pos).kind = .identifier) (hlocal : ∀ v, ¬IsLocal c s v)
      (hcomponent : s.struct?.bind
        (s.symbols.types.findComponent? · (c.tokens.get s.pos).lexeme) = some (owner, component))
      (hpicks : Picks c s owner (if s.hasThis then some ⟨.this, 0⟩ else none) (s.pos + 1)
        component sel v ty q) : Starts sel v ty q
  | named {m : Meaning} {sel : Selection} {v : Value} {ty : Ty} {q : Nat}
      (hname : (c.tokens.get s.pos).kind = .identifier) (hlocal : ∀ v, ¬IsLocal c s v)
      (hcomponent : s.struct?.bind
        (s.symbols.types.findComponent? · (c.tokens.get s.pos).lexeme) = none)
      (hm : s.symbols.find? (c.tokens.get s.pos).lexeme = some m)
      (hdenotes : Denotes c s m sel v ty q) : Starts sel v ty q

/-- The chain that is next, up to the token at `stop`: its links, and the value that it ends with. -/
def Reads (chain : List Link) (v : Value) (ty : Ty) (stop : Nat) : Prop :=
  ∃ sel links v0 ty0 q, chain = ⟨false, sel⟩ :: links ∧ Starts c s sel v0 ty0 q ∧
    Extends c s v0 ty0 q links v ty stop

end

/-! ## There is one chain at most -/

variable {c : Context} {s : State} {owner : TypeId} {object : Option Place} {component : Component}
  {sel sel' : Selection} {v v1 v2 : Value} {ty ty1 ty2 : Ty} {p q1 q2 : Nat} {l1 l2 : Link}
  {links1 links2 chain1 chain2 : List Link} {m : Meaning}

lemma leads_unique {α : Type} {x : Gen α} {a1 a2 : α} (h1 : Leads c s x p a1 q1)
    (h2 : Leads c s x p a2 q2) : a1 = a2 ∧ q1 = q2 := by
  obtain ⟨t1, h1, rfl⟩ := h1
  obtain ⟨t2, h2, rfl⟩ := h2
  obtain ⟨rfl, rfl⟩ := h1.unique h2
  exact ⟨rfl, rfl⟩

lemma IndexAt.unique {fits : Int32 → Prop} {i1 i2 : Option Int32}
    (h1 : IndexAt c s fits p i1 q1) (h2 : IndexAt c s fits p i2 q2) : i1 = i2 ∧ q1 = q2 := by
  obtain ⟨_, o, hleads, h1⟩ := h1
  obtain ⟨_, o', hleads', h2⟩ := h2
  obtain ⟨rfl, rfl⟩ := leads_unique hleads hleads'
  split at h1 <;> simp_all

lemma Picks.unique (h1 : Picks c s owner object p component sel v1 ty1 q1)
    (h2 : Picks c s owner object p component sel' v2 ty2 q2) :
    sel = sel' ∧ v1 = v2 ∧ ty1 = ty2 ∧ q1 = q2 := by
  cases h1 with
  | field hobject =>
    cases h2 with
    | field hobject' =>
      cases hobject.symm.trans hobject'
      exact ⟨rfl, rfl, rfl, rfl⟩
  | «attribute» _ hindexed =>
    cases h2 with
    | «attribute» => exact ⟨rfl, rfl, rfl, rfl⟩
    | indexed _ hindexed' => cases hindexed.symm.trans hindexed'
  | indexed _ hindexed _ hq =>
    cases h2 with
    | «attribute» _ hindexed' => cases hindexed.symm.trans hindexed'
    | indexed _ _ _ hq' =>
      cases hq.symm.trans hq'
      exact ⟨rfl, rfl, rfl, rfl⟩
  | function hf _ _ hcall =>
    cases h2 with
    | function hf' _ _ hcall' =>
      cases hf.symm.trans hf'
      obtain ⟨rfl, rfl⟩ := leads_unique hcall hcall'
      exact ⟨rfl, rfl, rfl, rfl⟩

lemma ObjectAt.unique {place1 place2 : Place} (h1 : ObjectAt c s v ty place1)
    (h2 : ObjectAt c s v ty place2) : place1 = place2 := by
  unfold ObjectAt at h1 h2
  split at h1 <;> simp_all

lemma Selects.unique (h1 : Selects c s v ty p l1 v1 ty1 q1) (h2 : Selects c s v ty p l2 v2 ty2 q2) :
    l1 = l2 ∧ v1 = v2 ∧ ty1 = ty2 ∧ q1 = q2 := by
  cases h1 with
  | member hdot _ _ hid hplace hcomponent hpicks =>
    cases h2 with
    | member _ _ _ hid' hplace' hcomponent' hpicks' =>
      cases hid.symm.trans hid'
      cases hcomponent.symm.trans hcomponent'
      cases hplace.unique hplace'
      obtain ⟨rfl, h⟩ := hpicks.unique hpicks'
      exact ⟨rfl, h⟩
    | static hopen => cases hdot.symm.trans hopen
    | dynamic hopen => cases hdot.symm.trans hopen
  | static hopen hshape hdim hplace hindex =>
    cases h2 with
    | member hdot => cases hdot.symm.trans hopen
    | static _ hshape' hdim' hplace' hindex' =>
      cases hshape.symm.trans hshape'
      cases hdim.symm.trans hdim'
      cases hplace.symm.trans hplace'
      obtain ⟨rfl, rfl⟩ := hindex.unique hindex'
      exact ⟨rfl, rfl, rfl, rfl⟩
    | dynamic _ hshape' => cases hshape.symm.trans hshape'
  | dynamic hopen hshape _ hindex =>
    cases h2 with
    | member hdot => cases hdot.symm.trans hopen
    | static _ hshape' => cases hshape.symm.trans hshape'
    | dynamic _ _ _ hindex' =>
      obtain ⟨rfl, rfl⟩ := hindex.unique hindex'
      exact ⟨rfl, rfl, rfl, rfl⟩

lemma Selects.opens (h : Selects c s v ty p l1 v1 ty1 q1) :
    (c.tokens.get p).kind = .symbol .dot ∨ (c.tokens.get p).kind = .symbol .leftBracket := by
  cases h with
  | member hdot => exact .inl hdot
  | static hopen => exact .inr hopen
  | dynamic hopen => exact .inr hopen

lemma Extends.unique (h1 : Extends c s v ty p links1 v1 ty1 q1)
    (h2 : Extends c s v ty p links2 v2 ty2 q2) :
    links1 = links2 ∧ v1 = v2 ∧ ty1 = ty2 ∧ q1 = q2 := by
  induction h1 generalizing links2 with
  | nil hdot hbracket =>
    cases h2 with
    | nil => exact ⟨rfl, rfl, rfl, rfl⟩
    | cons hlink => exact absurd hlink.opens (by simp [hdot, hbracket])
  | cons hlink _ ih =>
    cases h2 with
    | nil hdot hbracket => exact absurd hlink.opens (by simp [hdot, hbracket])
    | cons hlink' hlinks' =>
      obtain ⟨rfl, rfl, rfl, rfl⟩ := hlink.unique hlink'
      obtain ⟨rfl, h⟩ := ih hlinks'
      exact ⟨rfl, h⟩

lemma Denotes.unique (h1 : Denotes c s m sel v1 ty1 q1) (h2 : Denotes c s m sel' v2 ty2 q2) :
    sel = sel' ∧ v1 = v2 ∧ ty1 = ty2 ∧ q1 = q2 := by
  cases h1 with
  | global hv hvalue =>
    cases h2 with
    | global hv' =>
      cases hv.symm.trans hv'
      exact ⟨rfl, rfl, rfl, rfl⟩
    | known hv' hvalue' hread =>
      cases hv.symm.trans hv'
      simp [hvalue', hread] at hvalue
  | known hv hvalue hread =>
    cases h2 with
    | global hv' hvalue' =>
      cases hv.symm.trans hv'
      simp [hvalue, hread] at hvalue'
    | known hv' hvalue' =>
      cases hv.symm.trans hv'
      cases hvalue.symm.trans hvalue'
      exact ⟨rfl, rfl, rfl, rfl⟩
  | constant =>
    cases h2
    exact ⟨rfl, rfl, rfl, rfl⟩
  | function _ hcall =>
    cases h2 with
    | function _ hcall' =>
      obtain ⟨rfl, rfl⟩ := leads_unique hcall hcall'
      exact ⟨rfl, rfl, rfl, rfl⟩
  | static _ _ hcomponent hpicks =>
    cases h2 with
    | static _ _ hcomponent' hpicks' =>
      cases hcomponent.symm.trans hcomponent'
      exact hpicks.unique hpicks'

lemma Starts.unique (h1 : Starts c s sel v1 ty1 q1) (h2 : Starts c s sel' v2 ty2 q2) :
    sel = sel' ∧ v1 = v2 ∧ ty1 = ty2 ∧ q1 = q2 := by
  cases h1 with
  | this hthis _ hid =>
    cases h2 with
    | this _ _ hid' =>
      cases hid.symm.trans hid'
      exact ⟨rfl, rfl, rfl, rfl⟩
    | «local» hname => cases hthis.symm.trans hname
    | member hname => cases hthis.symm.trans hname
    | named hname => cases hthis.symm.trans hname
  | «local» hname hv =>
    cases h2 with
    | this hthis => cases hthis.symm.trans hname
    | «local» _ hv' =>
      cases hv.1.symm.trans hv'.1
      exact ⟨rfl, rfl, rfl, rfl⟩
    | member _ hlocal => exact absurd hv (hlocal _)
    | named _ hlocal => exact absurd hv (hlocal _)
  | member hname hlocal hcomponent hpicks =>
    cases h2 with
    | this hthis => cases hthis.symm.trans hname
    | «local» _ hv => exact absurd hv (hlocal _)
    | member _ _ hcomponent' hpicks' =>
      cases hcomponent.symm.trans hcomponent'
      exact hpicks.unique hpicks'
    | named _ _ hcomponent' => cases hcomponent.symm.trans hcomponent'
  | named hname hlocal hcomponent hm hdenotes =>
    cases h2 with
    | this hthis => cases hthis.symm.trans hname
    | «local» _ hv => exact absurd hv (hlocal _)
    | member _ _ hcomponent' => cases hcomponent.symm.trans hcomponent'
    | named _ _ _ hm' hdenotes' =>
      cases hm.symm.trans hm'
      exact hdenotes.unique hdenotes'

lemma Reads.unique {stop : Nat} (h1 : Reads c s chain1 v1 ty1 stop)
    (h2 : Reads c s chain2 v2 ty2 stop) : chain1 = chain2 ∧ v1 = v2 ∧ ty1 = ty2 := by
  obtain ⟨sel, links, v, ty, q, rfl, hstart, hlinks⟩ := h1
  obtain ⟨sel', links', v', ty', q', rfl, hstart', hlinks'⟩ := h2
  obtain ⟨rfl, rfl, rfl, rfl⟩ := hstart.unique hstart'
  obtain ⟨rfl, rfl, rfl, _⟩ := hlinks.unique hlinks'
  exact ⟨rfl, rfl, rfl⟩

end Chain
end AdventureScript
