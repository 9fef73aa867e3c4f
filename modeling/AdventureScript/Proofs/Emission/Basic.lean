import AdventureScript.Proofs.Code.Lines
import AdventureScript.Proofs.Code.Pace
import AdventureScript.Proofs.Emission.Reference
import AdventureScript.Proofs.Tokens

/-!
What a step leaves in the state when it writes code.
-/
namespace AdventureScript

namespace Assembly

variable {q r : Prop} {b a p j dest : Nat} {F G : List Node} {l : List (Mark Reference)}
  {u : Mark Int32} {f : Nat → Node → Node} [hf : Relabels f]

/-! ## Words that something is known of -/

/-- Some instruction of the code is, with its position, as `R` says. -/
def Contains (R : Nat → Node → Prop) (b : Nat) (F : List Node) : Prop :=
  ∃ p n, nodeAt b F p = some n ∧ R p n

namespace Contains

variable {R R' : Nat → Node → Prop} (h : Contains R b F)
include h

lemma append_left : Contains R b (F ++ G) := by
  obtain ⟨p, n, hn, h⟩ := h
  exact ⟨p, n, nodeAt_append_left hn, h⟩

omit h in
lemma append_right (h : Contains R (b + width F) G) : Contains R b (F ++ G) := by
  obtain ⟨p, n, hn, h⟩ := h
  exact ⟨p, n, nodeAt_append_right hn, h⟩

lemma relabel (hR : ∀ p n, b ≤ p → R p n → R' (moved b a p) (f p n)) :
    Contains R' a (relabel f b F) := by
  obtain ⟨p, n, hn, h⟩ := h
  exact ⟨_, _, nodeAt_moved hn, hR p n (nodeAt_bounds hn).1 h⟩

lemma landAt (hR : ∀ p n, R p n → R p (landing j dest p n)) : Contains R b (landAt b F j dest) :=
  h.relabel fun p n hp hn => (moved_self hp).symm ▸ hR p n hn

end Contains

/-- The word at `p` is the value of a `reg = value`, and `P` holds of the register and the value. -/
def OnLiteral (P : Register → Int32 → Prop) (b : Nat) (F : List Node) (p : Nat) : Prop :=
  Contains (fun k n => ∃ r w, p = k + 2 ∧ n.instr = .plain .litToReg [Register.toWord r, w] ∧ P r w)
    b F

section

variable {P Q : Register → Int32 → Prop} (h : OnLiteral P b F p)
include h

lemma OnLiteral.bounds : b + 2 ≤ p ∧ p < b + width F := by
  obtain ⟨k, n, hn, r, w, rfl, hi, _⟩ := h
  have := nodeAt_bounds hn
  have : n.size = 3 := by simp [Node.size, hi, Instr.size]
  omega

lemma OnLiteral.imp (hP : ∀ {r w}, P r w → Q r w) : OnLiteral Q b F p := by
  obtain ⟨k, n, hn, r, w, hp, hi, h⟩ := h
  exact ⟨k, n, hn, r, w, hp, hi, hP h⟩

lemma OnLiteral.landAt : OnLiteral P b (landAt b F j dest) p := by
  refine Contains.landAt h fun k n hn => ?_
  obtain ⟨r, w, hp, hi, h⟩ := hn
  exact ⟨r, w, hp, by rwa [landing_plain hi], h⟩

lemma OnLiteral.move : OnLiteral P a (move F b a) (moved b a p) := by
  refine Contains.relabel h fun k n hb hn => ?_
  obtain ⟨r, w, rfl, hi, h⟩ := hn
  refine ⟨r, w, ?_, by rw [Node.move_plain hi, hi], h⟩
  simp only [moved]
  omega

end

def Called (b : Nat) (F : List Node) (references : List (Mark Reference)) : Prop :=
  ∀ p n, nodeAt b F p = some n → n.instr.op = .call →
    ∃ m ∈ references, b ≤ m.position ∧ m.position + 1 = p ∧ ∃ id, m.value = .function id

lemma called_nil : Called b [] l := by
  intro p n hn
  cases hn

lemma Called.mono {l' : List (Mark Reference)} (h : Called b F l) (hl : ∀ m ∈ l, m ∈ l') :
    Called b F l' := by
  intro p n hn hop
  obtain ⟨m, hm, hrest⟩ := h p n hn hop
  exact ⟨m, hl m hm, hrest⟩

lemma Called.append (hF : Called b F l)
    (hG : Called (b + width F) G l) : Called b (F ++ G) l := by
  intro p n hn hop
  rcases nodeAt_append hn with hn | hn
  · exact hF p n hn hop
  · obtain ⟨m, hm, hle, hrest⟩ := hG p n hn hop
    exact ⟨m, hm, by omega, hrest⟩

lemma Called.relabel (h : Called b F l) : Called b (relabel f b F) l := by
  intro p n hn hop
  rw [nodeAt_relabel_self, Option.map_eq_some_iff] at hn
  obtain ⟨n, hn, rfl⟩ := hn
  exact h p n hn ((hf.alike p n).op ▸ hop)

lemma Called.concat {n : Node} (h : Called b F l)
    (hn : n.instr.op = .call → ∃ m ∈ l, b ≤ m.position ∧ m.position + 1 = b + width F ∧
      ∃ id, m.value = .function id) : Called b (F ++ [n]) l := by
  intro p m hm hop
  rcases nodeAt_append hm with hm | hm
  · exact h p m hm hop
  · simp only [nodeAt] at hm
    split at hm
    · next he =>
      cases hm
      obtain ⟨m, hm, hle, hpos, hid⟩ := hn hop
      exact ⟨m, hm, hle, by omega, hid⟩
    · cases hm

def OnLocal (q : Prop) (b : Nat) (F : List Node) (u : Mark Int32) : Prop :=
  Contains (fun p n => p = u.position ∧ ∃ w, n.instr = .plain .loadSpOffs [w] ∧
    (q → w = Int32.ofInt n.depth - u.value)) b F

section

variable (h : OnLocal q b F u)
include h

lemma OnLocal.bounds : b ≤ u.position ∧ u.position < b + width F := by
  obtain ⟨_, n, hn, rfl, _⟩ := h
  have := nodeAt_bounds hn
  have := n.size_pos
  omega

lemma OnLocal.imp (hr : r → q) : OnLocal r b F u := by
  obtain ⟨p, n, hn, hp, w, hi, hw⟩ := h
  exact ⟨p, n, hn, hp, w, hi, hw ∘ hr⟩

lemma OnLocal.relabel (hplain : ∀ {p n w}, n.instr = .plain .loadSpOffs [w] → f p n = n) :
    OnLocal q a (relabel f b F) { u with position := moved b a u.position } := by
  refine Contains.relabel h fun p n _ hn => ?_
  obtain ⟨rfl, w, hi, hw⟩ := hn
  rw [hplain hi]
  exact ⟨rfl, w, hi, hw⟩

lemma OnLocal.relabel_self (hplain : ∀ {p n w}, n.instr = .plain .loadSpOffs [w] → f p n = n) :
    OnLocal q b (Assembly.relabel f b F) u := by
  have := h.relabel (f := f) (a := b) hplain
  rwa [moved_self h.bounds.1] at this

end

end Assembly

def Grown {α : Type} (P : α → Prop) (l l' : List α) : Prop :=
  ∃ x, l' = l ++ x ∧ ∀ a ∈ x, P a

namespace Grown

variable {α : Type} {P Q : α → Prop} {l m k : List α} {a : α}

lemma refl : Grown P l l :=
  ⟨[], by simp⟩

lemma mono (h : Grown P l m) (hP : ∀ a, P a → Q a) : Grown Q l m := by
  obtain ⟨x, hx, hp⟩ := h
  exact ⟨x, hx, fun a ha => hP a (hp a ha)⟩

lemma trans (h : Grown P l m) (h' : Grown P m k) : Grown P l k := by
  obtain ⟨x, rfl, hx⟩ := h
  obtain ⟨y, rfl, hy⟩ := h'
  refine ⟨x ++ y, by simp, fun a ha => ?_⟩
  rcases List.mem_append.1 ha with ha | ha
  · exact hx a ha
  · exact hy a ha

lemma subset (h : Grown P l m) (ha : a ∈ l) : a ∈ m := by
  obtain ⟨x, rfl, _⟩ := h
  exact List.mem_append_left x ha

lemma concat (h : P a) : Grown P l (l ++ [a]) :=
  ⟨[a], rfl, by simpa using h⟩

lemma mem (h : Grown P l m) (ha : a ∈ m) : a ∈ l ∨ P a := by
  obtain ⟨x, rfl, hx⟩ := h
  rcases List.mem_append.1 ha with ha | ha
  · exact .inl ha
  · exact .inr (hx a ha)

lemma eq (h : Grown P l m) (hP : ∀ a, ¬P a) : m = l := by
  obtain ⟨x, rfl, hx⟩ := h
  cases x with
  | nil => simp
  | cons a x => exact absurd (hx a List.mem_cons_self) (hP a)

lemma lt {f : α → Nat} {n w : Nat} (h : Grown P l m) (hl : ∀ {a}, a ∈ l → f a < n)
    (hP : ∀ {a}, P a → f a < n + w) (ha : a ∈ m) : f a < n + w := by
  rcases h.mem ha with ha | ha
  · have := hl ha
    omega
  · exact hP ha

end Grown

namespace Gen
open Assembly

variable {q r : Prop} {c : Context} {d e x : Int} {s s' t : State} {F G : List Node}

/-! ## States -/

/-- What is known of the code lies within the code, fixups and waiting calls are those of the
references, and the tables are in order. -/
structure Tidy (s : State) : Prop where
  lastOp : ∀ {p}, s.script.lastOp = some p → p < s.script.size
  sorted : (s.references.entries.toList.map (·.position)).Pairwise (· < ·)
  references_lt : ∀ {m}, m ∈ s.references.entries.toList → m.position < s.script.size
  fixups : s.script.fixups.toList = s.references.entries.toList.map Mark.fixup
  calls : s.calls.entries.toList = s.references.entries.toList.filterMap (Mark.waiting? s.symbols)
  uses_lt : ∀ {u}, u ∈ s.localUses.entries.toList → u.position < s.script.size
  tables : s.script.Orderly

lemma Tidy.grow (h : Tidy s) (hsize : s.script.size ≤ s'.script.size)
    (hlast : ∀ {p}, s'.script.lastOp = some p → p < s'.script.size)
    (hreferences : s'.references = s.references) (hfixups : s'.script.fixups = s.script.fixups)
    (hcalls : s'.calls = s.calls) (hsymbols : s'.symbols = s.symbols)
    (huses : ∀ {u}, u ∈ s'.localUses.entries.toList → u.position < s'.script.size)
    (htables : s'.script.Orderly) : Tidy s' where
  lastOp := hlast
  sorted := hreferences ▸ h.sorted
  references_lt hm := lt_of_lt_of_le (h.references_lt (hreferences ▸ hm)) hsize
  fixups := by rw [hfixups, hreferences, h.fixups]
  calls := by rw [hcalls, hreferences, hsymbols, h.calls]
  uses_lt := huses
  tables := htables

lemma Tidy.fixups_lt (h : Tidy s) {f : Fixup} (hf : f ∈ s.script.fixups.toList) :
    f.offset < s.script.size := by
  rw [h.fixups] at hf
  obtain ⟨m, hm, rfl⟩ := List.mem_map.1 hf
  exact h.references_lt hm

lemma Tidy.calls_lt (h : Tidy s) {k : Mark FuncId} (hk : k ∈ s.calls.entries.toList) :
    k.position < s.script.size := by
  rw [h.calls] at hk
  obtain ⟨m, hm, hk⟩ := List.mem_filterMap.1 hk
  exact Mark.position_of_waiting? hk ▸ h.references_lt hm

structure Aside (s s' : State) : Prop where
  symbols : s'.symbols = s.symbols
  blocks : s'.scope.blocks = s.scope.blocks
  nesting : s'.nesting = s.nesting
  function? : s'.function? = s.function?
  bodies : s'.bodies = s.bodies
  localBytes : s'.localBytes = s.localBytes
  exports : s'.script.exports = s.script.exports ∧ s'.exportRequests = s.exportRequests
  sections : s'.script.sections = s.script.sections ∧ s'.sectionIndex? = s.sectionIndex?

lemma Aside.refl : Aside s s :=
  ⟨rfl, rfl, rfl, rfl, rfl, rfl, ⟨rfl, rfl⟩, ⟨rfl, rfl⟩⟩

lemma Aside.trans (h : Aside s s') (h' : Aside s' t) : Aside s t where
  symbols := h'.symbols.trans h.symbols
  blocks := h'.blocks.trans h.blocks
  nesting := h'.nesting.trans h.nesting
  function? := h'.function?.trans h.function?
  bodies := h'.bodies.trans h.bodies
  localBytes := h'.localBytes.trans h.localBytes
  exports := ⟨h'.exports.1.trans h.exports.1, h'.exports.2.trans h.exports.2⟩
  sections := ⟨h'.sections.1.trans h.sections.1, h'.sections.2.trans h.sections.2⟩

/-- The tables beside the code have only grown, by texts and by imports of what lies elsewhere. -/
structure Stocks (s s' : State) : Prop where
  symbols : s'.symbols = s.symbols
  globalData : s'.script.globalData = s.script.globalData
  exports : s'.script.exports = s.script.exports
  requests : s'.exportRequests = s.exportRequests
  strings : s.script.strings.Grows s'.script.strings
  imports : Grown s.symbols.Imports s.script.imports.toList s'.script.imports.toList

lemma Stocks.trans (h : Stocks s s') (h' : Stocks s' t) : Stocks s t where
  symbols := h'.symbols.trans h.symbols
  globalData := h'.globalData.trans h.globalData
  exports := h'.exports.trans h.exports
  requests := h'.requests.trans h.requests
  strings := h.strings.trans h'.strings
  imports := h.imports.trans (h.symbols ▸ h'.imports)

/-- What has come into the tables is needed by code that was written since, or for what is owed. -/
def Spends (owed : Reference → Prop) (s s' : State) : Prop :=
  ∀ e, s'.script.Has e → s.script.Has e ∨ ∃ reference, reference.needs? s.symbols = some e ∧
    (owed reference ∨
      ∃ m ∈ s'.references.entries.toList, s.script.size ≤ m.position ∧ m.value = reference)

def Pays (owed : Reference → Prop) (s s' : State) : Prop :=
  ∀ r, owed r → ∃ m ∈ s'.references.entries.toList, s.script.size ≤ m.position ∧ m.value = r

def nothing : Reference → Prop :=
  fun _ => False

namespace Spends

variable {owed owed' : Reference → Prop}

lemma mono (h : Spends owed s s') (ho : ∀ r, owed r → owed' r) : Spends owed' s s' := by
  intro e he
  rcases h e he with he | ⟨reference, hr, hused⟩
  · exact .inl he
  · exact .inr ⟨reference, hr, hused.imp_left (ho reference)⟩

lemma of_tables (himports : s'.script.imports = s.script.imports)
    (hstrings : s'.script.strings = s.script.strings) : Spends owed s s' :=
  fun _ he => .inl (he.congr himports hstrings)

lemma stay (h : Spends owed s t) (himports : s'.script.imports = t.script.imports)
    (hstrings : s'.script.strings = t.script.strings)
    (hreferences : ∀ m ∈ t.references.entries.toList, m ∈ s'.references.entries.toList) :
    Spends owed s s' := by
  intro e he
  rcases h e (he.congr himports hstrings) with he | ⟨reference, hr, hused⟩
  · exact .inl he
  · refine .inr ⟨reference, hr, hused.imp_right ?_⟩
    rintro ⟨m, hm, hle, hv⟩
    exact ⟨m, hreferences m hm, hle, hv⟩

lemma trans (h : Spends owed s t) (h' : Spends owed t s') (hsymbols : t.symbols = s.symbols)
    (hsize : s.script.size ≤ t.script.size)
    (hreferences : ∀ m ∈ t.references.entries.toList, m ∈ s'.references.entries.toList) :
    Spends owed s s' := by
  intro e he
  rcases h' e he with he | ⟨reference, hr, hused⟩
  · rcases h e he with he | ⟨reference, hr, hused⟩
    · exact .inl he
    · refine .inr ⟨reference, hr, hused.imp_right ?_⟩
      rintro ⟨m, hm, hle, hv⟩
      exact ⟨m, hreferences m hm, hle, hv⟩
  · refine .inr ⟨reference, hsymbols ▸ hr, hused.imp_right ?_⟩
    rintro ⟨m, hm, hle, hv⟩
    exact ⟨m, hm, le_trans hsize hle, hv⟩

lemma paid (h : Spends (fun r => owed r ∨ owed' r) s s')
    (hpaid : Pays owed' s s') : Spends owed s s' := by
  intro e he
  rcases h e he with he | ⟨reference, hr, (hused | hused) | hused⟩
  · exact .inl he
  · exact .inr ⟨reference, hr, .inl hused⟩
  · exact .inr ⟨reference, hr, .inr (hpaid reference hused)⟩
  · exact .inr ⟨reference, hr, .inr hused⟩

end Spends

lemma Pays.within {owed : Reference → Prop} {v : State} (h : Pays owed t s')
    (hsize : s.script.size ≤ t.script.size)
    (hreferences : ∀ m ∈ s'.references.entries.toList, m ∈ v.references.entries.toList) :
    Pays owed s v := by
  intro r hr
  obtain ⟨m, hm, hle, hv⟩ := h r hr
  exact ⟨m, hreferences m hm, le_trans hsize hle, hv⟩

def Fits (s : State) : Prop :=
  s.callBytes < 2 ^ 31

/-- What expressions rely on in the symbols: defaults are texts of the source, and names of variables
lead to these. -/
structure Known (c : Context) (symbols : Symbols) : Prop where
  texts : ∀ {f p bytes}, f ∈ symbols.functions → p ∈ f.params →
    p.default? = some (.string bytes) → c.tokens.HasText bytes
  globals : ∀ {name id}, symbols.find? name = some (.variable id) →
    ∃ v, symbols.globals[id.index]? = some v ∧ v.name = name

/-- The generator counts `d` bytes between the local variables and the stack pointer, as far as `q`
promises that the count is exact. -/
structure Ready (q : Prop) (c : Context) (d : Int) (s : State) : Prop where
  stream : c.tokens.Sealed
  known : Known c s.symbols
  tidy : Tidy s
  offset : q → s.scope.offset = Int32.ofInt d ∧ 0 ≤ d

lemma Ready.imp (h : Ready q c d s) (hr : r → q) : Ready r c d s :=
  { h with offset := h.offset ∘ hr }

lemma grown_of_lined {on : Bool} {b : Nat} {l m : List LineEntry} (h : Lined on b F l m) :
    Grown (b ≤ ·.codeOffset) l m := by
  obtain ⟨k, rfl, hk⟩ := h.told
  exact ⟨k, rfl, fun _ he => (Lined.bounds hk he).1⟩

/-! ## Written code -/

/-- The word at a mark of the code `F` stands for what the mark says. -/
def Refers (c : Context) (s : State) (b : Nat) (F : List Node) (m : Mark Reference) : Prop :=
  OnLiteral (fun r w => m.value.Means c s.symbols s.script r w) b F m.position

lemma Refers.stocks {b : Nat} {m : Mark Reference} (h : Refers c s b F m) (hs : Stocks s s') :
    Refers c s' b F m := by
  refine OnLiteral.imp h fun hm => ?_
  have hprefix : s.script.imports.toList <+: s'.script.imports.toList := by
    obtain ⟨l, hl, _⟩ := hs.imports
    exact ⟨l, hl.symm⟩
  rw [hs.symbols]
  exact hm.grow hs.strings hprefix

/-- From `s` to `s'` the code `F` was written, with the references and marks in it. If `g` holds, the
marks of local variables are exact. -/
structure Written (g : Prop) (c : Context) (s s' : State) (F : List Node) : Prop where
  code : s'.script.code.toList = s.script.code.toList ++ words s.script.size F
  wellFormed : ∀ {n}, n ∈ F → n.instr.WellFormed
  callBytes : s.callBytes ≤ s'.callBytes
  references : Grown (Refers c s' s.script.size F) s.references.entries.toList
    s'.references.entries.toList
  called : Called s.script.size F s'.references.entries.toList
  uses : Grown (OnLocal g s.script.size F) s.localUses.entries.toList s'.localUses.entries.toList
  lines : Lined c.options.lineNumbers s.script.size F s.script.lines.toList
    s'.script.lines.toList
  stocks : Stocks s s'
  tidy : Tidy s'

namespace Written

variable {g g' g'' : Prop}

lemma size_eq (h : Written g c s s' F) : s'.script.size = s.script.size + width F := by
  have := congrArg List.length h.code
  simpa [Script.size] using this

lemma fits (h : Written g c s s' F) (hs : Fits s') : Fits s :=
  lt_of_le_of_lt h.callBytes hs

lemma imp (h : Written g c s s' F) (hg : g' → g) : Written g' c s s' F :=
  { h with uses := h.uses.mono fun _ hu => hu.imp hg }

lemma trans (h : Written g c s t F) (h' : Written g' c t s' G) (hg : g'' → g) (hg' : g'' → g') :
    Written g'' c s s' (F ++ G) where
  code := by rw [h'.code, h.code, h.size_eq, words_append, List.append_assoc]
  wellFormed hn := (List.mem_append.1 hn).elim h.wellFormed h'.wellFormed
  callBytes := le_trans h.callBytes h'.callBytes
  references := (h.references.mono fun _ hm => Contains.append_left (hm.stocks h'.stocks)).trans
    (h'.references.mono fun _ hm => Contains.append_right (h.size_eq ▸ hm))
  called := (h.called.mono fun _ hm => h'.references.subset hm).append (h.size_eq ▸ h'.called)
  uses := (h.uses.mono fun _ hu => (hu.imp hg).append_left).trans
    (h'.uses.mono fun _ hu => (h.size_eq ▸ hu.imp hg').append_right)
  lines := h.lines.append (h.size_eq ▸ h'.lines)
  stocks := h.stocks.trans h'.stocks
  tidy := h'.tidy

section

variable {pos lastLine localBytes : Nat} {diagnostics : Diagnostics} {scope : Scope}
  {nesting : Nesting} {function? : Option FuncId} {jumpTarget : Option Nat} {bodies : Array Body}

lemma same (h : Written g c s t F) : Written g c s { t with
    pos, lastLine, localBytes, diagnostics, scope, nesting, function?, jumpTarget, bodies } F :=
  { h with stocks := { h.stocks with }, tidy := { h.tidy with } }

lemma since (h : Written g c { s with
    pos, lastLine, localBytes, diagnostics, scope, nesting, function?, jumpTarget, bodies } s' F) :
    Written g c s s' F :=
  { h with stocks := { h.stocks with } }

end

end Written

/-- From `s` to `s'` the code `F` was written, on a stack of depth `d` at first and of depth `e` at
the end. The depths hold if `q` does and the arguments of all calls fit. -/
structure Emits (q : Prop) (c : Context) (d : Int) (s s' : State) (F : List Node) (e : Int) : Prop
    extends Written (q ∧ Fits s') c s s' F where
  linked : Linked nowhere s.script.size F
  paced : q → Fits s' → Paced nowhere s.script.size F d e
  offset : q → Fits s' → s'.scope.offset = Int32.ofInt e ∧ 0 ≤ e
  aside : Aside s s'
  spent : Spends nothing s s'
  quiet : F = [] → s'.script.lastOp = s.script.lastOp
  last : F ≠ [] → ∃ p n, s'.script.lastOp = some p ∧ nodeAt s.script.size F p = some n ∧
    p + n.size = s.script.size + width F

lemma Emits.size_eq (h : Emits q c d s s' F e) :
    s'.script.size = s.script.size + width F :=
  h.toWritten.size_eq

lemma Emits.lastOpcode? (h : Emits q c d s s' F e) (hF : F ≠ []) :
    s'.script.lastOpcode? = lastOp? F := by
  obtain ⟨p, n, hp, hn, he⟩ := h.last hF
  have hb := nodeAt_bounds hn
  have hget : s'.script.code[p]? = (n.words p)[0]? := by
    have := getElem?_words hn n.size_pos
    rw [← Array.getElem?_toList, h.code, List.getElem?_append_right hb.1]
    simpa [Script.size] using this
  rw [lastOp?, getLast?_of_nodeAt hn he, Script.lastOpcode?, hp, Option.bind_some, hget]
  simp [Node.words, Instr.words_zero, Opcode.ofWord?_toWord]

lemma Emits.ready (hr : Ready q c d s) (h : Emits q c d s s' F e) :
    Ready (q ∧ Fits s') c e s' where
  stream := hr.stream
  known := h.aside.symbols ▸ hr.known
  tidy := h.tidy
  offset := fun ⟨hq, hs⟩ => h.offset hq hs

lemma Emits.fits (h : Emits q c d s s' F e) (hs : Fits s') : Fits s :=
  h.toWritten.fits hs

lemma Emits.trans (h : Emits q c d s t F x) (h' : Emits (q ∧ Fits t) c x t s' G e) :
    Emits q c d s s' (F ++ G) e where
  toWritten := h.toWritten.trans h'.toWritten (fun ⟨hq, hs⟩ => ⟨hq, h'.fits hs⟩)
    (fun ⟨hq, hs⟩ => ⟨⟨hq, h'.fits hs⟩, hs⟩)
  linked := h.linked.append (h.size_eq ▸ h'.linked)
  paced hq hs :=
    (h.paced hq (h'.fits hs)).append (h.size_eq ▸ h'.paced ⟨hq, h'.fits hs⟩ hs)
  offset hq hs := h'.offset ⟨hq, h'.fits hs⟩ hs
  aside := h.aside.trans h'.aside
  spent := h.spent.trans h'.spent h.aside.symbols (h.size_eq ▸ Nat.le_add_right ..)
    fun _ hm => h'.references.subset hm
  quiet hFG := by
    obtain ⟨hF, hG⟩ := List.append_eq_nil_iff.1 hFG
    rw [h'.quiet hG, h.quiet hF]
  last hFG := by
    by_cases hG : G = []
    · subst hG
      obtain ⟨p, n, hp, hn, he⟩ := h.last (by simpa using hFG)
      exact ⟨p, n, by rw [h'.quiet rfl, hp], nodeAt_append_left hn, by simpa using he⟩
    · obtain ⟨p, n, hp, hn, he⟩ := h'.last hG
      rw [h.size_eq] at hn he
      exact ⟨p, n, hp, nodeAt_append_right hn, by rw [width_append]; omega⟩

lemma Emits.cast (h : Emits q c d s s' F e) (he : q → Fits s' → e = x) : Emits q c d s s' F x :=
  { h with
    paced := fun hq hs => he hq hs ▸ h.paced hq hs
    offset := fun hq hs => he hq hs ▸ h.offset hq hs }

end Gen
end AdventureScript
