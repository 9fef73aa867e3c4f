import AdventureScript.Proofs.Scope.History
import Mathlib.Data.List.Induction

/-!
Scopes are lexical: block by block a scope holds the live variables of its history, and so it answers
what lexical scoping says after every history.
-/
namespace AdventureScript
open History

variable {v : Variable}

namespace Scope

variable {h : History} {a : ScopeAction} {s : Scope} {bs : List Block} {b : Block}

/-- A declaration that fails leaves the scope as it is. -/
def act (s : Scope) : ScopeAction → Scope
  | .enter => s.enter
  | .leave => s.leave.2
  | .declare v => (s.declare v).toOption.getD s
  | .adjust delta => s.adjust delta

lemma act_declare_of_some {w : Variable} (hget : s.getHere? v.name = some w) :
    s.act (.declare v) = s := by
  rw [act, declare, hget]
  rfl

lemma act_declare_of_none (hget : s.getHere? v.name = none) : s.act (.declare v) = s.add v := by
  rw [act, declare, hget]
  rfl

def after (h : History) : Scope :=
  h.foldl act {}

/-- After `h` a scope gives the answers of lexical scoping. -/
structure Answers (h : History) (s : Scope) : Prop where
  depth : s.depth = h.depthAt h.length
  get_some : ∀ name v, s.get? name = some v ↔ ∃ i, h.Means name i v
  get_none : ∀ name, s.get? name = none ↔
    ∀ i v, h.declared? i = some v → h.Open i h.length → v.name ≠ name
  varsFrom : ∀ d, s.varsFrom d = h.live (d ≤ ·)
  /-- What was allocated since the innermost block of a depth was entered. -/
  sizeFrom : ∀ d, 0 < d → d ≤ s.depth → ∃ i, h[i]? = some .enter ∧ h.depthAt (i + 1) = d ∧
    h.Open (i + 1) h.length ∧ s.sizeFrom d = History.moved (h.drop (i + 1))
  declare_error : 0 < s.depth → ∀ v w, s.declare v = .error w ↔
    ∃ i, h.declared? i = some w ∧ w.name = v.name ∧ h.Open i h.length ∧
      h.depthAt i = h.depthAt h.length
  leave : 0 < s.depth → s.leave.1 = h.live (· = h.depthAt h.length)

structure IsOpen (h : History) (depth : Nat) (b : Block) : Prop where
  vars : b.vars = h.live (· = depth)
  start : ∃ i, h[i]? = some .enter ∧ h.depthAt (i + 1) = depth ∧ h.Open (i + 1) h.length ∧
    b.start = History.moved (h.take i)

def AreOpen (h : History) : List Block → Prop
  | [] => True
  | b :: bs => IsOpen h (bs.length + 1) b ∧ AreOpen h bs

structure Follows (h : History) (s : Scope) : Prop where
  depth : s.blocks.length = depthFrom 0 h
  offset : s.offset = h.moved
  blocks : AreOpen h s.blocks

lemma IsOpen.snoc {depth : Nat} {vars : List Variable} (hb : IsOpen h depth b)
    (hnew : depth ≤ a.depthFrom (depthFrom 0 h))
    (hvars : vars = (if depthFrom 0 h = depth then ((h ++ [a]).declared? h.length).toList else []) ++
      b.vars) : IsOpen (h ++ [a]) depth { b with vars := vars } := by
  constructor
  · rw [live_snoc fun d _ hd => (of_decide_eq_true hd).trans_le hnew, ← hb.vars]
    simpa using hvars
  · obtain ⟨i, hi, hdepth, ho, hstart⟩ := hb.start
    have hlt : i < h.length := (List.getElem?_eq_some_iff.1 hi).1
    refine ⟨i, ?_, ?_, ?_, ?_⟩
    · rwa [List.getElem?_append_left hlt]
    · rwa [depthAt_append hlt]
    · rw [List.length_append, List.length_singleton, open_snoc hlt, hdepth]
      exact ⟨ho, hnew⟩
    · rwa [List.take_append_of_le_length hlt.le]

lemma AreOpen.snoc (hbs : AreOpen h bs) (hold : bs.length ≤ depthFrom 0 h)
    (hnew : bs.length ≤ a.depthFrom (depthFrom 0 h))
    (hquiet : (h ++ [a]).declared? h.length = none ∨ bs.length < depthFrom 0 h) :
    AreOpen (h ++ [a]) bs := by
  induction bs with
  | nil => trivial
  | cons b bs ih =>
    simp only [List.length_cons] at hold hnew hquiet
    refine ⟨hbs.1.snoc hnew ?_, ih hbs.2 (by omega) (by omega) (by omega)⟩
    rcases hquiet with hquiet | hlt
    · simp [hquiet]
    · simp [hlt.ne']

/-! ## One action, and all of them -/

lemma declared?_of_name? (ha : a.name? = none) : (h ++ [a]).declared? h.length = none := by
  cases a <;> simp_all [declared?, ScopeAction.name?]

section

variable (hs : Follows h s)
include hs

lemma Follows.quiet (ha : a.name? = none)
    (hle : depthFrom 0 h ≤ a.depthFrom (depthFrom 0 h)) : AreOpen (h ++ [a]) s.blocks :=
  hs.blocks.snoc hs.depth.le (hs.depth.trans_le hle) (.inl (declared?_of_name? ha))

lemma Follows.enter : Follows (h ++ [.enter]) s.enter where
  depth := by simp [Scope.enter, hs.depth, ScopeAction.depthFrom]
  offset := by simp [Scope.enter, hs.offset, ScopeAction.delta]
  blocks := by
    refine ⟨⟨?_, h.length, ?_, ?_, ?_, ?_⟩, hs.quiet rfl (Nat.le_succ _)⟩
    · rw [live_snoc fun d hd _ => hd.trans (Nat.le_succ _), declared?_of_name? rfl,
        live_eq_nil fun d hd => decide_eq_false (by rw [hs.depth]; omega)]
      simp
    · simp
    · rw [depthAt_snoc, hs.depth]
      rfl
    · intro k hk hle
      obtain rfl : k = h.length + 1 := by simp at hk; omega
      exact le_rfl
    · simp [hs.offset]

lemma Follows.leave (hpos : 0 < depthFrom 0 h) :
    Follows (h ++ [.leave]) s.leave.2 := by
  have hdepth := hs.depth
  have hblocks := hs.blocks
  unfold Scope.leave
  cases hbs : s.blocks with
  | nil => simp [hbs] at hdepth; omega
  | cons b bs =>
    simp only [hbs, List.length_cons] at hdepth hblocks
    refine ⟨?_, ?_, hblocks.2.snoc (by omega) ?_ (.inr (by omega))⟩
    · simp [ScopeAction.depthFrom]
      omega
    · simp [hs.offset, ScopeAction.delta]
    · simp only [ScopeAction.depthFrom]
      omega

lemma Follows.adjust (delta : Int32) :
    Follows (h ++ [.adjust delta]) (s.adjust delta) where
  depth := by simp [Scope.adjust, hs.depth, ScopeAction.depthFrom]
  offset := by simp [Scope.adjust, hs.offset, ScopeAction.delta]
  blocks := hs.quiet rfl le_rfl

lemma Follows.getHere? (hpos : 0 < depthFrom 0 h) (name : String) :
    s.getHere? name = (h.live (· = depthFrom 0 h)).find? (·.name = name) := by
  have hdepth := hs.depth
  have hblocks := hs.blocks
  unfold Scope.getHere?
  cases hbs : s.blocks with
  | nil => simp [hbs] at hdepth; omega
  | cons b bs =>
    simp only [hbs, List.length_cons] at hdepth hblocks
    simp [hblocks.1.vars, hdepth]

lemma Follows.declare (hpos : 0 < depthFrom 0 h) :
    Follows (h ++ [.declare v]) (s.act (.declare v)) := by
  have hhere := hs.getHere? hpos v.name
  have hdepth := hs.depth
  have hblocks := hs.blocks
  have hnew := declared?_snoc (h := h) (v := v)
  rw [← hhere] at hnew
  cases hget : s.getHere? v.name with
  | some w =>
    rw [hget] at hnew
    rw [act_declare_of_some hget]
    exact ⟨by simpa [ScopeAction.depthFrom] using hdepth, by simpa [ScopeAction.delta] using hs.offset,
      hblocks.snoc hdepth.le hdepth.le (.inl (by simpa using hnew))⟩
  | none =>
    rw [hget] at hnew
    rw [act_declare_of_none hget, Scope.add]
    cases hbs : s.blocks with
    | nil => simp [hbs] at hdepth; omega
    | cons b bs =>
      simp only [hbs, List.length_cons] at hdepth hblocks
      refine ⟨by simpa [ScopeAction.depthFrom] using hdepth,
        by simpa [ScopeAction.delta] using hs.offset, ?_, ?_⟩
      · refine hblocks.1.snoc (a := .declare v) hdepth.le ?_
        simp [hnew, hdepth]
      · exact hblocks.2.snoc (by omega) (by simp only [ScopeAction.depthFrom]; omega)
          (.inr (by omega))

lemma Follows.act (ha : a.needsBlock → 0 < depthFrom 0 h) :
    Follows (h ++ [a]) (s.act a) := by
  cases a with
  | enter => exact hs.enter
  | leave => exact hs.leave (ha rfl)
  | declare v => exact hs.declare (ha rfl)
  | adjust delta => exact hs.adjust delta

omit hs in
lemma follows_after (hh : Admissible 0 h) : Follows h (after h) := by
  induction h using List.reverseRecOn with
  | nil => exact ⟨rfl, rfl, trivial⟩
  | append_singleton h a ih =>
    obtain ⟨hh, ha, _⟩ := admissible_append.1 hh
    simpa [after] using (ih hh).act ha

/-! ## The answers -/

omit hs in
lemma AreOpen.varsFrom (hbs : AreOpen h bs) {d : Nat} (hd : 0 < d) :
    (bs.take (bs.length + 1 - d)).flatMap (·.vars) =
      h.live fun e => decide (d ≤ e) && decide (e ≤ bs.length) := by
  induction bs with
  | nil =>
    rw [live_congr (q := fun _ => false) fun i v _ _ => by simp; omega]
    simp [live, openActions]
  | cons b bs ih =>
    rcases Nat.lt_or_ge (bs.length + 1) d with hlt | hge
    · rw [live_congr (q := fun _ => false) fun i v _ _ => by simp; omega]
      rw [show (b :: bs).length + 1 - d = 0 by simp; omega]
      simp [live, openActions]
    · have hsplit := live_append (h := h) (p := fun e => decide (e = bs.length + 1))
        (q := fun e => decide (d ≤ e) && decide (e ≤ bs.length)) (by simp; omega)
      have htake : (b :: bs).length + 1 - d = (bs.length + 1 - d) + 1 := by simp; omega
      rw [htake, List.take_succ_cons, List.flatMap_cons, ih hbs.2, hbs.1.vars, ← hsplit]
      refine live_congr fun i v _ _ => ?_
      rw [Bool.eq_iff_iff]
      simp
      omega

omit hs in
lemma AreOpen.getElem (hbs : AreOpen h bs) {k : Nat} (hk : k < bs.length) :
    ∃ b, bs.reverse[k]? = some b ∧ IsOpen h (k + 1) b := by
  induction bs with
  | nil => simp at hk
  | cons b bs ih =>
    rw [List.reverse_cons]
    rcases Nat.lt_or_ge k bs.length with hlt | hge
    · obtain ⟨c, hc, hopen⟩ := ih hbs.2 hlt
      exact ⟨c, by rw [List.getElem?_append_left (by simpa using hlt), hc], hopen⟩
    · obtain rfl : k = bs.length := by simp at hk; omega
      exact ⟨b, by simp, hbs.1⟩

lemma Follows.varsFrom (hh : Admissible 0 h) (d : Nat) :
    s.varsFrom d = h.live (d ≤ ·) := by
  have hpos {i : Nat} {v : Variable} (hv : h.declared? i = some v) : 0 < h.depthAt i :=
    hh.pos (declared?_eq_some.1 hv).1 rfl
  have hle {i : Nat} {v : Variable} (hv : h.declared? i = some v) (ho : h.Open i h.length) :
      h.depthAt i ≤ s.blocks.length := hs.depth ▸ ho.le_depth (lt_of_declared? hv).le
  unfold Scope.varsFrom Scope.depth
  rcases Nat.eq_zero_or_pos d with rfl | hd
  · have hall := hs.blocks.varsFrom Nat.one_pos
    rw [Nat.add_sub_cancel, List.take_length] at hall
    rw [Nat.sub_zero, List.take_of_length_le (Nat.le_succ _), hall]
    refine live_congr fun i v hv ho => ?_
    have := hpos hv
    have := hle hv ho
    simp
    omega
  · rw [hs.blocks.varsFrom hd]
    refine live_congr fun i v hv ho => ?_
    simp [hle hv ho]

lemma Follows.get? (hh : Admissible 0 h) (name : String) :
    s.get? name = (h.live (0 ≤ ·)).find? (·.name = name) := by
  rw [← hs.varsFrom hh, Scope.varsFrom, List.find?_flatMap, List.take_of_length_le (by simp [Scope.depth])]
  rfl

omit hs in
lemma means_iff {name : String} :
    (∃ i, h.Means name i v) ↔ (h.live (0 ≤ ·)).find? (·.name = name) = some v := by
  rw [find?_live]
  simp only [Nat.zero_le, decide_true, true_and, forall_const]
  constructor
  · rintro ⟨i, hv, hname, ho, hmax⟩
    refine ⟨i, hv, hname, ho, fun j w hw hwname hoj => ?_⟩
    by_contra hlt
    have := ho j (lt_of_declared? hw).le (by omega)
    have := hmax j w hw hwname hoj
    omega
  · rintro ⟨i, hv, hname, ho, hmax⟩
    refine ⟨i, hv, hname, ho, fun j w hw hwname hoj => ?_⟩
    have hji := hmax j w hw hwname hoj
    have := hoj i (lt_of_declared? hv).le hji
    omega

lemma Follows.sizeFrom {d : Nat} (hd : 0 < d) (hle : d ≤ s.blocks.length) :
    ∃ i, h[i]? = some .enter ∧ h.depthAt (i + 1) = d ∧ h.Open (i + 1) h.length ∧
      s.sizeFrom d = moved (h.drop (i + 1)) := by
  obtain ⟨b, hb, hopen⟩ := hs.blocks.getElem (k := d - 1) (by omega)
  rw [Nat.sub_add_cancel hd] at hopen
  obtain ⟨i, hi, hdepth, ho, hstart⟩ := hopen.start
  obtain ⟨hlt, hget⟩ := List.getElem?_eq_some_iff.1 hi
  have hmoved : h.moved = moved (h.take i) + moved (h.drop (i + 1)) := by
    conv_lhs => rw [← List.take_append_drop i h, List.drop_eq_getElem_cons hlt, hget]
    simp [ScopeAction.delta]
  simp only [Scope.sizeFrom, hb, if_neg hd.ne', hs.offset, hstart, hmoved]
  grind

lemma Follows.answers (hh : Admissible 0 h) : Answers h s where
  depth := hs.depth.trans depthAt_length.symm
  get_some name v := by
    rw [means_iff]
    exact iff_of_eq (congrArg (· = some v) (hs.get? hh name))
  get_none name := by
    rw [hs.get? hh, List.find?_eq_none]
    simp only [mem_live, decide_eq_true_eq]
    constructor
    · exact fun hn i v hv ho => hn v ⟨i, hv, Nat.zero_le _, ho⟩
    · rintro hn v ⟨i, hv, _, ho⟩
      exact hn i v hv ho
  varsFrom := hs.varsFrom hh
  sizeFrom d hd hle := hs.sizeFrom hd hle
  declare_error hpos v w := by
    have hpos : 0 < depthFrom 0 h := hs.depth ▸ hpos
    have herror : s.declare v = .error w ↔ s.getHere? v.name = some w := by
      cases hget : s.getHere? v.name <;> simp [Scope.declare, hget]
    rw [herror, hs.getHere? hpos, find?_live, depthAt_length]
    refine exists_congr fun i => ?_
    constructor
    · rintro ⟨hw, hname, hdepth, ho, _⟩
      exact ⟨hw, hname, ho, of_decide_eq_true hdepth⟩
    · rintro ⟨hw, hname, ho, hdepth⟩
      refine ⟨hw, hname, decide_eq_true hdepth, ho, fun j w' hw' hname' hdepth' ho' => ?_⟩
      exact (eq_of_declared? hw' hw (hname'.trans hname.symm)
        ((of_decide_eq_true hdepth').trans hdepth.symm) ho' ho).le
  leave hpos := by
    have hdepth := hs.depth
    have hblocks := hs.blocks
    simp only [Scope.leave]
    cases hbs : s.blocks with
    | nil => simp [Scope.depth, hbs] at hpos
    | cons b bs =>
      simp only [hbs, List.length_cons] at hdepth hblocks
      simp [hblocks.1.vars, hdepth]

end

lemma blocks_act {tops : List Block} (hs : s.blocks = tops ++ bs) (a : ScopeAction)
    (hpos : 0 < tops.length) : ∃ tops', (s.act a).blocks = tops' ++ bs ∧
      tops'.length = a.depthFrom tops.length ∧ (s.act a).offset = s.offset + a.delta := by
  obtain ⟨b, tops, rfl⟩ := List.exists_cons_of_length_pos hpos
  cases a with
  | enter => exact ⟨⟨s.offset, []⟩ :: b :: tops, by simp [act, Scope.enter, hs],
      rfl, by simp [act, Scope.enter, ScopeAction.delta]⟩
  | leave => exact ⟨tops, by simp [act, Scope.leave, hs], rfl,
      by simp [act, Scope.leave, hs, ScopeAction.delta]⟩
  | adjust delta => exact ⟨b :: tops, hs, rfl, rfl⟩
  | declare v =>
    cases hget : s.getHere? v.name with
    | some w =>
      rw [act_declare_of_some hget]
      exact ⟨b :: tops, hs, rfl, by simp [ScopeAction.delta]⟩
    | none =>
      rw [act_declare_of_none hget]
      exact ⟨{ b with vars := v :: b.vars } :: tops, by simp [Scope.add, hs], rfl,
        by simp [Scope.add, hs, ScopeAction.delta]⟩

lemma blocks_foldl {g : History} {tops : List Block} (hs : s.blocks = tops ++ bs)
    (hg : ∀ i ≤ g.length, 0 < depthFrom tops.length (g.take i)) :
    ∃ tops', (g.foldl act s).blocks = tops' ++ bs ∧
      tops'.length = depthFrom tops.length g ∧
      (g.foldl act s).offset = s.offset + moved g := by
  induction g generalizing s tops with
  | nil => exact ⟨tops, hs, rfl, by simp⟩
  | cons a g ih =>
    obtain ⟨tops1, hs1, hlength1, hoffset1⟩ := blocks_act hs a (by simpa using hg 0 (Nat.zero_le _))
    obtain ⟨tops2, hs2, hlength2, hoffset2⟩ := ih hs1 fun i hi => by
      simpa [hlength1] using hg (i + 1) (by simpa using hi)
    refine ⟨tops2, hs2, by simpa [hlength1] using hlength2, ?_⟩
    simpa [hoffset1, Int32.add_assoc] using hoffset2

lemma after_left {before block later : History} (hb : block.Within) :
    after (before ++ .enter :: (block ++ .leave :: later)) =
      after (before ++ .adjust block.moved :: later) := by
  simp only [after, List.foldl_append, List.foldl_cons]
  congr 1
  set s := before.foldl act {}
  obtain ⟨tops, hblocks, hlength, hoffset⟩ := blocks_foldl
    (show s.enter.blocks = [⟨s.offset, []⟩] ++ s.blocks from rfl) hb.1
  rw [show depthFrom [(⟨s.offset, []⟩ : Block)].length block = 1 from hb.2] at hlength
  obtain ⟨b, rfl⟩ := List.length_eq_one_iff.1 hlength
  change (block.foldl act s.enter).leave.2 = s.adjust block.moved
  simp only [Scope.leave, hblocks, List.singleton_append, hoffset]
  rfl

end Scope

end AdventureScript
