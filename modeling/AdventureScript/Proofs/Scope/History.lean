import AdventureScript.Scope
import Mathlib.Data.List.Sort

/-!
Lexical scoping, read off a history. Which variables are live, what a name means and what a block
gives back when it is left follow from the order in which blocks were entered and left and variables
declared.
-/
namespace AdventureScript

variable {name : String}

inductive ScopeAction where
  | enter
  | leave
  | declare (v : Variable)
  | adjust (delta : Int32)
  deriving DecidableEq

namespace ScopeAction

def depthFrom (d : Nat) : ScopeAction → Nat
  | enter => d + 1
  | leave => d - 1
  | declare _ | adjust _ => d

def needsBlock : ScopeAction → Bool
  | leave | declare _ => true
  | enter | adjust _ => false

def name? : ScopeAction → Option String
  | declare v => some v.name
  | _ => none

def delta : ScopeAction → Int32
  | adjust delta => delta
  | _ => 0

end ScopeAction

abbrev History := List ScopeAction

namespace History

def depthFrom (d : Nat) (h : History) : Nat :=
  h.foldl ScopeAction.depthFrom d

def depthAt (h : History) (i : Nat) : Nat :=
  depthFrom 0 (h.take i)

def moved (h : History) : Int32 :=
  h.foldr (fun a sum => a.delta + sum) 0

/-- From `d` open blocks on, no block is left and no variable declared where none is open. -/
def Admissible : (d : Nat) → History → Prop
  | _, [] => True
  | d, a :: h => (a.needsBlock → 0 < d) ∧ Admissible (a.depthFrom d) h

def Within (h : History) : Prop :=
  (∀ i ≤ h.length, 0 < depthFrom 1 (h.take i)) ∧ depthFrom 1 h = 1

/-- The block that was innermost at action `i` is still open after the first `n` actions. -/
def Open (h : History) (i n : Nat) : Prop :=
  ∀ k ≤ n, i ≤ k → h.depthAt i ≤ h.depthAt k

instance (h : History) (i n : Nat) : Decidable (h.Open i n) :=
  inferInstanceAs (Decidable (∀ k ≤ n, i ≤ k → h.depthAt i ≤ h.depthAt k))

/-- In the block that is innermost at action `i`, the name has not been declared before. -/
def Fresh (h : History) (i : Nat) (name : String) : Prop :=
  ∀ j < i, h.depthAt j = h.depthAt i → h.Open j i → h[j]?.bind ScopeAction.name? ≠ some name

instance (h : History) (i : Nat) (name : String) : Decidable (h.Fresh i name) :=
  inferInstanceAs (Decidable (∀ j < i, h.depthAt j = h.depthAt i → h.Open j i →
    h[j]?.bind ScopeAction.name? ≠ some name))

/-- The variable that action `i` declares with success. -/
def declared? (h : History) (i : Nat) : Option Variable :=
  match h[i]? with
  | some (.declare v) => if h.Fresh i v.name then some v else none
  | _ => none

/-- The actions in blocks that are still open, at the depths that satisfy `p`, latest first. -/
def openActions (h : History) (p : Nat → Bool) : List Nat :=
  (List.range h.length).reverse.filter fun i => p (h.depthAt i) && h.Open i h.length

/-- The live variables of the depths that satisfy `p`, latest first. -/
def live (h : History) (p : Nat → Bool) : List Variable :=
  (h.openActions p).filterMap h.declared?

/-- The name means the variable declared by action `i`: of those of this name in open blocks none is
further in, nor as far in and later. -/
def Means (h : History) (name : String) (i : Nat) (v : Variable) : Prop :=
  h.declared? i = some v ∧ v.name = name ∧ h.Open i h.length ∧
    ∀ j w, h.declared? j = some w → w.name = name → h.Open j h.length →
      h.depthAt j < h.depthAt i ∨ h.depthAt j = h.depthAt i ∧ j ≤ i

variable {h t : History} {a : ScopeAction} {p q : Nat → Bool} {i j n d : Nat} {v w : Variable}

@[simp] lemma depthFrom_nil : depthFrom d [] = d := rfl

@[simp] lemma depthFrom_cons : depthFrom d (a :: h) = depthFrom (a.depthFrom d) h := rfl

@[simp] lemma depthFrom_append : depthFrom d (h ++ t) = depthFrom (depthFrom d h) t :=
  List.foldl_append

@[simp] lemma moved_nil : moved [] = 0 := rfl

@[simp] lemma moved_cons : moved (a :: h) = a.delta + moved h := rfl

@[simp] lemma moved_append : moved (h ++ t) = moved h + moved t := by
  induction h with
  | nil => simp
  | cons a h ih => simp [ih, Int32.add_assoc]

lemma admissible_append :
    Admissible d (h ++ t) ↔ Admissible d h ∧ Admissible (depthFrom d h) t := by
  induction h generalizing d with
  | nil => simp [Admissible]
  | cons a h ih => simp [Admissible, ih, and_assoc]

lemma Admissible.pos (hh : Admissible d h) (hi : h[i]? = some a) (ha : a.needsBlock) :
    0 < depthFrom d (h.take i) := by
  induction h generalizing d i with
  | nil => simp at hi
  | cons b h ih =>
    cases i with
    | zero =>
      obtain rfl : b = a := by simpa using hi
      simpa using hh.1 ha
    | succ i => simpa using ih hh.2 (by simpa using hi)

lemma depthAt_append (hi : i ≤ h.length) : (h ++ t).depthAt i = h.depthAt i := by
  simp [depthAt, List.take_append_of_le_length hi]

@[simp] lemma depthAt_length : h.depthAt h.length = depthFrom 0 h := by
  simp [depthAt]

lemma depthAt_snoc : (h ++ [a]).depthAt (h.length + 1) = a.depthFrom (depthFrom 0 h) := by
  have := depthAt_length (h := h ++ [a])
  simpa using this

lemma open_append (hn : n ≤ h.length) : (h ++ t).Open i n ↔ h.Open i n := by
  refine forall₂_congr fun k hk => ?_
  constructor
  all_goals
    intro ho hik
    have := ho hik
    rwa [depthAt_append (by omega), depthAt_append (by omega)] at *

lemma open_snoc (hi : i ≤ h.length) :
    (h ++ [a]).Open i (h.length + 1) ↔
      h.Open i h.length ∧ h.depthAt i ≤ a.depthFrom (depthFrom 0 h) := by
  rw [← open_append (t := [a]) le_rfl, ← depthAt_snoc, ← depthAt_append (t := [a]) hi]
  constructor
  · intro ho
    exact ⟨fun k hk => ho k (by omega), ho _ le_rfl (by omega)⟩
  · rintro ⟨ho, hlast⟩ k hk hik
    rcases Nat.lt_or_ge h.length k with hlt | hle
    · obtain rfl : k = h.length + 1 := by omega
      exact hlast
    · exact ho k hle hik

lemma Open.le_depth (ho : h.Open i h.length) (hi : i ≤ h.length) :
    h.depthAt i ≤ depthFrom 0 h := by
  simpa using ho h.length le_rfl hi

lemma declared?_append (hi : i < h.length) : (h ++ t).declared? i = h.declared? i := by
  have hfresh (name : String) : (h ++ t).Fresh i name ↔ h.Fresh i name := by
    refine forall₂_congr fun j hj => ?_
    rw [depthAt_append (by omega), depthAt_append (by omega), open_append (by omega),
      List.getElem?_append_left (by omega)]
  simp only [declared?, List.getElem?_append_left hi, hfresh]

lemma declared?_eq_some :
    h.declared? i = some v ↔ h[i]? = some (.declare v) ∧ h.Fresh i v.name := by
  unfold declared?
  split
  · next w hw =>
    simp only [hw, Option.ite_none_right_eq_some, Option.some.injEq, ScopeAction.declare.injEq]
    constructor
    · rintro ⟨hf, rfl⟩
      exact ⟨rfl, hf⟩
    · rintro ⟨rfl, hf⟩
      exact ⟨hf, rfl⟩
  · next hne => simpa using fun hw => absurd hw (hne v)

lemma lt_of_declared? (hv : h.declared? i = some v) : i < h.length :=
  (List.getElem?_eq_some_iff.1 (declared?_eq_some.1 hv).1).1

/-! ## Live variables -/

lemma mem_openActions :
    i ∈ h.openActions p ↔ i < h.length ∧ p (h.depthAt i) = true ∧ h.Open i h.length := by
  simp [openActions]

lemma openActions_pairwise (p : Nat → Bool) : (h.openActions p).Pairwise (· > ·) :=
  .filter _ (List.pairwise_reverse.2 List.pairwise_lt_range)

lemma mem_live : v ∈ h.live p ↔
    ∃ i, h.declared? i = some v ∧ p (h.depthAt i) = true ∧ h.Open i h.length := by
  simp only [live, List.mem_filterMap, mem_openActions]
  constructor
  · rintro ⟨i, ⟨_, hp, ho⟩, hv⟩
    exact ⟨i, hv, hp, ho⟩
  · rintro ⟨i, hv, hp, ho⟩
    exact ⟨i, ⟨lt_of_declared? hv, hp, ho⟩, hv⟩

lemma openActions_snoc
    (hp : ∀ d ≤ depthFrom 0 h, p d = true → d ≤ a.depthFrom (depthFrom 0 h)) :
    (h ++ [a]).openActions p =
      (if p (depthFrom 0 h) then [h.length] else []) ++ h.openActions p := by
  have hold : (List.range h.length).reverse.filter (fun i =>
        p ((h ++ [a]).depthAt i) && (h ++ [a]).Open i (h.length + 1)) = h.openActions p := by
    refine List.filter_congr fun i hi => ?_
    have hi : i < h.length := by simpa using hi
    rw [depthAt_append hi.le, Bool.eq_iff_iff]
    simp only [Bool.and_eq_true, decide_eq_true_eq, open_snoc hi.le, and_congr_right_iff,
      and_iff_left_iff_imp]
    exact fun hpi ho => hp _ (ho.le_depth hi.le) hpi
  have hlast : (h ++ [a]).Open h.length (h.length + 1) ↔
      depthFrom 0 h ≤ a.depthFrom (depthFrom 0 h) := by
    rw [open_snoc le_rfl, depthAt_length, and_iff_right_iff_imp]
    intro _ k hk hle
    obtain rfl : k = h.length := by omega
    exact le_rfl
  rw [openActions, List.length_append, List.length_singleton, List.range_succ, List.reverse_append,
    List.reverse_singleton, List.singleton_append, List.filter_cons, hold, depthAt_append le_rfl,
    depthAt_length]
  by_cases hd : p (depthFrom 0 h) = true
  · simp [hd, hlast.2 (hp _ le_rfl hd)]
  · simp [hd]

lemma live_snoc (hp : ∀ d ≤ depthFrom 0 h, p d = true → d ≤ a.depthFrom (depthFrom 0 h)) :
    (h ++ [a]).live p = (if p (depthFrom 0 h) then ((h ++ [a]).declared? h.length).toList else []) ++
      h.live p := by
  have hold : (h.openActions p).filterMap (h ++ [a]).declared? = h.live p :=
    List.filterMap_congr fun i hi => declared?_append (mem_openActions.1 hi).1
  rw [live, openActions_snoc hp, List.filterMap_append, hold]
  split
  · cases hd : (h ++ [a]).declared? h.length <;> simp [hd]
  · rfl

lemma lt_of_open (hi : i < h.length) (ho : h.Open j h.length) (hlt : h.depthAt i < h.depthAt j) :
    i < j := by
  by_contra hle
  have := ho i hi.le (by omega)
  omega

lemma live_append (hpq : ∀ d e, p d = true → q e = true → e < d) :
    h.live (fun d => p d || q d) = h.live p ++ h.live q := by
  have hpos : h.openActions (fun d => p d || q d) = h.openActions p ++ h.openActions q := by
    refine (openActions_pairwise _).eq_of_mem_iff (List.pairwise_append.2
      ⟨openActions_pairwise p, openActions_pairwise q, fun i hi j hj => ?_⟩) fun i => ?_
    · obtain ⟨_, hpi, hoi⟩ := mem_openActions.1 hi
      obtain ⟨hj, hqj, _⟩ := mem_openActions.1 hj
      exact lt_of_open hj hoi (hpq _ _ hpi hqj)
    · simp only [List.mem_append, mem_openActions, Bool.or_eq_true]
      tauto
  simp [live, hpos]

lemma live_congr (hpq : ∀ i v, h.declared? i = some v → h.Open i h.length →
    p (h.depthAt i) = q (h.depthAt i)) : h.live p = h.live q := by
  unfold live openActions
  rw [List.filterMap_filter, List.filterMap_filter]
  refine List.filterMap_congr fun i _ => ?_
  cases hv : h.declared? i with
  | none => simp
  | some v =>
    by_cases ho : h.Open i h.length
    · simp [hpq i v hv ho]
    · simp [ho]

lemma live_eq_nil (hp : ∀ d ≤ depthFrom 0 h, p d = false) : h.live p = [] := by
  rw [live_congr (q := fun _ => false) fun i v hv ho => hp _ (ho.le_depth (lt_of_declared? hv).le)]
  simp [live, openActions]

lemma find?_live : (h.live p).find? (·.name = name) = some v ↔
    ∃ i, h.declared? i = some v ∧ v.name = name ∧ p (h.depthAt i) = true ∧ h.Open i h.length ∧
      ∀ j w, h.declared? j = some w → w.name = name → p (h.depthAt j) = true →
        h.Open j h.length → j ≤ i := by
  have hfirst (l : List Nat) (hl : l.Pairwise (· > ·)) (named : Nat → Bool) (i : Nat) :
      l.find? named = some i ↔ i ∈ l ∧ named i = true ∧ ∀ j ∈ l, named j = true → j ≤ i := by
    induction l with
    | nil => simp
    | cons k l ih =>
      obtain ⟨hk, hl⟩ := List.pairwise_cons.1 hl
      cases hnamed : named k with
      | true => grind
      | false => grind
  unfold live
  rw [List.find?_filterMap, Option.bind_eq_some_iff]
  refine exists_congr fun i => ?_
  rw [hfirst _ (openActions_pairwise p)]
  constructor
  · rintro ⟨⟨hi, hname, hmax⟩, hv⟩
    obtain ⟨_, hp, ho⟩ := mem_openActions.1 hi
    refine ⟨hv, by simpa [hv] using hname, hp, ho, fun j w hw hwname hpj hoj => hmax j ?_ ?_⟩
    · exact mem_openActions.2 ⟨lt_of_declared? hw, hpj, hoj⟩
    · simp [hw, hwname]
  · rintro ⟨hv, hname, hp, ho, hmax⟩
    refine ⟨⟨mem_openActions.2 ⟨lt_of_declared? hv, hp, ho⟩, by simp [hv, hname], ?_⟩, hv⟩
    intro j hj hnamed
    obtain ⟨_, hpj, hoj⟩ := mem_openActions.1 hj
    cases hw : h.declared? j with
    | none => simp [hw] at hnamed
    | some w => exact hmax j w hw (by simpa [hw] using hnamed) hpj hoj

lemma exists_declared? (hj : h[j]?.bind ScopeAction.name? = some name) (ho : h.Open j h.length) :
    ∃ i w, h.declared? i = some w ∧ w.name = name ∧ h.Open i h.length ∧
      h.depthAt i = h.depthAt j := by
  induction j using Nat.strong_induction_on with
  | _ j ih =>
    obtain ⟨b, hb, hname⟩ := Option.bind_eq_some_iff.1 hj
    obtain ⟨v, rfl⟩ : ∃ v, b = .declare v := by cases b <;> simp_all [ScopeAction.name?]
    have hv : v.name = name := by simpa [ScopeAction.name?] using hname
    by_cases hfresh : h.Fresh j v.name
    · exact ⟨j, v, declared?_eq_some.2 ⟨hb, hfresh⟩, hv, ho, rfl⟩
    · -- The earlier one of this name is in the same block, which is open until `j` and from there on.
      unfold Fresh at hfresh
      push Not at hfresh
      obtain ⟨k, hk, hdepth, hok, hname'⟩ := hfresh
      have hok' : h.Open k h.length := by
        intro l hl hkl
        rcases Nat.lt_or_ge j l with hjl | hlj
        · exact hdepth ▸ ho l hl hjl.le
        · exact hok l hlj hkl
      obtain ⟨i, w, hw⟩ := ih k hk (hname'.trans (by rw [hv])) hok'
      exact ⟨i, w, hw.1, hw.2.1, hw.2.2.1, hw.2.2.2.trans hdepth⟩

lemma eq_of_declared? (hi : h.declared? i = some v) (hj : h.declared? j = some w)
    (hname : v.name = w.name) (hdepth : h.depthAt i = h.depthAt j) (hoi : h.Open i h.length)
    (hoj : h.Open j h.length) : i = j := by
  have key {i j : Nat} {v w : Variable} (hi : h.declared? i = some v) (hj : h.declared? j = some w)
      (hname : v.name = w.name) (hdepth : h.depthAt i = h.depthAt j) (hoi : h.Open i h.length) :
      ¬ i < j := fun hlt => by
    refine (declared?_eq_some.1 hj).2 i hlt hdepth ?_ ?_
    · exact fun k hk hik => hoi k (hk.trans (lt_of_declared? hj).le) hik
    · simp [(declared?_eq_some.1 hi).1, ScopeAction.name?, hname]
  have := key hi hj hname hdepth hoi
  have := key hj hi hname.symm hdepth.symm hoj
  omega

lemma declared?_snoc :
    (h ++ [ScopeAction.declare v]).declared? h.length =
      if (h.live (· = depthFrom 0 h)).find? (·.name = v.name) = none then some v else none := by
  have hfresh : (h ++ [ScopeAction.declare v]).Fresh h.length v.name ↔
      (h.live (· = depthFrom 0 h)).find? (·.name = v.name) = none := by
    rw [List.find?_eq_none]
    constructor
    · intro hf w hw hname
      obtain ⟨i, hi, hdepth, ho⟩ := mem_live.1 hw
      have hlt := lt_of_declared? hi
      refine hf i hlt ?_ ((open_append le_rfl).2 ho) ?_
      · rw [depthAt_append hlt.le, depthAt_append le_rfl, depthAt_length]
        simpa using hdepth
      · rw [List.getElem?_append_left hlt, (declared?_eq_some.1 hi).1]
        simpa [ScopeAction.name?] using hname
    · intro hf j hj hdepth ho hname
      rw [depthAt_append hj.le, depthAt_append le_rfl, depthAt_length] at hdepth
      rw [List.getElem?_append_left hj] at hname
      obtain ⟨i, w, hw, hwname, how, hwdepth⟩ := exists_declared? hname ((open_append le_rfl).1 ho)
      exact hf w (mem_live.2 ⟨i, hw, by simp [hwdepth, hdepth], how⟩) (by simpa using hwname)
  unfold declared?
  simp [hfresh]

end History
end AdventureScript
