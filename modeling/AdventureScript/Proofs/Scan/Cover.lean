import AdventureScript.Proofs.Scan
import Mathlib.Data.List.DropRight

/-!
Tokens and what stands between them make up a source text.
-/
namespace AdventureScript.Scan

structure Passed where
  text : List Char := []
  since : List Char := []
  markers : List String := []

namespace Passed

def add (b : Passed) (text : List Char) : Passed :=
  { b with text := b.text ++ text, since := b.since ++ text }

def mark (b : Passed) (text : List Char) (name : String) : Passed :=
  ⟨b.text ++ text, [], b.markers ++ [name]⟩

def line (b : Passed) : Nat :=
  b.since.count '\n' + if b.markers.isEmpty then 1 else 0

def col (b : Passed) : Nat :=
  1 + Text.utf8Length (b.text.rtakeWhile (· ≠ '\n'))

end Passed

/-- A text after `b` is made of gaps, of markers and of these tokens, which tell where they stand. -/
inductive Layout (sections : Array String) : Passed → List Char → List Token → Prop
  | done {b} : Layout sections b [] []
  | gap {b text rest ts} (h : Item.gap.Fits text rest)
    (hrest : Layout sections (b.add text) rest ts) : Layout sections b (text ++ rest) ts
  | marker {b text rest ts name} (h : (Item.marker name).Fits text rest)
    (hrest : Layout sections (b.mark text name) rest ts) : Layout sections b (text ++ rest) ts
  | token {b text rest ts} {t : Token} (htext : t.lexeme = String.ofList text)
    (hspan : t.span = ⟨b.line, b.col, Text.utf8Length text⟩)
    (hsection : t.sectionIndex.toNat = b.markers.length ∧
      sections[b.markers.length]? = some (b.markers.getLastD ""))
    (hrest : Layout sections (b.add text) rest ts) : Layout sections b (text ++ rest) (t :: ts)

variable {cs : List Char} {p : Position} {s : State} {sections : Array String} {b : Passed}

structure State.At (s : State) (b : Passed) : Prop where
  line : s.position.line = b.line
  col : s.position.col = b.col
  names : s.sections.toList = "" :: b.markers

lemma advance_at (hline : p.line = b.line) (hcol : p.col = b.col) :
    (p.advance cs).line = (b.add cs).line ∧ (p.advance cs).col = (b.add cs).col := by
  induction cs generalizing p b with
  | nil => simp [Position.advance, Passed.add, hline, hcol]
  | cons c cs ih =>
    have hadd : b.add (c :: cs) = (b.add [c]).add cs := by simp [Passed.add]
    rw [Position.advance, List.foldl_cons, ← Position.advance, hadd]
    refine ih ?_ ?_ <;> by_cases hc : c = '\n'
    · simp only [Position.step, hc, if_true, hline, Passed.line, Passed.add, List.count_append,
        List.count_singleton_self]
      omega
    · simp [Position.step, hc, hline, Passed.line, Passed.add]
    · simp [Position.step, hc, Passed.col, Passed.add, Text.utf8Length]
    · simp [Position.step, hc, hcol, Passed.col, Passed.add, Text.utf8Length, Nat.add_assoc]

lemma State.At.section_eq (h : s.At b) (hsections : s.sections.toList <+: sections.toList)
    (hsize : sections.size ≤ 65535) : s.sectionIndex.toNat = b.markers.length ∧
      sections[b.markers.length]? = some (b.markers.getLastD "") := by
  have hown := congrArg List.length h.names
  have hle := hsections.length_le
  simp only [Array.length_toList, List.length_cons] at hown hle
  constructor
  · simp only [State.sectionIndex, Nat.toUInt16, UInt16.toNat_ofNat']
    omega
  · obtain ⟨more, hmore⟩ := hsections
    rw [← Array.getElem?_toList, ← hmore, h.names]
    cases b.markers using List.reverseRecOn with
    | nil => rfl
    | append_singleton names name => simp

lemma layout_run {last : Token} (h : (run s cs).finish = .ok last)
    (hsize : (run s cs).state.sections.size ≤ 65535) (b : Passed) (hb : s.At b) :
    ∃ ts, (run s cs).state.tokens.toList = s.tokens.toList ++ ts ∧
      s.sections.toList <+: (run s cs).state.sections.toList ∧
      Layout (run s cs).state.sections b cs ts := by
  revert b
  fun_induction run s cs with
  | case1 s => exact fun b _ => ⟨[], by simp, List.prefix_rfl, .done⟩
  | case2 s c cs r text f hf => cases h
  | case3 s c cs r text i hi e he => cases h
  | case4 s c cs r text i hi opened ho ih =>
    intro b hb
    have hfits := fits_item (Reading.eq_ok_iff.2 ⟨hi, rfl⟩)
    have hcut : c :: cs = text ++ cs.drop r.used := by simp [text]
    rw [hcut]
    obtain ⟨hline, hcol⟩ := @advance_at text _ b hb.line hb.col
    cases i with
    | gap =>
      obtain ⟨ts, htokens, hsections, hrest⟩ := ih h hsize (b.add text) ⟨hline, hcol, hb.names⟩
      exact ⟨ts, htokens, hsections, .gap hfits hrest⟩
    | marker name =>
      obtain ⟨ts, htokens, hsections, hrest⟩ := ih h hsize (b.mark text name)
        ⟨by simp [State.add, Passed.line, Passed.mark], hcol,
          by simp [State.add, Passed.mark, hb.names]⟩
      refine ⟨ts, htokens, .trans ?_ hsections, .marker hfits hrest⟩
      simp [State.add]
    | token kind =>
      obtain ⟨ts, htokens, hsections, hrest⟩ := ih h hsize (b.add text) ⟨hline, hcol, hb.names⟩
      refine ⟨s.token kind text :: ts, by simpa [State.add] using htokens, hsections, ?_⟩
      exact .token rfl (by rw [← hb.line, ← hb.col]; rfl) (hb.section_eq hsections hsize) hrest

/-- The tokens of an accepted text are cut out of it in order. What is left between them is white
space, comments and markers, and each token tells its length, its column, its line since the last
marker and the section which that marker starts. -/
theorem tokens_cover_source {source : String} {stream : Stream} (h : tokens source = .ok stream)
    (hmarkers : stream.sections.size ≤ 65535) :
    Layout stream.sections {} source.toList stream.body.toList := by
  obtain ⟨last, hlast, rfl⟩ := tokens_eq_ok h
  obtain ⟨ts, htokens, -, hlayout⟩ := layout_run hlast hmarkers {} ⟨rfl, rfl, rfl⟩
  exact htokens ▸ hlayout

theorem tokens_cover_source_marked : ∃ stream,
    tokens "a/* */\"__NEWSCRIPTSTART_b\"//é\n'é';" = .ok stream ∧ stream.sections.size ≤ 65535 ∧
      Layout stream.sections {} "a/* */\"__NEWSCRIPTSTART_b\"//é\n'é';".toList
        stream.body.toList := by
  have hok : (tokens "a/* */\"__NEWSCRIPTSTART_b\"//é\n'é';").toOption.any
      (·.sections.size ≤ 65535) = true := by decide +kernel
  cases h : tokens "a/* */\"__NEWSCRIPTSTART_b\"//é\n'é';" with
  | error e => simp [h, Except.toOption] at hok
  | ok stream =>
    have hsize : stream.sections.size ≤ 65535 := by simpa [h, Except.toOption] using hok
    exact ⟨stream, rfl, hsize, tokens_cover_source h hsize⟩

end AdventureScript.Scan
