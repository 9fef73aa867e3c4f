import AdventureScript.Proofs.Emission.Jump
import AdventureScript.Proofs.Machine

/-!
Copying a text into a buffer. Whatever the memory holds, the loop ends, reads no byte behind the end of
the text or behind the 199th, and leaves in the buffer the bytes before that with a zero behind them.
-/
namespace AdventureScript

variable {mem : Int32 → Option UInt8} {a a' : Int32} {bytes text : List UInt8} {b : UInt8} {n : Nat}

/-! ## Bytes -/

def overwrite (mem : Int32 → Option UInt8) (a : Int32) (bytes : List UInt8) : Int32 → Option UInt8 :=
  fun a' => bytes[(a' - a).toUInt32.toNat]?.or (mem a')

/-- The byte at distance `k` is one of the first 199 of a text, or the zero behind it. -/
def InText (mem : Int32 → Option UInt8) (a : Int32) (k : Nat) : Prop :=
  k < 199 ∧ ∀ j < k, mem (a + Int32.ofNat j) ≠ some 0

/-- What fits into a buffer of the text at `a`: all before its zero, or the first 199 bytes. -/
structure TextAt (mem : Int32 → Option UInt8) (a : Int32) (text : List UInt8) : Prop where
  bytes : ∀ i b, text[i]? = some b → mem (a + Int32.ofNat i) = some b ∧ b ≠ 0
  ends : text.length = 199 ∨ text.length < 199 ∧ mem (a + Int32.ofNat text.length) = some 0

lemma toNat_sub_eq_iff (hn : n < 2 ^ 32) :
    (a' - a).toUInt32.toNat = n ↔ a' = a + Int32.ofNat n := by
  constructor
  · rintro rfl
    change a' = a + Int32.ofNat (a' - a).toBitVec.toNat
    rw [Int32.ofNat_bitVecToNat, Int32.ofBitVec_toBitVec, Int32.add_comm, Int32.sub_add_cancel]
  · rintro rfl
    rw [Int32.add_comm, Int32.add_sub_cancel, Int32.toUInt32_ofNat', UInt32.toNat_ofNat',
      Nat.mod_eq_of_lt hn]

lemma overwrite_nil : overwrite mem a [] = mem := by
  funext a'
  simp [overwrite]

lemma overwrite_concat (hlen : bytes.length < 2 ^ 32) : overwrite mem a (bytes ++ [b]) = fun a' =>
    if a' = a + Int32.ofNat bytes.length then some b else overwrite mem a bytes a' := by
  funext a'
  simp only [overwrite, ← toNat_sub_eq_iff hlen, List.getElem?_append, List.getElem?_singleton]
  grind

lemma overwrite_of_ne (hlen : bytes.length < 2 ^ 32)
    (h : ∀ i < bytes.length, a' ≠ a + Int32.ofNat i) : overwrite mem a bytes a' = mem a' := by
  have hle : bytes.length ≤ (a' - a).toUInt32.toNat := by
    refine Nat.le_of_not_lt fun hlt => ?_
    exact h _ hlt ((toNat_sub_eq_iff (by omega)).1 rfl)
  rw [overwrite, List.getElem?_eq_none hle, Option.none_or]

lemma inText (hbytes : ∀ i b, text[i]? = some b → mem (a + Int32.ofNat i) = some b ∧ b ≠ 0)
    (hle : n ≤ text.length) (hlt : n < 199) : InText mem a n := by
  refine ⟨hlt, fun j hj hzero => ?_⟩
  obtain ⟨hb, hne⟩ := hbytes j _ (List.getElem?_eq_getElem (by omega))
  exact hne (Option.some.inj (hb.symm.trans hzero))

lemma exists_textAt (h : ∀ {k}, InText mem a k → (mem (a + Int32.ofNat k)).isSome = true) :
    ∃ text, TextAt mem a text := by
  have hgrow : ∀ k, k ≤ 199 → (∃ text, TextAt mem a text) ∨ ∃ text : List UInt8, text.length = k ∧
      ∀ i b, text[i]? = some b → mem (a + Int32.ofNat i) = some b ∧ b ≠ 0 := by
    intro k hk
    induction k with
    | zero => exact .inr ⟨[], rfl, by simp⟩
    | succ k ih =>
      obtain hdone | ⟨text, rfl, hbytes⟩ := ih (by omega)
      · exact .inl hdone
      · obtain ⟨b, hb⟩ := Option.isSome_iff_exists.1 (h (inText hbytes le_rfl hk))
        by_cases hzero : b = 0
        · exact .inl ⟨text, hbytes, .inr ⟨hk, hzero ▸ hb⟩⟩
        · refine .inr ⟨text ++ [b], by simp, fun i b' hi => ?_⟩
          rw [List.getElem?_append, List.getElem?_singleton] at hi
          grind
  obtain hdone | ⟨text, hlen, hbytes⟩ := hgrow 199 le_rfl
  · exact hdone
  · exact ⟨text, hbytes, .inl hlen⟩

namespace Gen

variable {c : Context} {s s' : State} {u : Unit} {m : Machine} {p : Nat} {code : Array Int32}
  {src dst : Int32} {before rest : List UInt8}

def copyStart : List (Opcode × List Int32) :=
  [onRegs .regToReg [.ax, .bx], onRegs .regToReg [.mar, .cx], (.litToReg, [Register.dx.toWord, 199])]

def copyByte : List (Opcode × List Int32) :=
  [onRegs .regToReg [.bx, .mar], onRegs .memReadB [.ax], onRegs .regToReg [.cx, .mar],
    onRegs .memWriteB [.ax]]

def copyNext : List (Opcode × List Int32) :=
  [(.add, [Register.bx.toWord, 1]), (.add, [Register.cx.toWord, 1]), (.sub, [Register.dx.toWord, 1]),
    onRegs .regToReg [.dx, .ax]]

def copyEnd : List (Opcode × List Int32) :=
  [onRegs .regToReg [.cx, .mar], onRegs .memWriteB [.ax]]

/-- The code at `p`. The loop begins at word 9, and both ways out of it lead to word 40. -/
def copyWords (p : Nat) : List Int32 :=
  encode copyStart ++ (encode copyByte ++ ([Opcode.jz.toWord, jumpDistance (p + 20) (p + 40)] ++
    (encode copyNext ++ ([Opcode.jnz.toWord, jumpDistance (p + 34) (p + 9)] ++ encode copyEnd))))

lemma copyWords_eq : copyWords p = copyWords 0 := by
  have hadd : ∀ i j, jumpDistance (p + i) (p + j) = jumpDistance (0 + i) (0 + j) := fun i j => by
    simp only [jumpDistance]
    congr 1
    omega
  simp only [copyWords, hadd]

lemma code_copyString (h : Runs copyString c s u s') :
    s'.script.code.toList = s.script.code.toList ++ copyWords s.script.size := by
  simp only [copyString, runs_bind, runs_codeSize, runs_emitRegs, runs_emit, runs_jumpTo, runs_jump,
    runs_landHere, runs_clobberAx, exists_eq_left, and_assoc] at h
  obtain ⟨_, _, _, t, ht, _, _, _, _, _, _, _, _, _, _, _, _, _, _, rfl, rfl⟩ := h
  obtain ⟨_, rfl⟩ := runs_litToReg ht
  have hset : ∀ ws w, (s.script.code.toList ++ ws).set (s.script.size + 20) w =
      s.script.code.toList ++ ws.set 20 w := fun ws w => by
    simp [Script.size]
  simp [Script.toList_landHere, Script.litToReg, Nat.add_assoc, hset]
  rfl

/-! ## Its run -/

lemma exec_copyByte (hb : m.mem (m.reg .bx) = some b) (hd : (m.mem (m.reg .cx)).isSome = true) :
    ∃ m1, m.exec copyByte = some m1 ∧ m1.reg .ax = b.toUInt32.toInt32 ∧ m1.reg .bx = m.reg .bx ∧
      m1.reg .cx = m.reg .cx ∧ m1.reg .dx = m.reg .dx ∧ SameFrame m m1 ∧
      m1.mem = fun a => if a = m.reg .cx then some b else m.mem a := by
  simp [copyByte, Machine.exec, onRegs, Machine.perform, Register.ofWord?_toWord, Machine.set,
    Machine.poke, Machine.skip, hb, hd]
  exact ⟨rfl, rfl, rfl⟩

lemma exec_copyNext : ∃ m1, m.exec copyNext = some m1 ∧ m1.reg .bx = m.reg .bx + 1 ∧
    m1.reg .cx = m.reg .cx + 1 ∧ m1.reg .dx = m.reg .dx - 1 ∧ m1.reg .ax = m.reg .dx - 1 ∧
    SameFrame m m1 ∧ m1.mem = m.mem :=
  ⟨_, rfl, rfl, rfl, rfl, rfl, ⟨rfl, rfl, rfl⟩, rfl⟩

lemma exec_copyEnd (hd : (m.mem (m.reg .cx)).isSome = true) (hax : m.reg .ax = 0) :
    ∃ m1, m.exec copyEnd = some m1 ∧ SameFrame m m1 ∧
      m1.mem = fun a => if a = m.reg .cx then some 0 else m.mem a := by
  simp [copyEnd, Machine.exec, onRegs, Machine.perform, Register.ofWord?_toWord, Machine.set,
    Machine.poke, Machine.skip, hd, hax]
  exact ⟨⟨rfl, rfl, rfl⟩, rfl⟩

/-- The bytes that are read lie outside the buffer at `dst`, and all that is touched is there. -/
structure Apart (mem : Int32 → Option UInt8) (src dst : Int32) : Prop where
  source : ∀ {k}, InText mem src k → (mem (src + Int32.ofNat k)).isSome = true
  buffer : ∀ {i}, i < 200 → (mem (dst + Int32.ofNat i)).isSome = true
  ne : ∀ {k i}, InText mem src k → i < 200 → src + Int32.ofNat k ≠ dst + Int32.ofNat i

/-- Before a round of the loop, with the bytes `before` copied. -/
structure Copying (mem : Int32 → Option UInt8) (src dst : Int32) (before : List UInt8) (m : Machine) :
    Prop where
  bx : m.reg .bx = src + Int32.ofNat before.length
  cx : m.reg .cx = dst + Int32.ofNat before.length
  dx : m.reg .dx = Int32.ofNat (199 - before.length)
  mem : m.mem = overwrite mem dst before

lemma Copying.isSome (h : Copying mem src dst before m) (hapart : Apart mem src dst)
    (hlt : before.length < 200) : (m.mem (m.reg .cx)).isSome = true := by
  rw [h.mem, h.cx, overwrite, Option.isSome_or, hapart.buffer hlt, Bool.or_true]

section

variable (hcode : WordsAt code p (copyWords p)) (hp : p + 40 < 2 ^ 31) (hapart : Apart mem src dst)
include hcode hapart

lemma Copying.travels (h : Copying mem src dst before m) (hpc : m.pc = p + 9)
    (hin : InText mem src before.length) (hb : mem (src + Int32.ofNat before.length) = some b) :
    ∃ m1, Travels code (fun _ => False) m m1 ∧ m1.pc = p + 19 ∧ m1.reg .ax = b.toUInt32.toInt32 ∧
      m1.reg .bx = m.reg .bx ∧ m1.reg .cx = m.reg .cx ∧ m1.reg .dx = m.reg .dx ∧ SameFrame m m1 ∧
      m1.mem = overwrite mem dst (before ++ [b]) := by
  have hlt := hin.1
  have hread : m.mem (m.reg .bx) = some b := by
    rw [h.mem, h.bx, overwrite_of_ne (by omega) fun i hi => hapart.ne hin (by omega), hb]
  obtain ⟨m1, he, hax, hbx, hcx, hdx, hframe, hmem⟩ := exec_copyByte hread (h.isSome hapart (by omega))
  obtain ⟨hgo, hend⟩ := travels_exec _ rfl (hpc ▸ hcode.right.left) (fun _ _ _ => id) he
  refine ⟨m1, hgo, by rw [hend, hpc]; rfl, hax, hbx, hcx, hdx, hframe, ?_⟩
  rw [hmem, h.mem, h.cx, overwrite_concat (by omega)]

include hp

lemma Copying.round (h : Copying mem src dst before m) (hpc : m.pc = p + 9)
    (hin : InText mem src before.length) (hb : mem (src + Int32.ofNat before.length) = some b)
    (hne : b ≠ 0) :
    ∃ m2, Travels code (fun _ => False) m m2 ∧ Copying mem src dst (before ++ [b]) m2 ∧
      m2.reg .ax = m2.reg .dx ∧ SameFrame m m2 ∧
      m2.pc = p + if before.length = 198 then 35 else 9 := by
  have hlt := hin.1
  obtain ⟨m1, hgo1, hpc1, hax1, hbx1, hcx1, hdx1, hframe1, hmem1⟩ := h.travels hcode hapart hpc hin hb
  have hax1 : m1.reg .ax ≠ 0 := fun hzero => by
    have := congrArg (·.toUInt32.toUInt8) (hax1.symm.trans hzero)
    simp at this
    exact hne this
  have hjz : m1.step code = _ :=
    Machine.step_jz (by omega) hp (by rw [hpc1]; exact hcode.right.right.left)
  rw [if_neg hax1, hpc1] at hjz
  obtain ⟨m2, he, hbx2, hcx2, hdx2, hax2, hframe2, hmem2⟩ := exec_copyNext (m := { m1 with pc := p + 21 })
  obtain ⟨hgo2, hpc2⟩ := travels_exec _ rfl hcode.right.right.right.left (fun _ _ _ => id) he
  replace hpc2 : m2.pc = p + 33 := hpc2
  have hdx : m2.reg .dx = Int32.ofNat (199 - (before ++ [b]).length) := by
    rw [hdx2, List.length_append, Nat.sub_add_eq, Int32.ofNat_sub _ _ (by simp; omega), ← h.dx, ← hdx1]
    rfl
  have hnext : Copying mem src dst (before ++ [b]) m2 := {
    bx := by rw [hbx2, hbx1, h.bx, List.length_append, Int32.ofNat_add, Int32.add_assoc]; rfl
    cx := by rw [hcx2, hcx1, h.cx, List.length_append, Int32.ofNat_add, Int32.add_assoc]; rfl
    dx := hdx
    mem := hmem2.trans hmem1 }
  have hjnz : m2.step code = _ := Machine.step_jnz (by omega) (show p + 9 < 2 ^ 31 by omega)
    (by rw [hpc2]; exact hcode.right.right.right.right.left)
  have hfull : m2.reg .ax = 0 ↔ before.length = 198 := by
    rw [hax2, ← hdx2, hdx, ← Int32.toInt_inj, Int32.toInt_ofNat_of_lt (by omega)]
    simp
    omega
  refine ⟨_, hgo1.trans (.step id hjz (hgo2.trans (.step id hjnz (.refl _)))),
    ⟨hnext.bx, hnext.cx, hnext.dx, hnext.mem⟩, hax2.trans hdx2.symm, hframe1.trans hframe2, ?_⟩
  simp only [hfull, hpc2]
  split <;> rfl

omit hp in
lemma Copying.finish (h : Copying mem src dst before m) (hlen : before.length = 199)
    (hpc : m.pc = p + 35) (hax : m.reg .ax = m.reg .dx) :
    ∃ m', Travels code (fun _ => False) m m' ∧ m'.pc = p + 40 ∧ SameFrame m m' ∧
      m'.mem = overwrite mem dst (before ++ [0]) := by
  obtain ⟨m', he, hframe, hmem⟩ := exec_copyEnd (h.isSome hapart (by omega))
    (hax.trans (h.dx.trans (by rw [hlen]; rfl)))
  obtain ⟨hgo, hend⟩ := travels_exec _ rfl (hpc ▸ hcode.right.right.right.right.right)
    (fun _ _ _ => id) he
  refine ⟨m', hgo, by rw [hend, hpc]; rfl, hframe, ?_⟩
  rw [hmem, h.mem, h.cx, overwrite_concat (by omega)]

-- By the bytes of the text that are still to be copied. A text of 199 bytes leaves the loop at its
-- counter, a shorter one at its zero.
lemma Copying.loop (htext : TextAt mem src text) (h : Copying mem src dst before m)
    (hpc : m.pc = p + 9) (hsplit : before ++ rest = text) (hlt : before.length < 199) :
    ∃ m', Travels code (fun _ => False) m m' ∧ m'.pc = p + 40 ∧ SameFrame m m' ∧
      m'.mem = overwrite mem dst (text ++ [0]) := by
  induction rest generalizing before m with
  | nil =>
    obtain rfl : before = text := by simpa using hsplit
    obtain ⟨_, hzero⟩ := htext.ends.resolve_left (Nat.ne_of_lt hlt)
    obtain ⟨m1, hgo, hpc1, hax, _, _, _, hframe, hmem⟩ :=
      h.travels hcode hapart hpc (inText htext.bytes le_rfl hlt) hzero
    have hjz : m1.step code = _ :=
      Machine.step_jz (by omega) hp (by rw [hpc1]; exact hcode.right.right.left)
    exact ⟨_, hgo.trans (.step id hjz (.refl _)), if_pos hax, hframe, hmem⟩
  | cons b rest ih =>
    have hlen : text.length = before.length + (rest.length + 1) := by simp [← hsplit]
    have hends := htext.ends
    obtain ⟨hb, hne⟩ := htext.bytes before.length b (by simp [← hsplit])
    obtain ⟨m1, hgo, hnext, hax, hframe, hpc1⟩ :=
      h.round hcode hp hapart hpc (inText htext.bytes (by omega) hlt) hb hne
    by_cases hfull : before.length = 198
    · obtain rfl : rest = [] := List.eq_nil_of_length_eq_zero (by omega)
      rw [if_pos hfull] at hpc1
      obtain ⟨m', hgo', hpc', hframe', hmem⟩ :=
        hnext.finish hcode hapart (by simp [hfull]) hpc1 hax
      exact ⟨m', hgo.trans hgo', hpc', hframe.trans hframe', hsplit ▸ hmem⟩
    · rw [if_neg hfull] at hpc1
      obtain ⟨m', hgo', hpc', hframe', hmem⟩ :=
        ih hnext hpc1 (by simpa using hsplit) (by simp; omega)
      exact ⟨m', hgo.trans hgo', hpc', hframe.trans hframe', hmem⟩

end

/-- The code copies what fits into the buffer at MAR of the text at AX. -/
theorem travels_copyString (h : Runs copyString c s u s') :
    ∃ ws, s'.script.code.toList = s.script.code.toList ++ ws ∧ ∀ (code : Array Int32) (m : Machine),
      WordsAt code m.pc ws → m.pc + ws.length < 2 ^ 31 → Apart m.mem (m.reg .ax) (m.reg .mar) →
      ∃ text m', TextAt m.mem (m.reg .ax) text ∧ Travels code (fun _ => False) m m' ∧
        m'.pc = m.pc + ws.length ∧ SameFrame m m' ∧
        m'.mem = overwrite m.mem (m.reg .mar) (text ++ [0]) ∧
        ∀ a, (∀ i < 200, a ≠ m.reg .mar + Int32.ofNat i) → m'.mem a = m.mem a := by
  refine ⟨_, code_copyString h, fun code m hcode hp hapart => ?_⟩
  rw [copyWords_eq, ← copyWords_eq (p := m.pc)] at hcode
  obtain ⟨text, htext⟩ := exists_textAt hapart.source
  obtain ⟨m1, he, hstart, hframe1⟩ : ∃ m1, m.exec copyStart = some m1 ∧
      Copying m.mem (m.reg .ax) (m.reg .mar) [] m1 ∧ SameFrame m m1 :=
    ⟨_, rfl, ⟨(Int32.add_zero _).symm, (Int32.add_zero _).symm, rfl, overwrite_nil.symm⟩, rfl, rfl, rfl⟩
  obtain ⟨hgo1, hpc1⟩ := travels_exec _ rfl hcode.left (fun _ _ _ => id) he
  obtain ⟨m', hgo, hpc, hframe, hmem⟩ :=
    hstart.loop hcode hp hapart htext hpc1 (List.nil_append text) (by decide)
  refine ⟨text, m', htext, hgo1.trans hgo, hpc, hframe1.trans hframe, hmem, fun a ha => ?_⟩
  have hlen : (text ++ [0]).length ≤ 200 := by
    have := htext.ends
    simp
    omega
  rw [hmem, overwrite_of_ne (by omega) fun i hi => ha i (by omega)]

theorem travels_copyString_endless :
    let mem (a : Int32) : Option UInt8 :=
      if 0 ≤ a ∧ a < 199 then some 1 else if 1000 ≤ a ∧ a < 1200 then some 7 else none
    let m : Machine := ⟨0, fun r => if r = .mar then 1000 else 0, mem, []⟩
    ∃ s' text m', Runs copyString ⟨default, {}⟩ {} () s' ∧ Apart mem 0 1000 ∧ TextAt mem 0 text ∧
      text.length = 199 ∧ Travels s'.script.code (fun _ => False) m m' ∧ m'.pc = 40 ∧
      m'.mem 1199 = some 0 := by
  intro mem m
  obtain ⟨_, s', hrun, hsize⟩ := exists_runs_of_any (x := copyString) (c := ⟨default, {}⟩) (s := {})
    (p := fun _ s' => s'.script.code.toList.length = 40) (by decide +kernel)
  obtain ⟨ws, hcode, hgoes⟩ := travels_copyString hrun
  replace hsize : ws.length = 40 := by simpa [hcode] using hsize
  have hone : ∀ k < 199, mem (0 + Int32.ofNat k) = some 1 := by decide +kernel
  have hapart : Apart mem 0 1000 := {
    source := fun hin => by rw [hone _ hin.1]; rfl
    buffer := fun hi => by
      have hseven : ∀ i < 200, (mem (1000 + Int32.ofNat i)).isSome = true := by decide +kernel
      exact hseven _ hi
    ne := fun {k i} hin hi heq => by
      have hk := hin.1
      have := congrArg Int32.toInt heq
      rw [Int32.zero_add, show (1000 : Int32) + Int32.ofNat i = Int32.ofNat (1000 + i) from
        (Int32.ofNat_add ..).symm, Int32.toInt_ofNat_of_lt (by omega),
        Int32.toInt_ofNat_of_lt (by omega)] at this
      omega }
  obtain ⟨text, m', htext, hgo, hpc, _, hmem, _⟩ := hgoes s'.script.code m
    (wordsAt_of_append hcode) (by rw [hsize]; decide) hapart
  have hlen : text.length = 199 := htext.ends.resolve_right fun ⟨hlt, hzero⟩ => by
    have hzero : mem (0 + Int32.ofNat text.length) = some 0 := hzero
    rw [hone _ hlt] at hzero
    cases hzero
  refine ⟨s', text, m', hrun, hapart, htext, hlen, hgo, by rw [hpc, hsize], ?_⟩
  rw [hmem, overwrite_concat (by omega), hlen]
  exact if_pos rfl

end Gen
end AdventureScript
