/-!
Tables by position. The entries of a table follow the code that they refer to, so that the place
where a table divides is found by halving.
-/
namespace AdventureScript

/-- A position beside code of `size` words, as a table holds it: past the end it wraps around. -/
def tablePosition (size position : Nat) : Nat :=
  if position ≤ size then position else position % UInt32.size

/-- A position counted from `start`: one before it wraps around. -/
def positionFrom (start position : Nat) : Nat :=
  if start ≤ position then position - start else position + UInt32.size - start

@[simp] theorem tablePosition_of_le {size position : Nat} (h : position ≤ size) :
    tablePosition size position = position := by
  simp [tablePosition, h]

@[simp] theorem positionFrom_of_le {start position : Nat} (h : start ≤ position) :
    positionFrom start position = position - start := by
  simp [positionFrom, h]

def halve (p : Nat → Bool) (base size : Nat) : Nat :=
  if 1 < size then
    if p (base + size / 2) then halve p (base + size / 2) (size - size / 2)
    else halve p base (size - size / 2)
  else if size = 1 && p base then base + 1
  else base
termination_by size

def frontSize {α : Type} (entries : Array α) (p : α → Bool) : Nat :=
  halve (fun i => entries[i]?.any p) 0 entries.size

theorem halve_eq {p : Nat → Bool} {front base size : Nat}
    (hp : ∀ i, i < base + size → (p i = true ↔ i < front))
    (lower : base ≤ front) (upper : front ≤ base + size) : halve p base size = front := by
  fun_induction halve p base size with
  | case1 base size h hmid ih =>
    have := (hp _ (by omega)).1 hmid
    exact ih (fun i hi => hp i (by omega)) (by omega) (by omega)
  | case2 base size h hmid ih =>
    have : ¬ base + size / 2 < front := fun hlt => hmid ((hp _ (by omega)).2 hlt)
    exact ih (fun i hi => hp i (by omega)) lower (by omega)
  | case3 base size h he =>
    simp only [Bool.and_eq_true, decide_eq_true_eq] at he
    have := (hp base (by omega)).1 he.2
    omega
  | case4 base size h he =>
    by_cases hs : size = 1
    · have : ¬ base < front := fun hlt => he (by simp [hs, (hp base (by omega)).2 hlt])
      omega
    · omega

theorem frontSize_eq {α : Type} {entries : Array α} {p : α → Bool} {front : Nat}
    (hp : ∀ i (h : i < entries.size), p entries[i] = true ↔ i < front)
    (upper : front ≤ entries.size) : frontSize entries p = front :=
  halve_eq (fun i hi => by
    have h : i < entries.size := by omega
    simp [h, hp i h]) (Nat.zero_le _) (by omega)

end AdventureScript
