/-!
Marks: what is known of the code at certain positions. They are taken back, cut out and put back
together with the code.
-/
namespace AdventureScript

structure Mark (α : Type) where
  position : Nat
  value : α
  deriving DecidableEq, Repr, Inhabited

structure Marks (α : Type) where
  entries : Array (Mark α) := #[]
  deriving DecidableEq, Repr, Inhabited

namespace Marks

variable {α : Type}

def add (m : Marks α) (position : Nat) (value : α) : Marks α :=
  ⟨m.entries.push ⟨position, value⟩⟩

def keepBefore (m : Marks α) (size : Nat) : Marks α :=
  ⟨m.entries.filter (·.position < size)⟩

def yank (m : Marks α) (start : Nat) : Array (Mark α) × Marks α :=
  ((m.entries.filter (start ≤ ·.position)).map fun k => { k with position := k.position - start },
    m.keepBefore start)

def putBack (m : Marks α) (base : Nat) (moved : Array (Mark α)) : Marks α :=
  ⟨m.entries ++ moved.map fun k => { k with position := base + k.position }⟩

end Marks
end AdventureScript
