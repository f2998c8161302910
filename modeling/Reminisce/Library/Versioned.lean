import Mathlib.Data.Option.Basic

/-- A cell of a table: the committed value, and what a transaction that still runs has written. -/
structure Versioned (A : Type) where
  committed : A
  written : Option (Nat × A)
  deriving DecidableEq

namespace Versioned

variable {A : Type} {cell : Versioned A} {tx other : Nat} {a : A}

def of (a : A) : Versioned A := ⟨a, none⟩

/-- A transaction reads its own write, and otherwise what is committed. -/
def seenBy (cell : Versioned A) (tx : Nat) : A :=
  match cell.written with
  | some (owner, a) => if owner = tx then a else cell.committed
  | none => cell.committed

def write (cell : Versioned A) (tx : Nat) (a : A) : Versioned A :=
  { cell with written := some (tx, a) }

def rollback (cell : Versioned A) (tx : Nat) : Versioned A :=
  { cell with written := cell.written.filter (·.1 ≠ tx) }

def commit (cell : Versioned A) (tx : Nat) : Versioned A :=
  { cell.rollback tx with committed := cell.seenBy tx }

@[simp] theorem write_committed : (cell.write tx a).committed = cell.committed := rfl

@[simp] theorem write_written : (cell.write tx a).written = some (tx, a) := rfl

@[simp] theorem rollback_committed : (cell.rollback tx).committed = cell.committed := rfl

@[simp] theorem commit_committed : (cell.commit tx).committed = cell.seenBy tx := rfl

theorem seenBy_of_free (h : cell.written = none) : cell.seenBy tx = cell.committed := by
  unfold seenBy
  rw [h]

theorem seenBy_of_written (h : cell.written = some (tx, a)) : cell.seenBy tx = a := by
  unfold seenBy
  rw [h]
  simp

theorem seenBy_of_other (h : cell.written = some (other, a)) (hne : other ≠ tx) :
    cell.seenBy tx = cell.committed := by
  unfold seenBy
  rw [h]
  simp [hne]

/-- What is still written after the end of a transaction is another's. -/
theorem written_of_rollback (h : (cell.rollback tx).written = some (other, a)) :
    cell.written = some (other, a) ∧ other ≠ tx := by
  obtain ⟨hmem, hne⟩ := Option.filter_eq_some_iff.mp h
  exact ⟨hmem, by simpa using hne⟩

theorem written_of_commit (h : (cell.commit tx).written = some (other, a)) :
    cell.written = some (other, a) ∧ other ≠ tx :=
  written_of_rollback h

end Versioned
