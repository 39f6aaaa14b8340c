import Marginalia.Program

/-!
# Limits

A machine follows a program to a fixed depth and a loop for a fixed number of rounds. `Limits` makes
these a parameter of the evaluator; a run of a program is one under `Limits.standard`.
-/

namespace Marginalia

/-- How far a run may go. -/
structure Limits where
  /-- How deeply programs, spellings and values may nest, and calls may recurse. -/
  depth : Nat
  /-- How often a loop may go round. -/
  rounds : Nat
  /-- A remark is as deep as any other statement in its place. -/
  remarks : Bool
deriving DecidableEq, Repr

/-- How often a loop may go round. -/
def roundLimit : Nat := 1000000

/-- The limits of a run, where nothing else is said. -/
def Limits.standard : Limits := ⟨depthLimit, roundLimit, true⟩

end Marginalia
