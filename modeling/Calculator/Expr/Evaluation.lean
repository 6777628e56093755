import Calculator.Expr

/-!
# Evaluation

An expression is evaluated against a memory cell, the left operand before the
right one. What was stored before a fault stays stored.
-/

namespace Calculator

/-- The memory cell, as the values stored in it, newest first. -/
structure Memory where
  history : List Int64 := []
  deriving DecidableEq, Repr

namespace Memory

/-- The value in the cell, which is zero before anything is stored. -/
def value (m : Memory) : Int64 := m.history.headD 0

def store (m : Memory) (v : Int64) : Memory := ⟨v :: m.history⟩

@[simp] theorem value_store (m : Memory) (v : Int64) : (m.store v).value = v := rfl

end Memory

namespace Expr

/-- The value of `e`, or the first fault, and the memory afterwards. -/
def evaluate (e : Expr) (m : Memory) : Except Fault Int64 × Memory :=
  match e with
  | number v => (.ok v, m)
  | memory => (.ok m.value, m)
  | negate e =>
    match e.evaluate m with
    | (.error f, m₁) => (.error f, m₁)
    | (.ok v, m₁) => (negated v, m₁)
  | store e =>
    match e.evaluate m with
    | (.error f, m₁) => (.error f, m₁)
    | (.ok v, m₁) => (.ok v, m₁.store v)
  | binary op l r =>
    match l.evaluate m with
    | (.error f, m₁) => (.error f, m₁)
    | (.ok v, m₁) =>
      match r.evaluate m₁ with
      | (.error f, m₂) => (.error f, m₂)
      | (.ok w, m₂) => (op.apply v w, m₂)

/-- The value of `e` with a new memory. -/
def calculate (e : Expr) : Except Fault Int64 := (e.evaluate {}).1

end Expr

end Calculator
