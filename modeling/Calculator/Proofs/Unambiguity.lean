import Calculator.Expr
import Calculator.Proofs.Numeral
import Calculator.Proofs.Token.Spelling

/-!
# Trees are told apart by their texts

A minus sign starts a negative number, a negation and a difference, and nothing
says beforehand how many operands an operator has. The text of a tree can be read
in one way only all the same: a number ends where neither a digit nor a sign
follows, and behind an operand stands a blank or the parenthesis that closes its
node (`sexpr_cancel`).
-/

namespace Calculator

namespace Numeral

/-- The character may be part of a number. -/
def isPart (c : Char) : Bool := c == '-' || c.isDigit

/-- A number in front of the text ends there. -/
def Delimits (after : List Char) : Prop := ∀ c ∈ after.head?, ¬ isPart c

variable {v w : Int64} {c : Char} {cs after after' : List Char}

theorem delimits_nil : Delimits [] := nofun

theorem delimits_cons (h : isPart c = false) (cs : List Char) : Delimits (c :: cs) := by
  simp [Delimits, h]

theorem isPart_of_mem_ofWord (h : c ∈ ofWord v) : isPart c := by
  rcases mem_ofWord h with rfl | digit
  · rfl
  · simp [isPart, digit]

theorem ofWord_inj : ofWord v = ofWord w ↔ v = w := by
  refine ⟨fun h => Option.some.inj ?_, congrArg ofWord⟩
  rw [← signed?_ofWord v, h, signed?_ofWord]

/-- Nothing but a number starts as a number does. -/
theorem ofWord_append_ne (h : isPart c = false) : ofWord v ++ after ≠ c :: cs := by
  intro same
  obtain ⟨d, ds, word⟩ := List.exists_cons_of_ne_nil (ofWord_ne_nil v)
  have part : isPart d := isPart_of_mem_ofWord (v := v) (by simp [word])
  obtain ⟨rfl, -⟩ := by simpa [word] using same
  simp [h] at part

/-- A number is as long as the characters allow. -/
theorem ofWord_append_cancel (ends : Delimits after) (ends' : Delimits after')
    (h : ofWord v ++ after = ofWord w ++ after') : v = w ∧ after = after' := by
  have part (u : Int64) : ∀ c ∈ ofWord u, isPart c := fun _ => isPart_of_mem_ofWord
  constructor
  · have front := congrArg (List.takeWhile isPart) h
    rwa [Lexer.takeWhile_append_eq (part v) ends, Lexer.takeWhile_append_eq (part w) ends',
      ofWord_inj] at front
  · have back := congrArg (List.dropWhile isPart) h
    rwa [Lexer.dropWhile_append_eq (part v) ends, Lexer.dropWhile_append_eq (part w) ends'] at back

end Numeral

open Numeral

theorem Op.symbol_inj {op op' : Op} : op.symbol = op'.symbol ↔ op = op' := by
  rw [← Op.ofChar?_eq_some, Op.ofChar?_symbol, Option.some.injEq]

theorem Op.symbol_ne_store (op : Op) : op.symbol ≠ 'S' := by
  cases op <;> decide

namespace Expr

variable {a b : Expr} {after after' : List Char}

/-- Where two texts that start with trees are the same, so are the trees and what follows them. -/
theorem sexpr_cancel (ends : Delimits after) (ends' : Delimits after')
    (h : a.sexpr after = b.sexpr after') : a = b ∧ after = after' := by
  have closed (cs : List Char) : Delimits (')' :: cs) := delimits_cons rfl cs
  have spaced (cs : List Char) : Delimits (' ' :: cs) := delimits_cons rfl cs
  induction a generalizing b after after' with
  | number v =>
    cases b with
    | number w =>
      obtain ⟨rfl, rest⟩ := ofWord_append_cancel ends ends' h
      exact ⟨rfl, rest⟩
    | memory | negate | store | binary => exact absurd h (ofWord_append_ne rfl)
  | memory =>
    cases b with
    | number w => exact absurd h.symm (ofWord_append_ne rfl)
    | memory => exact ⟨rfl, List.tail_eq_of_cons_eq h⟩
    | negate | store | binary => simp [sexpr] at h
  | negate e ih =>
    cases b with
    | number w => exact absurd h.symm (ofWord_append_ne rfl)
    | negate f =>
      simp only [sexpr, List.cons.injEq, true_and] at h
      obtain ⟨rfl, rest⟩ := ih (closed _) (closed _) h
      exact ⟨rfl, List.tail_eq_of_cons_eq rest⟩
    | binary op l r =>
      -- a difference has the same sign, but a blank behind its first operand
      simp only [sexpr, List.cons.injEq, true_and] at h
      obtain ⟨-, rest⟩ := ih (closed _) (spaced _) h.2
      simp at rest
    | memory | store => simp [sexpr] at h
  | store e ih =>
    cases b with
    | number w => exact absurd h.symm (ofWord_append_ne rfl)
    | store f =>
      simp only [sexpr, List.cons.injEq, true_and] at h
      obtain ⟨rfl, rest⟩ := ih (closed _) (closed _) h
      exact ⟨rfl, List.tail_eq_of_cons_eq rest⟩
    | binary op l r => simp [sexpr, op.symbol_ne_store.symm] at h
    | memory | negate => simp [sexpr] at h
  | binary op l r ihl ihr =>
    cases b with
    | number w => exact absurd h.symm (ofWord_append_ne rfl)
    | memory => simp [sexpr] at h
    | negate f =>
      simp only [sexpr, List.cons.injEq, true_and] at h
      obtain ⟨-, rest⟩ := ihl (spaced _) (closed _) h.2
      simp at rest
    | store f => simp [sexpr, op.symbol_ne_store] at h
    | binary op' l' r' =>
      simp only [sexpr, List.cons.injEq, true_and, Op.symbol_inj] at h
      obtain ⟨rfl, operands⟩ := h
      obtain ⟨rfl, second⟩ := ihl (spaced _) (spaced _) operands
      obtain ⟨rfl, rest⟩ := ihr (closed _) (closed _) (List.tail_eq_of_cons_eq second)
      exact ⟨rfl, List.tail_eq_of_cons_eq rest⟩

/-- Two trees have the same text only if they are the same tree. -/
theorem text_determines_tree (a b : Expr) : a.toString = b.toString ↔ a = b := by
  constructor
  · intro same
    have texts : a.sexpr [] = b.sexpr [] := String.ofList_injective same
    exact (sexpr_cancel delimits_nil delimits_nil texts).1
  · rintro rfl
    rfl

-- three uses of the minus sign
example :
    [number (-1), negate (number 1), binary .sub (number 1) (number (-1))].map toString =
      ["-1", "(- 1)", "(- 1 -1)"] := by
  decide

end Expr

end Calculator
