import Clausal.Formula

/-!
What can be wrong with a DIMACS text. All errors but one belong to a line; lines count from 1.
-/
namespace Clausal

inductive DimacsError where
  | malformedProblem (line : Nat) (text : Text)
  | negativeCount (line : Nat) (text : Text)
  | duplicateProblem (line : Nat)
  | problemAfterClauses (line : Nat)
  | invalidLiteral (line : Nat) (word : Text)
  | literalOutside (line : Nat) (literal : Literal) (count : Nat)
  | clauseCount (declared found : Nat)
  | formula (error : FormulaError)

namespace DimacsError

def line? : DimacsError → Option Nat
  | .malformedProblem n _ => some n
  | .negativeCount n _ => some n
  | .duplicateProblem n => some n
  | .problemAfterClauses n => some n
  | .invalidLiteral n _ => some n
  | .literalOutside n _ _ => some n
  | .clauseCount _ _ => none
  | .formula _ => none

def reason : DimacsError → String
  | .malformedProblem _ text => "malformed problem line " ++ Text.quoted text
  | .negativeCount _ text => "negative count in problem line " ++ Text.quoted text
  | .duplicateProblem _ => "duplicate problem line"
  | .problemAfterClauses _ => "problem line after clauses"
  | .invalidLiteral _ word => "invalid literal " ++ Text.quoted word
  | .literalOutside _ l n => s!"literal {l} outside [1, {n}]"
  | .clauseCount declared found => s!"problem line declares {declared} clauses, found {found}"
  | .formula e => e.message

def message (e : DimacsError) : String :=
  match e.line? with
  | some n => s!"line {n}: " ++ e.reason
  | none => e.reason

end DimacsError

end Clausal
