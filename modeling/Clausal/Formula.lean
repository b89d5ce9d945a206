import Clausal.Datum
import Clausal.Literal

/-!
Formulas in conjunctive normal form. A formula owns its variable count and its clauses, no clause
repeats a literal and every literal names a variable between 1 and the count. Formulas are built
from untyped data in two passes: literals are read clause by clause first, then the variable count
is settled, and only then are the literals held against it.
-/
namespace Clausal

structure Formula where
  numVariables : Nat
  clauses : List Clause
  nodup : ∀ c ∈ clauses, c.Nodup
  inRange : ∀ c ∈ clauses, ∀ l ∈ c, l ≠ 0 ∧ Literal.var l ≤ numVariables

/-- Why data is not a formula. Clauses are counted from 0. -/
inductive FormulaError where
  | notIterable (value : Datum)
  | literalNotInteger (clause : Nat) (value : Datum)
  | literalZero (clause : Nat)
  | countNotInteger (value : Datum)
  | countNegative (count : Int)
  | literalOutside (clause : Nat) (literal : Literal) (count : Nat)

namespace FormulaError

/-- Whether the message shows no integer that cannot be written. -/
def isSayable : FormulaError → Bool
  | .literalNotInteger _ value => value.isDescribable
  | .countNotInteger value => value.isDescribable
  | .countNegative n => Datum.isWritable n
  | .literalOutside _ l n => Datum.isWritable l && Datum.isWritable n
  | _ => true

def description : FormulaError → String
  | .notIterable value => s!"'{value.kindName}' object is not iterable"
  | .literalNotInteger i value => s!"clause {i}: literal {value.describe} is not an integer"
  | .literalZero i => s!"clause {i}: literal 0 is not allowed inside a clause"
  | .countNotInteger value => s!"variable count {value.describe} is not an integer"
  | .countNegative n => s!"variable count must be non-negative, got {n}"
  | .literalOutside i l n =>
    s!"clause {i}: literal {l} references variable {Literal.var l} outside [1, {n}]"

def message (e : FormulaError) : String :=
  if e.isSayable then e.description else Datum.tooManyDigits

end FormulaError

/-- Later repetitions of a literal are dropped. -/
def Clause.normalize (literals : List Int) : Clause := literals.eraseDups

theorem Clause.nodup_normalize (literals : List Int) : (normalize literals).Nodup := by
  induction h : literals.length using Nat.strongRecOn generalizing literals with
  | ind n ih =>
    cases literals with
    | nil => simp [normalize]
    | cons l rest =>
      have shorter : (rest.filter fun b => !b == l).length < n := by
        have := List.length_filter_le (fun b => !b == l) rest
        simp only [List.length_cons] at h
        omega
      have tail := ih _ shorter _ rfl
      simp only [normalize] at tail ⊢
      rw [List.eraseDups_cons, List.nodup_cons]
      refine ⟨?_, tail⟩
      simp

theorem Clause.mem_normalize {literals : List Int} {l : Int} :
    l ∈ normalize literals ↔ l ∈ literals :=
  List.mem_eraseDups

namespace Formula

/-- A literal is an integer other than 0; a truth value is not an integer. -/
def readLiteral (i : Nat) : Datum → Except FormulaError Literal
  | .integer n => if n = 0 then .error (.literalZero i) else .ok n
  | value => .error (.literalNotInteger i value)

def readLiterals (i : Nat) : List Datum → Except FormulaError (List Literal)
  | [] => .ok []
  | value :: rest =>
    match readLiteral i value with
    | .error e => .error e
    | .ok l =>
      match readLiterals i rest with
      | .error e => .error e
      | .ok ls => .ok (l :: ls)

/-- The clauses as given, repeated literals included, numbered from `i`. -/
def readClauses (i : Nat) : List Datum → Except FormulaError (List (List Literal))
  | [] => .ok []
  | value :: rest =>
    match value.elements? with
    | none => .error (.notIterable value)
    | some items =>
      match readLiterals i items with
      | .error e => .error e
      | .ok ls =>
        match readClauses (i + 1) rest with
        | .error e => .error e
        | .ok cs => .ok (ls :: cs)

/-- The largest variable in use, 0 if there is none. -/
def largestVariable (clauses : List (List Literal)) : Nat :=
  clauses.flatten.foldl (fun n l => max n (Literal.var l)) 0

def readCount (clauses : List (List Literal)) : Datum → Except FormulaError Nat
  | .null => .ok (largestVariable clauses)
  | .integer n => if n < 0 then .error (.countNegative n) else .ok n.toNat
  | value => .error (.countNotInteger value)

/-- The first literal beyond the count, if there is one, with the number of its clause. -/
def findOutside? (count : Nat) (i : Nat) : List (List Literal) → Option (Nat × Literal)
  | [] => none
  | c :: rest =>
    match c.find? fun l => count < Literal.var l with
    | some l => some (i, l)
    | none => findOutside? count (i + 1) rest

theorem var_le_of_findOutside? {count i : Nat} {clauses : List (List Literal)}
    (h : findOutside? count i clauses = none) :
    ∀ c ∈ clauses, ∀ l ∈ c, Literal.var l ≤ count := by
  induction clauses generalizing i with
  | nil => simp
  | cons c rest ih =>
    rw [findOutside?] at h
    split at h
    · cases h
    · rename_i fits
      intro d hd l hl
      rcases List.mem_cons.1 hd with rfl | hd
      · simpa using List.find?_eq_none.1 fits l hl
      · exact ih h d hd l hl

theorem ne_zero_of_readLiterals {i : Nat} {items : List Datum} {ls : List Literal}
    (h : readLiterals i items = .ok ls) : ∀ l ∈ ls, l ≠ 0 := by
  induction items generalizing ls with
  | nil => simp only [readLiterals, Except.ok.injEq] at h; simp [← h]
  | cons value rest ih =>
    rw [readLiterals] at h
    split at h
    · cases h
    · rename_i l hl
      split at h
      · cases h
      · rename_i ls' hls
        have hl0 : l ≠ 0 := by
          cases value with
          | integer n =>
            simp only [readLiteral] at hl
            split at hl
            · cases hl
            · simp only [Except.ok.injEq] at hl
              exact hl ▸ ‹¬n = 0›
          | _ => simp [readLiteral] at hl
        simp only [Except.ok.injEq] at h
        subst h
        intro k hk
        rcases List.mem_cons.1 hk with rfl | hk
        · exact hl0
        · exact ih hls k hk

theorem ne_zero_of_readClauses {i : Nat} {items : List Datum} {cs : List (List Literal)}
    (h : readClauses i items = .ok cs) : ∀ c ∈ cs, ∀ l ∈ c, l ≠ 0 := by
  induction items generalizing i cs with
  | nil => simp only [readClauses, Except.ok.injEq] at h; simp [← h]
  | cons value rest ih =>
    rw [readClauses] at h
    split at h
    · cases h
    · split at h
      · cases h
      · rename_i ls hls
        split at h
        · cases h
        · rename_i cs' hcs
          simp only [Except.ok.injEq] at h
          subst h
          intro c hc
          rcases List.mem_cons.1 hc with rfl | hc
          · exact ne_zero_of_readLiterals hls
          · exact ih hcs c hc

/-- Clauses from any collection of collections of literals. A missing count is the largest
variable in use. -/
def ofData (clauses count : Datum) : Except FormulaError Formula :=
  match clauses.elements? with
  | none => .error (.notIterable clauses)
  | some items =>
    match read : readClauses 0 items with
    | .error e => .error e
    | .ok given =>
      match readCount given count with
      | .error e => .error e
      | .ok n =>
        match fits : findOutside? n 0 given with
        | some (i, l) => .error (.literalOutside i l n)
        | none =>
          .ok {
            numVariables := n
            clauses := given.map Clause.normalize
            nodup := by
              intro c hc
              obtain ⟨ls, _, rfl⟩ := List.mem_map.1 hc
              exact Clause.nodup_normalize ls
            inRange := by
              intro c hc l hl
              obtain ⟨ls, hls, rfl⟩ := List.mem_map.1 hc
              have hl := Clause.mem_normalize.1 hl
              exact ⟨ne_zero_of_readClauses read ls hls l hl,
                var_le_of_findOutside? fits ls hls l hl⟩ }

/-- Clauses that are already lists of integers. -/
def ofLists (clauses : List (List Int)) (count : Option Int) : Except FormulaError Formula :=
  ofData (.list (clauses.map fun c => .list (c.map .integer)))
    (match count with
      | some n => .integer n
      | none => .null)

def numClauses (f : Formula) : Nat := f.clauses.length

def hasEmptyClause (f : Formula) : Bool := f.clauses.any (·.isEmpty)

/-- Truth under a total valuation. -/
def holds (ν : Nat → Bool) (f : Formula) : Bool :=
  f.clauses.all (Clause.holds ν)

/-- Truth under a partial valuation. -/
def satisfiedBy (α : Nat → Option Bool) (f : Formula) : Bool :=
  f.clauses.all (Clause.satisfiedBy α)

/-- Truth under a partial valuation that may be missing. Without one there is an answer only if no
variable has to be looked up, because there is no clause or the first one is empty. -/
def judge? (f : Formula) : Option (Nat → Option Bool) → Option Bool
  | some α => some (f.satisfiedBy α)
  | none => if (f.clauses.headD []).isEmpty then some f.clauses.isEmpty else none

def missingValuation : String := "argument of type 'NoneType' is not iterable"

def literals (f : Formula) : List Literal := f.clauses.flatten

/-- Adds a literal to the scores that start with the least variable. -/
def addPolarity (l : Literal) : List (Nat × Int) → List (Nat × Int)
  | [] => [(Literal.var l, Literal.polarity l)]
  | (v, score) :: rest =>
    if Literal.var l = v then (v, Literal.polarity l + score) :: rest
    else (Literal.var l, Literal.polarity l) :: (v, score) :: rest

/-- The score of each variable that occurs, in ascending order of variables. -/
def polarityScores (f : Formula) : List (Nat × Int) :=
  (f.literals.mergeSort fun k l => Literal.var k ≤ Literal.var l).foldr addPolarity []

/-- The score of a variable, 0 for one that does not occur. -/
def polarityScore (f : Formula) (v : Nat) : Int := (f.polarityScores.lookup v).getD 0

/-- Whether the counts can be written. Then the literals can be, since none is larger than the
variable count. -/
def isSayable (f : Formula) : Bool :=
  Datum.isWritable f.numVariables && Datum.isWritable f.numClauses

def describe (f : Formula) : String :=
  s!"CNFFormula(num_variables={f.numVariables}, num_clauses={f.numClauses})"

end Formula

end Clausal
