import Clausal.Chunks

/-!
Summary of running times. The order in which the times are added is part of the result, since every
addition rounds: short lists from left to right, longer ones in eight interleaved sums, and long
lists as the sum of two halves. A time that is not a number makes every figure not a number.
-/
namespace Clausal.Benchmark

structure TimeSummary where
  total : Float
  mean : Float
  median : Float
  max : Float

/-- Starts from negative zero, the one number that changes nothing when it is added to. -/
def sumFromLeft (xs : List Float) : Float := xs.foldl (· + ·) (-0.0)

/-- Sums of every eighth element, which are added in pairs; what is left over comes last. -/
def sumInterleaved (xs : List Float) : Float :=
  let blocks := chunks 8 xs
  let full := blocks.filter fun block => block.length == 8
  let rest := (blocks.filter fun block => block.length != 8).flatten
  match full with
  | [] => sumFromLeft rest
  | first :: more =>
    match more.foldl (fun sums block => sums.zipWith (· + ·) block) first with
    | [a, b, c, d, e, f, g, h] =>
      rest.foldl (· + ·) (((a + b) + (c + d)) + ((e + f) + (g + h)))
    | sums => sumFromLeft (sums ++ rest)

def sumPairwise (xs : List Float) : Float :=
  if xs.length < 8 then sumFromLeft xs
  else if xs.length ≤ 128 then sumInterleaved xs
  else
    let half := xs.length / 2 - xs.length / 2 % 8
    sumPairwise (xs.take half) + sumPairwise (xs.drop half)
termination_by xs.length
decreasing_by
  · rw [List.length_take]
    omega
  · rw [List.length_drop]
    omega

def notANumber : Float := 0.0 / 0.0

def middleTime (xs : List Float) : Float :=
  let sorted := xs.mergeSort fun a b => a ≤ b
  let middle := sorted.drop ((xs.length - 1) / 2)
  match middle with
  | [] => 0.0
  | low :: rest =>
    if xs.length % 2 = 1 then 0.0 + low else (0.0 + (low + rest.headD low)) / 2.0

/-- The two zeros are equal, and of equal times the last one is taken. -/
def longestTime (xs : List Float) : Float :=
  match xs with
  | [] => 0.0
  | x :: rest => rest.foldl (fun a b => if a ≤ b then b else a) x

/-- Without any times all figures are 0. -/
def TimeSummary.ofTimes (xs : List Float) : TimeSummary :=
  if xs.isEmpty then ⟨0.0, 0.0, 0.0, 0.0⟩
  else
    let total := 0.0 + sumPairwise xs
    let mean := total / xs.length.toFloat
    if xs.any (·.isNaN) then ⟨total, mean, notANumber, notANumber⟩
    else ⟨total, mean, middleTime xs, longestTime xs⟩

end Clausal.Benchmark
