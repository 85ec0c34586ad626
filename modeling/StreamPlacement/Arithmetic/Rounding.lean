/-!
Rounding a fraction of natural numbers to a whole number. The only choice is what happens to an
exact half, so that choice is a value of its own.
-/

namespace StreamPlacement

/-- Where an exact half goes. -/
inductive Tie
  /-- To the larger neighbour. -/
  | up
  /-- To the even neighbour. -/
  | even
  deriving DecidableEq, Repr

/-- The whole number nearest to `num / den`; an exact half goes where `tie` says. -/
def roundDiv (num den : Nat) (tie : Tie) : Nat :=
  let below := num / den
  let rest := num % den
  if 2 * rest < den then below
  else if den < 2 * rest then below + 1
  else match tie with
    | .up => below + 1
    | .even => below + below % 2

/-- A whole number is its own nearest whole number. -/
theorem roundDiv_one (n : Nat) (tie : Tie) : roundDiv n 1 tie = n := by
  simp [roundDiv, Nat.mod_one]

/-- The result is never more than half a unit away. -/
theorem roundDiv_near (num den : Nat) (tie : Tie) (h : 0 < den) :
    2 * num ≤ den * (2 * roundDiv num den tie + 1) ∧
      den * (2 * roundDiv num den tie) ≤ 2 * num + den := by
  have hdiv : den * (num / den) + num % den = num := Nat.div_add_mod num den
  have hmod : num % den < den := Nat.mod_lt num h
  have h1 : den * (2 * (num / den) + 1) = 2 * (den * (num / den)) + den := by
    rw [Nat.mul_add, Nat.mul_one, Nat.mul_left_comm]
  have h2 : den * (2 * (num / den)) = 2 * (den * (num / den)) := Nat.mul_left_comm ..
  have h3 : den * (2 * (num / den + 1) + 1) = 2 * (den * (num / den)) + 3 * den := by
    rw [Nat.mul_add, Nat.mul_left_comm, Nat.mul_add]
    omega
  have h4 : den * (2 * (num / den + 1)) = 2 * (den * (num / den)) + 2 * den := by
    rw [Nat.mul_left_comm, Nat.mul_add]
    omega
  simp only [roundDiv]
  split
  · rw [h1, h2]
    omega
  · split
    · rw [h3, h4]
      omega
    · cases tie with
      | up =>
        rw [h3, h4]
        omega
      | even =>
        rcases Nat.mod_two_eq_zero_or_one (num / den) with he | he <;> simp only [he, Nat.add_zero]
        · rw [h1, h2]
          omega
        · rw [h3, h4]
          omega

end StreamPlacement
