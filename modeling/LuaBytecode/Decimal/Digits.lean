/-!
# Decimal digits of a natural number

The digits of a number, most significant first, and the number that digits stand for. The main
statement is that reading the digits gives the number back.
-/

namespace LuaBytecode.Decimal

/-- The digits of `n`, most significant first; zero has the one digit zero. -/
def digits (n : Nat) : List Nat :=
  if n < 10 then [n] else digits (n / 10) ++ [n % 10]

def value (ds : List Nat) : Nat :=
  ds.foldl (fun total d => 10 * total + d) 0

theorem value_append_digit (ds : List Nat) (d : Nat) : value (ds ++ [d]) = 10 * value ds + d := by
  simp [value]

theorem value_digits (n : Nat) : value (digits n) = n := by
  induction n using digits.induct with
  | case1 n h => rw [digits, if_pos h]; simp [value]
  | case2 n h ih => rw [digits, if_neg h, value_append_digit, ih]; omega

theorem digits_lt_ten (n : Nat) : ∀ d ∈ digits n, d < 10 := by
  induction n using digits.induct with
  | case1 n h => rw [digits, if_pos h]; simpa using h
  | case2 n h ih =>
    rw [digits, if_neg h]
    intro d hd
    rcases List.mem_append.mp hd with hd | hd
    · exact ih d hd
    · rw [List.mem_singleton.mp hd]; omega

end LuaBytecode.Decimal
