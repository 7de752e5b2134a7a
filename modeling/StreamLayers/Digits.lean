/-!
The numbers that digits stand for.
-/

namespace StreamLayers.Digits

private def pairFrom (base : Nat) : List Nat → List Nat → List Nat
  | low :: high :: rest, acc => pairFrom base rest ((low + base * high) :: acc)
  | digits, acc => acc.reverse ++ digits

/-- Joins neighbours into digits of the squared base. The lowest digit comes first. -/
def pair (base : Nat) (digits : List Nat) : List Nat :=
  pairFrom base digits []

def ofLowest (base : Nat) (digits : List Nat) : Nat :=
  digits.foldr (fun d n => d + base * n) 0

private def joined : Nat → Nat → List Nat → Nat
  | _, _, [d] => d
  | fuel + 1, base, digits => joined fuel (base * base) (pair base digits)
  | 0, base, digits => ofLowest base digits

/-- The number with the given digits, the highest first. Digits are joined in pairs, and the pairs in
pairs, so that few steps are steps with long numbers. -/
def value (base : Nat) (digits : List Nat) : Nat :=
  joined digits.length base digits.reverse

private theorem ofLowest_pairFrom (base : Nat) (digits acc : List Nat) :
    ofLowest (base * base) (pairFrom base digits acc)
      = ofLowest (base * base) (acc.reverse ++ [ofLowest base digits]) := by
  fun_induction pairFrom base digits acc with
  | case1 acc low high rest ih =>
    rw [ih]
    simp [ofLowest, Nat.mul_add, Nat.mul_assoc, Nat.add_assoc]
  | case2 digits acc h =>
    match digits, h with
    | [], _ => simp [ofLowest]
    | [d], _ => simp [ofLowest]
    | low :: high :: rest, h => exact absurd rfl (h low high rest)

theorem ofLowest_pair (base : Nat) (digits : List Nat) :
    ofLowest (base * base) (pair base digits) = ofLowest base digits := by
  rw [pair, ofLowest_pairFrom]
  simp [ofLowest]

private theorem joined_eq (fuel base : Nat) (digits : List Nat) :
    joined fuel base digits = ofLowest base digits := by
  fun_induction joined fuel base digits with
  | case1 => simp [ofLowest]
  | case2 base digits h fuel ih => rw [ih, ofLowest_pair]
  | case3 => rfl

/-- Every digit adds to the base times what stands before it. -/
theorem value_eq_foldl (base : Nat) (digits : List Nat) :
    value base digits = digits.foldl (fun n d => base * n + d) 0 := by
  rw [value, joined_eq, ofLowest, List.foldr_reverse]
  simp only [Nat.add_comm]

@[simp] theorem value_nil (base : Nat) : value base [] = 0 := by simp [value_eq_foldl]

/-- One more digit at the end. -/
@[simp] theorem value_concat (base : Nat) (digits : List Nat) (d : Nat) :
    value base (digits ++ [d]) = base * value base digits + d := by
  simp [value_eq_foldl]

end StreamLayers.Digits
