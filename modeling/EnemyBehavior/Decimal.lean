/-!
# Decimal digits

Natural numbers written in ASCII digits. Leading zeros are digits like any other.
-/

namespace EnemyBehavior.Decimal

/-- The text consists of digits, at least one. -/
def isDigits (cs : List Char) : Bool := !cs.isEmpty && cs.all Char.isDigit

/-- The value of digits. -/
def value (digits : List Char) : Nat := digits.foldl (fun n d => 10 * n + (d.toNat - 48)) 0

/-- Writes a number with at least `width` digits. -/
def padded (width n : Nat) : String :=
  let digits := toString n
  "".pushn '0' (width - digits.length) ++ digits

/-! ## The range of doubles -/

/-- The least number that rounds to no finite double: half a unit above the largest one. -/
def doubleBound : Nat := 1 <<< 1024 - 1 <<< 970

/-- The double nearest to a natural number of at most 1024 bits. A tie goes to the even one. -/
def nearestDouble (n : Nat) : Nat :=
  -- 53 bits from the first one on are kept
  let unit := 1 <<< (n.log2 - 52)
  let q := n / unit
  let rest := n % unit
  (if 2 * rest < unit || 2 * rest == unit && q % 2 == 0 then q else q + 1) * unit

/-- Appends digits to a number for as long as it fits into 64 bits, and counts those left over. -/
def appendDigits (n : Nat) : List Char → Nat × Nat
  | [] => (n, 0)
  | d :: ds =>
    let n' := 10 * n + (d.toNat - 48)
    if n' < 18446744073709551616 then appendDigits n' ds else (n, ds.length + 1)

/-- Whether a number in scientific form is too large for a double. Its digits count for as long as
they fit into 64 bits; they and the power of ten are rounded to doubles before they are
multiplied. -/
def exceedsDouble (whole fraction : List Char) (exponent : Int) : Bool :=
  let (m, skipped) := appendDigits 0 whole
  let (m, left) := appendDigits m fraction
  match exponent + skipped + left - fraction.length with
  | .ofNat e =>
    m != 0 && (308 < e || doubleBound ≤ nearestDouble m * nearestDouble (Nat.pow 10 e))
  -- divided by a power of ten, 64 bits stay in range
  | .negSucc _ => false

end EnemyBehavior.Decimal
