import KnxDatapoint.Rounding

/-! Single-precision numbers by sign and rank, their bit patterns and their order.
Equality of two values is equality of patterns, with every NaN pattern one value. The comparisons
`<`, `≤` and `==` are numeric: a NaN is in none of them, and the two zeros are equal. -/
namespace KnxDatapoint

/-- A single-precision number; finite magnitudes are ranked from zero to the largest. -/
inductive Single where
  | nan
  | infinite (negative : Bool)
  | finite (negative : Bool) (rank : Fin 0x7F800000)
  deriving DecidableEq, Repr

namespace Single

/-- The rank that an infinity takes in the order, one above the largest finite magnitude. -/
def infinityRank : Nat := 0x7F800000

/-- The bit of a pattern that holds the sign; the bits below it hold the rank. -/
def signBit : Nat := 0x80000000

/-- The value one, in units of the least positive magnitude. -/
def one : Nat := 1 <<< 149

/-- The magnitude at a rank, in units of the least positive one. -/
def units (rank : Nat) : Nat := Rounding.units 23 rank

def signed (negative : Bool) (magnitude : Nat) : Int :=
  if negative then -(magnitude : Int) else magnitude

/-- The number nearest to a quotient of units; beyond the largest magnitude it is infinite. -/
def ofUnits (negative : Bool) (num den : Nat) : Single :=
  let rank := Rounding.rank 23 num den
  if h : rank < 0x7F800000 then .finite negative ⟨rank, h⟩ else .infinite negative

def ofInt (n : Int) : Single := ofUnits (decide (n < 0)) (n.natAbs * one) 1

instance (n : Nat) : OfNat Single n := ⟨ofInt n⟩

/-- Half of one. -/
def half : Single := ofUnits false one 2

protected def neg : Single → Single
  | .nan => .nan
  | .infinite negative => .infinite !negative
  | .finite negative rank => .finite (!negative) rank

instance : Neg Single := ⟨Single.neg⟩

def isNaN : Single → Bool
  | .nan => true
  | _ => false

/-- A number as it is; a NaN counts as zero. -/
def orZero (x : Single) : Single := if x.isNaN then 0 else x

def ofBits (bits : UInt32) : Single :=
  let negative := decide (signBit ≤ bits.toNat)
  let rank := bits.toNat % signBit
  if h : rank < 0x7F800000 then .finite negative ⟨rank, h⟩
  else if rank = infinityRank then .infinite negative
  else .nan

/-- The pattern of a number; a NaN gets the quiet pattern without payload. -/
def toBits : Single → UInt32
  | .nan => 0x7FC00000
  | .infinite negative => .ofNat ((if negative then signBit else 0) + infinityRank)
  | .finite negative rank => .ofNat ((if negative then signBit else 0) + rank)

/-- The place of a number on the line of units; a NaN has none. -/
def position : Single → Option Int
  | .nan => none
  | .infinite negative => some (signed negative (units infinityRank))
  | .finite negative rank => some (signed negative (units rank))

protected def lt (x y : Single) : Bool :=
  x.position.any fun a => y.position.any fun b => decide (a < b)

protected def le (x y : Single) : Bool :=
  x.position.any fun a => y.position.any fun b => decide (a ≤ b)

protected def beq (x y : Single) : Bool :=
  x.position.any fun a => y.position.any fun b => decide (a = b)

instance : LT Single := ⟨fun x y => x.lt y = true⟩
instance : LE Single := ⟨fun x y => x.le y = true⟩
instance : BEq Single := ⟨Single.beq⟩

instance (x y : Single) : Decidable (x < y) := inferInstanceAs (Decidable (x.lt y = true))
instance (x y : Single) : Decidable (x ≤ y) := inferInstanceAs (Decidable (x.le y = true))

theorem lt_iff {x y : Single} :
    x < y ↔ ∃ a b, x.position = some a ∧ y.position = some b ∧ a < b := by
  change Single.lt x y = true ↔ _
  cases hx : x.position <;> cases hy : y.position <;> simp [Single.lt, hx, hy]

theorem le_iff {x y : Single} :
    x ≤ y ↔ ∃ a b, x.position = some a ∧ y.position = some b ∧ a ≤ b := by
  change Single.le x y = true ↔ _
  cases hx : x.position <;> cases hy : y.position <;> simp [Single.le, hx, hy]

theorem beq_iff {x y : Single} :
    (x == y) = true ↔ ∃ a, x.position = some a ∧ y.position = some a := by
  change Single.beq x y = true ↔ _
  cases hx : x.position <;> cases hy : y.position <;> simp [Single.beq, hx, hy, eq_comm]

theorem neg_neg (x : Single) : - -x = x := by
  change Single.neg (Single.neg x) = x
  cases x <;> simp [Single.neg]

end Single
end KnxDatapoint
