import KnxDatapoint.Single

/-! Sums, products and quotients of single-precision numbers, each rounded once, and whole numbers
taken from them. An exact sum of zero is positive unless both terms are negative. -/
namespace KnxDatapoint.Single

protected def add : Single → Single → Single
  | .nan, _ => .nan
  | _, .nan => .nan
  | .infinite s, .infinite t => if s = t then .infinite s else .nan
  | .infinite s, .finite _ _ => .infinite s
  | .finite _ _, .infinite t => .infinite t
  | .finite s a, .finite t b =>
    let total := signed s (units a) + signed t (units b)
    if total = 0 then ofUnits (s && t) 0 1 else ofUnits (decide (total < 0)) total.natAbs 1

protected def sub (x y : Single) : Single := x.add (-y)

protected def mul : Single → Single → Single
  | .nan, _ => .nan
  | _, .nan => .nan
  | .infinite s, .infinite t => .infinite (s != t)
  | .infinite s, .finite t b => if b.val = 0 then .nan else .infinite (s != t)
  | .finite s a, .infinite t => if a.val = 0 then .nan else .infinite (s != t)
  | .finite s a, .finite t b => ofUnits (s != t) (units a * units b) one

protected def div : Single → Single → Single
  | .nan, _ => .nan
  | _, .nan => .nan
  | .infinite _, .infinite _ => .nan
  | .infinite s, .finite t _ => .infinite (s != t)
  | .finite s _, .infinite t => ofUnits (s != t) 0 1
  | .finite s a, .finite t b =>
    if b.val = 0 then if a.val = 0 then .nan else .infinite (s != t)
    else ofUnits (s != t) (units a * one) (units b)

instance : Add Single := ⟨Single.add⟩
instance : Sub Single := ⟨Single.sub⟩
instance : Mul Single := ⟨Single.mul⟩
instance : Div Single := ⟨Single.div⟩

/-- The whole part, held between two bounds; a NaN counts as zero. -/
def truncate (least greatest : Int) : Single → Int
  | .nan => 0
  | .infinite negative => if negative then least else greatest
  | .finite negative rank => max least (min greatest (signed negative (units rank / one)))

def leastInt32 : Int := -0x80000000
def greatestInt32 : Int := 0x7FFFFFFF

/-- The nearest whole number of 32 bits, a tie going away from zero.
The whole part is taken first; what it leaves decides whether one more step is due. -/
def roundHalfAway (x : Single) : Int :=
  let whole := x.truncate leastInt32 greatestInt32
  let left := x - ofInt whole
  if half ≤ left then min greatestInt32 (whole + 1)
  else if left ≤ -half then max leastInt32 (whole - 1)
  else whole

/-- The nearest of the numbers between two bounds. -/
def clamp (x least greatest : Single) : Single :=
  let raised := if x < least then least else x
  if greatest < raised then greatest else raised

end KnxDatapoint.Single
