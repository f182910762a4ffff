/-!
Powers of the two bases in which numbers are held and written.
-/

namespace SwaggerDoc

/-- A power of two. -/
def twoTo (n : Nat) : Nat := Nat.pow 2 n

/-- A power of ten. -/
def tenTo (n : Nat) : Nat := Nat.pow 10 n

/-- A power of two is not zero. -/
theorem twoTo_pos (n : Nat) : 0 < twoTo n := Nat.pow_pos (by decide)

/-- A power of ten is not zero. -/
theorem tenTo_pos (n : Nat) : 0 < tenTo n := Nat.pow_pos (by decide)

end SwaggerDoc
