/-!
The numbers that fit a word of 64 bits.
-/

namespace Keyplan.Word

/-- The least number that is too large for a word with a sign. -/
def signedEnd : Nat := 0x8000000000000000

/-- The least number that is too large for a word without a sign. -/
def unsignedEnd : Nat := 0x10000000000000000

end Keyplan.Word
