import CcodeTest.Lib.CString
import CcodeTest.Lib.Hex
import CcodeTest.Lib.Word

/-!
# Addresses of the own access points

`is_own_vap_mac` compares addresses by the numbers that `strtoull` reads from their hexadecimal text.
An address is what stands in memory from its first byte on: `MACPARAMS` passes one byte more than an
address has, which the format does not print.
-/

namespace CcodeTest.MacAddress
open CcodeTest.Lib

/-- `ENET_ADDR_SIZE`. -/
def enetAddrSize : Nat := 8

/-- `WLAN_MAX_VAP`. -/
def wlanMaxVap : Nat := 8

/-- `MACPARAMS`. -/
def macParams (a : Nat → UInt8) : List UInt8 := [a 0, a 1, a 2, a 3, a 4, a 5, a 6]

/-- `sonicPointGetHexMac`; `macStr` is what the array holds before it is printed to. The format has
six `%02x`. -/
def sonicPointGetHexMac (macStr : Vector UInt8 16) (mac : Nat → UInt8) : Option Nat :=
  (snprintf macStr.toList 0 (enetAddrSize * 2 + 1) (hexText ((macParams mac).take 6))).bind
    fun macStr => (cText macStr).map strtoull

/-- The address lies in the block of a base address. -/
def inVapBlock (hexmac hexmac0 : Nat) : Bool :=
  decide (hexmac ≥ hexmac0) && decide ((hexmac : Int) ≤ uint64 (uint64 (hexmac0 + wlanMaxVap) - 1))

/-- `is_own_vap_mac`. Each of the three calls has an array of its own. -/
def isOwnVapMac (wlan0Mac wlan1Mac : Nat → UInt8) (macStr : Fin 3 → Vector UInt8 16)
    (mac : Nat → UInt8) : Option Int :=
  (sonicPointGetHexMac (macStr 0) mac).bind fun hexmac =>
    (sonicPointGetHexMac (macStr 1) wlan0Mac).bind fun hexmac0 =>
      (sonicPointGetHexMac (macStr 2) wlan1Mac).map fun hexmac1 =>
        if inVapBlock hexmac hexmac0 || inVapBlock hexmac hexmac1 then 1 else 0

/-- An address as a number of 48 bits, the first byte being the highest. -/
def macNumber (mac : Nat → UInt8) : Nat :=
  (mac 0).toNat * 1099511627776 + (mac 1).toNat * 4294967296 + (mac 2).toNat * 16777216 +
    (mac 3).toNat * 65536 + (mac 4).toNat * 256 + (mac 5).toNat

/-- The bytes that are printed. -/
lemma length_printed (mac : Nat → UInt8) : ((macParams mac).take 6).length = 6 := rfl

lemma bytesNumber_macParams (mac : Nat → UInt8) :
    bytesNumber ((macParams mac).take 6) = macNumber mac := by
  simp only [bytesNumber, macParams, macNumber, List.take_succ_cons, List.take_zero, List.foldl_cons,
    List.foldl_nil]
  omega

lemma macNumber_lt (mac : Nat → UInt8) : macNumber mac < 281474976710656 := by
  have h := bytesNumber_lt ((macParams mac).take 6)
  rw [bytesNumber_macParams, length_printed] at h
  exact h

/-- The text fits into the array and is read back as the number of the address. -/
lemma sonicPointGetHexMac_eq (macStr : Vector UInt8 16) (mac : Nat → UInt8) :
    sonicPointGetHexMac macStr mac = some (macNumber mac) := by
  have hlen : (hexText ((macParams mac).take 6)).length = 12 := by
    rw [length_hexText, length_printed]
  obtain ⟨b, hput, htext, -⟩ := @putText_zero macStr.toList _
    (zero_not_mem_hexText ((macParams mac).take 6)) (by
      rw [hlen, Vector.length_toList]
      decide)
  have hprint : snprintf macStr.toList 0 (enetAddrSize * 2 + 1) (hexText ((macParams mac).take 6)) =
      some b := by
    rw [snprintf, if_neg (by decide), List.take_of_length_le (by rw [hlen]; decide), hput]
  rw [sonicPointGetHexMac, hprint, Option.bind_some, htext, Option.map_some,
    strtoull_hexText _ (by rw [length_printed]; decide), bytesNumber_macParams]

/-- Behind an address there is room for the block. -/
lemma inVapBlock_iff {n m : Nat} (hm : m < 281474976710656) :
    inVapBlock n m = true ↔ ∃ d ≤ 7, n = m + d := by
  have hadd : uint64 ((m : Int) + wlanMaxVap) = (m : Int) + 8 :=
    uint64_of_range (by unfold wlanMaxVap; omega) (by unfold wlanMaxVap; omega)
  have hsub : uint64 ((m : Int) + 8 - 1) = (m : Int) + 7 :=
    (uint64_of_range (by omega) (by omega)).trans (by omega)
  rw [inVapBlock, hadd, hsub, Bool.and_eq_true, decide_eq_true_eq, decide_eq_true_eq]
  constructor
  · rintro ⟨hge, hle⟩
    exact ⟨n - m, by omega, by omega⟩
  · rintro ⟨d, hd, rfl⟩
    exact ⟨by omega, by omega⟩

/-- The test on all addresses, whatever stands behind them and in the arrays: the address exceeds one
of the two base addresses by at most 7. -/
theorem isOwnVapMac_interval (wlan0Mac wlan1Mac : Nat → UInt8) (macStr : Fin 3 → Vector UInt8 16)
    (mac : Nat → UInt8) :
    ∃ r, isOwnVapMac wlan0Mac wlan1Mac macStr mac = some r ∧
      (r = 1 ↔ ∃ d ≤ 7, macNumber mac = macNumber wlan0Mac + d ∨
        macNumber mac = macNumber wlan1Mac + d) := by
  rw [isOwnVapMac, sonicPointGetHexMac_eq, sonicPointGetHexMac_eq, sonicPointGetHexMac_eq]
  refine ⟨_, rfl, ?_⟩
  have h0 := @inVapBlock_iff (macNumber mac) _ (macNumber_lt wlan0Mac)
  have h1 := @inVapBlock_iff (macNumber mac) _ (macNumber_lt wlan1Mac)
  dsimp only
  split
  · rename_i h
    refine iff_of_true rfl ?_
    rcases Bool.or_eq_true_iff.1 h with h | h
    · obtain ⟨d, hd, heq⟩ := h0.1 h
      exact ⟨d, hd, .inl heq⟩
    · obtain ⟨d, hd, heq⟩ := h1.1 h
      exact ⟨d, hd, .inr heq⟩
  · rename_i h
    refine iff_of_false (by decide) ?_
    rintro ⟨d, hd, heq | heq⟩
    · exact h (Bool.or_eq_true_iff.2 (.inl (h0.2 ⟨d, hd, heq⟩)))
    · exact h (Bool.or_eq_true_iff.2 (.inr (h1.2 ⟨d, hd, heq⟩)))

end CcodeTest.MacAddress
