import Mathlib
import Os161.Lib.ByteSwap

/-!
# Byte swaps

kern/lib/bswap.c swaps the bytes of 16-, 32- and 64-bit words with masks and
shifts, one term a byte; `ntoh*` and `hton*` (the macro `TO`) are the swap on
a little-endian build and nothing on a big-endian one; `join32to64` and
`split64to32` paste two 32-bit words into a 64-bit one, and cut it back, in
the order the build's byte order keeps them in memory.

`bswap16` and `bswap32` reverse the bytes (`bswap16_reverses`,
`bswap32_reverses`), and so does the 64-bit swap made of them,
`bswapHalves`. `bswap64` does not: its terms for bytes 4 and 5 shift left
where they should shift right, so byte 4 lands on byte 5 over byte 2, byte 5
is shifted out, and bytes 2 and 3 of the result are always 0
(`bswap64_getLsbD`).

* `bswap64_eq_halves_iff`: `bswap64 x` is the byte reversal of `x` exactly
  when bytes 4 and 5 of `x` are 0.
-/

namespace Os161.Bswap

open ByteSwap

/-- `bswap16(val)`. -/
def bswap16 (val : BitVec 16) : BitVec 16 :=
  ((val &&& 0x00ff#16) <<< 8) ||| ((val &&& 0xff00#16) >>> 8)

/-- `bswap32(val)`. -/
def bswap32 (val : BitVec 32) : BitVec 32 :=
  ((val &&& 0x000000ff#32) <<< 24) ||| ((val &&& 0x0000ff00#32) <<< 8) |||
    ((val &&& 0x00ff0000#32) >>> 8) ||| ((val &&& 0xff000000#32) >>> 24)

/-- `bswap64(val)`. -/
def bswap64 (val : BitVec 64) : BitVec 64 :=
  ((val &&& 0x00000000000000ff#64) <<< 56) ||| ((val &&& 0x000000000000ff00#64) <<< 40) |||
    ((val &&& 0x0000000000ff0000#64) <<< 24) ||| ((val &&& 0x00000000ff000000#64) <<< 8) |||
    ((val &&& 0x000000ff00000000#64) <<< 8) ||| ((val &&& 0x0000ff0000000000#64) <<< 24) |||
    ((val &&& 0x00ff000000000000#64) >>> 40) ||| ((val &&& 0xff00000000000000#64) >>> 56)

/-- `_BYTE_ORDER`. -/
inductive ByteOrder
  | littleEndian
  | bigEndian
  deriving DecidableEq

/-- The two functions `TO(tag, bits, type)` defines, `ntoh##tag` and
    `hton##tag`, which are the same: `bswap##bits` on a little-endian build,
    the value itself on a big-endian one. -/
def byteOrderTo {w : Nat} (bswap : BitVec w → BitVec w) : ByteOrder → BitVec w → BitVec w
  | .littleEndian, val => bswap val
  | .bigEndian, val => val

/-- `ntohs(val)`. -/
def ntohs (o : ByteOrder) : BitVec 16 → BitVec 16 := byteOrderTo bswap16 o

/-- `htons(val)`. -/
def htons (o : ByteOrder) : BitVec 16 → BitVec 16 := byteOrderTo bswap16 o

/-- `ntohl(val)`. -/
def ntohl (o : ByteOrder) : BitVec 32 → BitVec 32 := byteOrderTo bswap32 o

/-- `htonl(val)`. -/
def htonl (o : ByteOrder) : BitVec 32 → BitVec 32 := byteOrderTo bswap32 o

/-- `ntohll(val)`. -/
def ntohll (o : ByteOrder) : BitVec 64 → BitVec 64 := byteOrderTo bswap64 o

/-- `htonll(val)`. -/
def htonll (o : ByteOrder) : BitVec 64 → BitVec 64 := byteOrderTo bswap64 o

/-- `join32to64(x1, x2, &y2)`: `y2`. -/
def join32to64 : ByteOrder → BitVec 32 → BitVec 32 → BitVec 64
  | .bigEndian, x1, x2 => (x1.setWidth 64 <<< 32) ||| x2.setWidth 64
  | .littleEndian, x1, x2 => x1.setWidth 64 ||| (x2.setWidth 64 <<< 32)

/-- `split64to32(x, &y1, &y2)`: `(y1, y2)`. -/
def split64to32 : ByteOrder → BitVec 64 → BitVec 32 × BitVec 32
  | .bigEndian, x => ((x >>> 32).setWidth 32, (x &&& 0xffffffff#64).setWidth 32)
  | .littleEndian, x => ((x &&& 0xffffffff#64).setWidth 32, (x >>> 32).setWidth 32)

/-- The 64-bit swap made of `bswap32`: the low half swapped into the high
    half, and the high half into the low half,
    `((uint64_t)bswap32(x & 0xffffffff) << 32) | bswap32(x >> 32)`. -/
def bswapHalves (x : BitVec 64) : BitVec 64 :=
  ((bswap32 ((x &&& 0xffffffff#64).setWidth 32)).setWidth 64 <<< 32) |||
    (bswap32 ((x >>> 32).setWidth 32)).setWidth 64

/-! ## The swaps, bit by bit -/

theorem bswap16_getLsbD (x : BitVec 16) {i : Nat} (hi : i < 16) :
    (bswap16 x).getLsbD i = x.getLsbD (revBit 2 i) := by
  simp only [bswap16, BitVec.getLsbD_or, BitVec.getLsbD_and, BitVec.getLsbD_shiftLeft,
    BitVec.getLsbD_ushiftRight, revBit]
  interval_cases i <;> simp +decide

theorem bswap32_getLsbD (x : BitVec 32) {i : Nat} (hi : i < 32) :
    (bswap32 x).getLsbD i = x.getLsbD (revBit 4 i) := by
  simp only [bswap32, BitVec.getLsbD_or, BitVec.getLsbD_and, BitVec.getLsbD_shiftLeft,
    BitVec.getLsbD_ushiftRight, revBit]
  interval_cases i <;> simp +decide

theorem bswap16_reverses : Reverses 2 bswap16 := fun x _ hi => bswap16_getLsbD x hi

theorem bswap32_reverses : Reverses 4 bswap32 := fun x _ hi => bswap32_getLsbD x hi

/-- Bit `i` of `bswap64 x`: the bit of the byte reversal, except in bytes 2
    and 3, which are 0, and in byte 5, where byte 4 of `x` is or-ed in. -/
theorem bswap64_getLsbD (x : BitVec 64) {i : Nat} (hi : i < 64) :
    (bswap64 x).getLsbD i =
      ((!decide (16 ≤ i ∧ i < 32) && x.getLsbD (revBit 8 i)) ||
        (decide (40 ≤ i ∧ i < 48) && x.getLsbD (i - 8))) := by
  simp only [bswap64, BitVec.getLsbD_or, BitVec.getLsbD_and, BitVec.getLsbD_shiftLeft,
    BitVec.getLsbD_ushiftRight, revBit]
  interval_cases i <;> simp +decide

/-- `(uint64_t)y << 32`, bit by bit. -/
theorem getLsbD_setWidth_shiftLeft (y : BitVec 32) {i : Nat} (hi : i < 64) :
    (y.setWidth 64 <<< 32).getLsbD i = (decide (32 ≤ i) && y.getLsbD (i - 32)) := by
  by_cases h : i < 32 <;> simp [hi, h]
  omega

/-- `(uint64_t)y` keeps the bits of `y`. -/
theorem getLsbD_setWidth64 (y : BitVec 32) (i : Nat) : (y.setWidth 64).getLsbD i = y.getLsbD i := by
  rw [BitVec.getLsbD_setWidth]
  by_cases h : i < 32
  · simp [show i < 64 by omega]
  · simp [BitVec.getLsbD_of_ge y i (by omega)]

/-- `x & 0xffffffff` in a `uint32_t` is the low half of `x`. -/
theorem setWidth_and_low (x : BitVec 64) : (x &&& 0xffffffff#64).setWidth 32 = x.setWidth 32 := by
  rw [BitVec.setWidth_and, show (0xffffffff#64).setWidth 32 = BitVec.allOnes 32 by decide, BitVec.and_allOnes]

/-- `x >> 32` in a `uint32_t` is the high half of `x`. -/
theorem getLsbD_high (x : BitVec 64) {j : Nat} (hj : j < 32) :
    ((x >>> 32).setWidth 32).getLsbD j = x.getLsbD (32 + j) := by
  simp [hj]

/-- The swap made of `bswap32` reverses the bytes. -/
theorem bswapHalves_reverses : Reverses 8 bswapHalves := by
  intro x i hi
  simp only [bswapHalves, BitVec.getLsbD_or, getLsbD_setWidth_shiftLeft _ hi, getLsbD_setWidth64,
    setWidth_and_low]
  by_cases hlow : i < 32
  · -- the low half of the result: the high half of `x`, swapped
    have hr : 32 + revBit 4 i = revBit 8 i := by
      unfold revBit
      omega
    rw [bswap32_getLsbD _ hlow, getLsbD_high x (revBit_lt (show i < 8 * 4 by omega)), hr]
    simp [show ¬ 32 ≤ i by omega]
  · -- the high half: the low half of `x`, swapped
    have hr : revBit 4 (i - 32) = revBit 8 i := by
      unfold revBit
      omega
    have hlt : revBit 4 (i - 32) < 32 := revBit_lt (show i - 32 < 8 * 4 by omega)
    rw [bswap32_getLsbD _ (show i - 32 < 32 by omega), BitVec.getLsbD_setWidth, hr,
      BitVec.getLsbD_of_ge _ i (by omega)]
    simp [show 32 ≤ i by omega, show revBit 8 i < 32 from hr ▸ hlt]

/-! ## `bswap64` against the byte reversal -/

/-- Bytes 4 and 5 of `x`, bit by bit. -/
theorem extractLsb'_eq_zero_iff (x : BitVec 64) :
    x.extractLsb' 32 16 = 0#16 ↔ ∀ j < 16, x.getLsbD (32 + j) = false := by
  constructor
  · intro h j hj
    have := congrArg (fun y => y.getLsbD j) h
    simpa [hj] using this
  · intro h
    apply BitVec.eq_of_getLsbD_eq
    intro j hj
    simp [hj, h j hj]

/-- `bswap64` reverses the bytes of `x` exactly when bytes 4 and 5 of `x`
    are 0: they are the ones its wrong shifts lose. -/
theorem bswap64_eq_halves_iff (x : BitVec 64) :
    bswap64 x = bswapHalves x ↔ x.extractLsb' 32 16 = 0#16 := by
  rw [extractLsb'_eq_zero_iff]
  constructor
  · -- bit `32 + j` of `x` is read into byte 2 or 3, which `bswap64` leaves 0
    intro heq j hj
    have h32 : 32 + j < 8 * 8 := by omega
    have hi : revBit 8 (32 + j) < 64 := revBit_lt h32
    have hrange : 16 ≤ revBit 8 (32 + j) ∧ revBit 8 (32 + j) < 32 := by
      unfold revBit
      omega
    have hnot : ¬ (40 ≤ revBit 8 (32 + j) ∧ revBit 8 (32 + j) < 48) := by omega
    have hbit := congrArg (fun y => y.getLsbD (revBit 8 (32 + j))) heq
    simp only [bswap64_getLsbD x hi, bswapHalves_reverses x _ hi, revBit_revBit h32] at hbit
    simpa [hrange, hnot] using hbit.symm
  · -- with bytes 4 and 5 at 0, the lost and the or-ed bytes are 0 too
    intro h
    apply BitVec.eq_of_getLsbD_eq
    intro i hi
    rw [bswap64_getLsbD x hi, bswapHalves_reverses x _ hi]
    by_cases h23 : 16 ≤ i ∧ i < 32
    · have hr : revBit 8 i = 32 + (revBit 8 i - 32) := by
        unfold revBit
        omega
      have h5 : ¬ (40 ≤ i ∧ i < 48) := by omega
      rw [hr, h (revBit 8 i - 32) (by unfold revBit; omega)]
      simp [h23, h5]
    · by_cases h5 : 40 ≤ i ∧ i < 48
      · have h4 : x.getLsbD (i - 8) = false := by
          have := h (i - 40) (by omega)
          rwa [show 32 + (i - 40) = i - 8 by omega] at this
        simp [h23, h5, h4]
      · simp [h23, h5]

/-- On a word whose byte 5 is its one nonzero byte, `bswap64` gives 0, while
    the byte reversal moves it to byte 2; so a little-endian
    `ntohll(htonll(x))` is 0, not `x`. -/
theorem bswap64_drops_byte5 :
    bswap64 0x0000010000000000#64 = 0#64 ∧ bswapHalves 0x0000010000000000#64 = 0x0000000000010000#64 ∧
      ntohll .littleEndian (htonll .littleEndian 0x0000010000000000#64) = 0#64 := by
  decide

/-! ## Byte order -/

/-- `ntoh*` undoes `hton*` whenever the swap is its own inverse. -/
theorem byteOrderTo_byteOrderTo {w : Nat} {bswap : BitVec w → BitVec w} (h : ∀ x, bswap (bswap x) = x)
    (o : ByteOrder) (x : BitVec w) : byteOrderTo bswap o (byteOrderTo bswap o x) = x := by
  cases o with
  | littleEndian => exact h x
  | bigEndian => rfl

theorem ntohs_htons (o : ByteOrder) (x : BitVec 16) : ntohs o (htons o x) = x :=
  byteOrderTo_byteOrderTo bswap16_reverses.involutive o x

theorem ntohl_htonl (o : ByteOrder) (x : BitVec 32) : ntohl o (htonl o x) = x :=
  byteOrderTo_byteOrderTo bswap32_reverses.involutive o x

/-- On the big-endian build OS/161 has, `ntohll` undoes `htonll`. -/
theorem ntohll_htonll_bigEndian (x : BitVec 64) : ntohll .bigEndian (htonll .bigEndian x) = x := rfl

end Os161.Bswap
