import RabitKV.Lowbit

/-!
# The Stage 3B1 page kernels and the INT3 format

`_rabit2_k_pack_kernel` quantizes and packs keys in one go: each byte is cut from a window of up to
four codes, and a lane outside the row quantizes the zero it loads. `_rabit2_page_decode_kernel`
reads a code back from a window of two bytes.
-/

namespace RabitKV

section KPack

variable {F B : Type} (fp : Fp F B)

/-- `_rabit2_round_to_even_nonnegative` -/
def roundToEvenNonnegative (x : F) : ℤ :=
  let flo := fp.floor x
  let frac := fp.sub x (fp.lit flo)
  let tieUp := flo % 2 ≠ 0
  if fp.lt (fp.lit (1 / 2)) frac then flo + 1
  else if fp.lt frac (fp.lit (1 / 2)) then flo
  else if tieUp then flo + 1 else flo

/-- `q` of `_rabit2_k_pack_kernel`. -/
def kPackCode (x mn sc : F) : ℕ :=
  (max 0 (min 7 (roundToEvenNonnegative fp (fp.div (fp.sub x mn) sc)))).toNat

/-- `q` of lane `d`, with the values masked loads give. -/
def kPackLane (x mn sc : ℕ → F) (mask : Bool) (d : ℕ) : ℕ :=
  kPackCode fp (if mask then x d else fp.lit 0) (if mask then mn d else fp.lit 0)
    (if mask then sc d else fp.lit 1)

/-- `packed` number `b` of `_rabit2_k_pack_kernel` for the row `x` of one token and head. -/
def kPackByte (x mn sc : ℕ → F) (headSize packedDim b : ℕ) : UInt8 :=
  let maskB := decide (b < packedDim)
  let baseD := b * 8 / 3
  let streamShift := b * 8 % 3
  let word := (List.range 4).foldl (fun word j =>
    word |||
      kPackLane fp x mn sc (maskB && decide (baseD + j < headSize)) (baseD + j) <<< (3 * j)) 0
  UInt8.ofNat ((word >>> streamShift) &&& 255)

end KPack

/-- `k_code` of `_rabit2_page_decode_kernel` for channel `d` of the row at `krow`. -/
def pageKCode (payload : ℕ → UInt8) (krow headSize kPackedDim d : ℕ) : ℕ :=
  let mask := decide (d < headSize)
  let bitPos := d * 3
  let byteIdx := bitPos / 8
  let bitShift := bitPos % 8
  let lo := if mask then payload (krow + byteIdx) else 0
  let hi := if mask && decide (byteIdx + 1 < kPackedDim) then payload (krow + byteIdx + 1) else 0
  ((lo.toNat ||| hi.toNat <<< 8) >>> bitShift) &&& 7

end RabitKV
