import Mathlib.Tactic

/-! # Pearson hashing

`common/hash-functions.c`. The hashes are meant to hold eight bytes, one for each lane. Shifts
are those of the machine the code is built for: a shift of an `int` takes its count modulo 32,
and the shifted `int` is extended with its sign. A text has fewer than 2^31 bytes, as far as the `int`
of the inner loops counts. -/
namespace Chats.Hash
set_option autoImplicit false

def pearsonPermutationTable : List UInt8 :=
  [98, 6, 85, 150, 36, 23, 112, 164, 135, 207, 169, 5, 26, 64, 165, 219,
   61, 20, 68, 89, 130, 63, 52, 102, 24, 229, 132, 245, 80, 216, 195, 115,
   90, 168, 156, 203, 177, 120, 2, 190, 188, 7, 100, 185, 174, 243, 162, 10,
   237, 18, 253, 225, 8, 208, 172, 244, 255, 126, 101, 79, 145, 235, 228, 121,
   123, 251, 67, 250, 161, 0, 107, 97, 241, 111, 181, 82, 249, 33, 69, 55,
   59, 153, 29, 9, 213, 167, 84, 93, 30, 46, 94, 75, 151, 114, 73, 222,
   197, 96, 210, 45, 16, 227, 248, 202, 51, 152, 252, 125, 81, 206, 215, 186,
   39, 158, 178, 187, 131, 136, 1, 49, 50, 17, 141, 91, 47, 129, 60, 99,
   154, 35, 86, 171, 105, 34, 38, 200, 147, 58, 77, 118, 173, 246, 76, 254,
   133, 232, 196, 144, 198, 124, 53, 4, 108, 74, 223, 234, 134, 230, 157, 139,
   189, 205, 199, 128, 176, 19, 211, 236, 127, 192, 231, 70, 233, 88, 146, 44,
   183, 201, 22, 83, 13, 214, 116, 109, 159, 32, 95, 226, 140, 220, 57, 12,
   221, 31, 209, 182, 143, 92, 149, 184, 148, 62, 113, 65, 37, 27, 106, 166,
   3, 14, 204, 72, 21, 41, 56, 66, 28, 193, 40, 217, 25, 54, 179, 117,
   238, 87, 240, 155, 180, 170, 242, 212, 191, 163, 78, 218, 137, 194, 175, 110,
   43, 119, 224, 71, 122, 142, 42, 160, 104, 48, 247, 103, 15, 11, 138, 239]

/-- One turn of the inner loops: `h = PEARSON_PERMUTATION_TABLE[h ^ x[i]]`. -/
def pearsonStep (h byte : UInt8) : UInt8 := pearsonPermutationTable.getD (h ^^^ byte).toNat 0

/-- `h << (j << 3)` as the `int` it is, taken into an `unsigned long long`. -/
def shiftedLane (h : UInt8) (j : ℕ) : UInt64 :=
  (h.toUInt32 <<< (8 * UInt32.ofNat j)).toInt32.toInt64.toUInt64

/-- The byte of lane `j`. Of an empty string `x[0]` is its terminator. -/
def pearsonLane (data : List UInt8) (j : ℕ) : UInt8 :=
  data.tail.foldl pearsonStep (pearsonPermutationTable.getD (data.headD 0 + UInt8.ofNat j).toNat 0)

def pearsonHash (data : List UInt8) : ℤ :=
  ((List.range 8).foldl (fun hh j => hh ||| shiftedLane (pearsonLane data j) j) 0).toInt64.toInt

structure Update where
  hh : UInt64
  mask : UInt64

/-- One turn of the outer loop, with the step of the loop behind it. The inner loop starts at
the second byte. -/
def pearsonUpdateStep (data : List UInt8) (u : Update) (j : ℕ) : Update :=
  let h := ((u.hh &&& u.mask) >>> (8 * UInt64.ofNat j)).toUInt8
  let h := data.tail.foldl pearsonStep h
  { hh := (u.hh &&& ~~~u.mask) ||| h.toUInt64
    mask := u.mask <<< (8 * UInt64.ofNat (j + 1)) }

def pearsonHashUpdate (hash : ℤ) (data : List UInt8) : ℤ :=
  ((List.range 8).foldl (pearsonUpdateStep data) { hh := (Int64.ofInt hash).toUInt64, mask := 0xff }).hh.toInt64.toInt

end Chats.Hash
