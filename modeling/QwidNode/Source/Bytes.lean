import QwidNode.Source.Types

/-!
# Numbers as bytes

Source: `common/helper.go:131-147` and `common/types.go:531-547`. Heights and amounts are written as
eight bytes, least significant first, lengths as four bytes, most significant first; addresses and
hashes are their bytes.
-/
namespace QwidNode.Source

def natToBytes : Nat → Nat → Bytes
  | 0, _ => []
  | n + 1, value => natToBytes n (value / 256) ++ [UInt8.ofNat value]

def Hash.getBytes (h : Hash) : Bytes := natToBytes 32 h.toNat

def getByteInt64 (u : Int64) : Bytes := (natToBytes 8 u.toBitVec.toNat).reverse

def bytesToLenAndBytes (b : Bytes) : Bytes := natToBytes 4 (b.length % 2 ^ 32) ++ b

def AddressBytes.getBytes (a : AddressBytes) : Bytes := natToBytes 20 a.toNat

@[simp] theorem natToBytes_length (n value : Nat) : (natToBytes n value).length = n := by
  induction n generalizing value with
  | zero => rfl
  | succ n ih => rw [natToBytes, List.length_append, ih, List.length_singleton]

theorem bytesToNat_concat (b : Bytes) (x : UInt8) :
    bytesToNat (b ++ [x]) = bytesToNat b * 256 + x.toNat := by
  rw [bytesToNat, List.foldl_append]
  rfl

theorem bytesToNat_natToBytes (n value : Nat) :
    bytesToNat (natToBytes n value) = value % 256 ^ n := by
  induction n generalizing value with
  | zero => simp [natToBytes, bytesToNat, Nat.mod_one]
  | succ n ih =>
    have digits : value % 256 ^ (n + 1) = value % 256 + 256 * (value / 256 % 256 ^ n) := by
      rw [Nat.pow_succ, Nat.mul_comm, Nat.mod_mul]
    have last : (UInt8.ofNat value).toNat = value % 256 := UInt8.toNat_ofNat'
    rw [natToBytes, bytesToNat_concat, ih, last, digits]
    omega

theorem bytesToNat_lt (b : Bytes) : bytesToNat b < 256 ^ b.length := by
  induction b using List.reverseRecOn with
  | nil => simp [bytesToNat]
  | append_singleton b x ih =>
    have digit : x.toNat < 256 := x.toNat_lt
    rw [bytesToNat_concat, List.length_append, List.length_singleton, Nat.pow_succ]
    omega

theorem natToBytes_bytesToNat (b : Bytes) : natToBytes b.length (bytesToNat b) = b := by
  induction b using List.reverseRecOn with
  | nil => rfl
  | append_singleton b x ih =>
    have digit : x.toNat < 256 := x.toNat_lt
    rw [List.length_append, List.length_singleton, natToBytes, bytesToNat_concat]
    have high : (bytesToNat b * 256 + x.toNat) / 256 = bytesToNat b := by omega
    have low : UInt8.ofNat (bytesToNat b * 256 + x.toNat) = x := by
      apply UInt8.toNat_inj.mp
      rw [UInt8.toNat_ofNat']
      omega
    rw [high, low, ih]

@[simp] theorem AddressBytes.getBytes_length (a : AddressBytes) : a.getBytes.length = 20 :=
  natToBytes_length _ _

@[simp] theorem Hash.getBytes_length (h : Hash) : h.getBytes.length = 32 := natToBytes_length _ _

@[simp] theorem addressOfBytes_getBytes (a : AddressBytes) : addressOfBytes a.getBytes = a := by
  rw [addressOfBytes, AddressBytes.getBytes, bytesToNat_natToBytes]
  apply BitVec.eq_of_toNat_eq
  have bound : a.toNat < 256 ^ 20 := lt_of_lt_of_eq a.isLt (by decide)
  rw [Nat.mod_eq_of_lt bound, BitVec.toNat_ofNat, Nat.mod_eq_of_lt a.isLt]

@[simp] theorem hashOfBytes_getBytes (h : Hash) : hashOfBytes h.getBytes = h := by
  rw [hashOfBytes, Hash.getBytes, bytesToNat_natToBytes]
  apply BitVec.eq_of_toNat_eq
  have bound : h.toNat < 256 ^ 32 := lt_of_lt_of_eq h.isLt (by decide)
  rw [Nat.mod_eq_of_lt bound, BitVec.toNat_ofNat, Nat.mod_eq_of_lt h.isLt]

theorem AddressBytes.getBytes_injective : Function.Injective AddressBytes.getBytes :=
  Function.LeftInverse.injective addressOfBytes_getBytes

theorem Hash.getBytes_injective : Function.Injective Hash.getBytes :=
  Function.LeftInverse.injective hashOfBytes_getBytes

@[simp] theorem getByteInt64_length (u : Int64) : (getByteInt64 u).length = 8 := by
  rw [getByteInt64, List.length_reverse, natToBytes_length]

@[simp] theorem getInt64FromByte_append (u : Int64) (rest : Bytes) :
    getInt64FromByte (getByteInt64 u ++ rest) = u := by
  have bound : u.toBitVec.toNat < 256 ^ 8 := lt_of_lt_of_eq u.toBitVec.isLt (by decide)
  rw [getInt64FromByte, List.take_left' (getByteInt64_length u), getByteInt64, List.reverse_reverse,
    bytesToNat_natToBytes, Nat.mod_eq_of_lt bound, BitVec.ofNat_toNat, BitVec.setWidth_eq]
  rfl

@[simp] theorem getInt64FromByte_getByteInt64 (u : Int64) :
    getInt64FromByte (getByteInt64 u) = u := by
  rw [← List.append_nil (getByteInt64 u), getInt64FromByte_append]

theorem getByteInt64_injective : Function.Injective getByteInt64 :=
  Function.LeftInverse.injective getInt64FromByte_getByteInt64

theorem getByteInt64_getInt64FromByte {b : Bytes} (eight : b.length = 8) :
    getByteInt64 (getInt64FromByte b) = b := by
  have bound : bytesToNat b.reverse < 2 ^ 64 := by
    have less := bytesToNat_lt b.reverse
    rw [List.length_reverse, eight] at less
    exact lt_of_lt_of_eq less (by decide)
  have written := natToBytes_bytesToNat b.reverse
  rw [List.length_reverse, eight] at written
  rw [getByteInt64, getInt64FromByte, List.take_of_length_le (Nat.le_of_eq eight)]
  change (natToBytes 8 (BitVec.ofNat 64 (bytesToNat b.reverse)).toNat).reverse = b
  rw [BitVec.toNat_ofNat, Nat.mod_eq_of_lt bound, written, List.reverse_reverse]

end QwidNode.Source
