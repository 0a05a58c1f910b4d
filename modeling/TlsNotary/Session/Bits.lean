import TlsNotary.Session.Init
import Mathlib.Tactic.Ring

/-!
# Circuit inputs and outputs as bits

The garbled circuits read and write bits, least bit first. `utils.BytesToBits` spells a
byte string, read big-endian by `big.Int.SetBytes`, as its `8·len` low bits;
`utils.BitsToBytes` sets the bits one by one with `big.Int.SetBit` (which panics on
anything but 0 and 1) and writes the number big-endian into `ceil(len/8)` bytes with
`FillBytes`. `Session.setCircuitInputs` appends the bits of each input;
`Session.parseOutputBits` cuts the output bits by the circuit's `OutputsSizes` and turns
each piece back into bytes. The OT's `arrayBitsToLittleEndianBytes` packs choice bits
the other way round, eight to a byte, least significant first.
-/
namespace TlsNotary

theorem toNat_ofNat_uint8 (x : Nat) : (UInt8.ofNat x).toNat = x % 256 := rfl

theorem toNat_uint8_lt (x : UInt8) : x.toNat < 256 := x.toBitVec.isLt

@[simp] theorem setBytes_append_singleton (b : List UInt8) (x : UInt8) :
    setBytes (b ++ [x]) = 256 * setBytes b + x.toNat := by
  simp [setBytes]

theorem setBytes_lt (b : List UInt8) : setBytes b < 256 ^ b.length := by
  induction b using List.reverseRecOn with
  | nil => decide
  | append_singleton b x ih =>
    rw [setBytes_append_singleton, List.length_append, List.length_singleton, pow_succ]
    have := toNat_uint8_lt x
    omega

/-- The big-endian bytes of `x` in a buffer of `len` bytes, leading zeros kept. -/
def toBytesBE : Nat → Nat → List UInt8
  | 0, _ => []
  | len + 1, x => toBytesBE len (x / 256) ++ [UInt8.ofNat x]

@[simp] theorem length_toBytesBE (len x : Nat) : (toBytesBE len x).length = len := by
  induction len generalizing x <;> simp [toBytesBE, *]

theorem setBytes_toBytesBE (len x : Nat) : setBytes (toBytesBE len x) = x % 256 ^ len := by
  induction len generalizing x with
  | zero => simp [toBytesBE, setBytes, Nat.mod_one]
  | succ len ih =>
    rw [toBytesBE, setBytes_append_singleton, ih, toNat_ofNat_uint8, pow_succ,
      Nat.mul_comm _ 256, Nat.mod_mul]
    omega

theorem toBytesBE_setBytes (b : List UInt8) : toBytesBE b.length (setBytes b) = b := by
  induction b using List.reverseRecOn with
  | nil => rfl
  | append_singleton b x ih =>
    have hx := toNat_uint8_lt x
    rw [List.length_append, List.length_singleton, toBytesBE, setBytes_append_singleton,
      show (256 * setBytes b + x.toNat) / 256 = setBytes b by omega, ih]
    congr
    exact UInt8.toNat.inj (by rw [toNat_ofNat_uint8]; omega)

/-- `binary.BigEndian.PutUint32(b, v)`, which `GetUploadProgress` applies to the upload's
total and `randomOracle` to its tweak: `byte(v >> 24)`, `byte(v >> 16)`, `byte(v >> 8)`,
`byte(v)`. -/
def putUint32 (v : UInt32) : List UInt8 :=
  [UInt8.ofNat (v.toNat >>> 24), UInt8.ofNat (v.toNat >>> 16), UInt8.ofNat (v.toNat >>> 8),
    UInt8.ofNat v.toNat]

theorem setBytes_putUint32 (v : UInt32) : setBytes (putUint32 v) = v.toNat := by
  have hv : v.toNat < 2 ^ 32 := v.toBitVec.isLt
  simp only [putUint32, setBytes, List.foldl, toNat_ofNat_uint8, Nat.shiftRight_eq_div_pow]
  omega

/-- The number whose bits, least first, are the list's 1s. -/
def bitsValue : List Int → Nat
  | [] => 0
  | b :: bs => (if b = 1 then 1 else 0) + 2 * bitsValue bs

theorem testBit_bitsValue (bs : List Int) (i : Nat) :
    (bitsValue bs).testBit i = decide (bs[i]? = some 1) := by
  induction bs generalizing i with
  | nil => simp [bitsValue]
  | cons b bs ih =>
    cases i with
    | zero => by_cases hb : b = 1 <;> simp [bitsValue, Nat.testBit_zero, hb]
    | succ i =>
      rw [Nat.testBit_add_one, bitsValue, List.getElem?_cons_succ, ← ih]
      congr 2
      split <;> omega

theorem bitsValue_lt (bs : List Int) : bitsValue bs < 2 ^ bs.length := by
  induction bs with
  | nil => decide
  | cons b bs ih =>
    rw [bitsValue, List.length_cons, pow_succ]
    split <;> omega

theorem bitsValue_range_testBit (x n : Nat) :
    bitsValue ((List.range n).map fun i => if x.testBit i then 1 else 0) = x % 2 ^ n := by
  refine Nat.eq_of_testBit_eq fun i => ?_
  rw [testBit_bitsValue, Nat.testBit_mod_two_pow]
  by_cases hi : i < n
  · by_cases hx : x.testBit i <;> simp [hi, hx]
  · simp [hi, List.getElem?_eq_none (show (List.range n).length ≤ i by simpa using hi)]

/-- On 0/1 bits, the first `m ≥ n` bits of their value are the bits, then zeros. -/
theorem map_testBit_bitsValue (bits : List Int) (h01 : ∀ b ∈ bits, b = 0 ∨ b = 1) (m : Nat)
    (hm : bits.length ≤ m) :
    (List.range m).map (fun i => if (bitsValue bits).testBit i then (1 : Int) else 0) =
      bits ++ List.replicate (m - bits.length) 0 := by
  refine List.ext_getElem (by simp; omega) fun i h₁ h₂ => ?_
  simp only [List.getElem_map, List.getElem_range, testBit_bitsValue]
  by_cases hi : i < bits.length
  · rw [List.getElem_append_left hi, List.getElem?_eq_getElem hi]
    rcases h01 _ (List.getElem_mem hi) with h | h <;> simp [h]
  · rw [List.getElem_append_right (by omega), List.getElem_replicate,
      List.getElem?_eq_none (by omega)]
    simp

theorem bitsValue_lt_fill (bits : List Int) : bitsValue bits < 256 ^ ((bits.length + 7) / 8) :=
  calc bitsValue bits < 2 ^ bits.length := bitsValue_lt bits
    _ ≤ 2 ^ (8 * ((bits.length + 7) / 8)) := Nat.pow_le_pow_right (by decide) (by omega)
    _ = 256 ^ ((bits.length + 7) / 8) := by rw [Nat.pow_mul]

/-- `utils.BytesToBits(b)`: bit `i` of `new(big.Int).SetBytes(b)`, for `i < 8·len(b)`. -/
def bytesToBits (b : List UInt8) : List Int :=
  (List.range (b.length * 8)).map fun i => if (setBytes b).testBit i then 1 else 0

@[simp] theorem length_bytesToBits (b : List UInt8) : (bytesToBits b).length = b.length * 8 := by
  simp [bytesToBits]

/-- `z.SetBit(z, i, uint(b))` of `math/big`: bit `i` of `z` becomes `b`. Any `b` but 0
and 1 panics; `uint` of a 64-bit `int` is 0 or 1 only for 0 and 1. -/
def setBit (z i : Nat) (b : Int) : Except String Nat :=
  if b = 0 then .ok (if z.testBit i then z - 2 ^ i else z)
  else if b = 1 then .ok (if z.testBit i then z else z + 2 ^ i)
  else .error "set bit is not 0 or 1"

/-- The loop of `BitsToBytes` from index `i` on: each bit set in turn. -/
def setBits : Nat → Nat → List Int → Except String Nat
  | z, _, [] => .ok z
  | z, i, b :: bs => do setBits (← setBit z i b) (i + 1) bs

/-- `x.FillBytes(make([]byte, len))`: `x` big-endian, zero-extended, or the panic when
it does not fit. -/
def fillBytes (len x : Nat) : Except String (List UInt8) :=
  if x < 256 ^ len then .ok (toBytesBE len x) else .error "math/big: buffer too small to fit value"

/-- `utils.BitsToBytes(b)`. `math.Ceil(float64(len(b)) / 8)` is `(len(b) + 7) / 8` for
every length a slice can have. -/
def bitsToBytes (b : List Int) : Except String (List UInt8) := do
  fillBytes ((b.length + 7) / 8) (← setBits 0 0 b)

theorem setBit_of_lt {z i : Nat} {b : Int} (hz : z < 2 ^ i) (hb : b = 0 ∨ b = 1) :
    setBit z i b = .ok (z + 2 ^ i * if b = 1 then 1 else 0) := by
  rcases hb with rfl | rfl <;> simp [setBit, Nat.testBit_lt_two_pow hz]

/-- On 0/1 bits above what is set so far, the loop adds the bits' value. -/
theorem setBits_eq (bs : List Int) (h01 : ∀ b ∈ bs, b = 0 ∨ b = 1) (z i : Nat) (hz : z < 2 ^ i) :
    setBits z i bs = .ok (z + 2 ^ i * bitsValue bs) := by
  induction bs generalizing z i with
  | nil => simp [setBits, bitsValue]
  | cons b bs ih =>
    have hb := h01 b (List.mem_cons_self b bs)
    have hz' : z + 2 ^ i * (if b = 1 then 1 else 0) < 2 ^ (i + 1) := by
      rw [pow_succ]; split <;> omega
    simp only [setBits, setBit_of_lt hz hb, bind, Except.bind,
      ih (fun x hx => h01 x (List.mem_cons_of_mem b hx)) _ (i + 1) hz', bitsValue]
    congr 1
    ring

/-- On 0/1 bits `BitsToBytes` does not panic: it writes the bits' value big-endian. -/
theorem bitsToBytes_eq (bits : List Int) (h01 : ∀ b ∈ bits, b = 0 ∨ b = 1) :
    bitsToBytes bits = .ok (toBytesBE ((bits.length + 7) / 8) (bitsValue bits)) := by
  simp only [bitsToBytes, setBits_eq bits h01 0 0 (by decide), bind, Except.bind, fillBytes,
    Nat.zero_add, pow_zero, Nat.one_mul, if_pos (bitsValue_lt_fill bits)]

/-- `BytesToBits` of a buffer that `FillBytes` filled: the number's low bits. -/
theorem bytesToBits_toBytesBE (len x : Nat) (hx : x < 256 ^ len) :
    bytesToBits (toBytesBE len x) = (List.range (len * 8)).map fun i => if x.testBit i then 1 else 0 := by
  rw [bytesToBits, setBytes_toBytesBE, Nat.mod_eq_of_lt hx, length_toBytesBE]

theorem bitsValue_bytesToBits (b : List UInt8) : bitsValue (bytesToBits b) = setBytes b := by
  rw [bytesToBits, bitsValue_range_testBit, Nat.mod_eq_of_lt]
  rw [Nat.mul_comm, Nat.pow_mul]
  exact setBytes_lt b

theorem bitsToBytes_bytesToBits (b : List UInt8) : bitsToBytes (bytesToBits b) = .ok b := by
  have h01 : ∀ x ∈ bytesToBits b, x = 0 ∨ x = 1 := by
    simp only [bytesToBits, List.mem_map]
    rintro x ⟨i, -, rfl⟩
    split <;> simp
  rw [bitsToBytes_eq _ h01, bitsValue_bytesToBits, length_bytesToBits,
    show (b.length * 8 + 7) / 8 = b.length by omega, toBytesBE_setBytes]

/-- `Session.setCircuitInputs(cNo, inputs...)` on circuit `cNo`'s `InputBits`. -/
def setCircuitInputs (inputBits : List Int) (inputs : List (List UInt8)) : List Int :=
  inputs.foldl (fun acc v => acc ++ bytesToBits v) inputBits

theorem setCircuitInputs_eq (inputBits : List Int) (inputs : List (List UInt8)) :
    setCircuitInputs inputBits inputs = inputBits ++ (inputs.map bytesToBits).flatten := by
  induction inputs generalizing inputBits with
  | nil => simp [setCircuitInputs]
  | cons v vs ih => rw [setCircuitInputs, List.foldl_cons, ← setCircuitInputs, ih]; simp

/-- `s[lo:hi]` on an `[]int` for `lo ≤ hi`, where `spare` holds the elements between its
length and its capacity: the elements, or Go's panic. -/
def sliceInts (s spare : List Int) (lo hi : Nat) : Except String (List Int) :=
  if hi ≤ s.length + spare.length then .ok (((s ++ spare).drop lo).take (hi - lo))
  else .error ("runtime error: slice bounds out of range [:" ++ toString hi ++ "] with capacity " ++
    toString (s.length + spare.length))

/-- One round of `parseOutputBits`'s loop: the output of `v` bits at offset `o`. -/
def parseOutputStep (outBits spare : List Int) (acc : Nat × List UInt8) (v : Nat) :
    Except String (Nat × List UInt8) := do
  let output ← bitsToBytes (← sliceInts outBits spare acc.1 (acc.1 + v))
  pure (acc.1 + v, acc.2 ++ output)

/-- `Session.parseOutputBits(cNo, outBits)` for a circuit whose meta lists `OutputsSizes`
and `OutputSize`; `spare` is `outBits`' capacity past its length. -/
def parseOutputBits (outputsSizes : List Nat) (outputSize : Nat) (outBits spare : List Int) :
    Except String (List UInt8) := do
  let (o, outBytes) ← outputsSizes.foldlM (parseOutputStep outBits spare) (0, [])
  if o ≠ outputSize then throw "o != e.g.Cs[cNo].OutputSize"
  pure outBytes

/-- Where the bits at offset `o` are those of `vs`, the loop reads each `v` back. -/
theorem foldlM_parseOutputStep (outBits spare rest : List Int) (vs : List (List UInt8))
    (o : Nat) (out : List UInt8) (ho : o ≤ outBits.length + spare.length)
    (h : (outBits ++ spare).drop o = (vs.map bytesToBits).flatten ++ rest) :
    (vs.map fun v => 8 * v.length).foldlM (parseOutputStep outBits spare) (o, out) =
      .ok (o + (vs.map fun v => 8 * v.length).sum, out ++ vs.flatten) := by
  induction vs generalizing o out with
  | nil => simp [pure, Except.pure]
  | cons v vs ih =>
    simp only [List.map_cons, List.flatten_cons, List.append_assoc] at h
    have hlen : o + 8 * v.length ≤ outBits.length + spare.length := by
      have := congrArg List.length h
      simp only [List.length_drop, List.length_append, length_bytesToBits] at this
      omega
    have hslice : sliceInts outBits spare o (o + 8 * v.length) = .ok (bytesToBits v) := by
      rw [sliceInts, if_pos hlen, h, Nat.add_sub_cancel_left,
        List.take_append_of_le_length (by simp [Nat.mul_comm])]
      simp [Nat.mul_comm]
    have hrest : (outBits ++ spare).drop (o + 8 * v.length) = (vs.map bytesToBits).flatten ++ rest := by
      rw [← List.drop_drop, h, List.drop_append_of_le_length (by simp [Nat.mul_comm])]
      simp [Nat.mul_comm]
    simp only [List.map_cons, List.foldlM_cons, parseOutputStep, hslice, bitsToBytes_bytesToBits,
      bind, Except.bind, pure, Except.pure, ih _ _ hlen hrest]
    simp [Nat.add_assoc]

theorem parseOutputBits_setCircuitInputs (vs : List (List UInt8)) (spare : List Int) :
    parseOutputBits (vs.map fun v => 8 * v.length) (vs.map fun v => 8 * v.length).sum
      (setCircuitInputs [] vs) spare = .ok vs.flatten := by
  rw [parseOutputBits, foldlM_parseOutputStep _ _ spare vs 0 [] (Nat.zero_le _)
    (by simp [setCircuitInputs_eq])]
  simp [bind, Except.bind, pure, Except.pure]

/-- `BitsToBytes` keeps every 0/1 bit and pads to whole bytes with zeros; the output
parser reads back exactly the inputs whose bits `setCircuitInputs` wrote; and
`BitsToBytes` undoes `BytesToBits`, leading zero bytes included. -/
theorem bitsToBytes_roundTrip :
    (∀ bits : List Int, (∀ x ∈ bits, x = 0 ∨ x = 1) →
      ∃ bytes, bitsToBytes bits = .ok bytes ∧
        bytesToBits bytes = bits ++ List.replicate (8 * ((bits.length + 7) / 8) - bits.length) 0) ∧
    (∀ (vs : List (List UInt8)) (spare : List Int),
      parseOutputBits (vs.map fun v => 8 * v.length) (vs.map fun v => 8 * v.length).sum
        (setCircuitInputs [] vs) spare = .ok vs.flatten) ∧
    ∀ b, bitsToBytes (bytesToBits b) = .ok b :=
  ⟨fun bits h01 => ⟨_, bitsToBytes_eq bits h01, by
    rw [bytesToBits_toBytesBE _ _ (bitsValue_lt_fill bits), Nat.mul_comm,
      map_testBit_bitsValue bits h01 _ (by omega)]⟩,
   parseOutputBits_setCircuitInputs, bitsToBytes_bytesToBits⟩

/-- Nine bits: the ninth starts a second byte, padded with seven zeros. -/
theorem bitsToBytes_roundTrip_nineBits :
    (∀ x ∈ ([1, 0, 0, 0, 0, 0, 0, 0, 1] : List Int), x = 0 ∨ x = 1) ∧
    ∃ bytes, bitsToBytes [1, 0, 0, 0, 0, 0, 0, 0, 1] = .ok bytes ∧
      bytesToBits bytes = [1, 0, 0, 0, 0, 0, 0, 0, 1] ++ List.replicate 7 0 :=
  ⟨by decide, bitsToBytes_roundTrip.1 _ (by decide)⟩

/-- The inner loop of `arrayBitsToLittleEndianBytes` for the byte at bit `i`: bit `j` of
`val` set when `bits[i+j] == 1`, for `j < 8` while `i + j < len(bits)`. -/
def packLittleEndianByte (bits : List Int) (i : Nat) : UInt8 :=
  (List.range (min 8 (bits.length - i))).foldl
    (fun val j => if bits.getD (i + j) 0 = 1 then val ||| (1 : UInt8) <<< j.toUInt8 else val) 0

/-- `ote.arrayBitsToLittleEndianBytes(bits)`: the outer loop runs `i = 0, 8, 16, …` while
`i < len(bits)`, `ceil(len/8)` times, and adds one byte each time. -/
def arrayBitsToLittleEndianBytes (bits : List Int) : List UInt8 :=
  (List.range ((bits.length + 7) / 8)).map fun k => packLittleEndianByte bits (8 * k)

theorem toNat_one_shiftLeft : ∀ j < 8, ((1 : UInt8) <<< j.toUInt8).toNat = 2 ^ j := by decide

/-- After the first `m ≤ 8` rounds, bit `j` is set iff round `j` found a 1. -/
theorem testBit_foldl_pack (bits : List Int) (i j : Nat) {m : Nat} (hm : m ≤ 8) :
    ((List.range m).foldl (fun val j => if bits.getD (i + j) 0 = 1 then
      val ||| (1 : UInt8) <<< j.toUInt8 else val) 0).toNat.testBit j =
      decide (j < m ∧ bits.getD (i + j) 0 = 1) := by
  induction m with
  | zero => simp
  | succ m ih =>
    rw [List.range_succ, List.foldl_append, List.foldl_cons, List.foldl_nil]
    split <;> rename_i hb
    · rw [show ∀ a b : UInt8, (a ||| b).toNat = a.toNat ||| b.toNat from fun _ _ => rfl,
        Nat.testBit_or, ih (by omega), toNat_one_shiftLeft m (by omega), Nat.testBit_two_pow]
      by_cases hj : j = m
      · subst hj; simp [hb, -List.getD_eq_getElem?_getD]
      · simp [hj, Nat.lt_succ_iff_lt_or_eq, Ne.symm hj]
    · rw [ih (by omega)]
      by_cases hj : j = m
      · subst hj; simp [hb, -List.getD_eq_getElem?_getD]
      · simp [hj, Nat.lt_succ_iff_lt_or_eq]

theorem testBit_packLittleEndianByte (bits : List Int) (i j : Nat) :
    (packLittleEndianByte bits i).toNat.testBit j =
      decide (j < 8 ∧ i + j < bits.length ∧ bits[i + j]? = some 1) := by
  rw [packLittleEndianByte, testBit_foldl_pack _ _ _ (Nat.min_le_left _ _),
    List.getD_eq_getElem?_getD]
  by_cases h : i + j < bits.length
  · simp [List.getElem?_eq_getElem h, h, show j < bits.length - i by omega]
  · simp [List.getElem?_eq_none (Nat.le_of_not_lt h), h]

theorem testBit_div_256_pow (x k j : Nat) : (x / 256 ^ k).testBit j = x.testBit (8 * k + j) := by
  rw [show 256 ^ k = 2 ^ (8 * k) by rw [Nat.pow_mul], ← Nat.shiftRight_eq_div_pow,
    Nat.testBit_shiftRight]

theorem testBit_mod_256 (y j : Nat) : (y % 256).testBit j = (decide (j < 8) && y.testBit j) :=
  Nat.testBit_mod_two_pow y 8 j

/-- `FillBytes` read backwards: byte `k` from the end is `x / 256^k`. -/
theorem reverse_toBytesBE (len x : Nat) :
    (toBytesBE len x).reverse = (List.range len).map fun k => UInt8.ofNat (x / 256 ^ k) := by
  induction len generalizing x with
  | zero => rfl
  | succ len ih =>
    rw [toBytesBE, List.reverse_append, ih, List.range_succ_eq_map]
    simp [Nat.div_div_eq_div_mul, pow_succ']

/-- The OT packer makes `ceil(n/8)` bytes; bit `j` of byte `k` is set iff `bits[8k+j]` is
there and is 1; on 0/1 bits its bytes are `BitsToBytes`'s in reverse order. -/
theorem arrayBitsToLittleEndianBytes_reverse_bitsToBytes (bits : List Int) :
    (arrayBitsToLittleEndianBytes bits).length = (bits.length + 7) / 8 ∧
    (∀ k (hk : k < (arrayBitsToLittleEndianBytes bits).length) j, j < 8 →
      ((arrayBitsToLittleEndianBytes bits)[k].toNat.testBit j ↔
        8 * k + j < bits.length ∧ bits[8 * k + j]? = some 1)) ∧
    ((∀ b ∈ bits, b = 0 ∨ b = 1) →
      bitsToBytes bits = .ok (arrayBitsToLittleEndianBytes bits).reverse) := by
  refine ⟨by simp [arrayBitsToLittleEndianBytes], fun k hk j hj => ?_, fun h01 => ?_⟩
  · simp [arrayBitsToLittleEndianBytes, testBit_packLittleEndianByte, hj]
  · rw [bitsToBytes_eq bits h01, ← List.reverse_reverse (toBytesBE _ _), reverse_toBytesBE]
    congr 2
    refine List.map_congr_left fun k _ => UInt8.toNat.inj (Nat.eq_of_testBit_eq fun j => ?_)
    rw [testBit_packLittleEndianByte, toNat_ofNat_uint8, testBit_mod_256, testBit_div_256_pow,
      testBit_bitsValue]
    by_cases hj : j < 8
    · by_cases h : 8 * k + j < bits.length
      · simp [hj, h]
      · simp [hj, h, List.getElem?_eq_none (Nat.le_of_not_lt h)]
    · simp [hj]

/-- Nine 0/1 bits: the OT packer's two bytes are `BitsToBytes`'s, reversed. -/
theorem arrayBitsToLittleEndianBytes_nineBits :
    (∀ b ∈ ([1, 1, 0, 0, 0, 0, 0, 0, 1] : List Int), b = 0 ∨ b = 1) ∧
    bitsToBytes [1, 1, 0, 0, 0, 0, 0, 0, 1] =
      .ok (arrayBitsToLittleEndianBytes [1, 1, 0, 0, 0, 0, 0, 0, 1]).reverse :=
  ⟨by decide, (arrayBitsToLittleEndianBytes_reverse_bitsToBytes _).2.2 (by decide)⟩

example : arrayBitsToLittleEndianBytes [1, 1, 0, 0, 0, 0, 0, 0, 1] = [3, 1] := rfl

example : bitsToBytes [1, 1, 0, 0, 0, 0, 0, 0, 1] = .ok [1, 3] := rfl

end TlsNotary
