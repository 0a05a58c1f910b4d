import TlsNotary.Session.Handlers

/-!
# `Session.Init` and the client's ECDH key

`Init` reads the client's ephemeral public key from the first 64 bytes of its body,
multiplies it by the scalar `D` of the session's `SigningKey` in `getSymmetricKeys`,
and splits the 32-byte x coordinate of the product into `clientKey` and `notaryKey`.
The curve arithmetic is the call the code makes, `elliptic.P256().ScalarMult`, taken
here as a parameter: on the Go 1.18 the server is built with it returns reduced
coordinates for any input. Slicing reads up to the body's capacity, which `io.ReadAll`
leaves larger than its length, so only the length assert rejects a short body.
The rest of `Init` (garbled circuits, storage directory, OT) reads neither the key nor
the point and is not modelled.
-/
namespace TlsNotary

/-- The prime of P-256's base field. -/
def p256P : Nat := 2 ^ 256 - 2 ^ 224 + 2 ^ 192 + 2 ^ 96 - 1

/-- The constant `b` of P-256's equation `y² = x³ - 3x + b`. -/
def p256B : Nat := 0x5ac635d8aa3a93e7b3ebbd55769886bc651d06b0cc53b0f63bce3c3e27d2604b

/-- `IsOnCurve` for P-256: both coordinates reduced and the equation holds. -/
def isOnCurve (x y : Nat) : Bool :=
  x < p256P && y < p256P && ((y : Int) ^ 2 - ((x : Int) ^ 3 - 3 * x + p256B)) % p256P == 0

/-- `new(big.Int).SetBytes(b)`: the bytes read big-endian. -/
def setBytes (b : List UInt8) : Nat := b.foldl (fun n x => 256 * n + x.toNat) 0

/-- `u.To32Bytes(x)`, big-endian, for `x < 2^256` (`FillBytes` panics on more, which
no coordinate `ScalarMult` returns reaches). -/
def to32Bytes (x : Nat) : List UInt8 := (List.range 32).map fun i => UInt8.ofNat (x / 256 ^ (31 - i))

@[simp] theorem length_to32Bytes (x : Nat) : (to32Bytes x).length = 32 := by simp [to32Bytes]

/-- A byte slice: its bytes, and the bytes between its length and its capacity. -/
structure Bytes where
  bytes : List UInt8
  spare : List UInt8

namespace Bytes

/-- `b[lo:hi]` for `lo ≤ hi`: within the capacity, or Go's panic. -/
def slice (b : Bytes) (lo hi : Nat) : Except String (List UInt8) :=
  if hi ≤ b.bytes.length + b.spare.length then .ok (((b.bytes ++ b.spare).drop lo).take (hi - lo))
  else .error ("runtime error: slice bounds out of range [:" ++ toString hi ++ "] with capacity " ++
    toString (b.bytes.length + b.spare.length))

theorem slice_of_le {b : Bytes} {lo hi : Nat} (hlo : lo ≤ hi) (h : hi ≤ b.bytes.length) :
    b.slice lo hi = .ok ((b.bytes.drop lo).take (hi - lo)) := by
  rw [slice, if_pos (by omega), List.drop_append_of_le_length (by omega),
    List.take_append_of_le_length (by simp; omega)]

end Bytes

/-- What `Init` stores from its body before it sets up the session's circuits. -/
structure InitKeys where
  clientKey : List UInt8
  notaryKey : List UInt8
  c6Count : Nat
  deriving DecidableEq, Repr

section
-- `elliptic.P256().ScalarMult(x, y, k)`, with the scalar given by its value.
variable (scalarMult : Nat → Nat → Nat → Fin p256P × Fin p256P)

/-- `Session.getSymmetricKeys(pk, myPrivKey)` for the private key's scalar `d`. -/
def getSymmetricKeys (pk : List UInt8) (d : Nat) : List UInt8 × List UInt8 :=
  let secretBytes := to32Bytes (scalarMult (setBytes (pk.take 32)) (setBytes ((pk.drop 32).take 32)) d).1
  (secretBytes.take 16, secretBytes.drop 16)

/-- `Session.Init(body)` up to its length assert, for a session with `msgsSeen` whose
`SigningKey` has scalar `d`: the new `msgsSeen` and the keys, or the panic. -/
def Session.init (msgsSeen : List Int) (d : Nat) (body : Bytes) :
    Except String (List Int × InitKeys) := do
  let seen ← sequenceCheck msgsSeen 1
  let pk ← body.slice 0 64
  let (clientKey, notaryKey) := getSymmetricKeys scalarMult pk d
  let count ← body.slice 64 66
  if body.bytes.length = 66 then .ok (seen, ⟨clientKey, notaryKey, setBytes count⟩)
  else .error "assert failed"

/-- On a new session, `Init` takes every 66-byte body: it multiplies the first 64
bytes, read as big-endian `(X, Y)`, by `d` and keeps the x coordinate's two halves
as `clientKey` and `notaryKey`, whether or not `(X, Y)` is on P-256. -/
theorem Session.init_keys (d : Nat) (body : Bytes) (h : body.bytes.length = 66) :
    Session.init scalarMult [] d body =
      .ok ([1], ⟨(to32Bytes (scalarMult (setBytes (body.bytes.take 32))
          (setBytes ((body.bytes.drop 32).take 32)) d).1).take 16,
        (to32Bytes (scalarMult (setBytes (body.bytes.take 32))
          (setBytes ((body.bytes.drop 32).take 32)) d).1).drop 16,
        setBytes ((body.bytes.drop 64).take 2)⟩) := by
  have hx : (body.bytes.take 64).take 32 = body.bytes.take 32 := by rw [List.take_take]; rfl
  have hy : ((body.bytes.take 64).drop 32).take 32 = (body.bytes.drop 32).take 32 := by
    simp [List.drop_take]
  rw [Session.init, Bytes.slice_of_le (Nat.zero_le _) (by omega),
    Bytes.slice_of_le (by omega) (by omega)]
  simp only [bind, Except.bind, getSymmetricKeys, List.drop_zero, Nat.sub_zero, hx, hy, h]
  rfl

end

/-- The body of a client whose public key is `(0, 0)`, with `c6Count` 1. -/
def offCurveBody : List UInt8 := List.replicate 64 0 ++ [0, 1]

/-- `(0, 0)` is not on P-256, and `Init` multiplies it by the signing key's scalar
all the same, whatever `ScalarMult` returns and whatever the buffer's spare bytes. -/
theorem init_accepts_offCurve_point :
    isOnCurve 0 0 = false ∧
    ∀ scalarMult d spare, Session.init scalarMult [] d ⟨offCurveBody, spare⟩ =
      .ok ([1], ⟨(to32Bytes (scalarMult 0 0 d).1).take 16, (to32Bytes (scalarMult 0 0 d).1).drop 16, 1⟩) :=
  ⟨by decide, fun scalarMult d spare => Session.init_keys scalarMult d ⟨offCurveBody, spare⟩ rfl⟩

end TlsNotary
