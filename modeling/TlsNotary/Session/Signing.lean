import TlsNotary.Session.Bits

/-!
# What the notary signs

Two handlers end in a signature. `CommitHash` passes eleven byte strings to
`utils.ECDSASign`, which signs the SHA-256 of their concatenation; no length or
separator goes in, so only the fixed widths of all items but one keep two transcripts
apart. `TagVerification` checks the client's ciphertext with `aes_tag.VerifyTag`, whose
per-element test is `strconv.ParseUint(s, 10, 8)`, and then has
`TagSigningManager.Sign` convert the same strings again, with `strconv.Atoi` and a
range test. The two parsers are Go's standard library, modelled here for base 10 from
its source; a Go string is its bytes. The hash and the ECDSA signer are parameters.
-/
namespace TlsNotary

/-- The session values `Session.CommitHash` signs besides the body's three hashes. -/
structure CommitHashState where
  ghashInputsBlob : List UInt8
  serverPubkey : List UInt8
  notaryPMSShare : List UInt8
  cwkShare : List UInt8
  civShare : List UInt8
  swkShare : List UInt8
  sivShare : List UInt8

/-- The items `Session.CommitHash` passes to `utils.ECDSASign`, in order, for the
decrypted `body` and the Unix time `now` that `binary.BigEndian.PutUint64` writes. -/
def commitHashItems (s : CommitHashState) (body : Bytes) (now : Nat) :
    Except String (List (List UInt8)) := do
  let hisCommitHash ← body.slice 0 32
  let hisKeyShareHash ← body.slice 32 64
  let hisPMSShareHash ← body.slice 64 96
  pure [hisCommitHash, hisKeyShareHash, hisPMSShareHash, s.ghashInputsBlob, s.serverPubkey,
    s.notaryPMSShare, s.cwkShare, s.civShare, s.swkShare, s.sivShare, toBytesBE 8 now]

/-- `utils.ECDSASign`'s `concatAll`: the items appended in order. -/
def concatAll (items : List (List UInt8)) : List UInt8 :=
  items.foldl (fun acc item => acc ++ item) []

/-- The widths the session's values have: `wpk` bytes of server key, a 32-byte PMS
share, 16-byte write-key shares and 4-byte IV shares. -/
def CommitHashState.Widths (s : CommitHashState) (wpk : Nat) : Prop :=
  s.serverPubkey.length = wpk ∧ s.notaryPMSShare.length = 32 ∧ s.cwkShare.length = 16 ∧
    s.civShare.length = 4 ∧ s.swkShare.length = 16 ∧ s.sivShare.length = 4

theorem concatAll_eq_flatten (items : List (List UInt8)) : concatAll items = items.flatten := by
  suffices ∀ acc, items.foldl (fun acc item => acc ++ item) acc = acc ++ items.flatten from
    this []
  induction items with
  | nil => simp
  | cons item items ih => intro acc; simp [ih]

theorem eq_of_flatten_eq {xs ys : List (List UInt8)} (hw : xs.map List.length = ys.map List.length)
    (h : xs.flatten = ys.flatten) : xs = ys := by
  induction xs generalizing ys with
  | nil => cases ys <;> simp_all
  | cons x xs ih =>
    cases ys with
    | nil => simp at hw
    | cons y ys =>
      simp only [List.map_cons, List.cons.injEq] at hw
      obtain ⟨rfl, hrest⟩ := List.append_inj h hw.1
      rw [ih hw.2 hrest]

theorem except_bind_eq_ok {ε α β : Type} {x : Except ε α} {f : α → Except ε β} {b : β}
    (h : x >>= f = .ok b) : ∃ a, x = .ok a ∧ f a = .ok b := by
  cases x with
  | error e => cases h
  | ok a => exact ⟨a, rfl, h⟩

theorem Bytes.length_slice {b : Bytes} {lo hi : Nat} {r : List UInt8}
    (h : b.slice lo hi = .ok r) : r.length = hi - lo := by
  rw [Bytes.slice] at h
  split_ifs at h
  cases h
  rw [List.length_take, List.length_drop, List.length_append]
  omega

theorem commitHashItems_widths {s : CommitHashState} {body : Bytes} {now : Nat}
    {items : List (List UInt8)} (h : commitHashItems s body now = .ok items) :
    items.map List.length = [32, 32, 32, s.ghashInputsBlob.length, s.serverPubkey.length,
      s.notaryPMSShare.length, s.cwkShare.length, s.civShare.length, s.swkShare.length,
      s.sivShare.length, 8] := by
  obtain ⟨c, hc, h⟩ := except_bind_eq_ok h
  obtain ⟨k, hk, h⟩ := except_bind_eq_ok h
  obtain ⟨p, hp, h⟩ := except_bind_eq_ok h
  cases h
  simp [Bytes.length_slice hc, Bytes.length_slice hk, Bytes.length_slice hp]

/-- With every item but `ghashInputsBlob` of a fixed width, the concatenation that
`ECDSASign` hashes determines `CommitHash`'s argument list. -/
theorem commitHash_concat_injective {wpk : Nat} {s s' : CommitHashState} {body body' : Bytes}
    {now now' : Nat} {items items' : List (List UInt8)} (hs : s.Widths wpk) (hs' : s'.Widths wpk)
    (h : commitHashItems s body now = .ok items) (h' : commitHashItems s' body' now' = .ok items')
    (heq : concatAll items = concatAll items') : items = items' := by
  rw [concatAll_eq_flatten, concatAll_eq_flatten] at heq
  have hw := commitHashItems_widths h
  have hw' := commitHashItems_widths h'
  obtain ⟨h1, h2, h3, h4, h5, h6⟩ := hs
  obtain ⟨h1', h2', h3', h4', h5', h6'⟩ := hs'
  -- the blob's width is what the fixed widths leave of the total
  have hlen := congrArg List.length heq
  rw [List.length_flatten, List.length_flatten, hw, hw'] at hlen
  simp only [List.sum_cons, List.sum_nil] at hlen
  refine eq_of_flatten_eq ?_ heq
  rw [hw, hw']
  simp only [List.cons.injEq, h1, h2, h3, h4, h5, h6, h1', h2', h3', h4', h5', h6', and_true,
    true_and]
  omega

/-- A session with a 65-byte server key, three bytes of GHASH input, and its body. -/
def commitHashWitnessState : CommitHashState :=
  ⟨[1, 2, 3], List.replicate 65 4, List.replicate 32 5, List.replicate 16 6, List.replicate 4 7,
    List.replicate 16 8, List.replicate 4 9⟩

def commitHashWitnessBody : Bytes := ⟨List.replicate 96 1, []⟩

def commitHashWitnessItems : List (List UInt8) :=
  [List.replicate 32 1, List.replicate 32 1, List.replicate 32 1, [1, 2, 3], List.replicate 65 4,
    List.replicate 32 5, List.replicate 16 6, List.replicate 4 7, List.replicate 16 8,
    List.replicate 4 9, toBytesBE 8 0]

/-- A second body, whose three commitments are twos. -/
def commitHashOtherBody : Bytes := ⟨List.replicate 96 2, []⟩

/-- Two bodies for one session give two different signed concatenations. -/
theorem commitHash_concat_injective_twoBodies :
    commitHashItems commitHashWitnessState commitHashWitnessBody 0 = .ok commitHashWitnessItems ∧
    ∃ items', commitHashItems commitHashWitnessState commitHashOtherBody 0 = .ok items' ∧
      concatAll commitHashWitnessItems ≠ concatAll items' :=
  ⟨rfl, _, rfl, fun heq => absurd
    (@commitHash_concat_injective 65 commitHashWitnessState commitHashWitnessState
      commitHashWitnessBody commitHashOtherBody 0 0 _ _
      (by unfold CommitHashState.Widths; decide) (by unfold CommitHashState.Widths; decide)
      rfl rfl heq) (by decide)⟩

/-- `strconv.ErrSyntax`'s text. -/
def errSyntax : String := "invalid syntax"

/-- `strconv.ErrRange`'s text. -/
def errRange : String := "value out of range"

/-- `'0' <= c && c <= '9'`. -/
def isDigitByte (c : UInt8) : Bool := 48 ≤ c.toNat && c.toNat ≤ 57

/-- The digit loop of `strconv.ParseUint` in base 10, with `n` read so far and `maxVal`
the largest value of the bit size. A byte that is not a digit is a syntax error (a
letter too: its digit value is not below the base); `n` at the cutoff
`maxUint64/10 + 1`, or `n*10 + d` past `maxVal`, is a range error, the second test
standing also for the `uint64` wrap-around test `n1 < n`. -/
def parseUintLoop (maxVal : Nat) : Nat → List UInt8 → Except String Nat
  | n, [] => .ok n
  | n, c :: cs =>
    if !isDigitByte c then .error errSyntax
    else if n ≥ (2 ^ 64 - 1) / 10 + 1 then .error errRange
    else if n * 10 + (c.toNat - 48) > maxVal then .error errRange
    else parseUintLoop maxVal (n * 10 + (c.toNat - 48)) cs

/-- `strconv.ParseUint(s, 10, bitSize)`: the value, or the text of the error's `Err`;
bit size 0 means 64, Go's `IntSize`. -/
def parseUint (s : List UInt8) (bitSize : Nat) : Except String Nat :=
  if s = [] then .error errSyntax
  else
    let bitSize := if bitSize = 0 then 64 else bitSize
    if bitSize > 64 then .error ("invalid bit size " ++ toString bitSize)
    else parseUintLoop (2 ^ bitSize - 1) 0 s

/-- `strconv.ParseInt(s, 10, bitSize)`: an optional sign, then `ParseUint` and the
signed cutoff. A range error of `ParseUint` stays one: it returns `maxVal`, which fails
the cutoff test whatever the sign. -/
def parseInt (s : List UInt8) (bitSize : Nat) : Except String Int :=
  if s = [] then .error errSyntax
  else
    let neg := s.head? = some 45
    let s' := if s.head? = some 43 ∨ neg then s.tail else s
    match parseUint s' bitSize with
    | .error e => .error e
    | .ok un =>
      let cutoff := 2 ^ ((if bitSize = 0 then 64 else bitSize) - 1)
      if !neg ∧ un ≥ cutoff then .error errRange
      else if neg ∧ un > cutoff then .error errRange
      else .ok (if neg then -(un : Int) else un)

/-- The fast loop of `strconv.Atoi`: `ch -= '0'` on a byte wraps below `'0'`. -/
def atoiFastLoop : Nat → List UInt8 → Except String Nat
  | n, [] => .ok n
  | n, c :: cs =>
    let ch := (c.toNat + 256 - 48) % 256
    if ch > 9 then .error errSyntax else atoiFastLoop (n * 10 + ch) cs

/-- `strconv.Atoi(s)` on a 64-bit machine: for `0 < len(s) < 19` a sign and digits,
else `ParseInt(s, 10, 0)`. -/
def atoi (s : List UInt8) : Except String Int :=
  if 0 < s.length ∧ s.length < 19 then
    let signed := s.head? = some 45 ∨ s.head? = some 43
    let s' := if signed then s.tail else s
    if signed ∧ s'.length < 1 then .error errSyntax
    else match atoiFastLoop 0 s' with
      | .error e => .error e
      | .ok n => .ok (if s.head? = some 45 then -(n : Int) else n)
  else parseInt s 0

/-- `aes_tag.VerifyTag`'s test of the ciphertext: every element passes
`strconv.ParseUint(s, 10, 8)`. -/
def verifyCipherText (cipherText : List (List UInt8)) : Except String Unit :=
  cipherText.forM fun s => match parseUint s 8 with
    | .ok _ => .ok ()
    | .error _ => .error "unexpected value in cipher text array in tag verification"

/-- One round of `Sign`'s loop: the string's byte appended when `Atoi` reads it as a
number in [0, 255], the string skipped otherwise. -/
def signByte (ciphertextBytes : List UInt8) (byteString : List UInt8) : List UInt8 :=
  match atoi byteString with
  | .ok byteNum =>
    if byteNum < 0 ∨ byteNum > 255 then ciphertextBytes
    else ciphertextBytes ++ [UInt8.ofNat byteNum.toNat]
  | .error _ => ciphertextBytes

/-- `TagSigningManager.Sign(ciphertext)`, with `ecdsa.SignASN1` of `utils.Sha256` as
`signDigest`: a skipped string fails the count. -/
def TagSigningManager.sign (signDigest : List UInt8 → List UInt8)
    (ciphertext : List (List UInt8)) : Except String (List UInt8) :=
  let ciphertextBytes := ciphertext.foldl signByte []
  if ciphertextBytes.length ≠ ciphertext.length then .error "signing invalid ciphertext failed"
  else .ok (signDigest ciphertextBytes)

/-- What an accepted digit loop read: digits only, no less than where it started, at
most `maxVal`; the fast loop reads the same, and so does the loop of any larger bound. -/
theorem parseUintLoop_ok {maxVal n v : Nat} {s : List UInt8} (h : parseUintLoop maxVal n s = .ok v) :
    n ≤ v ∧ (n ≤ maxVal → v ≤ maxVal) ∧ atoiFastLoop n s = .ok v ∧
      ∀ maxVal', v ≤ maxVal' → parseUintLoop maxVal' n s = .ok v := by
  induction s generalizing n with
  | nil => cases h; exact ⟨le_rfl, id, rfl, fun _ _ => rfl⟩
  | cons c cs ih =>
    have hc := toNat_uint8_lt c
    simp only [parseUintLoop] at h
    split_ifs at h with hd hcut hmax
    obtain ⟨hle, -, hfast, hmono⟩ := ih h
    simp only [isDigitByte, Bool.not_eq_true', Bool.and_eq_false_iff, decide_eq_false_iff_not,
      not_le] at hd
    refine ⟨by omega, fun _ => ?_, ?_, fun maxVal' hv => ?_⟩
    · exact (ih h).2.1 (by omega)
    · rw [atoiFastLoop, if_neg (by omega), show (c.toNat + 256 - 48) % 256 = c.toNat - 48 by omega]
      exact hfast
    · rw [parseUintLoop, if_neg (by simp [isDigitByte]; omega), if_neg hcut, if_neg (by omega)]
      exact hmono maxVal' hv

/-- On every string `ParseUint(s, 10, 8)` accepts, `Atoi` returns the same value: a
leading digit rules out the signs, and the slow path reads the digits again with the
64-bit bound. -/
theorem atoi_of_parseUint {s : List UInt8} {v : Nat} (h : parseUint s 8 = .ok v) :
    atoi s = .ok (v : Int) ∧ v ≤ 255 := by
  have hs : s ≠ [] := by rintro rfl; cases h
  have h8 : parseUintLoop 255 0 s = .ok v := by simpa [parseUint, hs] using h
  obtain ⟨-, hle, hfast, hmono⟩ := parseUintLoop_ok h8
  obtain ⟨c, cs, rfl⟩ := List.exists_cons_of_ne_nil hs
  have hc : isDigitByte c = true := by
    by_contra hc
    simp [parseUintLoop, hc] at h8
  have hc45 : c ≠ 45 := by rintro rfl; exact absurd hc (by decide)
  have hc43 : c ≠ 43 := by rintro rfl; exact absurd hc (by decide)
  have hv := hle (Nat.zero_le _)
  refine ⟨?_, hv⟩
  by_cases hlen : 0 < (c :: cs).length ∧ (c :: cs).length < 19
  · rw [atoi, if_pos hlen]
    simp [hc45, hc43, hfast]
  · rw [atoi, if_neg hlen]
    have h64 : parseUint (c :: cs) 0 = .ok v := by
      rw [parseUint, if_neg (List.cons_ne_nil c cs)]
      exact hmono _ (by simp; omega)
    simp [parseInt, hc45, hc43, h64]
    omega

/-- `VerifyTag`'s test passes only when `ParseUint` reads every element. -/
theorem verifyCipherText_ok {cipherText : List (List UInt8)} (h : verifyCipherText cipherText = .ok ()) :
    ∃ values, cipherText.mapM (fun s => parseUint s 8) = .ok values := by
  induction cipherText with
  | nil => exact ⟨[], rfl⟩
  | cons s ss ih =>
    simp only [verifyCipherText, List.forM] at h
    obtain ⟨u, hs, hss⟩ := except_bind_eq_ok h
    obtain ⟨values, hm⟩ := ih hss
    cases hp : parseUint s 8 with
    | error e => rw [hp] at hs; cases hs
    | ok v => exact ⟨v :: values, by rw [List.mapM_cons, hp, hm]; rfl⟩

/-- Where `ParseUint` reads every string, `Sign`'s loop appends each value as a byte. -/
theorem mapM_parseUint_spec {l : List (List UInt8)} {values : List Nat}
    (h : l.mapM (fun s => parseUint s 8) = .ok values) :
    values.length = l.length ∧ (∀ s ∈ l, ∃ v, parseUint s 8 = .ok v) ∧
      ∀ acc, l.foldl signByte acc = acc ++ values.map UInt8.ofNat := by
  induction l generalizing values with
  | nil => cases h; simp
  | cons s ss ih =>
    rw [List.mapM_cons] at h
    obtain ⟨v, hv, h⟩ := except_bind_eq_ok h
    obtain ⟨vs, hvs, h⟩ := except_bind_eq_ok h
    cases h
    obtain ⟨hlen, hmem, hfold⟩ := ih hvs
    obtain ⟨hatoi, hle⟩ := atoi_of_parseUint hv
    refine ⟨by simp [hlen], ?_, fun acc => ?_⟩
    · rintro s' (_ | ⟨_, hs'⟩)
      · exact ⟨v, hv⟩
      · exact hmem s' hs'
    · rw [List.foldl_cons, hfold, signByte, hatoi]
      dsimp only
      rw [if_neg (by omega), Int.toNat_ofNat, List.map_cons, List.append_assoc, List.singleton_append]

/-- On every ciphertext `VerifyTag`'s test admits, `Atoi` agrees with `ParseUint`
element by element, and `Sign` does not fail: it signs the bytes `ParseUint` read. -/
theorem sign_agrees_with_verifyTag (signDigest : List UInt8 → List UInt8)
    (ciphertext : List (List UInt8)) (h : verifyCipherText ciphertext = .ok ()) :
    ∃ values : List Nat, ciphertext.mapM (fun s => parseUint s 8) = .ok values ∧
      (∀ s ∈ ciphertext, ∃ v, parseUint s 8 = .ok v ∧ atoi s = .ok (v : Int) ∧ v ≤ 255) ∧
      TagSigningManager.sign signDigest ciphertext = .ok (signDigest (values.map UInt8.ofNat)) := by
  obtain ⟨values, hm⟩ := verifyCipherText_ok h
  obtain ⟨hlen, hmem, hfold⟩ := mapM_parseUint_spec hm
  refine ⟨values, hm, fun s hs => ?_, ?_⟩
  · obtain ⟨v, hv⟩ := hmem s hs
    exact ⟨v, hv, atoi_of_parseUint hv⟩
  · rw [TagSigningManager.sign, hfold, List.nil_append, if_neg (by simp [hlen])]

/-- A short numeral and a zero-padded one, long enough for `Atoi`'s slow path. -/
def paddedCiphertext : List (List UInt8) := [[50, 51], List.replicate 19 48 ++ [50, 53, 53]]

theorem sign_agrees_with_verifyTag_padded :
    verifyCipherText paddedCiphertext = .ok () ∧
    ∃ values : List Nat, paddedCiphertext.mapM (fun s => parseUint s 8) = .ok values ∧
      (∀ s ∈ paddedCiphertext, ∃ v, parseUint s 8 = .ok v ∧ atoi s = .ok (v : Int) ∧ v ≤ 255) ∧
      TagSigningManager.sign id paddedCiphertext = .ok (id (values.map UInt8.ofNat)) :=
  ⟨rfl, sign_agrees_with_verifyTag id paddedCiphertext rfl⟩

end TlsNotary
