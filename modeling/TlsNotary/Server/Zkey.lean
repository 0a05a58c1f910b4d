import TlsNotary.Session.Signing
import TlsNotary.Server.Transfer
/-!
# The zkey directory: `NewZkeyHandler`, `GetKeys` and `GetSupportedBlockSizes`

At start-up `zkey.NewZkeyHandler("zkey-content")` lists the directory, counts for every
number `n` the files named `n.zkey` or `n.json` (names matching
`^[1-9]{1}[0-9]*\.(zkey|json)$`, the stem read by `strconv.Atoi`), and for each number
counted twice reads both files into two maps, skipping a pair when a read fails. The
comment in the source says why two means both files: a name that matches has no sign
and no leading zero, so the only names `Atoi` reads as `n` are the ones `%d` writes for
`n`. `GetKeys` answers `/zkey?size=s` from the maps, in 8192-byte chunks when the writer
flushes; `GetSupportedBlockSizes` lists the keys of the first map.

Go strings are their bytes. The directory listing, the file reads, the JSON encoder and
the order `range` visits a map in are parameters; timestamps and headers are left out.
-/
namespace TlsNotary

/-- `fmt`'s digit loop for `u`, writing the digits right to left in front of `buf`. -/
def fmtDigits (u : Nat) (buf : List UInt8) : List UInt8 :=
  if 10 ≤ u then fmtDigits (u / 10) (UInt8.ofNat (48 + u % 10) :: buf) else UInt8.ofNat (48 + u) :: buf
termination_by u
decreasing_by omega

/-- `fmt.Sprintf("%d", n)` for a Go `int`. -/
def formatInt (n : Int) : List UInt8 :=
  if n < 0 then 45 :: fmtDigits n.natAbs [] else fmtDigits n.toNat []

/-- The value of a string of decimal digits after `acc`, as `Atoi`'s loops accumulate it. -/
def digitsValue (acc : Nat) (s : List UInt8) : Nat := s.foldl (fun n c => n * 10 + (c.toNat - 48)) acc

theorem digitsValue_cons (acc : Nat) (c : UInt8) (s : List UInt8) :
    digitsValue acc (c :: s) = digitsValue (acc * 10 + (c.toNat - 48)) s := rfl

theorem digitsValue_append (acc : Nat) (s t : List UInt8) :
    digitsValue acc (s ++ t) = digitsValue (digitsValue acc s) t := List.foldl_append _ _ _ _

theorem le_digitsValue (acc : Nat) (s : List UInt8) : acc * 10 ^ s.length ≤ digitsValue acc s := by
  induction s generalizing acc with
  | nil => simp [digitsValue]
  | cons c s ih =>
    rw [digitsValue_cons, List.length_cons, pow_succ', ← Nat.mul_assoc]
    exact le_trans (Nat.mul_le_mul_right _ (Nat.le_add_right _ _)) (ih _)

theorem one_le_digitsValue {c : UInt8} (hc : 49 ≤ c.toNat) (rest : List UInt8) :
    1 ≤ digitsValue 0 (c :: rest) := by
  rw [digitsValue_cons, Nat.zero_mul, Nat.zero_add]
  exact le_trans (Nat.mul_pos (by omega) (Nat.pow_pos (by omega))) (le_digitsValue _ rest)

theorem isDigitByte_bounds {c : UInt8} (h : isDigitByte c) : 48 ≤ c.toNat ∧ c.toNat ≤ 57 := by
  simpa [isDigitByte] using h

theorem digitsValue_lt {s : List UInt8} (hd : ∀ c ∈ s, isDigitByte c) (acc : Nat) :
    digitsValue acc s < (acc + 1) * 10 ^ s.length := by
  induction s generalizing acc with
  | nil => simp [digitsValue]
  | cons c s ih =>
    have hc := isDigitByte_bounds (hd c (List.mem_cons_self c s))
    rw [digitsValue_cons, List.length_cons, pow_succ']
    calc digitsValue (acc * 10 + (c.toNat - 48)) s
        < (acc * 10 + (c.toNat - 48) + 1) * 10 ^ s.length :=
          ih (fun d hd' => hd d (List.mem_cons_of_mem c hd')) _
      _ ≤ (acc + 1) * (10 * 10 ^ s.length) := by
          rw [← Nat.mul_assoc]; exact Nat.mul_le_mul_right _ (by omega)

theorem atoiFastLoop_digits {s : List UInt8} (hd : ∀ c ∈ s, isDigitByte c) (acc : Nat) :
    atoiFastLoop acc s = .ok (digitsValue acc s) := by
  induction s generalizing acc with
  | nil => rfl
  | cons c s ih =>
    have hc := isDigitByte_bounds (hd c (List.mem_cons_self c s))
    rw [atoiFastLoop, if_neg (by omega), show (c.toNat + 256 - 48) % 256 = c.toNat - 48 by omega,
      ih (fun d hd' => hd d (List.mem_cons_of_mem c hd'))]
    rfl

/-- `ParseUint`'s loop on digits reads the value, or fails with a range error past `maxVal`. -/
theorem parseUintLoop_digits {s : List UInt8} (hd : ∀ c ∈ s, isDigitByte c) {maxVal : Nat}
    (hmax : maxVal ≤ 2 ^ 64 - 1) {acc : Nat} (hacc : acc ≤ maxVal) :
    parseUintLoop maxVal acc s =
      if digitsValue acc s ≤ maxVal then .ok (digitsValue acc s) else .error errRange := by
  induction s generalizing acc with
  | nil => simp [parseUintLoop, digitsValue, hacc]
  | cons c s ih =>
    have hge : acc * 10 + (c.toNat - 48) ≤ digitsValue acc (c :: s) :=
      le_trans (Nat.le_mul_of_pos_right _ (Nat.one_le_pow _ _ (by omega)))
        (le_digitsValue (acc * 10 + (c.toNat - 48)) s)
    rw [parseUintLoop, hd c (List.mem_cons_self c s)]
    simp only [Bool.not_true, Bool.false_eq_true, if_false]
    by_cases h1 : acc ≥ (2 ^ 64 - 1) / 10 + 1
    · rw [if_pos h1, if_neg (by omega)]
    by_cases h2 : acc * 10 + (c.toNat - 48) > maxVal
    · rw [if_neg h1, if_pos h2, if_neg (by omega)]
    · rw [if_neg h1, if_neg h2, ih (fun d hd' => hd d (List.mem_cons_of_mem c hd')) (by omega),
        digitsValue_cons]

/-- On a string of digits `Atoi` reads the value, or fails with a range error past
`int64`: the fast path's 18 digits cannot pass it, `ParseInt`'s cutoff stops the rest. -/
theorem atoi_digits {s : List UInt8} (hs : s ≠ []) (hd : ∀ c ∈ s, isDigitByte c) :
    atoi s = if digitsValue 0 s < 2 ^ 63 then .ok (digitsValue 0 s : Int) else .error errRange := by
  obtain ⟨c, cs, rfl⟩ := List.exists_cons_of_ne_nil hs
  have hc := isDigitByte_bounds (hd c (List.mem_cons_self c cs))
  have hc45 : c ≠ 45 := fun h => by rw [h] at hc; exact absurd hc (by decide)
  have hc43 : c ≠ 43 := fun h => by rw [h] at hc; exact absurd hc (by decide)
  have hlt := digitsValue_lt hd 0
  by_cases hlen : 0 < (c :: cs).length ∧ (c :: cs).length < 19
  · have h18 : 10 ^ (c :: cs).length ≤ 10 ^ 18 := Nat.pow_le_pow_right (by omega) (by omega)
    have hv : digitsValue 0 (c :: cs) < 2 ^ 63 := by omega
    rw [atoi, if_pos hlen, if_pos hv]
    simp [hc45, hc43, atoiFastLoop_digits hd]
  · rw [atoi, if_neg hlen]
    simp only [parseInt, parseUint, List.cons_ne_nil, if_false, List.head?_cons, Option.some.injEq,
      hc45, hc43, false_or, Nat.add_eq_zero, if_true]
    rw [if_neg (by decide), parseUintLoop_digits hd le_rfl (Nat.zero_le _)]
    by_cases h64 : digitsValue 0 (c :: cs) ≤ 2 ^ 64 - 1
    · rw [if_pos h64]
      simp only [decide_False, Bool.not_false, true_and, false_and, if_false, ge_iff_le,
        show 64 - 1 = 63 from rfl]
      split_ifs <;> first | rfl | omega
    · rw [if_neg h64, if_neg (by omega)]

theorem fmtDigits_eq_append (u : Nat) (buf : List UInt8) : fmtDigits u buf = fmtDigits u [] ++ buf := by
  induction u using Nat.strong_induction_on generalizing buf with
  | _ u ih =>
    rw [fmtDigits]
    conv_rhs => rw [fmtDigits]
    split
    · rw [ih _ (by omega), ih (u / 10) (by omega) [_], List.append_assoc, List.singleton_append]
    · rfl

theorem fmtDigits_of_ge {u : Nat} (h : 10 ≤ u) :
    fmtDigits u [] = fmtDigits (u / 10) [] ++ [UInt8.ofNat (48 + u % 10)] := by
  rw [fmtDigits, if_pos h, fmtDigits_eq_append]

theorem fmtDigits_of_lt {u : Nat} (h : u < 10) : fmtDigits u [] = [UInt8.ofNat (48 + u)] := by
  rw [fmtDigits, if_neg (by omega)]

theorem isDigitByte_ofNat {d : Nat} (h : d < 10) : isDigitByte (UInt8.ofNat (48 + d)) := by
  simp only [isDigitByte, toNat_ofNat_uint8, Bool.and_eq_true, decide_eq_true_eq]
  omega

theorem ofNat_digit {c : UInt8} (h : 48 ≤ c.toNat) : UInt8.ofNat (48 + (c.toNat - 48)) = c :=
  UInt8.toNat.inj (by rw [toNat_ofNat_uint8]; have := toNat_uint8_lt c; omega)

/-- What `%d` writes for `u > 0`: a digit from 1 to 9, then digits, reading back as `u`. -/
theorem fmtDigits_spec {u : Nat} (hu : 0 < u) :
    ∃ c rest, fmtDigits u [] = c :: rest ∧ 49 ≤ c.toNat ∧ c.toNat ≤ 57 ∧
      (∀ d ∈ rest, isDigitByte d) ∧ digitsValue 0 (c :: rest) = u := by
  induction u using Nat.strong_induction_on with
  | _ u ih =>
    by_cases h : u < 10
    · refine ⟨_, [], fmtDigits_of_lt h, ?_, ?_, by simp, ?_⟩ <;>
        simp only [digitsValue, List.foldl_cons, List.foldl_nil, toNat_ofNat_uint8] <;> omega
    · obtain ⟨c, rest, hf, hc1, hc2, hd, hv⟩ := ih (u / 10) (by omega) (by omega)
      refine ⟨c, rest ++ [UInt8.ofNat (48 + u % 10)], ?_, hc1, hc2, ?_, ?_⟩
      · rw [fmtDigits_of_ge (by omega), hf, List.cons_append]
      · simp only [List.mem_append, List.mem_singleton]
        rintro d (hd' | rfl)
        exacts [hd d hd', isDigitByte_ofNat (Nat.mod_lt u (by omega))]
      · rw [← List.cons_append, digitsValue_append, hv, digitsValue, List.foldl_cons, List.foldl_nil,
          toNat_ofNat_uint8]
        omega

theorem isDigitByte_cons {c : UInt8} {rest : List UInt8} (hc : 49 ≤ c.toNat ∧ c.toNat ≤ 57)
    (hd : ∀ d ∈ rest, isDigitByte d) : ∀ d ∈ c :: rest, isDigitByte d := fun d hd' => by
  rcases List.mem_cons.1 hd' with rfl | h
  · simp only [isDigitByte, Bool.and_eq_true, decide_eq_true_eq]; omega
  · exact hd d h

/-- A name's stem `Atoi` reads is what `%d` writes for its value: a string with no
leading zero is the decimal of its value. -/
theorem fmtDigits_digitsValue {c : UInt8} (hc : 49 ≤ c.toNat ∧ c.toNat ≤ 57) {rest : List UInt8}
    (hd : ∀ d ∈ rest, isDigitByte d) : fmtDigits (digitsValue 0 (c :: rest)) [] = c :: rest := by
  induction rest using List.reverseRecOn with
  | nil =>
    rw [show digitsValue 0 [c] = c.toNat - 48 from Nat.zero_add _, fmtDigits_of_lt (by omega),
      ofNat_digit (by omega)]
  | append_singleton r d ih =>
    have hdd := isDigitByte_bounds (hd d (by simp))
    have hpos := one_le_digitsValue hc.1 r
    rw [← List.cons_append, digitsValue_append, show digitsValue (digitsValue 0 (c :: r)) [d] =
      digitsValue 0 (c :: r) * 10 + (d.toNat - 48) from rfl, fmtDigits_of_ge (by omega),
      show (digitsValue 0 (c :: r) * 10 + (d.toNat - 48)) / 10 = digitsValue 0 (c :: r) by omega,
      show (digitsValue 0 (c :: r) * 10 + (d.toNat - 48)) % 10 = d.toNat - 48 by omega,
      ih fun e he => hd e (by simp [he]), ofNat_digit hdd.1]

theorem formatInt_of_pos {n : Int} (hn : 0 < n) : formatInt n = fmtDigits n.toNat [] := by
  rw [formatInt, if_neg (by omega)]

/-- `".zkey"`. -/
def zkeyExt : List UInt8 := [46, 122, 107, 101, 121]

/-- `".json"`. -/
def jsonExt : List UInt8 := [46, 106, 115, 111, 110]

/-- `keysRegEx.MatchString(name)` for `^[1-9]{1}[0-9]*\.(zkey|json)$`: a digit from 1 to
9, more digits, then `.zkey` or `.json` and nothing after. -/
def keysRegEx : List UInt8 → Bool
  | [] => false
  | c :: rest => 49 ≤ c.toNat && c.toNat ≤ 57 &&
      (rest.dropWhile isDigitByte == zkeyExt || rest.dropWhile isDigitByte == jsonExt)

/-- `filepath.Ext(path)`: the suffix from the last `.` after the last `/`, or nothing. -/
def filepathExt (path : List UInt8) : List UInt8 :=
  let tail := path.reverse.takeWhile fun c => c != 46 && c != 47
  if (path.reverse.drop tail.length).head? = some 46 then 46 :: tail.reverse else []

/-- `strings.TrimSuffix(s, suffix)`. -/
def trimSuffix (s suffix : List UInt8) : List UInt8 :=
  if suffix.isSuffixOf s then s.take (s.length - suffix.length) else s

/-- A name of the directory that counts: a canonical decimal and an extension. -/
theorem keysRegEx_iff (name : List UInt8) :
    keysRegEx name ↔ ∃ c digits ext, name = c :: digits ++ ext ∧ 49 ≤ c.toNat ∧ c.toNat ≤ 57 ∧
      (∀ d ∈ digits, isDigitByte d) ∧ (ext = zkeyExt ∨ ext = jsonExt) := by
  constructor
  · intro h
    match name, h with
    | c :: rest, h =>
      simp only [keysRegEx, Bool.and_eq_true, decide_eq_true_eq, Bool.or_eq_true, beq_iff_eq] at h
      exact ⟨c, rest.takeWhile isDigitByte, rest.dropWhile isDigitByte,
        by rw [List.cons_append, List.takeWhile_append_dropWhile], h.1.1, h.1.2,
        fun d hd => List.mem_takeWhile_imp hd, h.2⟩
  · rintro ⟨c, digits, ext, rfl, hc1, hc2, hd, hext⟩
    have hdrop : (digits ++ ext).dropWhile isDigitByte = ext := by
      rw [List.dropWhile_append_of_pos hd]
      rcases hext with rfl | rfl <;> rfl
    simp only [keysRegEx, List.cons_append, hdrop, Bool.and_eq_true, decide_eq_true_eq,
      Bool.or_eq_true, beq_iff_eq]
    exact ⟨⟨hc1, hc2⟩, hext⟩

theorem trimSuffix_filepathExt {stem ext : List UInt8} (hext : ext = zkeyExt ∨ ext = jsonExt) :
    trimSuffix (stem ++ ext) (filepathExt (stem ++ ext)) = stem := by
  have hExt : filepathExt (stem ++ ext) = ext := by
    rcases hext with rfl | rfl <;> simp only [filepathExt, List.reverse_append] <;> rfl
  rw [hExt, trimSuffix, if_pos (List.isSuffixOf_iff_suffix.2 (List.suffix_append stem ext)),
    List.length_append, Nat.add_sub_cancel, List.take_left]

/-- An entry of `os.ReadDir`: its name and whether it is a directory. -/
structure DirEntry where
  name : List UInt8
  isDir : Bool
deriving DecidableEq

/-- The key an entry counts for in `NewZkeyHandler`'s first loop: a file whose name
matches `keysRegEx` and whose stem `Atoi` reads; the others are skipped. -/
def entryKey (entry : DirEntry) : Option Int :=
  if entry.isDir then none
  else if keysRegEx entry.name then
    match atoi (trimSuffix entry.name (filepathExt entry.name)) with
    | .ok keyName => some keyName
    | .error _ => none
  else none

/-- `NewZkeyHandler`'s `keyCounter`: `keyCounter[keyName] += 1` for each entry that counts;
a key that is absent reads 0. -/
def countKeys (entries : List DirEntry) : Int → Nat :=
  entries.foldl (fun keyCounter entry => match entryKey entry with
    | some keyName => Function.update keyCounter keyName (keyCounter keyName + 1)
    | none => keyCounter) fun _ => 0

/-- The two reads of `NewZkeyHandler`'s second loop for `keyName`: `%d.zkey`, then
`%d.json`, giving up at the first that fails. -/
def readKeyPair (readFile : List UInt8 → Option (List UInt8)) (keyName : Int) :
    Option (List UInt8 × List UInt8) := do
  let pkey ← readFile (formatInt keyName ++ zkeyExt)
  let vkey ← readFile (formatInt keyName ++ jsonExt)
  pure (pkey, vkey)

/-- `ZkeyHttpHandler`'s two maps; an absent key reads `none`. -/
structure ZkeyHttpHandler where
  provingKeys : Int → Option (List UInt8)
  verifyingKeys : Int → Option (List UInt8)

/-- One pass of `NewZkeyHandler`'s second loop: a key counted twice gets both files read,
and both maps are set when both reads succeed. -/
def loadKeyPair (readFile : List UInt8 → Option (List UInt8)) (keyCounter : Int → Nat)
    (handler : ZkeyHttpHandler) (keyName : Int) : ZkeyHttpHandler :=
  if keyCounter keyName ≠ 2 then handler
  else match readKeyPair readFile keyName with
    | some (pkey, vkey) => ⟨Function.update handler.provingKeys keyName (some pkey),
        Function.update handler.verifyingKeys keyName (some vkey)⟩
    | none => handler

/-- `zkey.NewZkeyHandler(zkeyDir)`: `readDir` is what `os.ReadDir` returns, `readFile`
reads a file of the directory, and `order` is the order `range` visits the counter in. -/
def newZkeyHandler (readDir : Except String (List DirEntry))
    (readFile : List UInt8 → Option (List UInt8)) (order : List Int) :
    Except String ZkeyHttpHandler := do
  let entries ← readDir
  pure (order.foldl (loadKeyPair readFile (countKeys entries)) ⟨fun _ => none, fun _ => none⟩)

/-- Whether the directory has a plain file of this name. -/
def hasFile (entries : List DirEntry) (name : List UInt8) : Bool :=
  entries.any fun e => e.name == name && !e.isDir

/-- What the directory offers for the size `n`, from the source's comment: the contents
of `n.zkey` and `n.json` when both are plain files and both reads succeed, for the
positive sizes a Go `int` holds. -/
def servedKeys (entries : List DirEntry) (readFile : List UInt8 → Option (List UInt8)) (n : Int) :
    Option (List UInt8 × List UInt8) :=
  if 0 < n ∧ n < 2 ^ 63 ∧ hasFile entries (formatInt n ++ zkeyExt) ∧
      hasFile entries (formatInt n ++ jsonExt) then readKeyPair readFile n
  else none

/-- An entry counts for `n` exactly when it is the file `n.zkey` or `n.json` of a
positive `int64` `n`. -/
theorem entryKey_eq_some (e : DirEntry) (n : Int) :
    entryKey e = some n ↔ e.isDir = false ∧ 0 < n ∧ n < 2 ^ 63 ∧
      (e.name = formatInt n ++ zkeyExt ∨ e.name = formatInt n ++ jsonExt) := by
  constructor
  · intro h
    unfold entryKey at h
    split_ifs at h with hdir hre
    obtain ⟨c, digits, ext, hname, hc1, hc2, hd, hext⟩ := (keysRegEx_iff _).1 hre
    rw [hname, trimSuffix_filepathExt hext,
      atoi_digits (List.cons_ne_nil c digits) (isDigitByte_cons ⟨hc1, hc2⟩ hd)] at h
    split_ifs at h with hv
    cases h
    have hpos := one_le_digitsValue hc1 digits
    refine ⟨by simpa using hdir, by omega, by omega, ?_⟩
    rw [formatInt_of_pos (by omega), Int.toNat_natCast, fmtDigits_digitsValue ⟨hc1, hc2⟩ hd, hname]
    rcases hext with rfl | rfl <;> simp
  · rintro ⟨hdir, hpos, hlt, hname⟩
    obtain ⟨c, rest, hf, hc1, hc2, hd, hv⟩ := fmtDigits_spec (show 0 < n.toNat by omega)
    have hext : ∃ ext, e.name = (c :: rest) ++ ext ∧ (ext = zkeyExt ∨ ext = jsonExt) := by
      rw [formatInt_of_pos hpos, hf] at hname
      rcases hname with h | h
      exacts [⟨_, h, .inl rfl⟩, ⟨_, h, .inr rfl⟩]
    obtain ⟨ext, hname', hext⟩ := hext
    have hre : keysRegEx e.name := (keysRegEx_iff _).2 ⟨c, rest, ext, hname', hc1, hc2, hd, hext⟩
    simp only [entryKey, hdir, hre, if_true, Bool.false_eq_true, if_false]
    rw [hname', trimSuffix_filepathExt hext,
      atoi_digits (List.cons_ne_nil c rest) (isDigitByte_cons ⟨hc1, hc2⟩ hd), hv, if_pos (by omega)]
    simp only [Option.some.injEq]
    omega

theorem countKeys_apply (entries : List DirEntry) (n : Int) :
    countKeys entries n = (entries.map entryKey).count (some n) := by
  suffices h : ∀ c₀ : Int → Nat, (entries.foldl (fun keyCounter entry => match entryKey entry with
      | some keyName => Function.update keyCounter keyName (keyCounter keyName + 1)
      | none => keyCounter) c₀) n = c₀ n + (entries.map entryKey).count (some n) from
    (h _).trans (Nat.zero_add _)
  induction entries with
  | nil => simp
  | cons e es ih =>
    intro c₀
    rw [List.foldl_cons, ih, List.map_cons, List.count_cons]
    cases hk : entryKey e with
    | none => simp
    | some k =>
      by_cases hkn : k = n
      · subst hkn; simp [Nat.add_assoc, Nat.add_comm 1]
      · simp [Function.update_noteq (Ne.symm hkn), hkn]

theorem hasFile_cons (e : DirEntry) (es : List DirEntry) (name : List UInt8) :
    hasFile (e :: es) name = (e.name == name && !e.isDir || hasFile es name) := by
  simp [hasFile, List.any_cons]

theorem hasFile_of_not_mem {es : List DirEntry} {name : List UInt8}
    (h : name ∉ es.map DirEntry.name) : hasFile es name = false := by
  simp only [hasFile, List.any_eq_false, Bool.and_eq_true, beq_iff_eq, not_and]
  exact fun e he hname => absurd (List.mem_map_of_mem _ he) (hname ▸ h)

theorem zkeyName_ne_jsonName (n : Int) : formatInt n ++ zkeyExt ≠ formatInt n ++ jsonExt :=
  fun h => absurd (List.append_cancel_left h) (by decide)

/-- In a directory of distinct names, a number is counted once for each of its two
files that is there. -/
theorem count_entryKey {entries : List DirEntry} (hnames : (entries.map DirEntry.name).Nodup)
    (n : Int) : (entries.map entryKey).count (some n) =
      if 0 < n ∧ n < 2 ^ 63 then (hasFile entries (formatInt n ++ zkeyExt)).toNat +
        (hasFile entries (formatInt n ++ jsonExt)).toNat else 0 := by
  induction entries with
  | nil => simp [hasFile]
  | cons e es ih =>
    rw [List.map_cons, List.nodup_cons] at hnames
    rw [List.map_cons, List.count_cons, ih hnames.2, hasFile_cons, hasFile_cons]
    by_cases hk : entryKey e = some n
    · obtain ⟨hdir, hpos, hlt, hname⟩ := (entryKey_eq_some e n).1 hk
      have hne := zkeyName_ne_jsonName n
      have hb : (formatInt n ++ zkeyExt == formatInt n ++ jsonExt) = false := beq_eq_false_iff_ne.2 hne
      have hb' : (formatInt n ++ jsonExt == formatInt n ++ zkeyExt) = false :=
        beq_eq_false_iff_ne.2 (Ne.symm hne)
      simp only [hk, beq_self_eq_true, if_true, if_pos (And.intro hpos hlt), hdir, Bool.not_false,
        Bool.and_true]
      rcases hname with hname | hname
      · have h1 : hasFile es (formatInt n ++ zkeyExt) = false := hname ▸ hasFile_of_not_mem hnames.1
        simp [hname, h1, hb]
        omega
      · have h1 : hasFile es (formatInt n ++ jsonExt) = false := hname ▸ hasFile_of_not_mem hnames.1
        simp [hname, h1, hb']
    · have hk' : (entryKey e == some n) = false := by simpa using hk
      rw [hk', if_neg Bool.false_ne_true, Nat.add_zero]
      split_ifs with hvalid
      · have hfile : ∀ ext, (ext = zkeyExt ∨ ext = jsonExt) →
            (e.name == formatInt n ++ ext && !e.isDir) = false := fun ext hext => by
          rw [Bool.eq_false_iff]
          intro h
          simp only [Bool.and_eq_true, beq_iff_eq, Bool.not_eq_true'] at h
          rcases hext with rfl | rfl
          exacts [hk ((entryKey_eq_some e n).2 ⟨h.2, hvalid.1, hvalid.2, .inl h.1⟩),
            hk ((entryKey_eq_some e n).2 ⟨h.2, hvalid.1, hvalid.2, .inr h.1⟩)]
        rw [hfile _ (.inl rfl), hfile _ (.inr rfl), Bool.false_or, Bool.false_or]
      · rfl

/-- The source's comment: a number is counted twice exactly when both of its files are
plain files of the directory. -/
theorem countKeys_eq_two {entries : List DirEntry} (hnames : (entries.map DirEntry.name).Nodup)
    (n : Int) : countKeys entries n = 2 ↔ 0 < n ∧ n < 2 ^ 63 ∧
      hasFile entries (formatInt n ++ zkeyExt) ∧ hasFile entries (formatInt n ++ jsonExt) := by
  rw [countKeys_apply, count_entryKey hnames]
  split_ifs with h
  · rw [and_iff_right h.1, and_iff_right h.2]
    cases hasFile entries (formatInt n ++ zkeyExt) <;> cases hasFile entries (formatInt n ++ jsonExt) <;>
      decide
  · simp only [OfNat.zero_ne_ofNat, false_iff]
    exact fun h' => h ⟨h'.1, h'.2.1⟩

theorem loadKeyPair_apply (readFile : List UInt8 → Option (List UInt8)) (keyCounter : Int → Nat)
    (h : ZkeyHttpHandler) (k n : Int) :
    (loadKeyPair readFile keyCounter h k).provingKeys n =
      (if n = k ∧ keyCounter k = 2 then (readKeyPair readFile k).elim (h.provingKeys n) fun p => some p.1
        else h.provingKeys n) ∧
    (loadKeyPair readFile keyCounter h k).verifyingKeys n =
      (if n = k ∧ keyCounter k = 2 then (readKeyPair readFile k).elim (h.verifyingKeys n) fun p => some p.2
        else h.verifyingKeys n) := by
  unfold loadKeyPair
  by_cases hc : keyCounter k = 2
  · cases hr : readKeyPair readFile k with
    | none => simp [hc, hr]
    | some p => by_cases hn : n = k <;> simp [hc, hr, hn, Function.update_noteq]
  · simp [hc]

/-- The second loop in any order: a key counted twice holds what its reads give, every
other key what it held before. -/
theorem foldl_loadKeyPair (readFile : List UInt8 → Option (List UInt8)) (keyCounter : Int → Nat)
    (order : List Int) (h : ZkeyHttpHandler) (n : Int) :
    (order.foldl (loadKeyPair readFile keyCounter) h).provingKeys n =
      (if n ∈ order ∧ keyCounter n = 2 then (readKeyPair readFile n).elim (h.provingKeys n) fun p => some p.1
        else h.provingKeys n) ∧
    (order.foldl (loadKeyPair readFile keyCounter) h).verifyingKeys n =
      (if n ∈ order ∧ keyCounter n = 2 then (readKeyPair readFile n).elim (h.verifyingKeys n) fun p => some p.2
        else h.verifyingKeys n) := by
  induction order generalizing h with
  | nil => simp
  | cons k ks ih =>
    obtain ⟨h1, h2⟩ := ih (loadKeyPair readFile keyCounter h k)
    obtain ⟨l1, l2⟩ := loadKeyPair_apply readFile keyCounter h k n
    rw [List.foldl_cons, h1, h2, l1, l2]
    by_cases hn : n = k
    · subst hn
      by_cases hc : keyCounter n = 2 <;> cases readKeyPair readFile n <;> simp [hc]
    · simp [hn]

/-- `NewZkeyHandler` on a directory of distinct names, in every order that visits the
counter's keys: both maps hold the pair the directory offers for each size, so a
proving key never comes without its verifying key. -/
theorem newZkeyHandler_maps {entries : List DirEntry} (hnames : (entries.map DirEntry.name).Nodup)
    (readFile : List UInt8 → Option (List UInt8)) {order : List Int}
    (horder : ∀ k, 0 < countKeys entries k → k ∈ order) :
    ∃ h, newZkeyHandler (.ok entries) readFile order = .ok h ∧ ∀ n,
      h.provingKeys n = (servedKeys entries readFile n).map Prod.fst ∧
      h.verifyingKeys n = (servedKeys entries readFile n).map Prod.snd := by
  refine ⟨_, rfl, fun n => ?_⟩
  obtain ⟨h1, h2⟩ := foldl_loadKeyPair readFile (countKeys entries) order ⟨fun _ => none, fun _ => none⟩ n
  have hiff : (n ∈ order ∧ countKeys entries n = 2) ↔ (0 < n ∧ n < 2 ^ 63 ∧
      hasFile entries (formatInt n ++ zkeyExt) ∧ hasFile entries (formatInt n ++ jsonExt)) :=
    ⟨fun h => (countKeys_eq_two hnames n).1 h.2, fun h =>
      ⟨horder n (by rw [(countKeys_eq_two hnames n).2 h]; omega), (countKeys_eq_two hnames n).2 h⟩⟩
  rw [h1, h2, servedKeys]
  by_cases hc : 0 < n ∧ n < 2 ^ 63 ∧ hasFile entries (formatInt n ++ zkeyExt) ∧
      hasFile entries (formatInt n ++ jsonExt)
  · rw [if_pos (hiff.2 hc), if_pos (hiff.2 hc), if_pos hc]
    cases readKeyPair readFile n <;> exact ⟨rfl, rfl⟩
  · rw [if_neg (mt hiff.1 hc), if_neg (mt hiff.1 hc), if_neg hc]
    exact ⟨rfl, rfl⟩

theorem atoi_formatInt {n : Int} (hpos : 0 < n) (hlt : n < 2 ^ 63) : atoi (formatInt n) = .ok n := by
  obtain ⟨c, rest, hf, hc1, hc2, hd, hv⟩ := fmtDigits_spec (show 0 < n.toNat by omega)
  rw [formatInt_of_pos hpos, hf, atoi_digits (List.cons_ne_nil c rest) (isDigitByte_cons ⟨hc1, hc2⟩ hd),
    hv, if_pos (by omega)]
  congr 1
  omega

/-- `getKeysResponse` as `json.Marshal` reads it; `omitempty` drops the empty fields. -/
structure GetKeysResponse where
  pk : List UInt8
  vk : List UInt8
  size : Int
  error : String

/-- What a handler sends: its status code and the bytes of each `Write`. -/
structure Reply where
  status : Nat
  writes : List (List UInt8)

/-- The body of both of `GetKeys`'s not-found answers. -/
def noKeysResponse (desiredSize : Int) : GetKeysResponse :=
  ⟨[], [], 0, "no keys of size " ++ toString desiredSize⟩

/-- `(*ZkeyHttpHandler).GetKeys`: `method` is the request's, `sizeStr` is
`req.URL.Query().Get("size")`, `flusher` says whether the writer is an `http.Flusher`, and
`marshal` is `json.Marshal`, which cannot fail on this struct. -/
def getKeys (marshal : GetKeysResponse → List UInt8) (h : ZkeyHttpHandler) (method : String)
    (sizeStr : List UInt8) (flusher : Bool) : Except String Reply :=
  if method ≠ "GET" then .ok ⟨405, []⟩
  else if sizeStr = [] then .ok ⟨400, []⟩
  else match atoi sizeStr with
    | .error _ => .ok ⟨400, []⟩
    | .ok desiredSize =>
      match h.provingKeys desiredSize with
      | none => .ok ⟨404, [marshal (noKeysResponse desiredSize)]⟩
      | some pkey =>
        match h.verifyingKeys desiredSize with
        | none => .ok ⟨404, [marshal (noKeysResponse desiredSize)]⟩
        | some vkey =>
          let body := marshal ⟨pkey, vkey, desiredSize, ""⟩
          if !flusher then .ok ⟨200, [body]⟩
          else do
            let chunks ← splitBytesIntoChunks body 8192
            pure ⟨200, chunks⟩

/-- `(*ZkeyHttpHandler).GetSupportedBlockSizes`: `mapKeys` is the keys of `provingKeys`
in the order `range` visits them, and `marshal` is `json.Marshal`. -/
def getSupportedBlockSizes (marshal : List Int → List UInt8) (method : String) (mapKeys : List Int) :
    Reply :=
  if method ≠ "GET" then ⟨405, []⟩ else ⟨200, [marshal mapKeys]⟩

/-- `GetKeys` on maps that hold the pairs `served` gives: a size `n` that `Atoi` reads is
answered with its pair, whole or in chunks of at most 8192 bytes, or with 404. -/
theorem getKeys_of_maps {h : ZkeyHttpHandler} {served : Int → Option (List UInt8 × List UInt8)}
    (hmaps : ∀ n, h.provingKeys n = (served n).map Prod.fst ∧ h.verifyingKeys n = (served n).map Prod.snd)
    (marshal : GetKeysResponse → List UInt8) (flusher : Bool) {sizeStr : List UInt8} {n : Int}
    (hs : atoi sizeStr = .ok n) :
    (served n = none → getKeys marshal h "GET" sizeStr flusher = .ok ⟨404, [marshal (noKeysResponse n)]⟩) ∧
    ∀ pk vk, served n = some (pk, vk) →
      ∃ r, getKeys marshal h "GET" sizeStr flusher = .ok r ∧ r.status = 200 ∧
        r.writes.flatten = marshal ⟨pk, vk, n, ""⟩ ∧ (flusher → ∀ w ∈ r.writes, w.length ≤ 8192) := by
  have hne : sizeStr ≠ [] := by rintro rfl; simp [atoi, parseInt] at hs
  obtain ⟨hp, hv⟩ := hmaps n
  simp only [getKeys, ne_eq, not_true_eq_false, if_false, hne, hs, hp, hv]
  refine ⟨fun hnone => by rw [hnone]; rfl, fun pk vk hsome => ?_⟩
  rw [hsome]
  cases flusher
  · exact ⟨_, rfl, rfl, List.flatten_singleton _, by simp⟩
  · obtain ⟨chunks, hc, hflat, -, hlen⟩ :=
      splitBytesIntoChunks_rebuild (marshal ⟨pk, vk, n, ""⟩) (by decide : 0 < 8192)
    exact ⟨⟨200, chunks⟩, by simp [hc], rfl, hflat, fun _ w hw => (hlen w hw).2⟩

/-- `GetKeys` on the handler `NewZkeyHandler` builds from a directory of distinct names,
for every order `range` visits the counter in: a size `n` that `Atoi` reads is answered
with the contents of `n.zkey` and `n.json` when the directory offers them, written whole
or in chunks of at most 8192 bytes, and with 404 "no keys of size n" when it does not. -/
theorem getKeys_servedKeys {entries : List DirEntry} (hnames : (entries.map DirEntry.name).Nodup)
    {readFile : List UInt8 → Option (List UInt8)} {order : List Int}
    (horder : ∀ k, 0 < countKeys entries k → k ∈ order) {h : ZkeyHttpHandler}
    (hh : newZkeyHandler (.ok entries) readFile order = .ok h) (marshal : GetKeysResponse → List UInt8)
    (flusher : Bool) {sizeStr : List UInt8} {n : Int} (hs : atoi sizeStr = .ok n) :
    (servedKeys entries readFile n = none →
      getKeys marshal h "GET" sizeStr flusher = .ok ⟨404, [marshal (noKeysResponse n)]⟩) ∧
    ∀ pk vk, servedKeys entries readFile n = some (pk, vk) →
      ∃ r, getKeys marshal h "GET" sizeStr flusher = .ok r ∧ r.status = 200 ∧
        r.writes.flatten = marshal ⟨pk, vk, n, ""⟩ ∧ (flusher → ∀ w ∈ r.writes, w.length ≤ 8192) := by
  obtain ⟨h', hh', hmaps⟩ := newZkeyHandler_maps hnames readFile horder
  obtain rfl : h = h' := Except.ok.inj (hh.symm.trans hh')
  exact getKeys_of_maps hmaps marshal flusher hs

theorem mem_of_countKeys_pos {entries : List DirEntry} {k : Int} (hk : 0 < countKeys entries k) :
    ∃ e ∈ entries, entryKey e = some k := by
  rw [countKeys_apply, List.count_pos_iff, List.mem_map] at hk
  exact hk

/-- A directory with the pair for size 1, a file `01.zkey` that a leading zero keeps out,
and a subdirectory. -/
def sampleZkeyDir : List DirEntry :=
  [⟨49 :: zkeyExt, false⟩, ⟨49 :: jsonExt, false⟩, ⟨[48, 49] ++ zkeyExt, false⟩, ⟨[52], true⟩]

theorem countKeys_sampleZkeyDir (k : Int) (hk : 0 < countKeys sampleZkeyDir k) : k ∈ [1] := by
  obtain ⟨e, he, hek⟩ := mem_of_countKeys_pos hk
  simp only [sampleZkeyDir, List.mem_cons, List.mem_singleton, List.not_mem_nil, or_false] at he
  rcases he with rfl | rfl | rfl | rfl
  · rw [show entryKey ⟨49 :: zkeyExt, false⟩ = some 1 by decide, Option.some.injEq] at hek
    exact hek ▸ List.mem_singleton_self 1
  · rw [show entryKey ⟨49 :: jsonExt, false⟩ = some 1 by decide, Option.some.injEq] at hek
    exact hek ▸ List.mem_singleton_self 1
  · exact absurd hek (by rw [show entryKey ⟨[48, 49] ++ zkeyExt, false⟩ = none by decide]; simp)
  · exact absurd hek (by rw [show entryKey ⟨[52], true⟩ = none by decide]; simp)

/-- Size `"1"` on `sampleZkeyDir`, with files that hold their own names. -/
theorem getKeys_servedKeys_sampleZkeyDir :
    ∃ h, newZkeyHandler (.ok sampleZkeyDir) some [1] = .ok h ∧
      (servedKeys sampleZkeyDir some 1 = none →
        getKeys (fun r => r.pk ++ r.vk) h "GET" [49] true =
          .ok ⟨404, [(noKeysResponse 1).pk ++ (noKeysResponse 1).vk]⟩) ∧
      ∀ pk vk, servedKeys sampleZkeyDir some 1 = some (pk, vk) →
        ∃ r, getKeys (fun r => r.pk ++ r.vk) h "GET" [49] true = .ok r ∧ r.status = 200 ∧
          r.writes.flatten = pk ++ vk ∧ (true → ∀ w ∈ r.writes, w.length ≤ 8192) :=
  ⟨_, rfl, getKeys_servedKeys (by decide) countKeys_sampleZkeyDir rfl _ true rfl⟩

theorem servedKeys_valid {entries : List DirEntry} {readFile : List UInt8 → Option (List UInt8)}
    {n : Int} {p : List UInt8 × List UInt8} (h : servedKeys entries readFile n = some p) :
    0 < n ∧ n < 2 ^ 63 := by
  unfold servedKeys at h
  split_ifs at h with hc
  exact ⟨hc.1, hc.2.1⟩

/-- Every size `GetSupportedBlockSizes` lists, written in decimal as a client would, gets
its pair from `GetKeys`: the two endpoints agree on the handler `NewZkeyHandler` builds. -/
theorem getSupportedBlockSizes_served {entries : List DirEntry}
    (hnames : (entries.map DirEntry.name).Nodup) {readFile : List UInt8 → Option (List UInt8)}
    {order : List Int} (horder : ∀ k, 0 < countKeys entries k → k ∈ order) {h : ZkeyHttpHandler}
    (hh : newZkeyHandler (.ok entries) readFile order = .ok h) (marshalSizes : List Int → List UInt8)
    {mapKeys : List Int} (hkeys : ∀ k ∈ mapKeys, (h.provingKeys k).isSome)
    (marshal : GetKeysResponse → List UInt8) (flusher : Bool) :
    getSupportedBlockSizes marshalSizes "GET" mapKeys = ⟨200, [marshalSizes mapKeys]⟩ ∧
    ∀ k ∈ mapKeys, ∃ pk vk, servedKeys entries readFile k = some (pk, vk) ∧
      ∃ r, getKeys marshal h "GET" (formatInt k) flusher = .ok r ∧ r.status = 200 ∧
        r.writes.flatten = marshal ⟨pk, vk, k, ""⟩ := by
  obtain ⟨h', hh', hmaps⟩ := newZkeyHandler_maps hnames readFile horder
  obtain rfl : h = h' := Except.ok.inj (hh.symm.trans hh')
  refine ⟨if_neg (not_not.2 rfl), fun k hk => ?_⟩
  have hsome := hkeys k hk
  rw [(hmaps k).1, Option.isSome_map'] at hsome
  obtain ⟨⟨pk, vk⟩, hserved⟩ := Option.isSome_iff_exists.1 hsome
  have hvalid := servedKeys_valid hserved
  obtain ⟨r, hr, hstatus, hflat, -⟩ :=
    (getKeys_of_maps hmaps marshal flusher (atoi_formatInt hvalid.1 hvalid.2)).2 pk vk hserved
  exact ⟨pk, vk, hserved, r, hr, hstatus, hflat⟩

/-- `sampleZkeyDir` lists size 1, which `GetKeys` serves. -/
theorem getSupportedBlockSizes_served_sampleZkeyDir :
    ∃ h, newZkeyHandler (.ok sampleZkeyDir) some [1] = .ok h ∧
      getSupportedBlockSizes (List.map fun k => UInt8.ofNat k.toNat) "GET" [1] = ⟨200, [[1]]⟩ ∧
      ∀ k ∈ [(1 : Int)], ∃ pk vk, servedKeys sampleZkeyDir some k = some (pk, vk) ∧
        ∃ r, getKeys (fun r => r.pk ++ r.vk) h "GET" (formatInt k) false = .ok r ∧ r.status = 200 ∧
          r.writes.flatten = pk ++ vk := by
  refine ⟨_, rfl, @getSupportedBlockSizes_served sampleZkeyDir (by decide) some [1] countKeys_sampleZkeyDir _ rfl
    (List.map fun k => UInt8.ofNat k.toNat) [1] ?_ (fun r => r.pk ++ r.vk) false⟩
  simp only [List.mem_singleton, forall_eq]
  decide

end TlsNotary
