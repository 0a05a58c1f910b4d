import TlsNotary.Session.SequenceCheck
import Mathlib.Tactic.DeriveFintype

/-!
# Step handlers as field accesses

Every step handler of `session.Session` calls `sequenceCheck` first and then
reads and assigns session fields in a fixed order. Each handler is modelled by
that order: the list of its accesses after the gate, in source order, with the
cryptography between them left out. A panic after the gate ends the run like any other, so a run is a list of calls all of which
returned. The three tag-verification handlers are modelled with their guards,
since they alone decide on field contents.
-/
namespace TlsNotary

/-- The session fields whose assignment the handlers order. -/
inductive Field
  | clientKey | notaryKey | storageDir | truthTables | decodingTables
  | streamCounter | serverPubkey | notaryPMSShare
  | pmsOuterHashState | msOuterHashState
  | swkShare | cwkShare | sivShare | civShare
  | hisCommitment (c : Nat) | encodedOutput (c : Nat)
  | c6CheckValue | gctrBlockShare | ghashInputsBlob
  | tagMask | pohMask
  deriving DecidableEq, Repr

/-- One access of a handler. -/
inductive Op
  | read (f : Field)
  | write (f : Field)
  deriving DecidableEq, Repr

/-- `decryptFromClient`. -/
def decryptFromClient : List Op := [.read .clientKey]

/-- `encryptToClient`. -/
def encryptToClient : List Op := [.read .notaryKey]

/-- `common_step2(c, body)`: read the uploaded truth tables, store the client's
commitment, evaluate, and build `Concat(encodedOutput[c], dt[c])`. -/
def commonStep2 (c : Nat) : List Op :=
  [.read .storageDir, .write (.hisCommitment c), .write (.encodedOutput c),
    .read (.encodedOutput c), .read .decodingTables]

/-- `processDecommit(c, decommit)`. -/
def processDecommit (c : Nat) : List Op :=
  [.read (.encodedOutput c), .read .decodingTables, .read (.hisCommitment c)]

/-- The size of a piggy-backed decommitment, `len(encodedOutput[c]) + len(Concat(dt[c]...)) + 32`. -/
def decommitSize (c : Nat) : List Op := [.read (.encodedOutput c), .read .decodingTables]

/-- The sequence-checked handlers of `session.Session`, by their names in `methodLookup`. -/
inductive Command
  | init | getBlob | setBlob | getUploadProgress
  | step1 | step2 | step3 | step4
  | c1Step1 | c1Step2 | c1Step3 | c1Step4 | c1Step5
  | c2Step1 | c2Step2 | c2Step3 | c2Step4
  | c3Step1 | c3Step2 | c4Step1 | c4Step2 | c4Step3
  | c5Pre1 | c5Step1 | c5Step2 | c5Step3
  | c6Step1 | c6Pre2 | c6Step2 | c7Step1 | c7Step2
  | ghashStep1 | ghashStep2 | ghashStep3 | commitHash
  deriving DecidableEq, Repr, Fintype

/-- The number each handler passes to `sequenceCheck`. -/
def Command.seqNo : Command → Int
  | .init => 1 | .getBlob => 3 | .setBlob => 4 | .getUploadProgress => 100
  | .step1 => 5 | .step2 => 6 | .step3 => 7 | .step4 => 8
  | .c1Step1 => 9 | .c1Step2 => 10 | .c1Step3 => 11 | .c1Step4 => 12 | .c1Step5 => 13
  | .c2Step1 => 14 | .c2Step2 => 15 | .c2Step3 => 16 | .c2Step4 => 17
  | .c3Step1 => 18 | .c3Step2 => 19 | .c4Step1 => 20 | .c4Step2 => 21 | .c4Step3 => 22
  | .c5Pre1 => 23 | .c5Step1 => 24 | .c5Step2 => 25 | .c5Step3 => 26
  | .c6Step1 => 27 | .c6Pre2 => 28 | .c6Step2 => 29 | .c7Step1 => 30 | .c7Step2 => 31
  | .ghashStep1 => 32 | .ghashStep2 => 33 | .ghashStep3 => 34 | .commitHash => 35

/-- What each handler does after `sequenceCheck`, in source order. -/
def Command.ops : Command → List Op
  | .init => [.write .clientKey, .write .notaryKey, .write .storageDir, .write .truthTables,
      .write .decodingTables]
  | .getBlob => [.read .truthTables]
  | .setBlob => [.read .storageDir, .write .streamCounter]
  | .getUploadProgress => .read .streamCounter :: encryptToClient
  | .step1 => decryptFromClient ++ .write .serverPubkey :: encryptToClient
  | .step2 | .step3 => decryptFromClient ++ encryptToClient
  | .step4 => decryptFromClient ++ [.write .notaryPMSShare]
  | .c1Step1 => .read .notaryPMSShare :: encryptToClient
  | .c1Step2 => decryptFromClient ++ commonStep2 1 ++ encryptToClient
  | .c1Step3 => decryptFromClient ++ processDecommit 1 ++
      [.write .pmsOuterHashState, .read .pmsOuterHashState] ++ encryptToClient
  | .c1Step4 | .c1Step5 => decryptFromClient ++ .read .pmsOuterHashState :: encryptToClient
  | .c2Step1 => .read .pmsOuterHashState :: encryptToClient
  | .c2Step2 => decryptFromClient ++ commonStep2 2 ++ encryptToClient
  | .c2Step3 => decryptFromClient ++ processDecommit 2 ++
      [.write .msOuterHashState, .read .msOuterHashState] ++ encryptToClient
  | .c2Step4 => decryptFromClient ++ .read .msOuterHashState :: encryptToClient
  | .c3Step1 => [.read .msOuterHashState, .write .swkShare, .write .cwkShare, .write .sivShare,
      .write .civShare] ++ encryptToClient
  | .c3Step2 => decryptFromClient ++ commonStep2 3 ++ encryptToClient
  | .c4Step1 => decryptFromClient ++ decommitSize 3 ++ processDecommit 3 ++
      [.read .swkShare, .read .cwkShare, .read .sivShare, .read .civShare] ++ encryptToClient
  | .c4Step2 => decryptFromClient ++ commonStep2 4 ++ encryptToClient
  | .c4Step3 => decryptFromClient ++ processDecommit 4 ++ encryptToClient
  | .c5Pre1 => decryptFromClient ++ .read .msOuterHashState :: encryptToClient
  | .c5Step1 => [.read .msOuterHashState, .read .swkShare, .read .sivShare] ++ encryptToClient
  | .c5Step2 => decryptFromClient ++ commonStep2 5 ++ encryptToClient
  | .c5Step3 => decryptFromClient ++ processDecommit 5 ++ encryptToClient
  | .c6Step1 => [.read .cwkShare, .read .civShare] ++ encryptToClient
  | .c6Pre2 => decryptFromClient ++ commonStep2 6 ++ [.write .c6CheckValue]
  | .c6Step2 => decryptFromClient ++ [.write (.hisCommitment 6), .read .c6CheckValue] ++
      encryptToClient
  | .c7Step1 => decryptFromClient ++ decommitSize 6 ++ processDecommit 6 ++
      [.read .cwkShare, .read .civShare, .write .gctrBlockShare] ++ encryptToClient
  | .c7Step2 => decryptFromClient ++ commonStep2 7 ++ encryptToClient
  | .ghashStep1 => decryptFromClient ++ decommitSize 7 ++ processDecommit 7
  | .ghashStep2 => []
  | .ghashStep3 => decryptFromClient ++
      [.write .ghashInputsBlob, .read .ghashInputsBlob, .read .gctrBlockShare] ++ encryptToClient
  | .commitHash => decryptFromClient ++ [.read .ghashInputsBlob, .read .serverPubkey,
      .read .notaryPMSShare, .read .cwkShare, .read .civShare, .read .swkShare, .read .sivShare,
      .read .notaryPMSShare, .read .cwkShare, .read .civShare, .read .swkShare, .read .sivShare] ++
      encryptToClient

/-- What the handlers order in a session: the gate's record, the accesses so far,
and the two tag-verification masks (Go strings, `""` until set). -/
structure Session where
  msgsSeen : List Int
  trace : List Op
  tagMask : String
  pohMask : String

/-- A new `session.Session`, as `AddSession` allocates it. -/
def Session.new : Session := ⟨[], [], "", ""⟩

/-- The JSON body of `prepTagVerification`, decoded. -/
structure PrepRequest where
  clientIvShare : List UInt8
  recordIv : List UInt8

/-- One handler call, with what the rest of the server gave it. -/
inductive Call
  | command (c : Command)
  /-- `PrepTagVerification`: the decoded body (`none` if it does not parse) and the
  error `HandlePrepTagVerification` returns (`none` when it starts the MPC). -/
  | prepTagVerification (req : Option PrepRequest) (tvError : Option String)
  /-- `PollTagVerification`, with the masks `HandlePollTagVerificationStatus` returned. -/
  | pollTagVerification (tagMask pohMask : String)
  | tagVerification

section Calls

-- The length of the circuit-3 mask that `C3_step1` copies into `sivShare`; the
-- garbler that draws it is not part of the source.
variable (ivShareLen : Nat)

/-- `len(s.sivShare)`: zero for the nil slice until `C3_step1` assigns it. -/
def Session.sivShareLen (s : Session) : Nat :=
  if .write .sivShare ∈ s.trace then ivShareLen else 0

/-- `PrepTagVerification`: the error of its JSON reply (`none` for the empty reply),
and whether it passed `sivShare` and `swkShare` on to `HandlePrepTagVerification`. -/
def Session.prepTagVerification (s : Session) (req : Option PrepRequest) (tvError : Option String) :
    Option String × Bool :=
  match req with
  | none => (some "invalid body", false)
  | some r =>
    if r.clientIvShare.length ≠ s.sivShareLen ivShareLen then (some "invalid client IV share", false)
    else if r.recordIv.length ≠ 8 then (some "invalid record IV", false)
    else (tvError, true)

/-- The readiness check of `TagVerification`: both masks non-empty. -/
def Session.tagMasksReady (s : Session) : Bool :=
  s.tagMask.length ≠ 0 && s.pohMask.length ≠ 0

/-- The accesses a call makes past its guards. A guard that turns the call away
with an error reply (`PrepTagVerification`'s length checks, `TagVerification`'s
readiness check) makes none; `VerifyTag` and `Sign` touch no session field. -/
def Call.accesses (s : Session) : Call → List Op
  | .command c => c.ops
  | .prepTagVerification req tvError =>
    if (s.prepTagVerification ivShareLen req tvError).2 then [.read .sivShare, .read .swkShare]
    else []
  | .pollTagVerification _ _ => [.write .tagMask, .write .pohMask]
  | .tagVerification => if s.tagMasksReady then [.read .tagMask, .read .pohMask] else []

/-- The number a call passes to `sequenceCheck`, if it calls it. -/
def Call.seqNo? : Call → Option Int
  | .command c => some c.seqNo
  | .prepTagVerification _ _ | .pollTagVerification _ _ => none
  | .tagVerification => some 36

/-- One handler call; `.error` is a panic, which ends the run. -/
def Session.call (s : Session) : Call → Except String Session
  | .command c => (sequenceCheck s.msgsSeen c.seqNo).map fun seen =>
    { s with msgsSeen := seen, trace := s.trace ++ c.ops }
  | .prepTagVerification req tvError =>
    .ok { s with trace := s.trace ++ (Call.prepTagVerification req tvError).accesses ivShareLen s }
  | .pollTagVerification tagMask pohMask =>
    .ok { s with tagMask, pohMask, trace := s.trace ++ [.write .tagMask, .write .pohMask] }
  | .tagVerification => (sequenceCheck s.msgsSeen 36).map fun seen =>
    { s with msgsSeen := seen, trace := s.trace ++ Call.tagVerification.accesses ivShareLen s }

/-- A run of calls on one session; the first panic ends it. -/
def runCalls (s : Session) : List Call → Except String Session
  | [] => .ok s
  | c :: cs => (s.call ivShareLen c).bind (runCalls · cs)

theorem call_eq_ok {s s' : Session} {c : Call} (h : s.call ivShareLen c = .ok s') :
    s'.trace = s.trace ++ c.accesses ivShareLen s ∧
    (∀ n, c.seqNo? = some n → sequenceCheck s.msgsSeen n = .ok s'.msgsSeen) ∧
    (c.seqNo? = none → s'.msgsSeen = s.msgsSeen) ∧
    ((∃ tm pm, c = .pollTagVerification tm pm) ∨
      s'.tagMask = s.tagMask ∧ s'.pohMask = s.pohMask) := by
  cases c with
  | command c =>
    simp only [Session.call] at h
    cases hs : sequenceCheck s.msgsSeen c.seqNo <;> simp only [hs, Except.map] at h <;> cases h
    exact ⟨rfl, by simp [Call.seqNo?, hs], by simp [Call.seqNo?], .inr ⟨rfl, rfl⟩⟩
  | prepTagVerification req tvError =>
    cases h
    exact ⟨rfl, by simp [Call.seqNo?], fun _ => rfl, .inr ⟨rfl, rfl⟩⟩
  | pollTagVerification tm pm =>
    cases h
    exact ⟨rfl, by simp [Call.seqNo?], fun _ => rfl, .inl ⟨tm, pm, rfl⟩⟩
  | tagVerification =>
    simp only [Session.call] at h
    cases hs : sequenceCheck s.msgsSeen 36 <;> simp only [hs, Except.map] at h <;> cases h
    exact ⟨rfl, by simp [Call.seqNo?, hs], by simp [Call.seqNo?], .inr ⟨rfl, rfl⟩⟩

theorem runCalls_cons_eq_ok {s s' : Session} {c : Call} {cs : List Call}
    (h : runCalls ivShareLen s (c :: cs) = .ok s') :
    ∃ mid, s.call ivShareLen c = .ok mid ∧ runCalls ivShareLen mid cs = .ok s' := by
  simp only [runCalls] at h
  cases hs : s.call ivShareLen c with
  | error e => simp [hs, Except.bind] at h
  | ok mid => exact ⟨mid, rfl, by simpa [hs, Except.bind] using h⟩

/-- Package an invariant of single calls, of the calls a run is made of, into one
of whole runs. -/
theorem runCalls_invariant (P : Session → Prop) (Q : Call → Prop)
    (hstep : ∀ s s' c, Q c → P s → s.call ivShareLen c = .ok s' → P s')
    {s s' : Session} {cs : List Call} (hq : ∀ c ∈ cs, Q c) (hs : P s)
    (h : runCalls ivShareLen s cs = .ok s') : P s' := by
  induction cs generalizing s with
  | nil => simp only [runCalls, Except.ok.injEq] at h; exact h ▸ hs
  | cons c cs ih =>
    obtain ⟨mid, hc, hr⟩ := runCalls_cons_eq_ok ivShareLen h
    exact ih (fun c hc => hq c (List.mem_cons_of_mem _ hc)) (hstep s mid c (hq c (by simp)) hs hc) hr

end Calls

end TlsNotary
