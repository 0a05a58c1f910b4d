import Mathlib.Tactic.Common

/-!
# The OT response handed from step 1 to step 2

Step 1 of a circuit (`c_step1`, `c4_step1A`, `C6_step1`) answers at once and leaves the
oblivious transfer to a goroutine: it answers the client's OT request, makes its own, and
on success writes the response to `s.lastOtResponse` and then
`s.lastResponseFrom = "c<n>_step1"`; on an error it sends the session's id to the release
and destroy channels and returns. Step 2's `parse_step2` spins until `lastResponseFrom`
names its circuit's step 1, then takes `lastOtResponse` as the notary's input labels, the
OT response that `parseStep2` of the dual-execution model is given. The two goroutines
share the two fields and no lock; each statement is a step of its own.

The OT manager is not part of the source: the outcome of the goroutine's two calls is
the parameter `exchange`, the response or `none` for an error. Each statement is atomic
and sequentially consistent; what Go's memory model allows an unsynchronised read beyond
that is out of the model.
-/
namespace TlsNotary

/-- `fmt.Sprintf("c%d_step1", cNo)`, the value step 2 waits for. -/
def expectedLastResponseSource (cNo : Nat) : String := "c" ++ toString cNo ++ "_step1"

/-- The two goroutines: step 1's OT goroutine and step 2's handler. -/
inductive HandoffThread
  | ot
  | step2
  deriving DecidableEq

/-- The OT goroutine's next statement: its two OT calls; writing the response it holds;
writing the flag. -/
inductive OtPc
  | exchange
  | publish (step2OtResp : List UInt8)
  | flag
  | done
  | failed
  deriving DecidableEq

/-- `parse_step2`'s next statement: its loop's test; taking the labels. -/
inductive Step2Pc
  | wait
  | take
  | took (notaryLabels : List UInt8)
  deriving DecidableEq

/-- The session's two shared fields, whether the goroutine has sent the session to the
destroy channel, and where each goroutine is. -/
structure HandoffState where
  lastOtResponse : List UInt8
  lastResponseFrom : String
  destroyed : Bool
  otPc : OtPc
  step2Pc : Step2Pc
  deriving DecidableEq

namespace HandoffState

/-- Step 1 has just started its goroutine; the fields hold what an earlier circuit left. -/
def start (lastOtResponse : List UInt8) (lastResponseFrom : String) : HandoffState :=
  ⟨lastOtResponse, lastResponseFrom, false, .exchange, .wait⟩

/-- One statement of the OT goroutine of circuit `cNo`. -/
def otStep (cNo : Nat) (exchange : Option (List UInt8)) (st : HandoffState) : HandoffState :=
  match st.otPc with
  | .exchange =>
    match exchange with
    | none => { st with destroyed := true, otPc := .failed }
    | some step2OtResp => { st with otPc := .publish step2OtResp }
  | .publish step2OtResp => { st with lastOtResponse := step2OtResp, otPc := .flag }
  | .flag => { st with lastResponseFrom := expectedLastResponseSource cNo, otPc := .done }
  | .done | .failed => st

/-- One statement of `parse_step2`'s wait for circuit `cNo` and its read. -/
def step2Step (cNo : Nat) (st : HandoffState) : HandoffState :=
  match st.step2Pc with
  | .wait =>
    if st.lastResponseFrom ≠ expectedLastResponseSource cNo then st
    else { st with step2Pc := .take }
  | .take => { st with step2Pc := .took st.lastOtResponse }
  | .took _ => st

def step (cNo : Nat) (exchange : Option (List UInt8)) (st : HandoffState) :
    HandoffThread → HandoffState
  | .ot => st.otStep cNo exchange
  | .step2 => st.step2Step cNo

def run (cNo : Nat) (exchange : Option (List UInt8)) (st : HandoffState)
    (sched : List HandoffThread) : HandoffState :=
  sched.foldl (step cNo exchange) st

end HandoffState

/-- What the OT goroutine has done with the outcome, at each of its statements. -/
def OtPcOk (exchange : Option (List UInt8)) (lastOtResponse : List UInt8) : OtPc → Prop
  | .exchange => True
  | .publish r => exchange = some r
  | .flag | .done => exchange = some lastOtResponse
  | .failed => exchange = none

theorem OtPcOk.of_none {resp : List UInt8} {pc : OtPc} (h : OtPcOk none resp pc) :
    pc = .exchange ∨ pc = .failed := by
  cases pc <;> first | exact .inl rfl | exact .inr rfl | cases h

/-- What holds in every state an interleaving reaches: the flag names the circuit only once
the goroutine is done, the response then being the OT's; step 2 is past its loop only
after the flag; the labels it took are the OT's response; a failed goroutine has sent
the session to be destroyed. -/
structure HandoffInv (cNo : Nat) (exchange : Option (List UInt8)) (st : HandoffState) :
    Prop where
  ot : OtPcOk exchange st.lastOtResponse st.otPc
  flag : st.lastResponseFrom = expectedLastResponseSource cNo → st.otPc = .done
  passed : st.step2Pc ≠ .wait → st.lastResponseFrom = expectedLastResponseSource cNo
  took : ∀ l, st.step2Pc = .took l → exchange = some l
  destroyed : st.otPc = .failed → st.destroyed = true

namespace HandoffInv

variable {cNo : Nat} {exchange : Option (List UInt8)} {st : HandoffState}

theorem start {resp : List UInt8} {prev : String} (hprev : prev ≠ expectedLastResponseSource cNo) :
    HandoffInv cNo exchange (HandoffState.start resp prev) :=
  ⟨trivial, fun h => absurd h hprev, fun h => absurd rfl h, fun _ h => (by cases h),
    fun h => (by cases h)⟩

theorem otStep (hinv : HandoffInv cNo exchange st) :
    HandoffInv cNo exchange (st.otStep cNo exchange) := by
  obtain ⟨hot, hflag, hpassed, htook, hdes⟩ := hinv
  have hnot : st.otPc ≠ .done → st.lastResponseFrom ≠ expectedLastResponseSource cNo :=
    fun hpc h => hpc (hflag h)
  unfold HandoffState.otStep
  cases hpc : st.otPc with
  | exchange =>
    have hnot := hnot (by rw [hpc]; exact OtPc.noConfusion)
    cases exchange with
    | none => exact ⟨rfl, fun h => absurd h hnot, fun h => absurd (hpassed h) hnot, htook, fun _ => rfl⟩
    | some r => exact ⟨rfl, fun h => absurd h hnot, fun h => absurd (hpassed h) hnot, htook,
        fun h => (by cases h)⟩
  | publish r =>
    rw [hpc] at hot
    have hnot := hnot (by rw [hpc]; exact OtPc.noConfusion)
    exact ⟨hot, fun h => absurd h hnot, fun h => absurd (hpassed h) hnot, htook,
      fun h => (by cases h)⟩
  | flag =>
    rw [hpc] at hot
    exact ⟨hot, fun _ => rfl, fun _ => rfl, htook, fun h => (by cases h)⟩
  | done | failed => exact ⟨hot, hflag, hpassed, htook, hdes⟩

theorem step2Step (hinv : HandoffInv cNo exchange st) :
    HandoffInv cNo exchange (st.step2Step cNo) := by
  obtain ⟨hot, hflag, hpassed, htook, hdes⟩ := hinv
  unfold HandoffState.step2Step
  cases hpc : st.step2Pc with
  | wait =>
    by_cases hf : st.lastResponseFrom = expectedLastResponseSource cNo
    · rw [if_neg (not_not.2 hf)]
      exact ⟨hot, hflag, fun _ => hf, fun _ h => (by cases h), hdes⟩
    · rw [if_pos hf]
      exact ⟨hot, hflag, hpassed, htook, hdes⟩
  | take =>
    have hfrom := hpassed (by rw [hpc]; exact Step2Pc.noConfusion)
    have hresp : exchange = some st.lastOtResponse := by
      have h := hot
      rwa [hflag hfrom] at h
    exact ⟨hot, hflag, fun _ => hfrom, fun l h => (by cases h; exact hresp), hdes⟩
  | took l => exact ⟨hot, hflag, hpassed, htook, hdes⟩

theorem run (hinv : HandoffInv cNo exchange st) (sched : List HandoffThread) :
    HandoffInv cNo exchange (st.run cNo exchange sched) := by
  induction sched generalizing st with
  | nil => exact hinv
  | cons g gs ih =>
    cases g with
    | ot => exact ih (otStep hinv)
    | step2 => exact ih (step2Step hinv)

end HandoffInv

/-- Step 2 never takes a stale response: in every interleaving of step 1's OT goroutine
with `parse_step2`, from fields an earlier circuit left with a different flag, the labels
`parse_step2` takes are the response of this circuit's OT. The goroutine writes the
response before the flag, and `parse_step2` reads it only after the flag. -/
theorem parseStep2_takes_own_response {cNo : Nat} {resp : List UInt8} {prev : String}
    (hprev : prev ≠ expectedLastResponseSource cNo) (exchange : Option (List UInt8))
    (sched : List HandoffThread) {notaryLabels : List UInt8}
    (htook : ((HandoffState.start resp prev).run cNo exchange sched).step2Pc = .took notaryLabels) :
    exchange = some notaryLabels :=
  ((HandoffInv.start hprev).run sched).took _ htook

/-- Circuit 2's step 2 polls while the flag still names circuit 1 and the goroutine
publishes between its polls. -/
def circuit2Schedule : List HandoffThread :=
  [.step2, .ot, .step2, .ot, .step2, .ot, .step2, .step2]

/-- Circuit 2's step 2 takes the new response, never the one circuit 1 left. -/
theorem parseStep2_takes_own_response_circuit2 :
    ((HandoffState.start [1] "c1_step1").run 2 (some [5]) circuit2Schedule).step2Pc = .took [5] ∧
      ((HandoffState.start [1] "c1_step1").run 2 (some [5]) circuit2Schedule).step2Pc ≠ .took [1] :=
  ⟨rfl, fun h => absurd (@parseStep2_takes_own_response 2 [1] "c1_step1" (by decide) (some [5])
    circuit2Schedule [1] h) (by decide)⟩

/-- A failed OT leaves step 2 spinning for ever: the goroutine sends the session to be
destroyed and returns without writing the flag, and in every interleaving `parse_step2`
stays in its loop, so step 2's request is never answered. -/
theorem parseStep2_spins_after_failed_exchange {cNo : Nat} {resp : List UInt8} {prev : String}
    (hprev : prev ≠ expectedLastResponseSource cNo) (sched : List HandoffThread) :
    ((HandoffState.start resp prev).run cNo none sched).step2Pc = .wait ∧
      (((HandoffState.start resp prev).run cNo none sched).otPc ≠ .exchange →
        ((HandoffState.start resp prev).run cNo none sched).destroyed = true) := by
  obtain ⟨hot, hflag, hpassed, -, hdes⟩ :=
    (HandoffInv.start hprev : HandoffInv cNo none (HandoffState.start resp prev)).run sched
  have hpc := OtPcOk.of_none hot
  refine ⟨not_not.1 fun hw => ?_, fun hex => hdes (hpc.resolve_left hex)⟩
  rcases hpc with h | h <;> rw [hflag (hpassed hw)] at h <;> cases h

theorem parseStep2_spins_after_failed_exchange_circuit7 :
    ((HandoffState.start [] "c6_step1").run 7 none [.ot, .step2, .step2]).step2Pc = .wait ∧
      (((HandoffState.start [] "c6_step1").run 7 none [.ot, .step2, .step2]).otPc ≠ .exchange →
        ((HandoffState.start [] "c6_step1").run 7 none [.ot, .step2, .step2]).destroyed = true) :=
  @parseStep2_spins_after_failed_exchange 7 [] "c6_step1" (by decide) [.ot, .step2, .step2]

end TlsNotary
