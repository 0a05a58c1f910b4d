import Mathlib.Logic.Function.Basic

/-!
# The tag-verification manager

`TagVerificationManager` lets one session at a time run the two MPC processes
that produce the tag mask and the powers-of-H mask. `HandlePrepTagVerification`
checks the MPC ports twice, once itself and once in `runTagVerificationMpcAsync`,
and starts both runs, each of which later sends its result on a channel of
capacity one. `HandlePollTagVerificationStatus` checks under the read lock that
both results are there and then receives them under the write lock. Each locked
section, each receive and each send is one step; a port check is an outcome the
step is given.
-/
namespace TlsNotary

/-- `SYSTEM_OWNER`. -/
def systemOwner : String := "_SYSTEM"

/-- What an MPC run sends on its channel: the run, and the mask (`""` when the MPC
failed). -/
structure MpcResult where
  run : Nat
  mask : String
  deriving DecidableEq, Repr

/-- A poll that holds the write lock: waiting on `ivChan`, or on `pohChan` with the
tag mask received. -/
inductive Drain
  | waitIv (sid : String)
  | waitPoh (sid : String) (tagMask : MpcResult)
  deriving DecidableEq, Repr

structure TagVerificationManager where
  busy : Bool
  owner : String
  ivChan : Option MpcResult
  pohChan : Option MpcResult
  /-- `runEncryptedIvMpc` goroutines that have not sent, by run. -/
  ivRuns : List Nat
  /-- `runPowersOfHMpc` goroutines that have not sent, by run. -/
  pohRuns : List Nat
  /-- Polls past their read-locked check, waiting for the write lock. -/
  pollers : List String
  writer : Option Drain
  /-- The run the next `runTagVerificationMpcAsync` starts. -/
  nextRun : Nat

/-- What `HandlePollTagVerificationStatus` returns. -/
structure PollReply where
  busy : Bool
  tagMask : String
  pohMask : String
  error : Option String
  deriving DecidableEq, Repr

namespace TagVerificationManager

/-- `NewTagVerificationManager`. -/
def new : TagVerificationManager := ⟨false, "", none, none, [], [], [], none, 0⟩

/-- `errBusy`. -/
def errBusy : String := "tag verification mpc is busy"

/-- `runTagVerificationMpcAsync` starting both MPC runs. -/
def launch (t : TagVerificationManager) : TagVerificationManager :=
  { t with
    ivRuns := t.ivRuns ++ [t.nextRun]
    pohRuns := t.pohRuns ++ [t.nextRun]
    nextRun := t.nextRun + 1 }

/-- `HandlePrepTagVerification(sid, ...)` with the outcomes of its port check and of
the one in `runTagVerificationMpcAsync`: the error it returns, and the new state.
When the second check fails, `runTagVerificationMpcAsync` reports failure and goes
on to start both runs. -/
def handlePrep (t : TagVerificationManager) (sid : String) (portsFree asyncPortsFree : Bool) :
    Option String × TagVerificationManager :=
  if t.busy then (some errBusy, t)
  else if !portsFree then
    (some errBusy, { t with owner := if t.owner = "" then systemOwner else t.owner, busy := true })
  else if !asyncPortsFree then (some errBusy, t.launch)
  else (none, { t.launch with busy := true, owner := sid })

/-- The read-locked section of `HandlePollTagVerificationStatus(sid)`: its reply,
or `none` when it goes on to take the write lock. -/
def pollCheck (t : TagVerificationManager) (sid : String) : Option PollReply :=
  if t.owner = systemOwner then
    some ⟨true, "", "", some "tag verification MPC cannot be started due to misconfiguration"⟩
  else if t.owner ≠ sid then some ⟨t.busy, "", "", none⟩
  else if t.ivChan.isNone || t.pohChan.isNone then some ⟨true, "", "", none⟩
  else none

end TagVerificationManager

/-- What can happen to the manager, one locked section, send or receive at a time. -/
inductive TvEvent
  | prep (sid : String) (portsFree asyncPortsFree : Bool)
  | pollCheck (sid : String)
  /-- A poll past its check takes the write lock. -/
  | pollLock (sid : String)
  /-- The poll holding the write lock receives from `ivChan`. -/
  | recvIv
  /-- The poll holding the write lock receives from `pohChan` and resets ownership. -/
  | recvPoh
  /-- An IV run sends its mask on `ivChan`. -/
  | ivDone (run : Nat) (mask : String)
  /-- A powers-of-H run sends its mask on `pohChan`. -/
  | pohDone (run : Nat) (mask : String)

/-- What a call returns to its session. -/
inductive TvReply
  | prep (sid : String) (error : Option String)
  | poll (sid : String) (reply : PollReply)
  deriving DecidableEq, Repr

/-- The prep's two port checks agree: the ports never look free to
`HandlePrepTagVerification` and taken to `runTagVerificationMpcAsync`. -/
def TvEvent.portsAgree : TvEvent → Bool
  | .prep _ portsFree asyncPortsFree => !portsFree || asyncPortsFree
  | _ => true

/-- The tag mask that the poll holding the write lock has received. -/
def Drain.held : Option Drain → Nat
  | some (.waitPoh _ _) => 1
  | _ => 0

namespace TagVerificationManager

/-- One step and the reply it completes, or `none` when the event cannot happen:
the locked sections wait for the write lock to be free, a receive waits for a
value and a send for room. -/
def step (t : TagVerificationManager) : TvEvent → Option (TagVerificationManager × Option TvReply)
  | .prep sid portsFree asyncPortsFree =>
    if t.writer.isSome then none
    else let r := t.handlePrep sid portsFree asyncPortsFree; some (r.2, some (.prep sid r.1))
  | .pollCheck sid =>
    if t.writer.isSome then none
    else match t.pollCheck sid with
      | some reply => some (t, some (.poll sid reply))
      | none => some ({ t with pollers := t.pollers ++ [sid] }, none)
  | .pollLock sid =>
    if t.writer.isNone && sid ∈ t.pollers then
      some ({ t with pollers := t.pollers.erase sid, writer := some (.waitIv sid) }, none)
    else none
  | .recvIv => match t.writer, t.ivChan with
    | some (.waitIv sid), some m => some ({ t with ivChan := none, writer := some (.waitPoh sid m) }, none)
    | _, _ => none
  | .recvPoh => match t.writer, t.pohChan with
    | some (.waitPoh sid m), some m' =>
      some ({ t with pohChan := none, busy := false, owner := "", writer := none },
        some (.poll sid ⟨false, m.mask, m'.mask, none⟩))
    | _, _ => none
  | .ivDone run mask =>
    if run ∈ t.ivRuns && t.ivChan.isNone then
      some ({ t with ivChan := some ⟨run, mask⟩, ivRuns := t.ivRuns.erase run }, none)
    else none
  | .pohDone run mask =>
    if run ∈ t.pohRuns && t.pohChan.isNone then
      some ({ t with pohChan := some ⟨run, mask⟩, pohRuns := t.pohRuns.erase run }, none)
    else none

/-- Run the events in order, collecting the replies. -/
def run (t : TagVerificationManager) : List TvEvent → Option (TagVerificationManager × List TvReply)
  | [] => some (t, [])
  | e :: es => (t.step e).bind fun (t', r) => (t'.run es).map fun (t'', rs) => (t'', r.toList ++ rs)

@[simp] theorem launch_busy (t : TagVerificationManager) : t.launch.busy = t.busy := rfl
@[simp] theorem launch_owner (t : TagVerificationManager) : t.launch.owner = t.owner := rfl
@[simp] theorem launch_ivChan (t : TagVerificationManager) : t.launch.ivChan = t.ivChan := rfl
@[simp] theorem launch_pohChan (t : TagVerificationManager) : t.launch.pohChan = t.pohChan := rfl
@[simp] theorem launch_writer (t : TagVerificationManager) : t.launch.writer = t.writer := rfl
@[simp] theorem launch_ivRuns (t : TagVerificationManager) :
    t.launch.ivRuns = t.ivRuns ++ [t.nextRun] := rfl
@[simp] theorem launch_pohRuns (t : TagVerificationManager) :
    t.launch.pohRuns = t.pohRuns ++ [t.nextRun] := rfl

theorem handlePrep_cases (t : TagVerificationManager) (sid : String) (p q : Bool) :
    (t.handlePrep sid p q).2 = t ∨
    (t.busy = false ∧ p = false ∧ (t.handlePrep sid p q).2 =
      { t with owner := if t.owner = "" then systemOwner else t.owner, busy := true }) ∨
    (t.busy = false ∧ p = true ∧ q = false ∧ (t.handlePrep sid p q).2 = t.launch) ∨
    (t.busy = false ∧ p = true ∧ q = true ∧
      (t.handlePrep sid p q).2 = { t.launch with busy := true, owner := sid }) := by
  unfold handlePrep
  cases t.busy <;> cases p <;> cases q <;> simp

theorem step_cases {t t' : TagVerificationManager} {e : TvEvent} {r : Option TvReply}
    (h : t.step e = some (t', r)) :
    (∃ sid p q, e = .prep sid p q ∧ t.writer = none ∧ t' = (t.handlePrep sid p q).2) ∨
    (∃ sid, e = .pollCheck sid ∧ t.writer = none ∧
      (t' = t ∨ t' = { t with pollers := t.pollers ++ [sid] })) ∨
    (∃ sid, e = .pollLock sid ∧ t.writer = none ∧ sid ∈ t.pollers ∧
      t' = { t with pollers := t.pollers.erase sid, writer := some (.waitIv sid) }) ∨
    (∃ sid m, e = .recvIv ∧ t.writer = some (.waitIv sid) ∧ t.ivChan = some m ∧
      t' = { t with ivChan := none, writer := some (.waitPoh sid m) }) ∨
    (∃ sid m m', e = .recvPoh ∧ t.writer = some (.waitPoh sid m) ∧ t.pohChan = some m' ∧
      t' = { t with pohChan := none, busy := false, owner := "", writer := none }) ∨
    (∃ run mask, e = .ivDone run mask ∧ run ∈ t.ivRuns ∧ t.ivChan = none ∧
      t' = { t with ivChan := some ⟨run, mask⟩, ivRuns := t.ivRuns.erase run }) ∨
    (∃ run mask, e = .pohDone run mask ∧ run ∈ t.pohRuns ∧ t.pohChan = none ∧
      t' = { t with pohChan := some ⟨run, mask⟩, pohRuns := t.pohRuns.erase run }) := by
  cases e with
  | prep sid p q =>
    simp only [step, Option.isSome_iff_ne_none, ne_eq, ite_not] at h
    split at h
    · exact .inl ⟨sid, p, q, rfl, ‹_›, (Prod.mk.inj (Option.some.inj h)).1.symm⟩
    · cases h
  | pollCheck sid =>
    simp only [step, Option.isSome_iff_ne_none, ne_eq, ite_not] at h
    split at h
    · refine .inr (.inl ⟨sid, rfl, ‹_›, ?_⟩)
      split at h <;> cases h
      · exact .inl rfl
      · exact .inr rfl
    · cases h
  | pollLock sid =>
    simp only [step, Bool.and_eq_true, Option.isNone_iff_eq_none, decide_eq_true_eq] at h
    split at h
    · obtain ⟨hw, hp⟩ := ‹_ ∧ _›
      cases h
      exact .inr (.inr (.inl ⟨sid, rfl, hw, hp, rfl⟩))
    · cases h
  | recvIv =>
    simp only [step] at h
    split at h
    · cases h
      exact .inr (.inr (.inr (.inl ⟨_, _, rfl, ‹_›, ‹_›, rfl⟩)))
    · cases h
  | recvPoh =>
    simp only [step] at h
    split at h
    · cases h
      exact .inr (.inr (.inr (.inr (.inl ⟨_, _, _, rfl, ‹_›, ‹_›, rfl⟩))))
    · cases h
  | ivDone run mask =>
    simp only [step, Bool.and_eq_true, Option.isNone_iff_eq_none, decide_eq_true_eq] at h
    split at h
    · cases h
      exact .inr (.inr (.inr (.inr (.inr (.inl ⟨run, mask, rfl, ‹_ ∧ _›.1, ‹_ ∧ _›.2, rfl⟩)))))
    · cases h
  | pohDone run mask =>
    simp only [step, Bool.and_eq_true, Option.isNone_iff_eq_none, decide_eq_true_eq] at h
    split at h
    · cases h
      exact .inr (.inr (.inr (.inr (.inr (.inr ⟨run, mask, rfl, ‹_ ∧ _›.1, ‹_ ∧ _›.2, rfl⟩)))))
    · cases h

/-- A step sets the owner only to `""`, to `_SYSTEM`, or to the id of a prep call. -/
theorem step_owner {t t' : TagVerificationManager} {e : TvEvent} {r : Option TvReply}
    (h : t.step e = some (t', r)) :
    t'.owner = t.owner ∨ t'.owner = "" ∨ t'.owner = systemOwner ∨
      ∃ p q, e = .prep t'.owner p q := by
  rcases step_cases h with ⟨sid, p, q, rfl, -, rfl⟩ | ⟨_, -, -, rfl | rfl⟩ | ⟨_, -, -, -, rfl⟩ |
    ⟨_, _, -, -, -, rfl⟩ | ⟨_, _, _, -, -, -, rfl⟩ | ⟨_, _, -, -, -, rfl⟩ | ⟨_, _, -, -, -, rfl⟩
  · rcases handlePrep_cases t sid p q with h' | ⟨-, -, h'⟩ | ⟨-, -, -, h'⟩ | ⟨-, -, -, h'⟩ <;> rw [h']
    · exact .inl rfl
    · split_ifs <;> simp
    all_goals simp
  all_goals simp

theorem pollCheck_masks {t : TagVerificationManager} {sid : String} {reply : PollReply}
    (h : t.pollCheck sid = some reply) : reply.tagMask = "" ∧ reply.pohMask = "" := by
  unfold pollCheck at h
  split_ifs at h <;> cases h <;> exact ⟨rfl, rfl⟩

/-- A poll goes on to the write lock only for the owner, and never for `_SYSTEM`. -/
theorem pollCheck_eq_none {t : TagVerificationManager} {sid : String} (h : t.pollCheck sid = none) :
    t.owner = sid ∧ sid ≠ systemOwner := by
  unfold pollCheck at h
  split_ifs at h with h₁ h₂
  exact ⟨not_not.1 h₂, fun h₃ => h₁ (by rw [not_not.1 h₂, h₃])⟩

/-- A read-locked check leaves the manager as it is or queues its poll for the write
lock, the latter only when the check lets it through. -/
theorem step_pollCheck {t t' : TagVerificationManager} {sid : String} {r : Option TvReply}
    (h : t.step (.pollCheck sid) = some (t', r)) :
    (t' = t ∧ ∃ reply, t.pollCheck sid = some reply ∧ r = some (.poll sid reply)) ∨
    (t.pollCheck sid = none ∧ t' = { t with pollers := t.pollers ++ [sid] } ∧ r = none) := by
  simp only [step, Option.isSome_iff_ne_none, ne_eq, ite_not] at h
  split at h
  · split at h <;> cases h
    · exact .inl ⟨rfl, _, ‹_›, rfl⟩
    · exact .inr ⟨‹_›, rfl, rfl⟩
  · cases h

/-- Every poll reply comes from a read-locked check, with empty masks, or from the
receive on `pohChan` of the poll that holds the write lock. -/
theorem step_poll_reply {t t' : TagVerificationManager} {e : TvEvent} {sid : String}
    {reply : PollReply} (h : t.step e = some (t', some (.poll sid reply))) :
    (reply.tagMask = "" ∧ reply.pohMask = "") ∨ (e = .recvPoh ∧ ∃ m, t.writer = some (.waitPoh sid m)) := by
  cases e with
  | pollCheck sid' =>
    rcases step_pollCheck h with ⟨-, reply', hc, hr⟩ | ⟨-, -, hr⟩ <;> cases hr
    exact .inl (pollCheck_masks hc)
  | recvPoh =>
    simp only [step] at h
    split at h
    · cases h; exact .inr ⟨rfl, _, ‹_›⟩
    · cases h
  | prep _ _ _ =>
    simp only [step, Option.isSome_iff_ne_none, ne_eq, ite_not] at h
    split at h <;> cases h
  | pollLock _ =>
    simp only [step] at h
    split at h <;> cases h
  | recvIv =>
    simp only [step] at h
    split at h <;> cases h
  | ivDone _ _ =>
    simp only [step] at h
    split at h <;> cases h
  | pohDone _ _ =>
    simp only [step] at h
    split at h <;> cases h

theorem run_invariant (P : TagVerificationManager → Prop) (Q : TvEvent → Prop)
    (hstep : ∀ t t' e r, Q e → P t → t.step e = some (t', r) → P t') {t : TagVerificationManager}
    (hs : P t) : ∀ es t' rs, (∀ e ∈ es, Q e) → t.run es = some (t', rs) → P t' := by
  intro es
  induction es generalizing t with
  | nil => intro t' rs _ h; simp only [run, Option.some.injEq, Prod.mk.injEq] at h; exact h.1 ▸ hs
  | cons e es ih =>
    intro t' rs he h
    simp only [run, Option.bind_eq_some, Option.map_eq_some'] at h
    obtain ⟨⟨t₁, r⟩, hstep₁, ⟨t₂, rs₂⟩, hrun, hr⟩ := h
    cases hr
    exact ih (hstep _ _ _ _ (he e (List.mem_cons_self _ _)) hs hstep₁) t₂ rs₂
      (fun e' h' => he e' (List.mem_cons_of_mem _ h')) hrun

/-- Tag masks not yet returned: runs in flight, a value in `ivChan`, one held by a poll. -/
def ivPending (t : TagVerificationManager) : Nat :=
  t.ivRuns.length + t.ivChan.isSome.toNat + Drain.held t.writer

/-- Powers-of-H masks not yet returned: runs in flight and a value in `pohChan`. -/
def pohPending (t : TagVerificationManager) : Nat := t.pohRuns.length + t.pohChan.isSome.toNat

/-- At most one pair of results is pending, and none while the manager is not busy. -/
structure Settled (t : TagVerificationManager) : Prop where
  balanced : pohPending t = ivPending t
  single : ivPending t ≤ 1
  idle : t.busy = false → ivPending t = 0

theorem settled_new : Settled new := ⟨rfl, by decide, fun _ => rfl⟩

theorem length_erase_add_one {l : List Nat} {a : Nat} (h : a ∈ l) :
    (l.erase a).length + 1 = l.length := by
  rw [List.length_erase_of_mem h]
  exact Nat.sub_add_cancel (List.length_pos_of_mem h)

theorem Settled.of_pending_eq {t t' : TagVerificationManager} (hs : Settled t)
    (hi : ivPending t' = ivPending t) (hp : pohPending t' = pohPending t) (hb : t'.busy = t.busy) :
    Settled t' :=
  ⟨by rw [hi, hp]; exact hs.balanced, hi ▸ hs.single, fun h => hi ▸ hs.idle (hb ▸ h)⟩

theorem step_settled {t t' : TagVerificationManager} {e : TvEvent} {r : Option TvReply}
    (hs : Settled t) (he : e.portsAgree = true) (h : t.step e = some (t', r)) : Settled t' := by
  rcases step_cases h with ⟨sid, p, q, rfl, -, rfl⟩ | ⟨_, -, -, rfl | rfl⟩ | ⟨_, -, hw, -, rfl⟩ |
    ⟨_, _, -, hw, hc, rfl⟩ | ⟨_, _, _, -, hw, hc, rfl⟩ | ⟨_, _, -, hr, hc, rfl⟩ | ⟨_, _, -, hr, hc, rfl⟩
  · rcases handlePrep_cases t sid p q with h' | ⟨-, -, h'⟩ | ⟨-, rfl, rfl, -⟩ | ⟨hb, -, -, h'⟩
    · rwa [h']
    · rw [h']; exact ⟨hs.balanced, hs.single, nofun⟩
    · simp [TvEvent.portsAgree] at he
    · have h0 := hs.idle hb
      have hbal := hs.balanced
      simp only [ivPending, pohPending] at h0 hbal
      rw [h']
      refine ⟨?_, ?_, nofun⟩ <;> simp only [ivPending, pohPending, launch_ivRuns, launch_ivChan,
        launch_writer, launch_pohRuns, launch_pohChan, List.length_append, List.length_singleton] <;>
        omega
  · exact hs
  · exact hs.of_pending_eq rfl rfl rfl
  · exact hs.of_pending_eq (by simp [ivPending, Drain.held, hw]) rfl rfl
  · exact hs.of_pending_eq (by simp [ivPending, Drain.held, hw, hc]) rfl rfl
  · have hone := hs.single
    have hbal := hs.balanced
    simp only [ivPending, pohPending, Drain.held, hw, hc, Option.isSome_some, Bool.toNat_true]
      at hone hbal
    refine ⟨?_, ?_, fun _ => ?_⟩ <;> simp only [ivPending, pohPending, Drain.held,
      Option.isSome_none, Bool.toNat_false] <;> omega
  · have := length_erase_add_one hr
    exact hs.of_pending_eq (by simp [ivPending, hc]; omega) rfl rfl
  · have := length_erase_add_one hr
    exact hs.of_pending_eq rfl (by simp [pohPending, hc]; omega) rfl

theorem run_settled {es : List TvEvent} {t : TagVerificationManager} {rs : List TvReply}
    (he : ∀ e ∈ es, e.portsAgree = true) (h : new.run es = some (t, rs)) : Settled t :=
  run_invariant Settled (fun e => e.portsAgree = true) (fun _ _ _ _ he hs => step_settled hs he)
    settled_new es t rs he h

/-- Where the two port checks of every prep agree, a manager that is not busy has no
MPC run in flight and both channels empty. -/
theorem idle_of_run {es : List TvEvent} {t : TagVerificationManager} {rs : List TvReply}
    (he : ∀ e ∈ es, e.portsAgree = true) (h : new.run es = some (t, rs)) (hb : t.busy = false) :
    t.ivRuns = [] ∧ t.pohRuns = [] ∧ t.ivChan = none ∧ t.pohChan = none := by
  obtain ⟨hbal, -, hi⟩ := run_settled he h
  have h0 := hi hb
  rw [h0] at hbal
  simp only [ivPending, pohPending] at h0 hbal
  refine ⟨List.length_eq_zero.1 (by omega), List.length_eq_zero.1 (by omega), ?_, ?_⟩
  · cases hc : t.ivChan <;> simp_all
  · cases hc : t.pohChan <;> simp_all

/-- `A` starts the MPC, both runs send, and `A`'s poll receives both masks. -/
def completedMpcSchedule : List TvEvent :=
  [.prep "A" true true, .ivDone 0 "tag mask", .pohDone 0 "powers of H mask", .pollCheck "A",
    .pollLock "A", .recvIv, .recvPoh]

theorem idle_of_run_completedMpc :
    ∃ t rs, new.run completedMpcSchedule = some (t, rs) ∧ t.busy = false ∧
      t.ivRuns = [] ∧ t.pohRuns = [] ∧ t.ivChan = none ∧ t.pohChan = none :=
  ⟨_, _, rfl, rfl, @idle_of_run completedMpcSchedule _ _ (by decide) rfl rfl⟩

/-- `A`'s ports look free to the handler and taken to `runTagVerificationMpcAsync`;
then `B` starts the MPC, `A`'s runs send first, and `B` polls. -/
def staleRunSchedule : List TvEvent :=
  [.prep "A" true false, .prep "B" true true, .ivDone 0 "tag mask of run 0",
    .pohDone 0 "powers of H mask of run 0", .pollCheck "B", .pollLock "B", .recvIv, .recvPoh]

/-- After `A`'s failed prep the manager is not busy while both of its runs are in
flight; those runs' masks are what `B`'s poll returns, and `B`'s own run 1 is
still in flight when the manager is free again. -/
theorem handlePrep_failure_leaves_runs :
    (∃ t, new.run [.prep "A" true false] = some (t, [.prep "A" (some errBusy)]) ∧
      t.busy = false ∧ t.ivRuns = [0] ∧ t.pohRuns = [0]) ∧
    ∃ t, new.run staleRunSchedule = some (t, [.prep "A" (some errBusy), .prep "B" none,
        .poll "B" ⟨false, "tag mask of run 0", "powers of H mask of run 0", none⟩]) ∧
      t.busy = false ∧ t.ivRuns = [1] ∧ t.pohRuns = [1] :=
  ⟨⟨_, rfl, rfl, rfl, rfl⟩, _, rfl, rfl, rfl, rfl⟩

/-- While a poll holds the write lock waiting on an empty `ivChan` and no IV run is
in flight, every step keeps it so. -/
theorem step_keeps_blocked_writer {t t' : TagVerificationManager} {e : TvEvent}
    {r : Option TvReply} {sid : String}
    (hb : t.writer = some (.waitIv sid) ∧ t.ivChan = none ∧ t.ivRuns = [])
    (h : t.step e = some (t', r)) :
    t'.writer = some (.waitIv sid) ∧ t'.ivChan = none ∧ t'.ivRuns = [] := by
  obtain ⟨hw, hiv, hruns⟩ := hb
  rcases step_cases h with ⟨_, _, _, -, hw', -⟩ | ⟨_, -, hw', -⟩ | ⟨_, -, hw', -⟩ |
    ⟨_, _, -, -, hc, -⟩ | ⟨_, _, _, -, hw', -⟩ | ⟨_, _, -, hr, -⟩ | ⟨_, _, -, -, -, rfl⟩
  all_goals simp_all

theorem run_keeps_blocked_writer {t : TagVerificationManager} {sid : String}
    (hw : t.writer = some (.waitIv sid)) (hiv : t.ivChan = none) (hruns : t.ivRuns = []) :
    ∀ es t' rs, t.run es = some (t', rs) → t'.writer = some (.waitIv sid) := fun es t' rs h =>
  (run_invariant _ (fun _ => True) (fun _ _ _ _ _ hb => step_keeps_blocked_writer hb)
    ⟨hw, hiv, hruns⟩ es t' rs (fun _ _ => trivial) h).1

/-- The owning session polls twice; both polls pass the read-locked check before
either takes the write lock. -/
def doublePollSchedule : List TvEvent :=
  [.prep "A" true true, .ivDone 0 "tag mask", .pohDone 0 "powers of H mask", .pollCheck "A",
    .pollCheck "A", .pollLock "A", .recvIv, .recvPoh, .pollLock "A"]

/-- The second poll takes the write lock with both channels empty and no run left
to fill them, and keeps it forever: every later prep and poll waits on it. -/
theorem doublePoll_blocks_forever :
    ∃ t, new.run doublePollSchedule = some (t, [.prep "A" none,
        .poll "A" ⟨false, "tag mask", "powers of H mask", none⟩]) ∧
      t.writer = some (.waitIv "A") ∧ t.ivChan = none ∧ t.pohChan = none ∧ t.ivRuns = [] ∧
      ∀ es t' rs, t.run es = some (t', rs) → t'.writer = some (.waitIv "A") :=
  ⟨_, rfl, rfl, rfl, rfl, rfl, run_keeps_blocked_writer rfl rfl rfl⟩

end TagVerificationManager

end TlsNotary
