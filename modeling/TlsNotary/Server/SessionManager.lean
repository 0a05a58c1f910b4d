import Mathlib.Logic.Function.Basic

/-!
# The session manager

`SessionManager` maps session ids to sessions, shares one OT manager among them,
and records the OT's owner in `otOwner` (`""` when free). `AddSession` turns a new
session away while the OT has an owner; the owner is set only when the `Listen`
goroutine that `AddSession` spawns returns, that is when the client's OT
connection arrives. Release and destroy messages and the stale-session reaper act
on the state in between. Each goroutine's critical section is one step here, and
a session is known by the identity `new(session.Session)` gave it.
-/
namespace TlsNotary

/-- `smItem`: the session, by identity, and its two timestamps in seconds. -/
structure SmItem where
  session : Nat
  lastSeen : Int
  creationTime : Int
  deriving DecidableEq, Repr

structure SessionManager where
  sessions : String → Option SmItem
  otOwner : String
  /-- Ids whose `ot.Listen` goroutine, spawned by `AddSession`, has not returned. -/
  listening : List String
  /-- The identity the next `new(session.Session)` gets. -/
  nextSession : Nat
  /-- Sessions whose storage directory and truth-table files `removeSession` deleted. -/
  cleaned : List Nat

namespace SessionManager

/-- `SessionManager.Init`: no sessions, no OT owner. -/
def init : SessionManager := ⟨fun _ => none, "", [], 0, []⟩

/-- `AddSession(key)`: the new session's identity, or `none` for nil. The check
for an existing `key` only logs. -/
def addSession (sm : SessionManager) (key : String) (now : Int) : Option Nat × SessionManager :=
  if sm.otOwner ≠ "" then (none, sm)
  else
    (some sm.nextSession,
      { sm with
        sessions := Function.update sm.sessions key (some ⟨sm.nextSession, now, now⟩)
        listening := sm.listening ++ [key]
        nextSession := sm.nextSession + 1 })

/-- The `Listen` goroutine of `key` returns without error and sets `otOwner`. -/
def listenDone (sm : SessionManager) (key : String) : SessionManager :=
  { sm with otOwner := key, listening := sm.listening.erase key }

/-- `monitorOtReleaseChan` receives `sid`. -/
def otRelease (sm : SessionManager) (sid : String) : SessionManager :=
  if sm.otOwner = sid then { sm with otOwner := "" } else sm

/-- `removeSession(key)`: release the OT if `key` owns it, then delete the session's
files and its map entry. -/
def removeSession (sm : SessionManager) (key : String) : SessionManager :=
  let sm := if sm.otOwner = key then { sm with otOwner := "" } else sm
  match sm.sessions key with
  | none => sm
  | some item =>
    { sm with sessions := Function.update sm.sessions key none, cleaned := sm.cleaned ++ [item.session] }

/-- `GetSession(key)`: the session, and `lastSeen` refreshed. -/
def getSession (sm : SessionManager) (key : String) (now : Int) : Option Nat × SessionManager :=
  match sm.sessions key with
  | none => (none, sm)
  | some item => (some item.session,
      { sm with sessions := Function.update sm.sessions key (some { item with lastSeen := now }) })

/-- The test of `monitorSessions`. -/
def stale (item : SmItem) (now : Int) : Bool :=
  now - item.lastSeen > 1200 || now - item.creationTime > 2400

end SessionManager

/-- What can happen to the session manager, one critical section at a time. -/
inductive SmEvent
  | addSession (key : String) (now : Int)
  | listenDone (key : String)
  /-- A session sends its id on `otReleaseChan` (`CommitHash`, a panic, an OT error). -/
  | otRelease (sid : String)
  /-- A session sends its id on `destroyChan`; `monitorDestroyChan` removes it. -/
  | destroy (sid : String)
  /-- `monitorSessions` finds `key` stale at time `now` and removes it. -/
  | reap (key : String) (now : Int)
  | getSession (key : String) (now : Int)

namespace SessionManager

/-- One step, or `none` when the event cannot happen in `sm`. -/
def step (sm : SessionManager) : SmEvent → Option SessionManager
  | .addSession key now => some (sm.addSession key now).2
  | .listenDone key => if key ∈ sm.listening then some (sm.listenDone key) else none
  | .otRelease sid => some (sm.otRelease sid)
  | .destroy sid => some (sm.removeSession sid)
  | .reap key now => match sm.sessions key with
    | some item => if stale item now then some (sm.removeSession key) else none
    | none => none
  | .getSession key now => some (sm.getSession key now).2

/-- Run the events in order from `sm`. -/
def run (sm : SessionManager) : List SmEvent → Option SessionManager
  | [] => some sm
  | e :: es => (sm.step e).bind (run · es)

/-- States reached from `init` by events that satisfy `P` where they happen. -/
inductive Reachable (P : SessionManager → SmEvent → Prop) : SessionManager → Prop
  | init : Reachable P init
  | step {sm sm' : SessionManager} {e : SmEvent} : Reachable P sm → P sm e → sm.step e = some sm' →
      Reachable P sm'

/-- `otOwner` is free or names a session in the map. -/
def OwnerLive (sm : SessionManager) : Prop := sm.otOwner = "" ∨ (sm.sessions sm.otOwner).isSome

/-- An OT `Listen` returns only for a session still in the map. -/
def Timely (sm : SessionManager) : SmEvent → Prop
  | .listenDone key => (sm.sessions key).isSome
  | _ => True

@[simp] theorem removeSession_listening (sm : SessionManager) (key : String) :
    (sm.removeSession key).listening = sm.listening := by
  unfold removeSession; split_ifs <;> dsimp only <;> split <;> rfl

@[simp] theorem removeSession_otOwner (sm : SessionManager) (key : String) :
    (sm.removeSession key).otOwner = if sm.otOwner = key then "" else sm.otOwner := by
  unfold removeSession; split_ifs <;> dsimp only <;> split <;> rfl

@[simp] theorem removeSession_sessions (sm : SessionManager) (key k : String) :
    (sm.removeSession key).sessions k = if k = key then none else sm.sessions k := by
  unfold removeSession
  split_ifs with hk <;> dsimp only <;> split <;> simp_all [Function.update]

@[simp] theorem getSession_otOwner (sm : SessionManager) (key : String) (now : Int) :
    (sm.getSession key now).2.otOwner = sm.otOwner := by
  unfold getSession; split <;> rfl

@[simp] theorem isSome_getSession_sessions (sm : SessionManager) (key k : String) (now : Int) :
    ((sm.getSession key now).2.sessions k).isSome = (sm.sessions k).isSome := by
  unfold getSession
  split
  · rfl
  · by_cases hk : k = key <;> simp_all [Function.update]

theorem removeSession_ownerLive {sm : SessionManager} (key : String) (h : OwnerLive sm) :
    OwnerLive (sm.removeSession key) := by
  unfold OwnerLive
  by_cases hk : sm.otOwner = key
  · simp [hk]
  · simpa [hk] using h

/-- A step keeps `otOwner` free or in the map, unless a `Listen` returns for a
session already removed. -/
theorem step_ownerLive {sm sm' : SessionManager} {e : SmEvent} (hl : OwnerLive sm)
    (ht : Timely sm e) (h : sm.step e = some sm') : OwnerLive sm' := by
  cases e with
  | addSession key now =>
    cases h
    unfold addSession
    split
    · exact hl
    · exact .inl (not_not.1 ‹_›)
  | listenDone key =>
    simp only [step] at h
    split at h <;> cases h
    exact .inr ht
  | otRelease sid =>
    cases h
    unfold otRelease
    split
    · exact .inl rfl
    · exact hl
  | destroy sid => cases h; exact removeSession_ownerLive sid hl
  | reap key now =>
    simp only [step] at h
    split at h
    · split at h <;> cases h
      exact removeSession_ownerLive key hl
    · cases h
  | getSession key now =>
    cases h
    simpa [OwnerLive] using hl

/-- Sessions awaiting or holding the OT: those whose `Listen` is pending, and the owner. -/
def otClaims (sm : SessionManager) : Nat := sm.listening.length + if sm.otOwner = "" then 0 else 1

/-- `AddSession` comes only when no `Listen` is pending. -/
def Sequential (sm : SessionManager) : SmEvent → Prop
  | .addSession _ _ => sm.listening = []
  | _ => True

theorem removeSession_otClaims (sm : SessionManager) (key : String) :
    otClaims (sm.removeSession key) ≤ otClaims sm := by
  simp only [otClaims, removeSession_listening, removeSession_otOwner]
  split_ifs <;> simp_all

/-- A step that admits no session while a `Listen` is pending keeps at most one
session awaiting or holding the OT. -/
theorem step_otClaims {sm sm' : SessionManager} {e : SmEvent} (hq : Sequential sm e)
    (hc : otClaims sm ≤ 1) (h : sm.step e = some sm') : otClaims sm' ≤ 1 := by
  cases e with
  | addSession key now =>
    cases h
    unfold addSession
    split
    · exact hc
    · simp_all [otClaims, Sequential]
  | listenDone key =>
    simp only [step] at h
    split at h
    · cases h
      rename_i hk
      have := List.length_erase_of_mem hk
      have := List.length_pos_of_mem hk
      unfold otClaims at hc ⊢
      simp only [listenDone]
      split_ifs at hc ⊢ <;> omega
    · cases h
  | otRelease sid =>
    cases h
    unfold otRelease
    split
    · simp only [otClaims] at hc ⊢; simp only [if_true]; omega
    · exact hc
  | destroy sid => cases h; exact Nat.le_trans (removeSession_otClaims _ _) hc
  | reap key now =>
    simp only [step] at h
    split at h
    · split at h <;> cases h
      exact Nat.le_trans (removeSession_otClaims _ _) hc
    · cases h
  | getSession key now =>
    cases h
    unfold getSession
    split <;> exact hc

@[simp] theorem removeSession_nextSession (sm : SessionManager) (key : String) :
    (sm.removeSession key).nextSession = sm.nextSession := by
  unfold removeSession; split_ifs <;> dsimp only <;> split <;> rfl

theorem removeSession_cleaned (sm : SessionManager) (key : String) :
    (sm.removeSession key).cleaned = sm.cleaned ++ ((sm.sessions key).map SmItem.session).toList := by
  unfold removeSession
  split_ifs <;> dsimp only <;> split <;> simp_all

@[simp] theorem map_getSession_sessions (sm : SessionManager) (key k : String) (now : Int) :
    ((sm.getSession key now).2.sessions k).map SmItem.session = (sm.sessions k).map SmItem.session := by
  unfold getSession
  split
  · rfl
  · by_cases hk : k = key <;> simp_all [Function.update]

@[simp] theorem getSession_nextSession (sm : SessionManager) (key : String) (now : Int) :
    (sm.getSession key now).2.nextSession = sm.nextSession := by
  unfold getSession; split <;> rfl

@[simp] theorem getSession_cleaned (sm : SessionManager) (key : String) (now : Int) :
    (sm.getSession key now).2.cleaned = sm.cleaned := by
  unfold getSession; split <;> rfl

/-- Session `n` was created and has left the map without `removeSession` cleaning it up. -/
structure Orphan (n : Nat) (sm : SessionManager) : Prop where
  fresh : ∀ k m, (sm.sessions k).map SmItem.session = some m → m < sm.nextSession
  issued : n < sm.nextSession
  unmapped : ∀ k, (sm.sessions k).map SmItem.session ≠ some n
  uncleaned : n ∉ sm.cleaned

theorem Orphan.removeSession {n : Nat} {sm : SessionManager} (ho : Orphan n sm) (key : String) :
    Orphan n (sm.removeSession key) := by
  refine ⟨fun k m hm => ?_, by simpa using ho.issued, fun k => ?_, ?_⟩
  · by_cases hk : k = key <;> simp_all
    exact ho.fresh k m (by simpa using hm)
  · by_cases hk : k = key <;> simp [hk, ho.unmapped k]
  · rw [removeSession_cleaned]
    cases hkey : (sm.sessions key).map SmItem.session with
    | none => simpa using ho.uncleaned
    | some m =>
      have hne : m ≠ n := fun h => ho.unmapped key (h ▸ hkey)
      simp only [Option.toList_some, List.mem_append, List.mem_singleton, not_or]
      exact ⟨ho.uncleaned, Ne.symm hne⟩

/-- Nothing brings an orphaned session back into the map or cleans it up. -/
theorem step_orphan {n : Nat} {sm sm' : SessionManager} {e : SmEvent} (ho : Orphan n sm)
    (h : sm.step e = some sm') : Orphan n sm' := by
  cases e with
  | addSession key now =>
    cases h
    unfold addSession
    split
    · exact ho
    · have hi := ho.issued
      refine ⟨fun k m hm => ?_, Nat.lt_succ_of_lt hi, fun k => ?_, ho.uncleaned⟩
      · show m < sm.nextSession + 1
        dsimp only at hm
        by_cases hk : k = key
        · subst hk
          simp only [Function.update_same, Option.map_some', Option.some.injEq] at hm
          omega
        · rw [Function.update_noteq hk] at hm
          exact Nat.lt_succ_of_lt (ho.fresh k m hm)
      · show (Function.update sm.sessions key _ k).map SmItem.session ≠ some n
        by_cases hk : k = key
        · subst hk
          simp only [Function.update_same, Option.map_some', ne_eq, Option.some.injEq]
          omega
        · rw [Function.update_noteq hk]
          exact ho.unmapped k
  | listenDone key =>
    simp only [step] at h
    split at h <;> cases h
    exact ⟨ho.fresh, ho.issued, ho.unmapped, ho.uncleaned⟩
  | otRelease sid =>
    cases h
    unfold otRelease
    split
    · exact ⟨ho.fresh, ho.issued, ho.unmapped, ho.uncleaned⟩
    · exact ho
  | destroy sid => cases h; exact ho.removeSession sid
  | reap key now =>
    simp only [step] at h
    split at h
    · split at h <;> cases h
      exact ho.removeSession key
    · cases h
  | getSession key now =>
    cases h
    exact ⟨fun k m hm => by simpa using ho.fresh k m (by simpa using hm), by simpa using ho.issued,
      fun k => by simpa using ho.unmapped k, by simpa using ho.uncleaned⟩

theorem run_orphan {n : Nat} {sm : SessionManager} (ho : Orphan n sm) :
    ∀ es sm', sm.run es = some sm' → Orphan n sm' := by
  intro es
  induction es generalizing sm with
  | nil => intro sm' h; cases h; exact ho
  | cons e es ih =>
    intro sm' h
    obtain ⟨sm₁, h₁, h'⟩ := Option.bind_eq_some.1 h
    exact ih (step_orphan ho h₁) sm' h'

/-- While the first session's OT client has not connected, `otOwner` is still
empty, and `AddSession` admits a second session for another id. -/
theorem addSession_admits_during_listen :
    ∃ sm, init.run [.addSession "A" 0] = some sm ∧ "A" ∈ sm.listening ∧
      (sm.sessions "A").isSome ∧ sm.otOwner = "" ∧ (sm.addSession "B" 0).1 = some 1 :=
  ⟨_, rfl, by decide, rfl, rfl, rfl⟩

/-- With the OT free, `AddSession` for an id already in the map returns a new
session and puts it in place of the old one. The old session has left the map
without `removeSession` deleting its files, and no later event brings it back or
cleans it up. -/
theorem addSession_replaces_existing :
    ∃ sm, init.run [.addSession "A" 0] = some sm ∧ sm.sessions "A" = some ⟨0, 0, 0⟩ ∧
      (sm.addSession "A" 5).1 = some 1 ∧ (sm.addSession "A" 5).2.sessions "A" = some ⟨1, 5, 5⟩ ∧
      ∀ es sm', (sm.addSession "A" 5).2.run es = some sm' →
        (∀ k, (sm'.sessions k).map SmItem.session ≠ some 0) ∧ 0 ∉ sm'.cleaned := by
  refine ⟨_, rfl, rfl, rfl, rfl, fun es sm' h => ?_⟩
  have hA : ∀ k, k ≠ "A" → (((init.addSession "A" 0).2.addSession "A" 5).2.sessions k) = none :=
    fun k hk => by simp [addSession, init, Function.update_noteq hk]
  have ho : Orphan 0 ((init.addSession "A" 0).2.addSession "A" 5).2 := by
    refine ⟨fun k m hm => ?_, by decide, fun k => ?_, by decide⟩
    all_goals by_cases hk : k = "A"
    · subst hk; cases hm; decide
    · simp [hA k hk] at hm
    · subst hk; decide
    · simp [hA k hk]
  exact ⟨(run_orphan ho es sm' h).unmapped, (run_orphan ho es sm' h).uncleaned⟩

end SessionManager

end TlsNotary
