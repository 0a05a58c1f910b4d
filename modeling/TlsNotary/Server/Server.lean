import TlsNotary.Server.SessionManager
import TlsNotary.Server.TagVerification

/-!
# Session manager and tag-verification manager together

The two managers share only session ids. A session's prep and poll calls reach the
tag-verification manager through `httpHandler`, which first finds the session in
the session manager's map; removing a session touches only the session manager.
So the server-wide resources are tied to sessions by id alone: `otOwner` is reset
by `removeSession`, the tag-verification owner only by a completing poll.
-/
namespace TlsNotary

structure Server where
  sm : SessionManager
  tv : TagVerificationManager

namespace Server

def init : Server := ⟨.init, .new⟩

/-- The session a tag-verification event is a call of, if it is one. -/
def caller : TvEvent → Option String
  | .prep sid _ _ | .pollCheck sid => some sid
  | _ => none

end Server

/-- A step of either manager. -/
inductive ServerEvent
  | sm (e : SmEvent)
  | tv (e : TvEvent)

namespace Server

/-- One step; a prep or poll call needs its session in the map. -/
def step (s : Server) : ServerEvent → Option Server
  | .sm e => (s.sm.step e).map fun sm => { s with sm }
  | .tv e =>
    if (caller e).all fun sid => (s.sm.sessions sid).isSome then
      (s.tv.step e).map fun r => { s with tv := r.1 }
    else none

def run (s : Server) : List ServerEvent → Option Server
  | [] => some s
  | e :: es => (s.step e).bind (run · es)

/-- Events in which an OT `Listen` returns only for a session still in the map. -/
def Timely (s : Server) : ServerEvent → Prop
  | .sm e => s.sm.Timely e
  | .tv _ => True

/-- States reached from `init` by events that satisfy `P` where they happen. -/
inductive Reachable (P : Server → ServerEvent → Prop) : Server → Prop
  | init : Reachable P init
  | step {s s' : Server} {e : ServerEvent} : Reachable P s → P s e → s.step e = some s' →
      Reachable P s'

theorem step_tv_sm {s s' : Server} {e : TvEvent} (h : s.step (.tv e) = some s') : s'.sm = s.sm := by
  simp only [step] at h
  split at h
  · obtain ⟨_, -, rfl⟩ := Option.map_eq_some'.1 h
    rfl
  · cases h

theorem step_ownerLive {s s' : Server} {e : ServerEvent} (hl : s.sm.OwnerLive) (ht : Timely s e)
    (h : s.step e = some s') : s'.sm.OwnerLive := by
  cases e with
  | sm e =>
    obtain ⟨sm, hsm, rfl⟩ := Option.map_eq_some'.1 h
    exact SessionManager.step_ownerLive hl ht hsm
  | tv e => exact step_tv_sm h ▸ hl

theorem Reachable.run {s s' : Server} (hs : Reachable (fun _ _ => True) s) :
    ∀ es, s.run es = some s' → Reachable (fun _ _ => True) s' := by
  intro es
  induction es generalizing s with
  | nil => intro h; cases h; exact hs
  | cons e es ih =>
    intro h
    obtain ⟨s₁, h₁, h'⟩ := Option.bind_eq_some.1 h
    exact ih (.step hs trivial h₁) h'

/-- `A` owns the OT and starts the tag-verification MPC, and is reaped before it polls. -/
def reapedOwnerSchedule : List ServerEvent :=
  [.sm (.addSession "A" 0), .sm (.listenDone "A"), .tv (.prep "A" true true), .sm (.reap "A" 1201)]

/-- `A` is destroyed before its OT client connects. -/
def lateListenSchedule : List ServerEvent :=
  [.sm (.addSession "A" 0), .sm (.destroy "A"), .sm (.listenDone "A")]

/-- A reaped session keeps the tag-verification MPC, and a session removed before its
OT client connects gets the OT afterwards. -/
theorem removed_session_keeps_owners :
    (∃ s, init.run reapedOwnerSchedule = some s ∧ Reachable (fun _ _ => True) s ∧
      s.tv.owner = "A" ∧ s.sm.sessions "A" = none) ∧
    ∃ s, init.run lateListenSchedule = some s ∧ Reachable (fun _ _ => True) s ∧
      s.sm.otOwner = "A" ∧ s.sm.sessions "A" = none :=
  ⟨⟨_, rfl, Reachable.init.run reapedOwnerSchedule rfl, rfl, rfl⟩,
    ⟨_, rfl, Reachable.init.run lateListenSchedule rfl, rfl, rfl⟩⟩

end Server

end TlsNotary
