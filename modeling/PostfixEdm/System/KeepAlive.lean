import PostfixEdm.Lib.Pulse
import PostfixEdm.Lib.Transition
import PostfixEdm.System.Ticks
import Mathlib.Logic.Function.Basic

/-!
# Heartbeats and timeouts

The ticks of the two ends of a connection, in milliseconds. A step happens at a tick of its own; the timer callbacks
read the clock once, before the heartbeat is sent.

* `KeepAlive.step` : a send, a read or a timer callback at one end;
* `KeepAlive.kept_open` : with callbacks that are not late and messages that are not under way for long, neither end
  times out; `KeepAlive.closes` : an end that hears nothing is closed by its next callback.
-/

namespace PostfixEdm

/-- The two ends of a connection. -/
inductive Endpoint
  | client
  | server
  deriving DecidableEq, Repr

namespace Endpoint

def other : Endpoint → Endpoint
  | client => server
  | server => client

@[simp] theorem other_other (p : Endpoint) : p.other.other = p := by cases p <;> rfl

theorem other_ne (p : Endpoint) : p.other ≠ p := by cases p <;> simp [other]

theorem eq_or_eq_other (p q : Endpoint) : q = p ∨ q = p.other := by cases p <;> cases q <;> simp [other]

def onTimer : Endpoint → UInt64 → UInt64 → Ticks → TimerResult
  | client => ClientConn.onTimerTicks
  | server => ServConn.onTimerTicks

def heartbeatInterval : Endpoint → UInt64
  | client => clientHeartbeatInterval
  | server => serverHeartbeatInterval

/-- How long an end waits for the other one. -/
def timeout : Endpoint → UInt64
  | client => serverTimeout
  | server => clientTimeout

theorem onTimer_eq (p : Endpoint) (currTick tick : UInt64) (c : Ticks) :
    p.onTimer currTick tick c = ImConn.onTimerTicks p.heartbeatInterval p.timeout currTick tick c := by
  cases p <;> rfl

@[simp] theorem lastRecvTick_onTimer (p : Endpoint) (currTick tick : UInt64) (c : Ticks) :
    (p.onTimer currTick tick c).ticks.lastRecvTick = c.lastRecvTick := by
  rw [onTimer_eq]
  unfold ImConn.onTimerTicks
  dsimp only
  split <;> rfl

theorem lastSendTick_onTimer (p : Endpoint) (currTick tick : UInt64) (c : Ticks) :
    (p.onTimer currTick tick c).ticks.lastSendTick = tick ∨
      (p.onTimer currTick tick c).ticks.lastSendTick = c.lastSendTick := by
  rw [onTimer_eq]
  unfold ImConn.onTimerTicks
  dsimp only
  split
  · exact Or.inl rfl
  · exact Or.inr rfl

theorem close_onTimer (p : Endpoint) (currTick tick : UInt64) (c : Ticks) :
    (p.onTimer currTick tick c).close = decide (c.lastRecvTick + p.timeout < currTick) := by
  rw [onTimer_eq]
  rfl

theorem toNat_heartbeatInterval (p : Endpoint) : p.heartbeatInterval.toNat = 5000 := by cases p <;> rfl

theorem toNat_timeout (p : Endpoint) : p.timeout.toNat = 30000 := by cases p <;> rfl

end Endpoint

/-- A connection: the tick of the last step, the last callback of each end, or the tick when it was made, and the ticks
at which the messages under way were sent, oldest first. -/
structure KeepAlive where
  now : UInt64
  ends : Endpoint → Ticks
  passes : Endpoint → UInt64
  underWay : Endpoint → List UInt64
  isOpen : Endpoint → Bool

/-- A step at a tick. A read takes any number of messages, or a part of one. -/
inductive KeepAliveAct
  | send (p : Endpoint) (tick : UInt64)
  | recv (p : Endpoint) (tick : UInt64) (messages : Nat)
  | timer (p : Endpoint) (currTick tick : UInt64)

def KeepAliveAct.tick : KeepAliveAct → UInt64
  | send _ tick | recv _ tick _ | timer _ _ tick => tick

def KeepAliveAct.endpoint : KeepAliveAct → Endpoint
  | send p _ | recv p _ _ | timer p _ _ => p

namespace KeepAlive

/-- Each end is made at a tick of its own, the client's by `connect_server` and the server's when it accepts. -/
def init (made : Endpoint → UInt64) : KeepAlive :=
  ⟨0, fun p => ⟨made p, made p⟩, made, fun _ => [], fun _ => true⟩

def apply (s : KeepAlive) : KeepAliveAct → KeepAlive
  | .send p tick =>
    { s with
      now := tick
      ends := Function.update s.ends p { s.ends p with lastSendTick := tick }
      underWay := Function.update s.underWay p (s.underWay p ++ [tick]) }
  | .recv p tick messages =>
    { s with
      now := tick
      ends := Function.update s.ends p { s.ends p with lastRecvTick := tick }
      underWay := Function.update s.underWay p.other ((s.underWay p.other).drop messages) }
  | .timer p currTick tick =>
    let r := p.onTimer currTick tick (s.ends p)
    { now := tick
      ends := Function.update s.ends p r.ticks
      passes := Function.update s.passes p currTick
      underWay := if r.heartbeat then Function.update s.underWay p (s.underWay p ++ [tick]) else s.underWay
      isOpen := Function.update s.isOpen p (!r.close) }

/-- The clocks do not run backwards; an end does nothing before it is made, and nothing when it is closed. -/
def step (a : KeepAliveAct) (s : KeepAlive) : Option KeepAlive :=
  if s.isOpen a.endpoint ∧ s.now ≤ a.tick ∧ s.passes a.endpoint ≤ a.tick then
    match a with
    | .timer p currTick tick => if s.passes p ≤ currTick ∧ currTick ≤ tick then some (s.apply a) else none
    | _ => some (s.apply a)
  else none

/-- What an end sends, with the clock that the other end has of it. -/
def pulse (s : KeepAlive) (p : Endpoint) : Pulse :=
  ⟨(s.ends p).lastSendTick.toNat, (s.passes p).toNat, (s.ends p.other).lastRecvTick.toNat,
    (s.underWay p).map UInt64.toNat⟩

/-- No callback is late by then, nothing is under way for longer than the delay, and ticks do not wrap. -/
structure Prompt (period delay : Nat) (s : KeepAlive) (a : KeepAliveAct) : Prop where
  range : a.tick.toNat < 2 ^ 63
  timely : ∀ p, (s.pulse p).Timely period delay a.tick.toNat

/-- The ticks of an end are not ahead of the clock, or it is still to be made. -/
structure Clocked (s : KeepAlive) (p : Endpoint) : Prop where
  range : s.now.toNat < 2 ^ 63 ∧ (s.passes p).toNat < 2 ^ 63
  sent : (s.ends p).lastSendTick.toNat ≤ max s.now.toNat (s.passes p).toNat
  recvd : (s.ends p).lastRecvTick.toNat ≤ max s.now.toNat (s.passes p).toNat

/-- Both pulses beat, both ends are open and no clock is ahead. -/
structure Inv (period skew : Nat) (s : KeepAlive) : Prop where
  clocked : ∀ p, s.Clocked p
  beats : ∀ p, (s.pulse p).Beats 5000 period skew s.now.toNat
  isOpen : ∀ p, s.isOpen p = true

theorem clocked_init {made : Endpoint → UInt64} {p : Endpoint} (h : (made p).toNat < 2 ^ 63) : (init made).Clocked p :=
  ⟨⟨Nat.two_pow_pos 63, h⟩, Nat.le_max_right .., Nat.le_max_right ..⟩

theorem inv_init (period : Nat) {skew : Nat} {made : Endpoint → UInt64} (h : ∀ p, (made p).toNat < 2 ^ 63)
    (hskew : ∀ p : Endpoint, (made p).toNat ≤ (made p.other).toNat + skew) : Inv period skew (init made) where
  clocked := fun p => clocked_init (h p)
  beats := fun p => ⟨⟨(made p).toNat, hskew p, List.isChain_singleton _, rfl⟩, Nat.le_add_right _ _, fun _ hm =>
    absurd hm List.not_mem_nil⟩
  isOpen := fun _ => rfl

/-! ## What a step does to an end -/

section Ends
variable {s : KeepAlive} {p : Endpoint} {currTick tick : UInt64}

@[simp] theorem ends_send : (s.apply (.send p tick)).ends p = { s.ends p with lastSendTick := tick } :=
  Function.update_self ..

@[simp] theorem ends_recv (messages : Nat) :
    (s.apply (.recv p tick messages)).ends p = { s.ends p with lastRecvTick := tick } :=
  Function.update_self ..

@[simp] theorem ends_timer : (s.apply (.timer p currTick tick)).ends p = (p.onTimer currTick tick (s.ends p)).ticks :=
  Function.update_self ..

@[simp] theorem passes_timer : (s.apply (.timer p currTick tick)).passes p = currTick := Function.update_self ..

@[simp] theorem isOpen_timer : (s.apply (.timer p currTick tick)).isOpen p =
    !(p.onTimer currTick tick (s.ends p)).close :=
  Function.update_self ..

end Ends

/-! ## What a step does to the two pulses -/

section Pulses
variable {s : KeepAlive} {p : Endpoint} {tick : UInt64}

theorem pulse_send : (s.apply (.send p tick)).pulse p = (s.pulse p).send tick.toNat := by
  simp [pulse, apply, Pulse.send, Endpoint.other_ne]

theorem pulse_send_other : (s.apply (.send p tick)).pulse p.other = s.pulse p.other := by
  simp [pulse, apply, Endpoint.other_ne]

theorem pulse_recv (messages : Nat) :
    (s.apply (.recv p tick messages)).pulse p.other = (s.pulse p.other).recv tick.toNat messages := by
  simp [pulse, apply, Pulse.recv, Endpoint.other_ne, List.map_drop]

theorem pulse_recv_other (messages : Nat) : (s.apply (.recv p tick messages)).pulse p = s.pulse p := by
  simp [pulse, apply, Endpoint.other_ne, (Endpoint.other_ne p).symm]

/-- The test of `OnTimer`, while ticks are below `2^63`. -/
theorem due_iff {last interval : UInt64} (curr : UInt64) {n : Nat} (hn : interval.toNat = n) (hsmall : n < 2 ^ 62)
    (h : last.toNat < 2 ^ 63) : last + interval < curr ↔ last.toNat + n < curr.toNat := by
  rw [UInt64.lt_iff_toNat_lt, UInt64.toNat_add, hn, Nat.mod_eq_of_lt (by omega)]

theorem pulse_timer (h : (s.ends p).lastSendTick.toNat < 2 ^ 63) (currTick : UInt64) :
    (s.apply (.timer p currTick tick)).pulse p = (s.pulse p).pass 5000 currTick.toNat tick.toNat := by
  have hdue := due_iff currTick p.toNat_heartbeatInterval (by decide) h
  by_cases hlt : (s.ends p).lastSendTick + p.heartbeatInterval < currTick
  · simp [pulse, apply, Pulse.pass, Endpoint.onTimer_eq, ImConn.onTimerTicks, hlt, hdue.mp hlt, Pulse.send,
      Endpoint.other_ne]
  · have hnot : ¬ (s.ends p).lastSendTick.toNat + 5000 < currTick.toNat := fun hn => hlt (hdue.mpr hn)
    simp [pulse, apply, Pulse.pass, Endpoint.onTimer_eq, ImConn.onTimerTicks, hlt, hnot]

theorem pulse_timer_other (currTick : UInt64) : (s.apply (.timer p currTick tick)).pulse p.other = s.pulse p.other := by
  by_cases hlt : (s.ends p).lastSendTick + p.heartbeatInterval < currTick
  · simp [pulse, apply, Endpoint.onTimer_eq, ImConn.onTimerTicks, hlt, Endpoint.other_ne]
  · simp [pulse, apply, Endpoint.onTimer_eq, ImConn.onTimerTicks, hlt, Endpoint.other_ne]

end Pulses

/-! ## Runs in which nothing is late -/

section Steps
variable {period skew delay : Nat} {s s' : KeepAlive} {a : KeepAliveAct} {p : Endpoint}

/-- What every step needs of its tick. -/
structure Ready (s : KeepAlive) (a : KeepAliveAct) : Prop where
  now : s.now.toNat ≤ a.tick.toNat
  made : (s.passes a.endpoint).toNat ≤ a.tick.toNat
  curr : ∀ p currTick tick, a = .timer p currTick tick → (s.passes p).toNat ≤ currTick.toNat ∧
    currTick.toNat ≤ tick.toNat

theorem step_eq_some (h : step a s = some s') : s' = s.apply a ∧ s.Ready a := by
  unfold step at h
  split at h
  · next hguard =>
    obtain ⟨-, hnow, hmade⟩ := hguard
    rw [UInt64.le_iff_toNat_le] at hnow hmade
    cases a with
    | send p tick | recv p tick messages =>
      cases h
      exact ⟨rfl, hnow, hmade, fun _ _ _ h => by cases h⟩
    | timer p currTick tick =>
      simp only [Option.ite_none_right_eq_some, Option.some.injEq] at h
      obtain ⟨hcurr, rfl⟩ := h
      refine ⟨rfl, hnow, hmade, fun _ _ _ h => ?_⟩
      cases h
      exact ⟨UInt64.le_iff_toNat_le.mp hcurr.1, UInt64.le_iff_toNat_le.mp hcurr.2⟩
  · cases h

theorem apply_now (s : KeepAlive) (a : KeepAliveAct) : (s.apply a).now = a.tick := by cases a <;> rfl

/-- An end that does something is made. -/
theorem Clocked.recvd_le (h : s.Clocked a.endpoint) (hready : s.Ready a) :
    (s.ends a.endpoint).lastRecvTick.toNat ≤ a.tick.toNat :=
  h.recvd.trans (Nat.max_le.mpr ⟨hready.now, hready.made⟩)

theorem Clocked.sent_le (h : s.Clocked a.endpoint) (hready : s.Ready a) :
    (s.ends a.endpoint).lastSendTick.toNat ≤ a.tick.toNat :=
  h.sent.trans (Nat.max_le.mpr ⟨hready.now, hready.made⟩)

/-- The other end keeps its ticks. -/
theorem apply_of_ne (hp : p ≠ a.endpoint) : (s.apply a).ends p = s.ends p ∧ (s.apply a).passes p = s.passes p ∧
    (s.apply a).isOpen p = s.isOpen p := by
  cases a with
  | send q tick | recv q tick messages => exact ⟨Function.update_of_ne hp .., rfl, rfl⟩
  | timer q currTick tick =>
    exact ⟨Function.update_of_ne hp .., Function.update_of_ne hp .., Function.update_of_ne hp ..⟩

/-- The ticks that are kept stay behind the clock. -/
theorem Clocked.step (h : s.Clocked p) (hready : s.Ready a) (hrange : a.tick.toNat < 2 ^ 63) :
    (s.apply a).Clocked p := by
  by_cases hp : p = a.endpoint
  · subst hp
    have hsent := h.sent_le hready
    have hrecvd := h.recvd_le hready
    cases a with
    | send p tick =>
      refine ⟨⟨hrange, h.range.2⟩, ?_, ?_⟩
      · rw [KeepAliveAct.endpoint, ends_send]
        exact Nat.le_max_left ..
      · rw [KeepAliveAct.endpoint, ends_send]
        exact hrecvd.trans (Nat.le_max_left ..)
    | recv p tick messages =>
      refine ⟨⟨hrange, h.range.2⟩, ?_, ?_⟩
      · rw [KeepAliveAct.endpoint, ends_recv]
        exact hsent.trans (Nat.le_max_left ..)
      · rw [KeepAliveAct.endpoint, ends_recv]
        exact Nat.le_max_left ..
    | timer p currTick tick =>
      obtain ⟨-, hcurr⟩ := hready.curr p currTick tick rfl
      refine ⟨⟨hrange, ?_⟩, ?_, ?_⟩
      · rw [KeepAliveAct.endpoint, passes_timer]
        exact Nat.lt_of_le_of_lt hcurr hrange
      · rw [KeepAliveAct.endpoint, ends_timer]
        rcases p.lastSendTick_onTimer currTick tick (s.ends p) with heq | heq
        · rw [heq]
          exact Nat.le_max_left ..
        · rw [heq]
          exact hsent.trans (Nat.le_max_left ..)
      · rw [KeepAliveAct.endpoint, ends_timer, Endpoint.lastRecvTick_onTimer]
        exact hrecvd.trans (Nat.le_max_left ..)
  · obtain ⟨hends, hpasses, -⟩ := apply_of_ne (s := s) hp
    have hmax := max_le_max_right (s.passes p).toNat hready.now
    constructor
    case range => exact ⟨apply_now s a ▸ hrange, hpasses ▸ h.range.2⟩
    case sent =>
      rw [hends, hpasses, apply_now]
      exact h.sent.trans hmax
    case recvd =>
      rw [hends, hpasses, apply_now]
      exact h.recvd.trans hmax

theorem Clocked.sent_lt (h : s.Clocked p) : (s.ends p).lastSendTick.toNat < 2 ^ 63 :=
  Nat.lt_of_le_of_lt h.sent (Nat.max_lt.mpr h.range)

theorem Clocked.recvd_lt (h : s.Clocked p) : (s.ends p).lastRecvTick.toNat < 2 ^ 63 :=
  Nat.lt_of_le_of_lt h.recvd (Nat.max_lt.mpr h.range)

/-- The pulses go on beating. -/
theorem Inv.beats_apply (h : s.Inv period skew) (hready : s.Ready a) (hprompt : s.Prompt period delay a)
    (q : Endpoint) : ((s.apply a).pulse q).Beats 5000 period skew a.tick.toNat := by
  have hkeep := (h.beats q).mono hready.now
  have hlate := (hprompt.timely q).pass
  rcases Endpoint.eq_or_eq_other a.endpoint q with rfl | rfl
  · cases a with
    | send p tick =>
      have hpass : (s.pulse p).lastPass ≤ tick.toNat := hready.made
      simp only [KeepAliveAct.endpoint, pulse_send]
      exact (h.beats p).send hready.now hlate (hpass.trans (Nat.le_add_right _ _))
    | recv p tick messages =>
      simp only [KeepAliveAct.endpoint, pulse_recv_other]
      exact hkeep
    | timer p currTick tick =>
      simp only [KeepAliveAct.endpoint, pulse_timer (h.clocked p).sent_lt]
      exact (h.beats p).pass_of hready.now (hready.curr p currTick tick rfl).2 hlate
  · cases a with
    | send p tick =>
      simp only [KeepAliveAct.endpoint, pulse_send_other]
      exact hkeep
    | recv p tick messages =>
      have hrecv : (s.pulse p.other).lastRecv ≤ tick.toNat := by
        simp only [pulse, Endpoint.other_other]
        exact (h.clocked p).recvd_le hready
      simp only [KeepAliveAct.endpoint, pulse_recv]
      exact (h.beats p.other).recv hready.now hrecv messages
    | timer p currTick tick =>
      simp only [KeepAliveAct.endpoint, pulse_timer_other]
      exact hkeep

/-- An end that is called back in time has heard from the other one. -/
theorem Inv.not_timedOut (h : s.Inv period skew) (hprompt : s.Prompt period delay a)
    (hmargin : 5000 + period + delay + skew ≤ 30000) (p : Endpoint) {currTick : UInt64}
    (hcurr : currTick.toNat ≤ a.tick.toNat) : ¬ (s.ends p).lastRecvTick + p.timeout < currTick := by
  have hheard := (h.beats p.other).heard (hprompt.timely p.other)
  simp only [pulse, Endpoint.other_other] at hheard
  rw [due_iff _ p.toNat_timeout (by decide) (h.clocked p).recvd_lt]
  omega

theorem Inv.step (h : s.Inv period skew) (hprompt : s.Prompt period delay a)
    (hmargin : 5000 + period + delay + skew ≤ 30000) (hstep : KeepAlive.step a s = some s') : s'.Inv period skew := by
  obtain ⟨rfl, hready⟩ := step_eq_some hstep
  constructor
  case clocked => exact fun p => (h.clocked p).step hready hprompt.range
  case beats =>
    rw [apply_now]
    exact h.beats_apply hready hprompt
  case isOpen =>
    intro p
    by_cases hp : p = a.endpoint
    · subst hp
      cases a with
      | send q tick | recv q tick messages => exact h.isOpen q
      | timer q currTick tick =>
        have hno := h.not_timedOut hprompt hmargin q (hready.curr q currTick tick rfl).2
        rw [KeepAliveAct.endpoint, isOpen_timer, Endpoint.close_onTimer, decide_eq_false hno]
        rfl
    · rw [(apply_of_ne hp).2.2]
      exact h.isOpen p

end Steps

/-- When callbacks come every `period` and messages arrive within `delay`, neither end is ever closed by its timer, as
long as the two leave time within the timeout for a heartbeat interval and for the time between the makings of the two
ends. -/
theorem kept_open {period delay skew : Nat} (hmargin : 5000 + period + delay + skew ≤ 30000) {made : Endpoint → UInt64}
    (hmade : ∀ p, (made p).toNat < 2 ^ 63) (hskew : ∀ p : Endpoint, (made p).toNat ≤ (made p.other).toNat + skew)
    {s : KeepAlive} (h : Transition.Reaches step (fun s a => s.Prompt period delay a) (init made) s) :
    s.isOpen .client = true ∧ s.isOpen .server = true := by
  have hinv : s.Inv period skew :=
    h.invariant (inv_init period hmade hskew) fun _ _ _ hi hp hs => hi.step hp hmargin hs
  exact ⟨hinv.isOpen .client, hinv.isOpen .server⟩

/-- The server's end is made two ticks after the client's. -/
def madeLater : Endpoint → UInt64
  | .client => 0
  | .server => 2

/-- A heartbeat of each end; the client's arrives as late as it may. -/
theorem kept_open_late :
    let s₁ := (init madeLater).apply (.timer .client 5001 5001)
    let s₂ := s₁.apply (.timer .server 5003 5004)
    let s := s₂.apply (.recv .server 14999 1)
    s₂.underWay .client = [5001] ∧ s.underWay .client = [] ∧ (s.isOpen .client = true ∧ s.isOpen .server = true) := by
  intro s₁ s₂ s
  have hfirst : (init madeLater).Prompt 15000 9998 (.timer .client 5001 5001) :=
    ⟨by decide, fun p => by cases p <;> exact ⟨by decide, by decide⟩⟩
  have hsecond : s₁.Prompt 15000 9998 (.timer .server 5003 5004) :=
    ⟨by decide, fun p => by cases p <;> exact ⟨by decide, by decide⟩⟩
  have hthird : s₂.Prompt 15000 9998 (.recv .server 14999 1) :=
    ⟨by decide, fun p => by cases p <;> exact ⟨by decide, by decide⟩⟩
  have h₁ : step (.timer .client 5001 5001) (init madeLater) = some s₁ := rfl
  have h₂ : step (.timer .server 5003 5004) s₁ = some s₂ := rfl
  have h₃ : step (.recv .server 14999 1) s₂ = some s := if_pos ⟨by decide, by decide, by decide⟩
  have hreach : Transition.Reaches step (fun s a => s.Prompt 15000 9998 a) (init madeLater) s :=
    .step _ (.step _ (.step _ .start hfirst h₁) hsecond h₂) hthird h₃
  have hmade : ∀ p, (madeLater p).toNat < 2 ^ 63 := fun p => by cases p <;> decide
  have hskew : ∀ p : Endpoint, (madeLater p).toNat ≤ (madeLater p.other).toNat + 2 := fun p => by cases p <;> decide
  exact ⟨by decide, by decide, @kept_open 15000 9998 2 (by omega) madeLater hmade hskew s hreach⟩

/-! ## Runs in which the other end is silent -/

/-- The callbacks of this end are not late; the other end and the network may do anything. -/
structure OnTime (period : Nat) (p : Endpoint) (s : KeepAlive) (a : KeepAliveAct) : Prop where
  range : a.tick.toNat < 2 ^ 63
  pass : s.isOpen p = true → a.tick.toNat ≤ (s.passes p).toNat + period

/-- While it is open, the last callback was at most a timeout after the last reception. -/
structure Watched (p : Endpoint) (s : KeepAlive) : Prop where
  clocked : s.Clocked p
  passed : s.isOpen p = true → (s.passes p).toNat ≤ (s.ends p).lastRecvTick.toNat + 30000

theorem Watched.step {p : Endpoint} {s s' : KeepAlive} (h : s.Watched p) {a : KeepAliveAct}
    (hrange : a.tick.toNat < 2 ^ 63) (hstep : KeepAlive.step a s = some s') : s'.Watched p := by
  obtain ⟨rfl, hready⟩ := step_eq_some hstep
  refine ⟨h.clocked.step hready hrange, ?_⟩
  by_cases hp : p = a.endpoint
  · subst hp
    cases a with
    | send p tick =>
      rw [KeepAliveAct.endpoint, ends_send]
      exact h.passed
    | recv p tick messages =>
      rw [KeepAliveAct.endpoint, ends_recv]
      intro hopen
      exact (h.passed hopen).trans (Nat.add_le_add_right (h.clocked.recvd_le hready) 30000)
    | timer p currTick tick =>
      have hdue : (s.ends p).lastRecvTick + p.timeout < currTick ↔
          (s.ends p).lastRecvTick.toNat + 30000 < currTick.toNat :=
        due_iff currTick p.toNat_timeout (by decide) h.clocked.recvd_lt
      rw [KeepAliveAct.endpoint, isOpen_timer, passes_timer, ends_timer, Endpoint.lastRecvTick_onTimer,
        Endpoint.close_onTimer, Bool.not_eq_true', decide_eq_false_iff_not, hdue]
      exact Nat.le_of_not_lt
  · obtain ⟨hends, hpasses, hopen⟩ := apply_of_ne (s := s) hp
    rw [hends, hpasses, hopen]
    exact h.passed

/-- As long as an end is open and its callbacks are not late, it has received something, or was made, within the
timeout and a period. -/
theorem closes {period : Nat} {p : Endpoint} {made : Endpoint → UInt64} (hmade : (made p).toNat < 2 ^ 63)
    {s : KeepAlive} (h : Transition.Reaches step (fun s a => OnTime period p s a) (init made) s) {a : KeepAliveAct}
    (ha : OnTime period p s a) (hopen : s.isOpen p = true) :
    a.tick.toNat ≤ (s.ends p).lastRecvTick.toNat + 30000 + period := by
  have hwatched : s.Watched p := h.invariant
    ⟨clocked_init hmade, fun _ => Nat.le_add_right _ _⟩ fun _ _ _ hi hp hs => hi.step hp.range hs
  have := hwatched.passed hopen
  have := ha.pass hopen
  omega

/-- A server that has heard nothing since it was made is called back for the second time. -/
theorem closes_silent :
    let s := (init madeLater).apply (.timer .server 30002 30002)
    let a : KeepAliveAct := .timer .server 35000 35000
    s.isOpen .server = true ∧ a.tick.toNat ≤ (s.ends .server).lastRecvTick.toNat + 30000 + 30000 ∧
      (s.apply a).isOpen .server = false := by
  intro s a
  have hfirst : OnTime 30000 .server (init madeLater) (.timer .server 30002 30002) := ⟨by decide, fun _ => by decide⟩
  exact ⟨by decide, closes (show (madeLater .server).toNat < 2 ^ 63 by decide)
    (.step (.timer .server 30002 30002) .start hfirst rfl) ⟨by decide, fun _ => by decide⟩ (by decide), by decide⟩

end KeepAlive

end PostfixEdm
