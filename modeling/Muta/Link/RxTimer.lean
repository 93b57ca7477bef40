import Mathlib.Logic.Relation
import Muta.Link.RxStep

/-!
# The DHCP client and its timer

The client and the timer are two objects kept in step only by the order of the calls
that change them. `InStep` is what ties them together; it holds at the start of the
thread and survives every frame and every expiry, whatever the clock says.
-/

namespace Muta.Link.Rx

open Usb Act Netstack Dhcp
set_option autoImplicit false

variable {hostMac : MacAddr} {clock : Nat → Instant}

/-- What `due` returns and changes. -/
inductive DueStep (clock : Nat → Instant) (s : Rx) : Option Bytes → Rx → Prop where
  | early : clock s.reads < s.timer.next → DueStep clock s none { s with reads := s.reads + 1 }
  | renew (lease : Lease) (msg : Bytes) : s.timer.next ≤ clock s.reads →
      s.timer.renewAt.isSome = true → s.dhcp.lease = some lease →
      msg = message { s.dhcp with state := .renewing } requestType lease.ip none none →
      DueStep clock s (some msg)
        { s with
          dhcp := { s.dhcp with state := .renewing }
          timer :=
            { next := clock (s.reads + 1) + dhcpRetryMin, backoff := dhcpRetryMin, renewAt := none }
          reads := s.reads + 2 }
  | lost : s.timer.next ≤ clock s.reads → s.timer.renewAt.isSome = true → s.dhcp.lease = none →
      DueStep clock s none
        { s with
          timer :=
            { next := clock (s.reads + 1) + dhcpRetryMin, backoff := dhcpRetryMin, renewAt := none }
          reads := s.reads + 2 }
  | resend (msg : Bytes) : s.timer.next ≤ clock s.reads → s.timer.renewAt = none →
      s.dhcp.pending = some msg →
      DueStep clock s (some msg)
        { s with
          timer :=
            { next := clock (s.reads + 1) + min (s.timer.backoff * 2) dhcpRetryMax
              backoff := min (s.timer.backoff * 2) dhcpRetryMax, renewAt := none }
          reads := s.reads + 2 }
  | rediscover (msg : Bytes) : s.timer.next ≤ clock s.reads → s.timer.renewAt = none →
      s.dhcp.pending = none → msg = message s.dhcp.fresh discoverType .unspecified none none →
      DueStep clock s (some msg)
        { s with
          dhcp := s.dhcp.fresh
          timer :=
            { next := clock (s.reads + 1) + min (s.timer.backoff * 2) dhcpRetryMax
              backoff := min (s.timer.backoff * 2) dhcpRetryMax, renewAt := none }
          reads := s.reads + 2 }

theorem due_step (s : Rx) : ∃ r t, due clock s = (.ok r, t) ∧ DueStep clock s r t := by
  obtain ⟨dhcp, ⟨next, backoff, renewAt⟩, arp, reads, log⟩ := s
  have hnow : now clock ⟨dhcp, ⟨next, backoff, renewAt⟩, arp, reads, log⟩ =
    (.ok (clock reads), ⟨dhcp, ⟨next, backoff, renewAt⟩, arp, reads + 1, log⟩) := rfl
  unfold due
  rw [bind_apply_ok _ _ hnow]
  simp only [bind_apply, state_apply]
  by_cases hearly : clock reads < next
  · rw [if_pos hearly]
    exact ⟨_, _, rfl, .early hearly⟩
  · rw [if_neg hearly]
    have hle := Nat.le_of_not_lt hearly
    cases renewAt with
    | some renewal =>
      cases hl : dhcp.lease with
      | none =>
        refine ⟨_, _, ?_, .lost hle rfl hl⟩
        simp [bind_apply, state_apply, onDhcp, zoom, now, DhcpClient.renew_none hl]
      | some lease =>
        refine ⟨_, _, ?_, .renew lease _ hle rfl hl rfl⟩
        simp [bind_apply, state_apply, onDhcp, zoom, now, DhcpClient.renew_eq hl]
    | none =>
      cases hp : dhcp.pending with
      | some msg =>
        refine ⟨_, _, ?_, .resend msg hle rfl hp⟩
        simp [bind_apply, state_apply, onDhcp, zoom, now, DhcpClient.retransmit_eq, hp]
      | none =>
        refine ⟨_, _, ?_, .rediscover _ hle rfl hp rfl⟩
        simp [bind_apply, state_apply, onDhcp, zoom, now, DhcpClient.retransmit_eq, hp,
          DhcpClient.discover_eq]

theorem DueStep.length {s t : Rx} {msg : Bytes} (h : DueStep clock s (some msg) t) :
    msg.length = 300 := by
  cases h with
  | renew lease _ _ _ _ hmsg => rw [hmsg, length_message]
  | resend _ _ _ hp => exact DhcpClient.length_pending hp
  | rediscover _ _ _ _ hmsg => rw [hmsg, length_message]

theorem poll_step (s : Rx) : ∃ r t new, DueStep clock s r t ∧
    poll hostMac clock s = (.ok (), { t with log := t.log ++ new }) ∧
    (∀ e ∈ new, ∃ frame, e = .queue frame) := by
  obtain ⟨r, t, hdue, hstep⟩ := @due_step clock s
  unfold poll
  rw [bind_apply_ok _ _ hdue]
  cases r with
  | none => exact ⟨none, t, [], hstep, by simp, by simp⟩
  | some msg =>
    obtain ⟨frame, _, hsend⟩ := sendDhcp_eq hostMac (Nat.le_trans (Nat.le_of_eq hstep.length) (by decide)) t
    exact ⟨some msg, t, [.queue frame], hstep, hsend, by simp⟩

theorem start_sends (s : Rx) : ∃ frame,
    IsDhcpFrame hostMac (message s.dhcp.fresh discoverType .unspecified none none) frame ∧
    start hostMac clock s = (.ok (),
      { s with
        dhcp := s.dhcp.fresh
        timer := { next := clock s.reads + dhcpRetryMin, backoff := dhcpRetryMin, renewAt := none }
        reads := s.reads + 1, log := s.log ++ [.queue frame] }) := by
  obtain ⟨frame, hframe, hsend⟩ := sendDhcp_eq hostMac
    (Nat.le_trans (Nat.le_of_eq (length_message s.dhcp.fresh discoverType .unspecified none none))
      (by decide))
    { s with
      dhcp := s.dhcp.fresh
      timer := { next := clock s.reads + dhcpRetryMin, backoff := dhcpRetryMin, renewAt := none }
      reads := s.reads + 1 }
  refine ⟨frame, hframe, ?_⟩
  rw [← hsend]
  simp [start, bind_apply, now, onDhcp, zoom, DhcpClient.discover_eq]

theorem start_eq (s : Rx) : ∃ frame,
    start hostMac clock s = (.ok (),
      { s with
        dhcp := s.dhcp.fresh
        timer := { next := clock s.reads + dhcpRetryMin, backoff := dhcpRetryMin, renewAt := none }
        reads := s.reads + 1, log := s.log ++ [.queue frame] }) := by
  obtain ⟨frame, _, hstart⟩ := @start_sends hostMac clock s
  exact ⟨frame, hstart⟩

/-- One thing that happens to the thread's state: a packet or a whole transfer, the
check of the timer, or a request noted by the tunnel's reader. -/
inductive Step (hostMac : MacAddr) (clock : Nat → Instant) (s : Rx) : Rx → Prop where
  | ipv4 (srcMac : MacAddr) (packet : Bytes) :
      Step hostMac clock s (handleIpv4 hostMac clock srcMac packet s).2
  | transfer (data : Bytes) : Step hostMac clock s (handleTransfer hostMac clock data s).2
  | poll : Step hostMac clock s (poll hostMac clock s).2
  | request (lastRequest : Ipv4Addr → Option Instant) :
      Step hostMac clock s { s with arp := { s.arp with lastRequest := lastRequest } }

abbrev Run (hostMac : MacAddr) (clock : Nat → Instant) : Rx → Rx → Prop :=
  Relation.ReflTransGen (Step hostMac clock)

def Reachable (hostMac : MacAddr) (clock : Nat → Instant) (s : Rx) : Prop :=
  Run hostMac clock (start hostMac clock (initial hostMac)).2 s

/-- The client and its timer agree. -/
structure InStep (s : Rx) : Prop where
  renewAt : s.timer.renewAt.isSome = true ↔ s.dhcp.state = .bound
  lease : s.dhcp.lease.isSome = true ↔ s.dhcp.state = .bound ∨ s.dhcp.state = .renewing
  offered : s.dhcp.state = .requesting → s.dhcp.offered.isSome = true
  backoff : dhcpRetryMin ≤ s.timer.backoff ∧ s.timer.backoff ≤ dhcpRetryMax

theorem retryMin_le_retryMax : dhcpRetryMin ≤ dhcpRetryMax := by decide

theorem DhcpStep.inStep {s t : Rx} {srcMac : MacAddr} {d : UdpDatagram} (h : InStep s)
    (hstep : DhcpStep hostMac clock s srcMac d t) : InStep t := by
  cases hstep with
  | unused r _ => exact ⟨h.renewAt, h.lease, h.offered, h.backoff⟩
  | offer c msg frame hout _ =>
    cases hout with
    | offer p _ _ _ _ _ hs _ =>
      refine ⟨?_, ?_, fun _ => rfl, h.backoff⟩
      · simp [h.renewAt, hs]
      · simp [h.lease, hs]
  | ack c lease hout =>
    cases hout with
    | ack p _ _ _ _ _ _ _ =>
      exact ⟨by simp, by simp, by simp, Nat.le_refl _, retryMin_le_retryMax⟩
  | nak c hout =>
    cases hout with
    | nak p _ _ _ _ _ =>
      exact ⟨by simp, by simp, by simp, Nat.le_refl _, retryMin_le_retryMax⟩

theorem FrameStep.inStep {s t : Rx} {c : Class} (h : InStep s)
    (hstep : FrameStep hostMac clock s c t) : InStep t := by
  cases hstep with
  | skip => exact h
  | sink packet => exact ⟨h.renewAt, h.lease, h.offered, h.backoff⟩
  | arpBad payload e _ => exact ⟨h.renewAt, h.lease, h.offered, h.backoff⟩
  | arp payload p reply _ => exact ⟨h.renewAt, h.lease, h.offered, h.backoff⟩
  | dhcp srcMac d _ hd => exact hd.inStep h

theorem pending_eq_none {s : Rx} (h : InStep s) (hr : s.timer.renewAt = none) :
    s.dhcp.pending = none ↔ s.dhcp.state = .init := by
  have hbound : s.dhcp.state ≠ .bound := by
    intro hb
    have hsome := h.renewAt.mpr hb
    rw [hr] at hsome
    cases hsome
  have hlease := h.lease
  unfold DhcpClient.pending
  cases hs : s.dhcp.state with
  | init => simp
  | selecting => simp
  | requesting => simp
  | bound => exact absurd hs hbound
  | renewing =>
    obtain ⟨lease, hl⟩ := Option.isSome_iff_exists.mp (hlease.mpr (Or.inr hs))
    simp [hl]

theorem doubled_within {b lo hi : Nat} (h : lo ≤ b) (hlo : lo ≤ hi) :
    lo ≤ min (b * 2) hi ∧ min (b * 2) hi ≤ hi := by
  omega

theorem DueStep.inStep {s t : Rx} {r : Option Bytes} (h : InStep s)
    (hstep : DueStep clock s r t) : InStep t := by
  have hdouble : dhcpRetryMin ≤ min (s.timer.backoff * 2) dhcpRetryMax ∧
      min (s.timer.backoff * 2) dhcpRetryMax ≤ dhcpRetryMax :=
    doubled_within h.backoff.1 retryMin_le_retryMax
  cases hstep with
  | early _ => exact ⟨h.renewAt, h.lease, h.offered, h.backoff⟩
  | renew lease _ _ _ hl _ =>
    exact ⟨by simp, by simp [hl], by simp, Nat.le_refl _, retryMin_le_retryMax⟩
  | lost _ hr hl =>
    have hsome := h.lease.mpr (Or.inl (h.renewAt.mp hr))
    rw [hl] at hsome
    cases hsome
  | resend msg _ hr _ =>
    have hren := h.renewAt
    rw [hr] at hren
    exact ⟨hren, h.lease, h.offered, hdouble⟩
  | rediscover _ _ hr hp _ =>
    have hinit := (pending_eq_none h hr).mp hp
    have hlease := h.lease
    rw [hinit] at hlease
    refine ⟨by simp, ?_, by simp, hdouble⟩
    simpa using hlease

/-- From `s` to `t` the log has grown, and a lease held in `s` is still held in `t`
unless the client has handled a NAK on the way. -/
def HoldsLease (s t : Rx) : Prop := ∃ new, t.log = s.log ++ new ∧
  (s.dhcp.lease.isSome = true →
    t.dhcp.lease.isSome = true ∨ ∃ msg, Effect.handled msg (.ok .nak) ∈ new)

theorem HoldsLease.of_kept {s t : Rx} (new : List Effect) (hlog : t.log = s.log ++ new)
    (hlease : t.dhcp.lease = s.dhcp.lease) : HoldsLease s t := by
  refine ⟨new, hlog, fun hs => Or.inl ?_⟩
  rw [hlease]
  exact hs

theorem HoldsLease.refl (s : Rx) : HoldsLease s s :=
  HoldsLease.of_kept [] (List.append_nil _).symm rfl

theorem HoldsLease.trans {s t u : Rx} (h₁ : HoldsLease s t) (h₂ : HoldsLease t u) :
    HoldsLease s u := by
  obtain ⟨new₁, hlog₁, hkeep₁⟩ := h₁
  obtain ⟨new₂, hlog₂, hkeep₂⟩ := h₂
  refine ⟨new₁ ++ new₂, ?_, ?_⟩
  · rw [hlog₂, hlog₁, List.append_assoc]
  intro hs
  rcases hkeep₁ hs with ht | ⟨msg, hmem⟩
  · rcases hkeep₂ ht with hu | ⟨msg, hmem⟩
    · exact Or.inl hu
    · exact Or.inr ⟨msg, List.mem_append_right _ hmem⟩
  · exact Or.inr ⟨msg, List.mem_append_left _ hmem⟩

theorem DhcpStep.holdsLease {s t : Rx} {srcMac : MacAddr} {d : UdpDatagram}
    (hstep : DhcpStep hostMac clock s srcMac d t) : HoldsLease s t := by
  cases hstep with
  | unused r _ => exact .of_kept _ rfl rfl
  | offer c msg frame hout _ =>
    cases hout with
    | offer p _ _ _ _ _ _ _ => exact .of_kept _ rfl rfl
  | ack c lease hout =>
    cases hout with
    | ack p _ _ _ _ _ _ _ => exact ⟨_, rfl, fun _ => Or.inl rfl⟩
  | nak c hout => exact ⟨_, rfl, fun _ => Or.inr ⟨d.payload, List.mem_singleton.mpr rfl⟩⟩

theorem FrameStep.holdsLease {s t : Rx} {c : Class} (hstep : FrameStep hostMac clock s c t) :
    HoldsLease s t := by
  cases hstep with
  | skip => exact .refl s
  | sink packet => exact .of_kept _ rfl rfl
  | arpBad payload e _ => exact .of_kept [] (List.append_nil _).symm rfl
  | arp payload p reply _ => exact .of_kept _ rfl rfl
  | dhcp srcMac d _ hd => exact hd.holdsLease

theorem DueStep.kept {s t : Rx} {r : Option Bytes} (hstep : DueStep clock s r t) :
    t.log = s.log ∧ t.dhcp.lease = s.dhcp.lease := by
  cases hstep <;> exact ⟨rfl, rfl⟩

theorem DueStep.answers {s t : Rx} {r : Option Bytes} (h : InStep s)
    (hexpired : s.timer.next ≤ clock s.reads) (hstep : DueStep clock s r t) :
    ∃ msg, r = some msg := by
  cases hstep with
  | early hearly => exact absurd hexpired (Nat.not_le_of_lt hearly)
  | renew lease msg _ _ _ _ => exact ⟨msg, rfl⟩
  | lost _ hr hl =>
    have hsome := h.lease.mpr (Or.inl (h.renewAt.mp hr))
    rw [hl] at hsome
    cases hsome
  | resend msg _ _ _ => exact ⟨msg, rfl⟩
  | rediscover msg _ _ _ _ => exact ⟨msg, rfl⟩

theorem DueStep.client {s t : Rx} {r : Option Bytes} (h : InStep s) (hs : s.dhcp.state ≠ .init)
    (hstep : DueStep clock s r t) :
    t.dhcp = s.dhcp ∨ s.dhcp.state = .bound ∧ t.dhcp = { s.dhcp with state := .renewing } := by
  cases hstep with
  | early _ => exact Or.inl rfl
  | renew lease _ _ hr _ _ => exact Or.inr ⟨h.renewAt.mp hr, rfl⟩
  | lost _ _ _ => exact Or.inl rfl
  | resend _ _ _ _ => exact Or.inl rfl
  | rediscover _ _ hr hp _ => exact absurd ((pending_eq_none h hr).mp hp) hs

end Muta.Link.Rx
