import Muta.Link.RxRun

/-!
# The pace of the timer

The deadline is written from four places, two of them with what a server has sent. Along a
run the messages caused by the timer are read off the history, each with the two readings
of the clock that `due` takes for it. What keeps them apart is that the deadline never
falls within the shortest interval after the last of them.
-/

namespace Muta.Link.Rx

open Usb Act Netstack Dhcp
set_option autoImplicit false

section Times

variable (hostMac : MacAddr) (clock : Nat → Instant)

def sentAt (x : Rx × Input) : Option (Instant × Instant) :=
  match x.2, (due clock x.1).1 with
  | .poll, .ok (some _) => some (clock x.1.reads, clock (x.1.reads + 1))
  | _, _ => none

def sends (past : List (Rx × Input)) : List (Instant × Instant) := past.filterMap (sentAt clock)

def refusedAt (x : Rx × Input) : Option Instant :=
  match x.2 with
  | .frame bytes =>
    match classify hostMac bytes with
    | .dhcp _ d =>
      if (DhcpClient.handle d.payload x.1.dhcp).1 = .ok .nak then some (clock x.1.reads) else none
    | _ => none
  | _ => none

/-- Messages of the timer keep their distance from each other and from a NAK. -/
structure Paced (past : List (Rx × Input)) : Prop where
  spaced : (sends clock past).IsChain fun a b => a.2 + dhcpRetryMin ≤ b.1
  backedOff : ∀ before x between y after refused sent, past = before ++ x :: (between ++ y :: after) →
    refusedAt hostMac clock x = some refused → sentAt clock y = some sent →
    refused + dhcpRetryMin ≤ sent.1

/-- No request is refused, and no renewal falls due too soon after the last message. -/
def Unhurried (past : List (Rx × Input)) (s : Rx) : Input → Prop
  | .frame bytes => ∀ srcMac d p, classify hostMac bytes = .dhcp srcMac d →
      ¬ s.dhcp.Answered nakType d.payload p ∧
      (s.dhcp.Answered ackType d.payload p → p.yiaddr ≠ .unspecified →
        ∀ last ∈ (sends clock past).getLast?, last.2 + dhcpRetryMin ≤
          clock s.reads + p.renewalTime.getD (p.leaseTime.getD (ofSecs 3600) / 2))
  | _ => True

def Distant (past : List (Rx × Input)) (s : Rx) : Prop :=
  ∀ last ∈ (sends clock past).getLast?, last.2 + dhcpRetryMin ≤ s.timer.next

end Times

variable {hostMac : MacAddr} {clock : Nat → Instant}

theorem sends_append_none {past : List (Rx × Input)} {x : Rx × Input} (h : sentAt clock x = none) :
    sends clock (past ++ [x]) = sends clock past := by
  simp [sends, h]

theorem sends_append_some {past : List (Rx × Input)} {x : Rx × Input} {a : Instant × Instant}
    (h : sentAt clock x = some a) : sends clock (past ++ [x]) = sends clock past ++ [a] := by
  simp [sends, h]

theorem poll_timer {s t : Rx} {r : Option Bytes} (hdue : due clock s = (.ok r, t))
    (hstep : DueStep clock s r t) : (poll hostMac clock s).2.timer = t.timer := by
  unfold poll
  rw [bind_apply_ok _ _ hdue]
  cases r with
  | none => rfl
  | some msg =>
    obtain ⟨frame, _, hsend⟩ :=
      sendDhcp_eq hostMac (Nat.le_trans (Nat.le_of_eq hstep.length) (by decide)) t
    dsimp only
    rw [hsend]

theorem DueStep.deadline {s t : Rx} {r : Option Bytes} (h : InStep s) (hstep : DueStep clock s r t) :
    r = none ∧ t.timer = s.timer ∨
    (∃ msg, r = some msg) ∧ s.timer.next ≤ clock s.reads ∧
      clock (s.reads + 1) + dhcpRetryMin ≤ t.timer.next := by
  have hdouble := (doubled_within h.backoff.1 retryMin_le_retryMax).1
  cases hstep with
  | early _ => exact Or.inl ⟨rfl, rfl⟩
  | renew lease msg hle _ _ _ => exact Or.inr ⟨⟨msg, rfl⟩, hle, Nat.le_refl _⟩
  | lost _ hr hl =>
    have hsome := h.lease.mpr (Or.inl (h.renewAt.mp hr))
    rw [hl] at hsome
    cases hsome
  | resend msg hle _ _ => exact Or.inr ⟨⟨msg, rfl⟩, hle, Nat.add_le_add_left hdouble _⟩
  | rediscover msg hle _ _ _ => exact Or.inr ⟨⟨msg, rfl⟩, hle, Nat.add_le_add_left hdouble _⟩

theorem DhcpStep.timer {past : List (Rx × Input)} {s t : Rx} {bytes : Bytes} {srcMac : MacAddr}
    {d : UdpDatagram} (hc : classify hostMac bytes = .dhcp srcMac d)
    (hok : Unhurried hostMac clock past s (.frame bytes)) (h : Distant clock past s)
    (hstep : DhcpStep hostMac clock s srcMac d t) : Distant clock past t := by
  cases hstep with
  | unused r _ => exact h
  | offer c msg frame _ _ => exact h
  | ack c lease hout =>
    cases hout with
    | ack p _ hp hx hm ht hs hl =>
      obtain ⟨hip, _, hrenewal⟩ := DhcpClient.leaseFrom_eq_ok hl
      intro last hlast
      have hdue := (hok srcMac d p hc).2 ⟨hp, hx, hm, ht, hs⟩ hip last hlast
      rw [← hrenewal] at hdue
      exact hdue
  | nak c hout =>
    cases hout with
    | nak p hp hx hm ht hs => exact absurd ⟨hp, hx, hm, ht, hs⟩ (hok srcMac d p hc).1

theorem distant_frame {past : List (Rx × Input)} {s : Rx} {bytes : Bytes}
    (hok : Unhurried hostMac clock past s (.frame bytes)) (h : Distant clock past s) :
    Distant clock past (take hostMac clock s (.frame bytes)) := by
  obtain ⟨t, ht, hstep⟩ := @handleFrame_step hostMac clock bytes s
  rw [take, ht]
  generalize hc : classify hostMac bytes = c at hstep
  cases hstep with
  | skip => exact h
  | sink packet => exact h
  | arpBad payload e _ => exact h
  | arp payload p reply _ => exact h
  | dhcp srcMac d _ hd => exact hd.timer hc hok h

theorem refusedAt_eq_none {past : List (Rx × Input)} {s : Rx} {i : Input}
    (hok : Unhurried hostMac clock past s i) : refusedAt hostMac clock (s, i) = none := by
  cases i with
  | poll => rfl
  | request lastRequest => rfl
  | frame bytes =>
    simp only [refusedAt]
    split
    · rename_i srcMac d hc
      rw [if_neg]
      intro hnak
      obtain ⟨p, hp⟩ := DhcpClient.handle_nak_iff.mp hnak
      exact (hok srcMac d p hc).1 hp
    · rfl

/-- The chain of messages grows at its end, and its deadline stays away from it. -/
theorem spaced_step {past : List (Rx × Input)} {s : Rx} (hs : InStep s) (i : Input)
    (hspaced : (sends clock past).IsChain fun a b => a.2 + dhcpRetryMin ≤ b.1)
    (hdistant : Distant clock past s) (hok : Unhurried hostMac clock past s i) :
    ((sends clock (past ++ [(s, i)])).IsChain fun a b => a.2 + dhcpRetryMin ≤ b.1) ∧
      Distant clock (past ++ [(s, i)]) (take hostMac clock s i) := by
  cases i with
  | frame bytes =>
    have hnone : sentAt clock (s, .frame bytes) = none := rfl
    rw [Distant, sends_append_none hnone]
    exact ⟨hspaced, distant_frame hok hdistant⟩
  | request lastRequest =>
    have hnone : sentAt clock (s, .request lastRequest) = none := rfl
    rw [Distant, sends_append_none hnone]
    exact ⟨hspaced, hdistant⟩
  | poll =>
    obtain ⟨r, t, hdue, hstep⟩ := @due_step clock s
    have htimer := @poll_timer hostMac clock s t r hdue hstep
    rcases hstep.deadline hs with ⟨rfl, hkept⟩ | ⟨⟨msg, rfl⟩, hlate, hnext⟩
    · have hnone : sentAt clock (s, .poll) = none := by simp [sentAt, hdue]
      rw [Distant, sends_append_none hnone, take, htimer, hkept]
      exact ⟨hspaced, hdistant⟩
    · have hsome : sentAt clock (s, .poll) = some (clock s.reads, clock (s.reads + 1)) := by
        simp [sentAt, hdue]
      rw [Distant, sends_append_some hsome, take, htimer]
      constructor
      · rw [List.isChain_append]
        refine ⟨hspaced, List.isChain_singleton _, ?_⟩
        intro last hlast first hfirst
        cases hfirst
        exact Nat.le_trans (hdistant last hlast) hlate
      · intro last hlast
        rw [List.getLast?_concat] at hlast
        cases hlast
        exact hnext

/-- Along a run in which no request is refused and no renewal falls due too soon, the
timer's messages keep their pace. -/
theorem paced_unhurried {past : List (Rx × Input)} {s : Rx}
    (run : Machine.Run (thread hostMac clock) (Unhurried hostMac clock) past s) :
    Paced hostMac clock past := by
  have hspaced : ((sends clock past).IsChain fun a b => a.2 + dhcpRetryMin ≤ b.1) ∧
      Distant clock past s ∧ InStep s := by
    refine run.invariant (P := fun past s =>
      ((sends clock past).IsChain fun a b => a.2 + dhcpRetryMin ≤ b.1) ∧
      Distant clock past s ∧ InStep s) ?_ ?_
    · refine ⟨.nil, ?_, thread_inStep (@Machine.Run.start _ _ _ Machine.any)⟩
      intro last hlast
      cases hlast
    · intro past s i h hok
      obtain ⟨hspaced, hdistant, hs⟩ := h
      obtain ⟨hnew, hdeadline⟩ := spaced_step hs i hspaced hdistant hok
      exact ⟨hnew, hdeadline, (take_taken s i).inStep hs⟩
  refine ⟨hspaced.1, ?_⟩
  intro before x between y after refused sent hpast hrefused _
  subst hpast
  rw [refusedAt_eq_none run.before.2] at hrefused
  cases hrefused

def renewable : Bytes := testFrame ackType [(optRenewalTime, [0, 0, 0, 20])]

def offered : Parsed :=
  { xid := 1015568748, yiaddr := testOffered, siaddr := testServer, chaddr := testMac,
    messageType := offerType }

def lasting : Parsed := { offered with messageType := ackType, renewalTime := some (ofSecs 20) }

theorem unhurried_testFrame {t : UInt8} {options : List (UInt8 × Bytes)} {q : Parsed} {u : Rx}
    {clock : Nat → Instant} {past : List (Rx × Input)} (hlen : (testReply t options).length ≤ 65507)
    (hq : parse (testReply t options) = .ok q) (hnak : q.messageType ≠ nakType)
    (hdue : q.messageType = ackType → ∀ last ∈ (sends clock past).getLast?,
      last.2 + dhcpRetryMin ≤ clock u.reads + q.renewalTime.getD (q.leaseTime.getD (ofSecs 3600) / 2)) :
    Unhurried testMac clock past u (.frame (testFrame t options)) := by
  intro srcMac d p hc
  rw [testFrame, classify_replyFrame _ _ _ hlen] at hc
  cases hc
  refine ⟨?_, ?_⟩
  · intro hp
    cases hq.symm.trans hp.1
    exact hnak hp.2.2.2.1
  · intro hp _
    cases hq.symm.trans hp.1
    exact hdue hp.2.2.2.1

/-- Discovery is repeated, the lease that comes of it lasts, and its renewal is sent in time. -/
theorem paced_unhurried_renewal :
    ∃ past s, Machine.Run (thread testMac fun n => ofSecs (16 * n))
        (Unhurried testMac fun n => ofSecs (16 * n)) past s ∧
      s.dhcp.state = .renewing ∧ (sends (fun n => ofSecs (16 * n)) past).length = 2 ∧
      Paced testMac (fun n => ofSecs (16 * n)) past := by
  have hpoll : ∀ past s, Unhurried testMac (fun n => ofSecs (16 * n)) past s .poll :=
    fun _ _ => trivial
  have run := (Machine.Run.start (m := thread testMac fun n => ofSecs (16 * n))).take .poll (hpoll _ _)
  have run := run.take (.frame (testFrame offerType [])) (unhurried_testFrame (q := offered)
    (by decide +kernel) (by decide +kernel) (by decide) (fun h => absurd h (by decide)))
  have run := run.take (.frame renewable) (unhurried_testFrame (q := lasting)
    (by decide +kernel) (by decide +kernel) (by decide) (fun _ => by decide +kernel))
  have run := run.take .poll (hpoll _ _)
  exact ⟨_, _, run, by decide +kernel, by decide +kernel, paced_unhurried run⟩

/-- On a clock that stands still after the first second, the timer sends a DISCOVER, a
renewal of a lease with renewal time 0, and another DISCOVER after a NAK, all at once. -/
theorem timer_unpaced : ¬ ∀ hostMac clock past s, Monotone clock →
    Machine.Run (thread hostMac clock) Machine.any past s → Paced hostMac clock past := by
  intro h
  have hpaced := h testMac (fun n => ofSecs (min n 1)) _ _
    (fun i j hij => Nat.mul_le_mul_right _ (min_le_min_right 1 hij))
    (Machine.Run.start.takeAll [.poll, .frame (testFrame offerType []),
      .frame (testFrame ackType [(optRenewalTime, [0, 0, 0, 0])]), .poll,
      .frame (testFrame nakType []), .poll])
  have hspaced := hpaced.spaced
  rw [show sends (fun n => ofSecs (min n 1)) _ =
    [(ofSecs 1, ofSecs 1), (ofSecs 1, ofSecs 1), (ofSecs 1, ofSecs 1)] by decide +kernel] at hspaced
  revert hspaced
  decide

end Muta.Link.Rx
