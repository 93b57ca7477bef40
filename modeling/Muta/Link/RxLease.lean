import Muta.Link.RxRun
import Muta.Link.RxWire

/-!
# Where a lease comes from

The log shows every message the client was handed, with what came of it, and every frame
queued for the server. A DISCOVER is recognised on the wire, by taking its frame apart. The
account kept along a run is that the client's transaction is the one of the latest
DISCOVER, and that an OFFER to it was accepted since, once the client is past selecting.
-/

namespace Muta.Link.Rx

open Usb Act Netstack Dhcp
set_option autoImplicit false

def sent (frame : Bytes) : Option Bytes :=
  match Ethernet.parse frame with
  | .ok f =>
    if f.ethertype = Ethernet.ethertypeIpv4 then
      match Ipv4.parseUdp f.payload with
      | .ok d => if d.srcPort = clientPort ∧ d.dstPort = serverPort then some d.payload else none
      | _ => none
    else
      none
  | _ => none

def discoverXid : Effect → Option UInt32
  | .queue frame =>
    match sent frame with
    | some m =>
      if (options m).bind (·.lookup optMessageType) = some [discoverType] then some (xidOf m) else none
    | none => none
  | _ => none

section Account

variable (hostMac : MacAddr)

def OfferIn (xid : UInt32) (log : List Effect) : Prop :=
  ∃ offer p request, Effect.handled offer (.ok (.send request)) ∈ log ∧ Dhcp.parse offer = .ok p ∧
    p.xid = xid ∧ p.chaddr = hostMac ∧ p.messageType = offerType

/-- The latest DISCOVER in `log` is of transaction `xid`; `P` holds of what came after it. -/
def Since (xid : UInt32) (P : List Effect → Prop) (log : List Effect) : Prop :=
  ∃ earlier frame later, log = earlier ++ .queue frame :: later ∧
    discoverXid (.queue frame) = some xid ∧ (∀ e ∈ later, discoverXid e = none) ∧ P later

/-- What the log says before a message handled with some result. -/
def Justified (log : List Effect) : Effect → Prop
  | .handled ack (.ok (.bound lease)) => ∃ p, Dhcp.parse ack = .ok p ∧ p.messageType = ackType ∧
      p.chaddr = hostMac ∧ p.yiaddr ≠ .unspecified ∧ lease.ip = p.yiaddr ∧
      Since p.xid (OfferIn hostMac p.xid) log
  | .handled offer (.ok (.send _)) => ∃ p, Dhcp.parse offer = .ok p ∧ p.messageType = offerType
  | .event (.bound lease) => ∃ earlier ack, log = earlier ++ [.handled ack (.ok (.bound lease))]
  | _ => True

def Every (P : List Effect → Effect → Prop) (log : List Effect) : Prop :=
  ∀ before e after, log = before ++ e :: after → P before e

structure Account (s : Rx) : Prop where
  every : Every (Justified hostMac) s.log
  current : Since s.dhcp.xid (fun later => s.dhcp.state ≠ .init → s.dhcp.state ≠ .selecting →
    OfferIn hostMac s.dhcp.xid later) s.log

end Account

variable {hostMac : MacAddr} {clock : Nat → Instant}

theorem IsDhcpFrame.sent {msg frame : Bytes} (h : IsDhcpFrame hostMac msg frame)
    (hlen : msg.length ≤ 65507) : sent frame = some msg := by
  obtain ⟨f, hf, htype, hd⟩ := h.read hlen
  simp [Rx.sent, hf, htype, hd, datagram]

theorem IsDhcpFrame.sent_message {frame : Bytes} {c : DhcpClient} {messageType : UInt8}
    {ciaddr : Ipv4Addr} {requestedIp serverId : Option Ipv4Addr}
    (h : IsDhcpFrame hostMac (message c messageType ciaddr requestedIp serverId) frame) :
    Rx.sent frame = some (message c messageType ciaddr requestedIp serverId) := by
  have hlen := length_message c messageType ciaddr requestedIp serverId
  exact h.sent (by omega)

theorem discoverXid_message {frame : Bytes} {c : DhcpClient} {messageType : UInt8} {ciaddr : Ipv4Addr}
    {requestedIp serverId : Option Ipv4Addr}
    (h : IsDhcpFrame hostMac (message c messageType ciaddr requestedIp serverId) frame) :
    discoverXid (.queue frame) = if messageType = discoverType then some c.xid else none := by
  simp only [discoverXid, h.sent_message, options_message, Option.bind_some, lookup_messageType,
    xidOf_message]
  simp

theorem sent_arp (dst src : MacAddr) (body : Bytes) :
    sent (Ethernet.fields dst src Ethernet.ethertypeArp body) = none := by
  have hother : Ethernet.ethertypeArp ≠ Ethernet.ethertypeIpv4 := by decide
  simp [Rx.sent, Ethernet.parse_fields, hother]

theorem handleArp_log (payload : Bytes) (s : Rx) :
    ∃ new, (handleArp clock payload s).2.log = s.log ++ new ∧
      (handleArp clock payload s).2.dhcp = s.dhcp ∧
      ∀ e ∈ new, ∃ frame, e = .queue frame ∧ sent frame = none := by
  rcases @handleArp_cases clock payload s with ⟨e, _, harp⟩ | ⟨p, reply, _, hreply, harp⟩
  · rw [harp]
    exact ⟨[], by simp, rfl, by simp⟩
  · rw [harp]
    refine ⟨_, rfl, rfl, ?_⟩
    cases reply with
    | none => simp
    | some frame =>
      obtain ⟨p, pad, _, _, _, rfl⟩ := Arp.handle_some hreply
      simp [sent_arp]

theorem Every.append {P : List Effect → Effect → Prop} {log new : List Effect} (h : Every P log)
    (hnew : ∀ before e after, new = before ++ e :: after → P (log ++ before) e) :
    Every P (log ++ new) := by
  intro before e after heq
  rcases split_append heq with ⟨c, hlog, _⟩ | ⟨c, rfl, hc⟩
  · exact h before e c hlog
  · exact hnew c e after hc

/-- One more effect that is justified by the log before it. -/
theorem Every.concat {P : List Effect → Effect → Prop} {log : List Effect} {e : Effect}
    (h : Every P log) (he : P log e) : Every P (log ++ [e]) := by
  refine h.append ?_
  intro before x after heq
  cases before with
  | nil =>
    cases heq
    rwa [List.append_nil]
  | cons y before =>
    have hlen := congrArg List.length heq
    simp at hlen

theorem Every.pair {P : List Effect → Effect → Prop} {log : List Effect} {a b : Effect}
    (h : Every P log) (ha : P log a) (hb : P (log ++ [a]) b) : Every P (log ++ [a, b]) := by
  have hboth := (h.concat ha).concat hb
  rwa [List.append_assoc] at hboth

theorem OfferIn.append {xid : UInt32} {log : List Effect} (h : OfferIn hostMac xid log)
    (new : List Effect) : OfferIn hostMac xid (log ++ new) := by
  obtain ⟨offer, p, request, hmem, hp, hrest⟩ := h
  exact ⟨offer, p, request, List.mem_append_left _ hmem, hp, hrest⟩

theorem Since.append {xid : UInt32} {P Q : List Effect → Prop} {log new : List Effect}
    (h : Since xid P log) (hnew : ∀ e ∈ new, discoverXid e = none)
    (hQ : ∀ later, P later → Q (later ++ new)) : Since xid Q (log ++ new) := by
  obtain ⟨earlier, frame, later, hlog, hxid, hnone, hP⟩ := h
  refine ⟨earlier, frame, later ++ new, ?_, hxid, ?_, hQ later hP⟩
  · rw [hlog]
    simp
  · intro e he
    rcases List.mem_append.mp he with he | he
    · exact hnone e he
    · exact hnew e he

theorem Since.mono {xid : UInt32} {P Q : List Effect → Prop} {log : List Effect}
    (h : Since xid P log) (hQ : ∀ later, P later → Q later) : Since xid Q log := by
  obtain ⟨earlier, frame, later, hlog, hxid, hnone, hP⟩ := h
  exact ⟨earlier, frame, later, hlog, hxid, hnone, hQ later hP⟩

theorem Account.within {s t : Rx} {new : List Effect} (h : Account hostMac s)
    (hlog : t.log = s.log ++ new) (hevery : Every (Justified hostMac) t.log)
    (hnew : ∀ e ∈ new, discoverXid e = none) (hxid : t.dhcp.xid = s.dhcp.xid)
    (hstate : t.dhcp.state ≠ .init → t.dhcp.state ≠ .selecting →
      s.dhcp.state ≠ .init ∧ s.dhcp.state ≠ .selecting ∨ OfferIn hostMac s.dhcp.xid new) :
    Account hostMac t := by
  refine ⟨hevery, ?_⟩
  rw [hxid, hlog]
  refine h.current.append hnew ?_
  intro later hP hinit hselecting
  rcases hstate hinit hselecting with ⟨hi, hs⟩ | ⟨offer, p, request, hmem, hrest⟩
  · exact (hP hi hs).append new
  · exact ⟨offer, p, request, List.mem_append_right _ hmem, hrest⟩

/-- A new DISCOVER, or the last one again. -/
theorem Account.discover {s t : Rx} {frame : Bytes} (h : Account hostMac s)
    (hlog : t.log = s.log ++ [.queue frame]) (hframe : discoverXid (.queue frame) = some t.dhcp.xid)
    (hstate : t.dhcp.state = .selecting) : Account hostMac t := by
  refine ⟨?_, s.log, frame, [], hlog, hframe, by simp, fun _ hs => absurd hstate hs⟩
  rw [hlog]
  exact h.every.concat trivial

theorem Account.aside {s t : Rx} {new : List Effect} (h : Account hostMac s)
    (hlog : t.log = s.log ++ new) (hdhcp : t.dhcp = s.dhcp)
    (hnew : ∀ e ∈ new, discoverXid e = none ∧ ∀ log, Justified hostMac log e) : Account hostMac t := by
  refine h.within hlog ?_ (fun e he => (hnew e he).1) (by rw [hdhcp]) ?_
  · rw [hlog]
    refine h.every.append ?_
    intro before e after heq
    exact (hnew e (by simp [heq])).2 _
  · intro hinit hselecting
    rw [hdhcp] at hinit hselecting
    exact Or.inl ⟨hinit, hselecting⟩

theorem DhcpStep.account {s t : Rx} {srcMac : MacAddr} {d : UdpDatagram} (hmac : s.dhcp.mac = hostMac)
    (h : Account hostMac s) (hstep : DhcpStep hostMac clock s srcMac d t) : Account hostMac t := by
  cases hstep with
  | unused r hr =>
    refine h.aside rfl rfl ?_
    intro e he
    rw [List.mem_singleton] at he
    subst he
    refine ⟨rfl, fun log => ?_⟩
    rcases hr with rfl | ⟨e, rfl⟩ <;> trivial
  | offer c msg frame hout hframe =>
    cases hout with
    | offer p _ hp hx hm ht hs hreq =>
      rw [hreq] at hframe
      have hqueue : discoverXid (.queue frame) = none := discoverXid_message hframe
      refine h.within rfl ?_ ?_ rfl ?_
      · exact h.every.pair ⟨p, hp, ht⟩ trivial
      · intro e he
        simp only [List.mem_cons, List.not_mem_nil, or_false] at he
        rcases he with rfl | rfl
        · rfl
        · exact hqueue
      · intro _ _
        exact Or.inr ⟨d.payload, p, msg, List.mem_cons_self, hp, hx, hm.trans hmac, ht⟩
  | ack c lease hout =>
    cases hout with
    | ack p _ hp hx hm ht hs hl =>
      have hpast : s.dhcp.state ≠ .init ∧ s.dhcp.state ≠ .selecting := by
        rcases hs with hs | hs <;> simp [hs]
      obtain ⟨hip, hlease, _⟩ := DhcpClient.leaseFrom_eq_ok hl
      refine h.within rfl ?_ ?_ rfl (fun _ _ => Or.inl hpast)
      · have hsince : Since p.xid (OfferIn hostMac p.xid) s.log := by
          rw [hx]
          exact h.current.mono fun later hP => hP hpast.1 hpast.2
        exact h.every.pair ⟨p, hp, ht, hm.trans hmac, hip, hlease, hsince⟩ ⟨s.log, d.payload, rfl⟩
      · intro e he
        simp only [List.mem_cons, List.not_mem_nil, or_false] at he
        rcases he with rfl | rfl <;> rfl
  | nak c hout =>
    cases hout with
    | nak p hp hx hm ht hs =>
      refine h.within rfl (h.every.concat trivial) ?_ rfl (fun hinit => absurd rfl hinit)
      intro e he
      rw [List.mem_singleton] at he
      subst he
      rfl

theorem Account.request {s t : Rx} {c : DhcpClient} {ciaddr : Ipv4Addr}
    {requestedIp serverId : Option Ipv4Addr} {frame : Bytes} (h : Account hostMac s)
    (hframe : IsDhcpFrame hostMac (message c requestType ciaddr requestedIp serverId) frame)
    (hlog : t.log = s.log ++ [.queue frame]) (hxid : t.dhcp.xid = s.dhcp.xid)
    (hstate : s.dhcp.state ≠ .init ∧ s.dhcp.state ≠ .selecting) : Account hostMac t := by
  have hqueue : discoverXid (.queue frame) = none := discoverXid_message hframe
  refine h.within hlog ?_ ?_ hxid (fun _ _ => Or.inl hstate)
  · rw [hlog]
    exact h.every.concat trivial
  · intro e he
    rw [List.mem_singleton] at he
    subst he
    exact hqueue

theorem Account.poll {s : Rx} (hs : InStep s) (h : Account hostMac s) :
    Account hostMac (poll hostMac clock s).2 := by
  have htaken := @poll_taken hostMac clock s
  generalize (Rx.poll hostMac clock s).2 = u at htaken
  cases htaken with
  | poll r t new hdue hqueued =>
    cases hqueued with
    | nothing =>
      cases hdue with
      | early _ => exact h.aside rfl rfl (by simp)
      | lost _ _ _ => exact h.aside rfl rfl (by simp)
    | message msg frame hframe =>
      cases hdue with
      | renew lease _ _ hr _ hmsg =>
        rw [hmsg] at hframe
        have hbound := hs.renewAt.mp hr
        exact h.request hframe rfl rfl (by simp [hbound])
      | rediscover _ _ _ _ hmsg =>
        rw [hmsg] at hframe
        exact h.discover rfl (discoverXid_message hframe) rfl
      | resend _ _ _ hp =>
        unfold DhcpClient.pending at hp
        split at hp
        · rename_i hstate
          rw [← Option.some.inj hp] at hframe
          exact h.discover rfl (discoverXid_message hframe) hstate
        · rename_i hstate
          rw [← Option.some.inj hp] at hframe
          exact h.request hframe rfl rfl (by simp [hstate])
        · rename_i hstate
          obtain ⟨lease, _, hmsg⟩ := Option.map_eq_some_iff.mp hp
          rw [← hmsg] at hframe
          exact h.request hframe rfl rfl (by simp [hstate])
        · cases hp
        · cases hp

theorem Account.frame {s : Rx} (hmac : s.dhcp.mac = hostMac) (bytes : Bytes) (h : Account hostMac s) :
    Account hostMac (handleFrame hostMac clock bytes s).2 := by
  rw [handleFrame_eq]
  split
  · exact h
  · rename_i payload _
    obtain ⟨new, hlog, hdhcp, hnew⟩ := @handleArp_log clock payload s
    refine h.aside hlog hdhcp ?_
    intro e he
    obtain ⟨frame, rfl, hsent⟩ := hnew e he
    exact ⟨by simp [discoverXid, hsent], fun _ => trivial⟩
  · refine h.aside rfl rfl ?_
    intro e he
    rw [List.mem_singleton] at he
    subst he
    exact ⟨rfl, fun _ => trivial⟩
  · rename_i srcMac d _
    obtain ⟨t, ht, hstep⟩ := @handleDhcp_step hostMac clock srcMac d s
    rw [ht]
    exact hstep.account hmac h

theorem account_start : Account hostMac (thread hostMac clock).start := by
  obtain ⟨frame, hframe, hstart⟩ := @start_sends hostMac clock (initial hostMac)
  have hempty : Every (Justified hostMac) ([] : List Effect) := by
    intro before e after heq
    simp at heq
  rw [thread, hstart]
  exact ⟨hempty.concat trivial, [], frame, [], rfl, discoverXid_message hframe, by simp,
    fun _ hs => absurd rfl hs⟩

theorem thread_account {past : List (Rx × Input)} {s : Rx}
    (run : Machine.Run (thread hostMac clock) Machine.any past s) : Account hostMac s := by
  induction run with
  | start => exact account_start
  | @take past s i run _ ih =>
    obtain ⟨calls, hclient⟩ := thread_client run
    have hmac := (DhcpClient.run_settled hclient).mac
    cases i with
    | frame bytes => exact ih.frame hmac bytes
    | poll => exact ih.poll (thread_inStep run)
    | request lastRequest => exact ih.aside (List.append_nil _).symm rfl (by simp)

theorem Every.of_mem {P : List Effect → Effect → Prop} {log : List Effect} {e : Effect}
    (h : Every P log) (he : e ∈ log) : ∃ before, P before e := by
  obtain ⟨before, after, heq⟩ := List.append_of_mem he
  exact ⟨before, h before e after heq⟩

/-- Every lease answers the latest DISCOVER, through an OFFER accepted in between; a message
that is rejected or ignored changes nothing; and neither does one accepted before. -/
theorem lease_provenance {past : List (Rx × Input)} {s : Rx}
    (run : Machine.Run (thread hostMac clock) Machine.any past s) :
    (∀ before ack lease after, s.log = before ++ .handled ack (.ok (.bound lease)) :: after →
      ∃ p, Dhcp.parse ack = .ok p ∧ p.messageType = ackType ∧ p.chaddr = hostMac ∧
        p.yiaddr ≠ .unspecified ∧ lease.ip = p.yiaddr ∧
        Since p.xid (OfferIn hostMac p.xid) before) ∧
    (∀ before lease after, s.log = before ++ .event (.bound lease) :: after →
      ∃ earlier ack, before = earlier ++ [.handled ack (.ok (.bound lease))]) ∧
    (∀ d, (DhcpClient.handle d.payload s.dhcp).1 = .ok .ignored ∨
        (∃ e, (DhcpClient.handle d.payload s.dhcp).1 = .error e) →
      (DhcpClient.handle d.payload s.dhcp).2 = s.dhcp ∧
      ∃ r, ∀ srcMac, handleDhcp hostMac clock srcMac d s =
        (.ok (), { s with log := s.log ++ [.handled d.payload r] })) ∧
    (∀ msg request, Effect.handled msg (.ok (.send request)) ∈ s.log → s.dhcp.state = .requesting →
      DhcpClient.handle msg s.dhcp = (.ok .ignored, s.dhcp)) ∧
    (∀ msg lease, Effect.handled msg (.ok (.bound lease)) ∈ s.log → s.dhcp.state = .bound →
      DhcpClient.handle msg s.dhcp = (.ok .ignored, s.dhcp)) := by
  have haccount := thread_account run
  refine ⟨?_, ?_, fun d => handleDhcp_unused, ?_, ?_⟩
  · intro before ack lease after hlog
    exact haccount.every before _ after hlog
  · intro before lease after hlog
    exact haccount.every before _ after hlog
  · intro msg request hmem hstate
    obtain ⟨_, p, hp, ht⟩ := haccount.every.of_mem hmem
    refine DhcpClient.handle_unexpected hp ?_ ?_ ?_
    · simp [hstate]
    · rw [ht]
      exact fun h => absurd h.2 (by decide)
    · rw [ht]
      exact fun h => absurd h.2 (by decide)
  · intro msg lease hmem hstate
    obtain ⟨_, p, hp, _⟩ := haccount.every.of_mem hmem
    refine DhcpClient.handle_unexpected hp ?_ ?_ ?_
    · simp [hstate]
    · simp [hstate]
    · simp [hstate]

def acceptsLease : Effect → Bool
  | .handled _ (.ok (.bound _)) => true
  | _ => false

theorem lease_provenance_bound :
    ∃ past s ack lease, Machine.Run (thread testMac fun n => ofSecs n) Machine.any past s ∧
      Effect.handled ack (.ok (.bound lease)) ∈ s.log ∧
      DhcpClient.handle ack s.dhcp = (.ok .ignored, s.dhcp) := by
  have run := (Machine.Run.start (m := thread testMac fun n => ofSecs n)).takeAll
    [.frame (testFrame offerType []), .frame (testFrame ackType [])]
  obtain ⟨e, hmem, hbound⟩ := List.any_eq_true.mp (show List.any
    ([Input.frame (testFrame offerType []), .frame (testFrame ackType [])].foldl
      (thread testMac fun n => ofSecs n).step (thread testMac fun n => ofSecs n).start).log
    acceptsLease = true by decide +kernel)
  unfold acceptsLease at hbound
  split at hbound
  · rename_i ack lease
    exact ⟨_, _, ack, lease, run, hmem,
      (lease_provenance run).2.2.2.2 ack lease hmem (by decide +kernel)⟩
  · cases hbound

end Muta.Link.Rx
