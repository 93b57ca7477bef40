import Muta.Link.Rx
import Muta.Netstack.UdpPacket

/-!
# One frame at a time

What the RX thread does with a received frame is said here once. A frame falls into
one of four classes, each class changes the state in its own way (`FrameStep`), and
a transfer is handled by taking these steps for its frames up to the first malformed
message. Handling never breaks down, whatever the bytes and the state.
-/

namespace Muta.Link.Rx

open Usb Act Netstack Dhcp
set_option autoImplicit false

variable (hostMac : MacAddr) (clock : Nat → Instant)

inductive Class where
  | skip
  | arp (payload : Bytes)
  | sink (packet : Bytes)
  | dhcp (srcMac : MacAddr) (d : UdpDatagram)
deriving DecidableEq

def dhcpReply (packet : Bytes) : Option UdpDatagram :=
  match Ipv4.parseUdp packet with
  | .ok d => if d.dstPort = clientPort ∧ d.srcPort = serverPort then some d else none
  | _ => none

def classify (bytes : Bytes) : Class :=
  match Ethernet.parse bytes with
  | .ok frame =>
    if frame.dst ≠ hostMac ∧ !frame.dst.isMulticast then .skip
    else if frame.ethertype = Ethernet.ethertypeArp then .arp frame.payload
    else if frame.ethertype = Ethernet.ethertypeIpv4 then
      match dhcpReply frame.payload with
      | some d => .dhcp frame.src d
      | none => .sink frame.payload
    else .skip
  | _ => .skip

/-- `frame` carries `msg` to the DHCP server, up to its checksums and padding. -/
def IsDhcpFrame (msg frame : Bytes) : Prop := msg.length ≤ 65507 ∧
  ∃ ipSum udpSum, ∃ pad ≤ Ethernet.minFrameLen, frame =
    Ethernet.fields .broadcast hostMac Ethernet.ethertypeIpv4
      (Ipv4.ipHeader (datagram msg) 0 (28 + msg.length) ipSum ++
        Ipv4.udpSegment (datagram msg) (8 + msg.length) udpSum ++ List.replicate pad 0)

section Steps

variable (s : Rx)

/-- What a reply from the server changes. -/
inductive DhcpStep (srcMac : MacAddr) (d : UdpDatagram) : Rx → Prop where
  | unused (r : Except Netstack.Error Event) : r = .ok .ignored ∨ (∃ e, r = .error e) →
      DhcpStep srcMac d { s with log := s.log ++ [.handled d.payload r] }
  | offer (c : DhcpClient) (msg frame : Bytes) :
      DhcpClient.Outcome s.dhcp d.payload (.ok (.send msg), c) → IsDhcpFrame hostMac msg frame →
      DhcpStep srcMac d
        { s with dhcp := c, log := s.log ++ [.handled d.payload (.ok (.send msg)), .queue frame] }
  | ack (c : DhcpClient) (lease : Lease) :
      DhcpClient.Outcome s.dhcp d.payload (.ok (.bound lease), c) →
      DhcpStep srcMac d
        { s with
          dhcp := c
          timer :=
            { next := clock s.reads + lease.renewalTime, backoff := dhcpRetryMin,
              renewAt := some (clock s.reads + lease.renewalTime) }
          arp := (s.arp.setHostIp lease.ip).insert d.srcIp srcMac (clock (s.reads + 1))
          reads := s.reads + 2
          log := s.log ++ [.handled d.payload (.ok (.bound lease)), .event (.bound lease)] }
  | nak (c : DhcpClient) : DhcpClient.Outcome s.dhcp d.payload (.ok .nak, c) →
      DhcpStep srcMac d
        { s with
          dhcp := c
          timer := { next := clock s.reads, backoff := dhcpRetryMin, renewAt := none }
          reads := s.reads + 1
          log := s.log ++ [.handled d.payload (.ok .nak)] }

inductive FrameStep : Class → Rx → Prop where
  | skip : FrameStep .skip s
  | sink (packet : Bytes) : FrameStep (.sink packet) { s with log := s.log ++ [.deliver packet] }
  | arpBad (payload : Bytes) (e : Netstack.Error) : Arp.parse payload = .err e →
      FrameStep (.arp payload) s
  | arp (payload : Bytes) (p : ArpPacket) (reply : Option Bytes) : Arp.parse payload = .ok p →
      FrameStep (.arp payload)
        { s with
          arp := s.arp.learned p (clock s.reads)
          reads := s.reads + if Arp.inserts payload then 1 else 0
          log := s.log ++ (reply.map Effect.queue).toList }
  | dhcp (srcMac : MacAddr) (d : UdpDatagram) (t : Rx) : DhcpStep hostMac clock s srcMac d t →
      FrameStep (.dhcp srcMac d) t

end Steps

variable {hostMac clock}

theorem IsDhcpFrame.short {hostMac : MacAddr} {msg frame : Bytes} (h : IsDhcpFrame hostMac msg frame) :
    frame.length < 2 ^ 17 := by
  obtain ⟨hmsg, ipSum, udpSum, pad, hpad, rfl⟩ := h
  have hhdr : Ethernet.headerLen = 14 := rfl
  have hmin : Ethernet.minFrameLen = 60 := rfl
  have hpay : (datagram msg).payload = msg := rfl
  rw [Ethernet.length_fields, List.length_append, List.length_append, Ipv4.length_ipHeader,
    Ipv4.length_udpSegment, List.length_replicate, hpay]
  omega

theorem sendDhcp_eq (hostMac : MacAddr) {msg : Bytes} (h : msg.length ≤ 65507) (s : Rx) :
    ∃ frame, IsDhcpFrame hostMac msg frame ∧
      sendDhcp hostMac msg s = (.ok (), { s with log := s.log ++ [.queue frame] }) := by
  have hip : (Ipv4.buildUdp (datagram msg) 0 : Checked Empty _) = .ok (Ipv4.packet (datagram msg) 0) :=
    Ipv4.buildUdp_eq (datagram msg) 0 h
  have hlen : Ethernet.headerLen + (Ipv4.packet (datagram msg) 0).length < 2 ^ 64 := by
    have hhdr : Ethernet.headerLen = 14 := rfl
    have hpay : (datagram msg).payload = msg := rfl
    rw [Ipv4.length_packet, hpay]
    omega
  obtain ⟨pad, hpad, heth⟩ := Ethernet.build_ok (ε := Empty) .broadcast hostMac Ethernet.ethertypeIpv4 _ hlen
  refine ⟨Ethernet.fields .broadcast hostMac Ethernet.ethertypeIpv4
    (Ipv4.packet (datagram msg) 0 ++ List.replicate pad 0), ⟨h, _, _, pad, hpad, rfl⟩, ?_⟩
  simp only [sendDhcp, hip, bind_apply, sure_ok, pure_apply, heth]
  rfl

theorem onDhcp_handle {msg : Bytes} {s : Rx} {result : Except Netstack.Error Event} {c : DhcpClient}
    (h : rescue (DhcpClient.handle msg) s.dhcp = (.ok result, c)) :
    onDhcp (rescue (DhcpClient.handle msg)) s = (.ok result, { s with dhcp := c }) := by
  rw [onDhcp, zoom, h]

section Replies

variable {d : UdpDatagram} {s : Rx} {c : DhcpClient}

theorem handleDhcp_rejected {e : Netstack.Error}
    (h : DhcpClient.handle d.payload s.dhcp = (.error (.err e), s.dhcp)) (srcMac : MacAddr) :
    handleDhcp hostMac clock srcMac d s =
      (.ok (), { s with log := s.log ++ [.handled d.payload (.error e)] }) := by
  have hcall : rescue (DhcpClient.handle d.payload) s.dhcp = (.ok (.error e), s.dhcp) := by
    rw [rescue, h]
  unfold handleDhcp
  rw [bind_apply_ok _ _ (onDhcp_handle hcall)]
  rfl

theorem handleDhcp_ignored (h : DhcpClient.handle d.payload s.dhcp = (.ok .ignored, s.dhcp))
    (srcMac : MacAddr) :
    handleDhcp hostMac clock srcMac d s =
      (.ok (), { s with log := s.log ++ [.handled d.payload (.ok .ignored)] }) := by
  have hcall : rescue (DhcpClient.handle d.payload) s.dhcp = (.ok (.ok .ignored), s.dhcp) := by
    rw [rescue, h]
  unfold handleDhcp
  rw [bind_apply_ok _ _ (onDhcp_handle hcall)]
  rfl

theorem handleDhcp_send {msg : Bytes}
    (h : DhcpClient.handle d.payload s.dhcp = (.ok (.send msg), c)) (srcMac : MacAddr) :
    ∃ frame, IsDhcpFrame hostMac msg frame ∧
      handleDhcp hostMac clock srcMac d s = (.ok (),
        { s with
          dhcp := c
          log := s.log ++ [.handled d.payload (.ok (.send msg)), .queue frame] }) := by
  have hlen := DhcpClient.length_send h
  obtain ⟨frame, hframe, hsend⟩ := sendDhcp_eq hostMac (show msg.length ≤ 65507 by omega)
    { s with dhcp := c, log := s.log ++ [.handled d.payload (.ok (.send msg))] }
  refine ⟨frame, hframe, ?_⟩
  have hcall : rescue (DhcpClient.handle d.payload) s.dhcp = (.ok (.ok (.send msg)), c) := by
    rw [rescue, h]
  unfold handleDhcp
  rw [bind_apply_ok _ _ (onDhcp_handle hcall)]
  simp only [bind_apply, emit, update_apply]
  rw [hsend]
  simp

theorem handleDhcp_bind {lease : Lease}
    (h : DhcpClient.handle d.payload s.dhcp = (.ok (.bound lease), c)) (srcMac : MacAddr) :
    handleDhcp hostMac clock srcMac d s = (.ok (),
      { s with
        dhcp := c
        timer :=
          { next := clock s.reads + lease.renewalTime, backoff := dhcpRetryMin,
            renewAt := some (clock s.reads + lease.renewalTime) }
        arp := (s.arp.setHostIp lease.ip).insert d.srcIp srcMac (clock (s.reads + 1))
        reads := s.reads + 2
        log := s.log ++ [.handled d.payload (.ok (.bound lease)), .event (.bound lease)] }) := by
  have hcall : rescue (DhcpClient.handle d.payload) s.dhcp = (.ok (.ok (.bound lease)), c) := by
    rw [rescue, h]
  unfold handleDhcp
  rw [bind_apply_ok _ _ (onDhcp_handle hcall)]
  simp [bind_apply, emit, bound, now, unwrap]

theorem handleDhcp_refuse (h : DhcpClient.handle d.payload s.dhcp = (.ok .nak, c))
    (srcMac : MacAddr) :
    handleDhcp hostMac clock srcMac d s = (.ok (),
      { s with
        dhcp := c
        timer := { next := clock s.reads, backoff := dhcpRetryMin, renewAt := none }
        reads := s.reads + 1
        log := s.log ++ [.handled d.payload (.ok .nak)] }) := by
  have hcall : rescue (DhcpClient.handle d.payload) s.dhcp = (.ok (.ok .nak), c) := by
    rw [rescue, h]
  unfold handleDhcp
  rw [bind_apply_ok _ _ (onDhcp_handle hcall)]
  rfl

end Replies

theorem handleDhcp_step (srcMac : MacAddr) (d : UdpDatagram) (s : Rx) :
    ∃ t, handleDhcp hostMac clock srcMac d s = (.ok (), t) ∧ DhcpStep hostMac clock s srcMac d t := by
  have hout := DhcpClient.handle_outcome s.dhcp d.payload
  generalize hr : DhcpClient.handle d.payload s.dhcp = r at hout
  cases hout with
  | rejected e => exact ⟨_, handleDhcp_rejected hr srcMac, .unused (.error e) (Or.inr ⟨e, rfl⟩)⟩
  | ignored => exact ⟨_, handleDhcp_ignored hr srcMac, .unused (.ok .ignored) (Or.inl rfl)⟩
  | offer p request hp hx hm ht hs hreq =>
    obtain ⟨frame, hframe, hsend⟩ := @handleDhcp_send hostMac clock d s _ request hr srcMac
    exact ⟨_, hsend, .offer _ request frame (.offer p request hp hx hm ht hs hreq) hframe⟩
  | ack p lease hp hx hm ht hs hl =>
    exact ⟨_, handleDhcp_bind hr srcMac, .ack _ lease (.ack p lease hp hx hm ht hs hl)⟩
  | nak p hp hx hm ht hs => exact ⟨_, handleDhcp_refuse hr srcMac, .nak _ (.nak p hp hx hm ht hs)⟩

theorem handleIpv4_eq (srcMac : MacAddr) (packet : Bytes) (s : Rx) :
    handleIpv4 hostMac clock srcMac packet s =
      match dhcpReply packet with
      | some d => handleDhcp hostMac clock srcMac d s
      | none => (.ok (), { s with log := s.log ++ [.deliver packet] }) := by
  unfold handleIpv4 dhcpReply
  cases hp : Ipv4.parseUdp packet with
  | fault f => exact absurd hp (Ipv4.parseUdp_safe packet f)
  | err e => rfl
  | ok d =>
    simp only [checked, bind_apply]
    dsimp only [rescue, pure_apply]
    split <;> rfl

theorem handleArp_cases (payload : Bytes) (s : Rx) :
    (∃ e, Arp.parse payload = .err e ∧
      handleArp clock payload s = (.ok (), s)) ∨
    (∃ p reply, Arp.parse payload = .ok p ∧
      (Arp.handle payload (clock s.reads) s.arp).1 = .ok reply ∧
      handleArp clock payload s = (.ok (),
        { s with
          arp := s.arp.learned p (clock s.reads)
          reads := s.reads + if Arp.inserts payload then 1 else 0
          log := s.log ++ (reply.map Effect.queue).toList })) := by
  obtain ⟨t, hread, hhandle⟩ : ∃ t, nowIf clock (Arp.inserts payload) s =
        (.ok t, { s with reads := s.reads + if Arp.inserts payload then 1 else 0 }) ∧
      Arp.handle payload t s.arp = Arp.handle payload (clock s.reads) s.arp := by
    unfold nowIf
    by_cases h : Arp.inserts payload
    · rw [if_pos h, if_pos h]
      exact ⟨clock s.reads, rfl, rfl⟩
    · rw [if_neg h, if_neg h]
      exact ⟨0, rfl, Arp.handle_untimed h 0 (clock s.reads)⟩
  unfold handleArp
  rw [bind_apply_ok _ _ hread]
  cases hp : Arp.parse payload with
  | fault f => exact absurd hp (Arp.parse_safe payload f)
  | err e =>
    have hinserts : ¬ Arp.inserts payload := by simp [Arp.inserts, hp]
    have hcall : onArp (rescue (Arp.handle payload t)) s = (.ok (.error e), s) := by
      rw [onArp, zoom, rescue, hhandle, Arp.handle_err hp]
    rw [if_neg hinserts, Nat.add_zero, bind_apply_ok _ _ hcall]
    exact Or.inl ⟨e, rfl, rfl⟩
  | ok p =>
    obtain ⟨reply, hreply⟩ := Arp.handle_ok hp (clock s.reads) s.arp
    have hcall : ∀ n, onArp (rescue (Arp.handle payload t)) { s with reads := n } =
        (.ok (.ok reply), { s with arp := s.arp.learned p (clock s.reads), reads := n }) := by
      intro n
      rw [onArp, zoom, rescue, hhandle, hreply]
    rw [bind_apply_ok _ _ (hcall _)]
    refine Or.inr ⟨p, reply, rfl, congrArg Prod.fst hreply, ?_⟩
    cases reply with
    | none => simp
    | some frame => rfl

theorem handleArp_step (payload : Bytes) (s : Rx) :
    ∃ t, handleArp clock payload s = (.ok (), t) ∧ FrameStep hostMac clock s (.arp payload) t := by
  rcases @handleArp_cases clock payload s with ⟨e, hp, harp⟩ | ⟨p, reply, hp, _, harp⟩
  · exact ⟨_, harp, .arpBad payload e hp⟩
  · exact ⟨_, harp, .arp payload p reply hp⟩

theorem handleFrame_eq (bytes : Bytes) (s : Rx) :
    handleFrame hostMac clock bytes s =
      match classify hostMac bytes with
      | .skip => (.ok (), s)
      | .arp payload => handleArp clock payload s
      | .sink packet => (.ok (), { s with log := s.log ++ [.deliver packet] })
      | .dhcp srcMac d => handleDhcp hostMac clock srcMac d s := by
  unfold handleFrame classify
  cases hp : Ethernet.parse bytes with
  | fault f => exact absurd hp (Ethernet.parse_safe bytes f)
  | err e => rfl
  | ok frame =>
    have hcall : rescue (checked (Checked.ok frame : Checked Netstack.Error _)) s =
        (.ok (.ok frame), s) := rfl
    rw [bind_apply_ok _ _ hcall]
    dsimp only
    by_cases hours : frame.dst ≠ hostMac ∧ !frame.dst.isMulticast
    · rw [if_pos hours, if_pos hours]
      rfl
    rw [if_neg hours, if_neg hours]
    by_cases harp : frame.ethertype = Ethernet.ethertypeArp
    · rw [if_pos harp, if_pos harp]
    rw [if_neg harp, if_neg harp]
    by_cases hip : frame.ethertype = Ethernet.ethertypeIpv4
    · rw [if_pos hip, if_pos hip, handleIpv4_eq]
      cases dhcpReply frame.payload <;> rfl
    · rw [if_neg hip, if_neg hip]
      rfl

theorem handleFrame_step (bytes : Bytes) (s : Rx) :
    ∃ t, handleFrame hostMac clock bytes s = (.ok (), t) ∧
      FrameStep hostMac clock s (classify hostMac bytes) t := by
  rw [handleFrame_eq]
  cases classify hostMac bytes with
  | skip => exact ⟨s, rfl, .skip⟩
  | arp payload => exact handleArp_step payload s
  | sink packet => exact ⟨_, rfl, .sink packet⟩
  | dhcp srcMac d =>
    obtain ⟨t, ht, hstep⟩ := @handleDhcp_step hostMac clock srcMac d s
    exact ⟨t, ht, .dhcp srcMac d t hstep⟩

def leadingFrames : List (Except Wire.Error Bytes) → List Bytes
  | .ok f :: rest => f :: leadingFrames rest
  | _ => []

def frames (data : Bytes) : List Bytes := leadingFrames (Packet.items data)

def handleAll (hostMac : MacAddr) (clock : Nat → Instant) : List Bytes → RxM Unit
  | [] => return
  | f :: fs => do
    handleFrame hostMac clock f
    handleAll hostMac clock fs

theorem handleItems_eq (n : Nat) (buf : Bytes) (h : buf.length < n) :
    handleItems hostMac clock n buf = handleAll hostMac clock (frames buf) := by
  induction n generalizing buf with
  | zero => omega
  | succ n ih =>
    unfold handleItems frames
    rcases Packet.next_cases buf with
      ⟨hshort, hnext⟩ | ⟨m, d, rest, rfl, hm, hnext⟩ | ⟨hb, e, he, hnext⟩
    · rw [Packet.items_short hshort, hnext]
      rfl
    · rw [Packet.items_message hm, hnext]
      have hh := hm.header
      rw [Wire.dataHeaderLen_eq] at hh
      rw [List.length_append] at h
      have hrest := ih rest (by omega)
      funext s
      rw [sure_ok, bind_apply_ok _ _ (pure_apply s _)]
      dsimp only
      rw [hrest]
      rfl
    · rw [Packet.items_error hb he, hnext]
      rfl

theorem handleTransfer_eq (data : Bytes) :
    handleTransfer hostMac clock data = handleAll hostMac clock (frames data) :=
  handleItems_eq _ data (Nat.lt_succ_self _)

/-- The states passed while frames are handled one by one. -/
inductive FrameSteps (hostMac : MacAddr) (clock : Nat → Instant) : Rx → List Bytes → Rx → Prop where
  | nil (s : Rx) : FrameSteps hostMac clock s [] s
  | cons {s t u : Rx} {f : Bytes} {fs : List Bytes} :
      FrameStep hostMac clock s (classify hostMac f) t → FrameSteps hostMac clock t fs u →
      FrameSteps hostMac clock s (f :: fs) u

theorem handleAll_steps (fs : List Bytes) (s : Rx) :
    ∃ t, handleAll hostMac clock fs s = (.ok (), t) ∧ FrameSteps hostMac clock s fs t := by
  induction fs generalizing s with
  | nil => exact ⟨s, rfl, .nil s⟩
  | cons f fs ih =>
    obtain ⟨t, hframe, hstep⟩ := @handleFrame_step hostMac clock f s
    obtain ⟨u, hrest, hsteps⟩ := ih t
    refine ⟨u, ?_, .cons hstep hsteps⟩
    rw [handleAll, bind_apply_ok _ _ hframe, hrest]

theorem handleTransfer_steps (data : Bytes) (s : Rx) :
    ∃ t, handleTransfer hostMac clock data s = (.ok (), t) ∧
      FrameSteps hostMac clock s (frames data) t := by
  rw [handleTransfer_eq]
  exact handleAll_steps (frames data) s

/-- Whatever the bytes and the state, no access is out of bounds, nothing overflows
and nothing promised is missing. -/
theorem handleTransfer_completes (hostMac : MacAddr) (clock : Nat → Instant) (data : Bytes) (s : Rx) :
    (handleTransfer hostMac clock data s).1 = .ok () := by
  obtain ⟨t, ht, _⟩ := @handleTransfer_steps hostMac clock data s
  rw [ht]

end Muta.Link.Rx
