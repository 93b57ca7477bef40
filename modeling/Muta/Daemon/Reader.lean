import Muta.Daemon.Tunnel
import Muta.Link.RxRun

/-!
# The tunnel's reader

The reader takes packets off the tunnel and puts them into frames for the gateway. It
shares the ARP table with the RX thread: under the table's lock it looks the gateway up
and, where it does not know it, asks for it; the frame of a packet is queued after the lock
is released. So between the two whatever the RX thread does can come, and the machine
below has a step for each.
-/

namespace Muta.Tun

def afHeaderLen : Nat := 4

end Muta.Tun

namespace Muta.Reader

open Usb Act Netstack Dhcp Link
set_option autoImplicit false

/-- The length of the buffer packets are read into. -/
def room (r : Reader) : Nat := r.mtu.toNat + Tun.afHeaderLen + 64

/-- `Utun::read`, with what the device has for it; a read that fails or times out has nothing. -/
def read (r : Reader) : Option Bytes → Option Bytes
  | none => none
  | some bytes =>
    let got := bytes.take r.room
    if got.length < Tun.afHeaderLen then some [] else some (got.drop Tun.afHeaderLen)

section Program

variable (hostMac : MacAddr) (clock : Nat → Instant)

/-- What is done under the lock: the gateway's address, or else a request for it. -/
def gatewayMac (r : Reader) : RxM (Option MacAddr) := do
  -- The time is needed only for the age of an entry.
  let present ← Rx.nowIf clock ((← state).arp.cache r.gateway).isSome
  match (← state).arp.lookup r.gateway present with
  | some mac => return some mac
  | none =>
    let present ← Rx.now clock
    match ← Rx.onArp (Arp.request r.gateway present) with
    | some request =>
      Rx.emit (.queue request)
      return none
    | none => return none

/-- One round of the loop, up to the frame that is to be queued. -/
def receive (r : Reader) (raw : Option Bytes) : RxM (Option Bytes) := do
  match r.read raw with
  | none => return none
  | some packet =>
    if packet.length = 0 then
      return none
    else
      match ← gatewayMac clock r with
      | none => return none
      | some mac => return some (← sure (Ethernet.build mac hostMac Ethernet.ethertypeIpv4 packet))

end Program

section Rounds

variable (hostMac : MacAddr) (clock : Nat → Instant) (r : Reader) (raw : Option Bytes) (s : Rx)

def requestFrame (pad : Nat) : Bytes :=
  Ethernet.fields .broadcast s.arp.hostMac Ethernet.ethertypeArp
    (Arp.build (s.arp.question r.gateway) ++ List.replicate pad 0)

/-- The readings of the clock that looking the gateway up takes. -/
def looks : Nat := if (s.arp.cache r.gateway).isSome then 1 else 0

inductive Received : Option Bytes → Rx → Prop where
  | idle : r.read raw = none ∨ r.read raw = some [] → Received none s
  | wrapped (packet : Bytes) (mac : MacAddr) (frame : Bytes) : r.read raw = some packet →
      packet ≠ [] → s.arp.lookup r.gateway (clock s.reads) = some mac →
      (Ethernet.build mac hostMac Ethernet.ethertypeIpv4 packet : Checked Empty _) = .ok frame →
      Received (some frame) { s with reads := s.reads + 1 }
  | limited (packet : Bytes) : r.read raw = some packet → packet ≠ [] →
      s.arp.lookup r.gateway (clock s.reads) = none →
      s.arp.Limited r.gateway (clock (s.reads + looks r s)) →
      Received none { s with reads := s.reads + (looks r s + 1) }
  | asks (packet : Bytes) (pad : Nat) : r.read raw = some packet → packet ≠ [] →
      s.arp.lookup r.gateway (clock s.reads) = none →
      ¬ s.arp.Limited r.gateway (clock (s.reads + looks r s)) → pad ≤ Ethernet.minFrameLen →
      Received none
        { s with
          arp := s.arp.noted r.gateway (clock (s.reads + looks r s))
          reads := s.reads + (looks r s + 1)
          log := s.log ++ [.queue (requestFrame r s pad)] }

end Rounds

variable {hostMac : MacAddr} {clock : Nat → Instant}

theorem length_read {r : Reader} {raw : Option Bytes} {packet : Bytes} (h : r.read raw = some packet) :
    packet.length ≤ r.mtu.toNat + 64 := by
  cases raw with
  | none => cases h
  | some bytes =>
    unfold read at h
    dsimp only at h
    split at h
    · cases h
      exact Nat.zero_le _
    · cases h
      rw [List.length_drop, List.length_take, room, Tun.afHeaderLen]
      omega

theorem read_fits {r : Reader} {raw : Option Bytes} {packet : Bytes} (h : r.read raw = some packet) :
    Ethernet.headerLen + packet.length < 2 ^ 64 := by
  have hbound := length_read h
  have hmtu := r.mtu.toNat_lt
  have hhdr : Ethernet.headerLen = 14 := rfl
  omega

section Locked

variable {r : Reader} {s : Rx}

theorem gatewayMac_known {mac : MacAddr} (h : s.arp.lookup r.gateway (clock s.reads) = some mac) :
    gatewayMac clock r s = (.ok (some mac), { s with reads := s.reads + 1 }) := by
  obtain ⟨e, hentry, _⟩ := Arp.lookup_eq_some.mp h
  have hread : Rx.nowIf clock (s.arp.cache r.gateway).isSome s =
      (.ok (clock s.reads), { s with reads := s.reads + 1 }) := by
    rw [hentry]
    rfl
  simp only [gatewayMac, bind_apply, state_apply, hread, h]
  rfl

theorem gatewayMac_unknown {request : Option Bytes} {a : Arp}
    (h : s.arp.lookup r.gateway (clock s.reads) = none)
    (hrequest : Arp.request r.gateway (clock (s.reads + looks r s)) s.arp = (.ok request, a)) :
    gatewayMac clock r s = (.ok none,
      { s with
        arp := a
        reads := s.reads + (looks r s + 1)
        log := s.log ++ (request.map Effect.queue).toList }) := by
  obtain ⟨t, hread, hunknown⟩ : ∃ t, Rx.nowIf clock (s.arp.cache r.gateway).isSome s =
      (.ok t, { s with reads := s.reads + looks r s }) ∧ s.arp.lookup r.gateway t = none := by
    rw [looks]
    cases hentry : s.arp.cache r.gateway with
    | none => exact ⟨0, rfl, by simp [Arp.lookup, hentry]⟩
    | some e => exact ⟨clock s.reads, rfl, h⟩
  have hthen : Rx.now clock { s with reads := s.reads + looks r s } =
      (.ok (clock (s.reads + looks r s)), { s with reads := s.reads + looks r s + 1 }) := rfl
  simp only [gatewayMac, bind_apply, state_apply, hread, hunknown, hthen, Rx.onArp, zoom, hrequest]
  cases request with
  | none => simp [Nat.add_assoc]
  | some frame => rfl

theorem receive_received (r : Reader) (raw : Option Bytes) (s : Rx) :
    ∃ held t, receive hostMac clock r raw s = (.ok held, t) ∧
      Received hostMac clock r raw s held t := by
  cases hread : r.read raw with
  | none =>
    refine ⟨none, s, ?_, .idle (Or.inl hread)⟩
    rw [receive, hread]
    rfl
  | some packet =>
    by_cases hempty : packet = []
    · refine ⟨none, s, ?_, .idle (Or.inr (hempty ▸ hread))⟩
      rw [receive, hread, hempty]
      rfl
    have hlen : ¬ packet.length = 0 := fun hzero => hempty (List.length_eq_zero_iff.mp hzero)
    rw [receive, hread]
    dsimp only
    rw [if_neg hlen]
    cases hlookup : s.arp.lookup r.gateway (clock s.reads) with
    | some mac =>
      obtain ⟨pad, _, hbuild⟩ := Ethernet.build_ok (ε := Empty) mac hostMac Ethernet.ethertypeIpv4 packet
        (read_fits hread)
      rw [bind_apply_ok _ _ (gatewayMac_known hlookup)]
      refine ⟨_, _, ?_, .wrapped packet mac _ hread hempty hlookup hbuild⟩
      simp only [hbuild, bind_apply, sure_ok, pure_apply]
    | none =>
      by_cases hlimited : s.arp.Limited r.gateway (clock (s.reads + looks r s))
      · have hgateway := gatewayMac_unknown hlookup (Arp.request_limited hlimited)
        rw [bind_apply_ok _ _ hgateway]
        refine ⟨none, _, rfl, ?_⟩
        simpa using Received.limited packet hread hempty hlookup hlimited
      · obtain ⟨pad, hpad, hsends⟩ := Arp.request_sends hlimited
        rw [bind_apply_ok _ _ (gatewayMac_unknown hlookup hsends)]
        exact ⟨none, _, rfl, .asks packet pad hread hempty hlookup hlimited hpad⟩

end Locked

/-- The link's state, with the frame the reader is about to queue. -/
structure Shared where
  rx : Rx
  held : Option Bytes

inductive Turn where
  | frame (bytes : Bytes)
  | poll
  | read (r : Reader) (raw : Option Bytes)
  | send

section Machine

variable (hostMac : MacAddr) (clock : Nat → Instant)

/-- A turn of one of the threads; the reader does not read while it has a frame to queue. -/
def turn (s : Shared) : Turn → Shared
  | .frame bytes => { s with rx := Rx.take hostMac clock s.rx (.frame bytes) }
  | .poll => { s with rx := Rx.take hostMac clock s.rx .poll }
  | .read r raw =>
    match s.held with
    | some _ => s
    | none =>
      match receive hostMac clock r raw s.rx with
      | (.ok held, rx) => ⟨rx, held⟩
      | (.error _, rx) => ⟨rx, none⟩
  | .send =>
    match s.held with
    | some frame => ⟨(Rx.emit (.queue frame) s.rx).2, none⟩
    | none => s

def shared : Machine Shared Turn :=
  { start := ⟨(Rx.thread hostMac clock).start, none⟩, step := turn hostMac clock }

theorem shared_step (s : Shared) (t : Turn) :
    (shared hostMac clock).step s t = turn hostMac clock s t := rfl

def taught (s : Shared) : Turn → Option (Ipv4Addr × Entry)
  | .frame bytes =>
    match Rx.classify hostMac bytes with
    | .arp payload =>
      match Arp.parse payload with
      | .ok p =>
        if Arp.Usable p then some (p.senderIp, ⟨p.senderMac, clock s.rx.reads⟩) else none
      | _ => none
    | .dhcp srcMac d =>
      match (DhcpClient.handle d.payload s.rx.dhcp).1 with
      | .ok (.bound _) => some (d.srcIp, ⟨srcMac, clock (s.rx.reads + 1)⟩)
      | _ => none
    | _ => none
  | _ => none

def queued (s : Shared) (t : Turn) : List Bytes :=
  ((turn hostMac clock s t).rx.log.drop s.rx.log.length).filterMap fun e =>
    match e with
    | .queue frame => some frame
    | _ => none

def forwarded (turns : List (Shared × Turn)) : List Bytes :=
  turns.flatMap fun x =>
    match x.2 with
    | .read _ _ => queued hostMac clock x.1 x.2
    | .send => queued hostMac clock x.1 x.2
    | _ => []

end Machine

/-- The address a frame asks for, if it is an ARP request. -/
def arpTarget (frame : Bytes) : Option Ipv4Addr :=
  match Ethernet.parse frame with
  | .ok f =>
    if f.ethertype = Ethernet.ethertypeArp then
      match Arp.parse f.payload with
      | .ok p => if p.op = Arp.opRequest then some p.targetIp else none
      | _ => none
    else
      none
  | _ => none

theorem arpTarget_request (r : Reader) (s : Rx) (pad : Nat) :
    arpTarget (requestFrame r s pad) = some r.gateway := by
  simp [arpTarget, requestFrame, Ethernet.parse_fields, Arp.parse_build, Arp.question]

theorem arpTarget_ipv4 (dst src : MacAddr) (body : Bytes) :
    arpTarget (Ethernet.fields dst src Ethernet.ethertypeIpv4 body) = none := by
  have hother : Ethernet.ethertypeIpv4 ≠ Ethernet.ethertypeArp := by decide
  simp [arpTarget, Ethernet.parse_fields, hother]

theorem arpTarget_reply (dst src : MacAddr) (a : Arp) (p : ArpPacket) (pad : Bytes) :
    arpTarget (Ethernet.fields dst src Ethernet.ethertypeArp (Arp.build (a.reply p) ++ pad)) = none := by
  have hop : Arp.opReply ≠ Arp.opRequest := by decide
  simp [arpTarget, Ethernet.parse_fields, Arp.parse_build, Arp.reply, hop]

theorem arpTarget_dhcp {msg frame : Bytes} (h : Rx.IsDhcpFrame hostMac msg frame) :
    arpTarget frame = none := by
  obtain ⟨_, ipSum, udpSum, pad, _, rfl⟩ := h
  exact arpTarget_ipv4 _ _ _

theorem length_arpFrame (dst src : MacAddr) (p : ArpPacket) {pad : Nat} (h : pad ≤ Ethernet.minFrameLen) :
    (Ethernet.fields dst src Ethernet.ethertypeArp (Arp.build p ++ List.replicate pad 0)).length <
      2 ^ 17 := by
  have hhdr : Ethernet.headerLen = 14 := rfl
  have hmin : Ethernet.minFrameLen = 60 := rfl
  have hpacket : Arp.packetLen = 28 := rfl
  rw [Ethernet.length_fields, List.length_append, Arp.length_build, List.length_replicate]
  omega

/-- What a turn of the RX thread leaves alone: it asks for no address. -/
structure Apart (s t : Rx) : Prop where
  log : ∃ new, t.log = s.log ++ new ∧
    ∀ frame, Effect.queue frame ∈ new → arpTarget frame = none ∧ frame.length < 2 ^ 17
  lastRequest : t.arp.lastRequest = s.arp.lastRequest
  reads : s.reads ≤ t.reads

theorem dhcpStep_apart {s t : Rx} {srcMac : MacAddr} {d : UdpDatagram}
    (h : Rx.DhcpStep hostMac clock s srcMac d t) : Apart s t := by
  cases h with
  | unused result _ => exact ⟨⟨_, rfl, by simp⟩, rfl, Nat.le_refl _⟩
  | offer c msg frame _ hframe =>
    refine ⟨⟨_, rfl, ?_⟩, rfl, Nat.le_refl _⟩
    intro frame' hmem
    simp only [List.mem_cons, reduceCtorEq, Effect.queue.injEq, List.not_mem_nil, or_false,
      false_or] at hmem
    rw [hmem]
    exact ⟨arpTarget_dhcp hframe, hframe.short⟩
  | ack c lease _ => exact ⟨⟨_, rfl, by simp⟩, rfl, Nat.le_add_right _ _⟩
  | nak c _ => exact ⟨⟨_, rfl, by simp⟩, rfl, Nat.le_add_right _ _⟩

theorem handleFrame_apart (bytes : Bytes) (s : Rx) :
    Apart s (Rx.handleFrame hostMac clock bytes s).2 := by
  rw [Rx.handleFrame_eq]
  split
  · exact ⟨⟨[], (List.append_nil _).symm, by simp⟩, rfl, Nat.le_refl _⟩
  · rename_i payload _
    rcases @Rx.handleArp_cases clock payload s with ⟨e, _, harp⟩ | ⟨p, reply, _, hreply, harp⟩
    · rw [harp]
      exact ⟨⟨[], (List.append_nil _).symm, by simp⟩, rfl, Nat.le_refl _⟩
    · rw [harp]
      refine ⟨⟨_, rfl, ?_⟩, Arp.learned_lastRequest _ _ _, Nat.le_add_right _ _⟩
      intro frame hmem
      cases reply with
      | none => simp at hmem
      | some answer =>
        obtain ⟨_, pad, _, _, hpad, rfl⟩ := Arp.handle_some hreply
        simp only [Option.map_some, Option.toList_some, List.mem_singleton,
          Effect.queue.injEq] at hmem
        rw [hmem]
        exact ⟨arpTarget_reply _ _ _ _ _, length_arpFrame _ _ _ hpad⟩
  · exact ⟨⟨_, rfl, by simp⟩, rfl, Nat.le_refl _⟩
  · rename_i srcMac d _
    obtain ⟨t, ht, hstep⟩ := @Rx.handleDhcp_step hostMac clock srcMac d s
    rw [ht]
    exact dhcpStep_apart hstep

theorem poll_apart (s : Rx) : Apart s (Rx.poll hostMac clock s).2 := by
  have htaken := @Rx.poll_taken hostMac clock s
  generalize (Rx.poll hostMac clock s).2 = u at htaken
  cases htaken with
  | poll result t new hdue hqueued =>
    have hkept : t.log = s.log ∧ t.arp = s.arp ∧ s.reads ≤ t.reads := by
      cases hdue <;> exact ⟨rfl, rfl, Nat.le_add_right _ _⟩
    refine ⟨⟨new, congrArg (· ++ new) hkept.1, ?_⟩, congrArg Arp.lastRequest hkept.2.1, hkept.2.2⟩
    intro frame hmem
    cases hqueued with
    | nothing => simp at hmem
    | message msg frame' hframe =>
      simp only [List.mem_singleton, Effect.queue.injEq] at hmem
      rw [hmem]
      exact ⟨arpTarget_dhcp hframe, hframe.short⟩

section Turned

variable (hostMac : MacAddr) (clock : Nat → Instant) (s : Shared)

inductive Turned : Turn → Shared → Prop where
  | frame (bytes : Bytes) :
      Turned (.frame bytes) { s with rx := (Rx.handleFrame hostMac clock bytes s.rx).2 }
  | poll : Turned .poll { s with rx := (Rx.poll hostMac clock s.rx).2 }
  | read (r : Reader) (raw held : Option Bytes) (rx : Rx) : s.held = none →
      Received hostMac clock r raw s.rx held rx → Turned (.read r raw) ⟨rx, held⟩
  | busy (r : Reader) (raw : Option Bytes) (frame : Bytes) : s.held = some frame →
      Turned (.read r raw) s
  | send (frame : Bytes) : s.held = some frame →
      Turned .send ⟨{ s.rx with log := s.rx.log ++ [.queue frame] }, none⟩
  | done : s.held = none → Turned .send s

end Turned

theorem turn_turned (s : Shared) (t : Turn) : Turned hostMac clock s t (turn hostMac clock s t) := by
  cases t with
  | frame bytes => exact .frame bytes
  | poll => exact .poll
  | read r raw =>
    cases hheld : s.held with
    | some frame =>
      simp only [turn, hheld]
      exact .busy r raw frame hheld
    | none =>
      obtain ⟨held, rx, hreceive, hreceived⟩ := @receive_received hostMac clock r raw s.rx
      simp only [turn, hheld, hreceive]
      exact .read r raw held rx hheld hreceived
  | send =>
    cases hheld : s.held with
    | some frame =>
      simp only [turn, hheld]
      exact .send frame hheld
    | none =>
      simp only [turn, hheld]
      exact .done hheld

theorem Apart.refl (s : Rx) : Apart s s := ⟨⟨[], (List.append_nil _).symm, by simp⟩, rfl, Nat.le_refl _⟩

theorem Apart.reading (s : Rx) (n : Nat) : Apart s { s with reads := s.reads + n } :=
  ⟨⟨[], (List.append_nil _).symm, by simp⟩, rfl, Nat.le_add_right _ _⟩

end Muta.Reader
