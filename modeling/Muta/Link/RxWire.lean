import Muta.Link.RxStep
import Muta.Netstack.DhcpRun

/-!
# DHCP on the wire

What the client makes up on its first send and on every repetition is the same message,
and a server that takes the queued frame apart finds it there unchanged: in UDP from
port 68 to port 67, with the client's current transaction, its address, and the options
that belong to the state it is in.
-/

namespace Muta.Link.Rx

open Usb Act Netstack Dhcp DhcpClient
set_option autoImplicit false

theorem IsDhcpFrame.read {hostMac : MacAddr} {msg frame : Bytes} (h : IsDhcpFrame hostMac msg frame)
    (hlen : msg.length ≤ 65507) : ∃ f, Ethernet.parse frame = .ok f ∧
      f.ethertype = Ethernet.ethertypeIpv4 ∧ Ipv4.parseUdp f.payload = .ok (datagram msg) := by
  obtain ⟨_, ipSum, udpSum, pad, _, rfl⟩ := h
  refine ⟨_, Ethernet.parse_fields _ _ _ _, rfl, ?_⟩
  exact Ipv4.parseUdp_packet (datagram msg) 0 ipSum udpSum _ hlen

/-- The options a message carries in each state. -/
structure StateOptions (past : List (DhcpClient × Call)) (c : DhcpClient) (msg : Bytes)
    (opts : List (UInt8 × Bytes)) : Prop where
  clientId : opts.lookup optClientId = some (htypeEthernet :: c.mac.octets)
  selecting : c.state = .selecting →
    opts.lookup optMessageType = some [discoverType] ∧ opts.lookup optRequestedIp = none ∧
    opts.lookup optServerId = none
  requesting : c.state = .requesting →
    ∃ offer p, (messages past).getLast? = some (.handle offer, msg) ∧ Dhcp.parse offer = .ok p ∧
      p.messageType = offerType ∧ opts.lookup optMessageType = some [requestType] ∧
      opts.lookup optRequestedIp = some p.yiaddr.octets ∧
      opts.lookup optServerId = p.serverId.map Ipv4Addr.octets ∧ ciaddrOf msg = .unspecified
  renewing : c.state = .renewing →
    ∃ lease, c.lease = some lease ∧ opts.lookup optMessageType = some [requestType] ∧
      opts.lookup optRequestedIp = none ∧ opts.lookup optServerId = none ∧ ciaddrOf msg = lease.ip

/-- What a server reads off a message of the client. -/
structure WellFormed (past : List (DhcpClient × Call)) (c : DhcpClient) (msg : Bytes) : Prop where
  length : 300 ≤ msg.length
  xid : xidOf msg = c.xid
  chaddr : chaddrOf msg = c.mac.octets
  flag : flagsOf msg &&& flagBroadcast ≠ 0 ↔ ciaddrOf msg = .unspecified
  options : ∃ opts, Dhcp.options msg = some opts ∧ StateOptions past c msg opts

theorem wellFormed_message {past : List (DhcpClient × Call)} {c : DhcpClient} {messageType : UInt8}
    {ciaddr : Ipv4Addr} {requestedIp serverId : Option Ipv4Addr}
    (h : StateOptions past c (message c messageType ciaddr requestedIp serverId)
      (optionList c messageType requestedIp serverId)) :
    WellFormed past c (message c messageType ciaddr requestedIp serverId) where
  length := Nat.le_of_eq (length_message c messageType ciaddr requestedIp serverId).symm
  xid := xidOf_message c messageType ciaddr requestedIp serverId
  chaddr := chaddrOf_message c messageType ciaddr requestedIp serverId
  flag := flag_iff c messageType ciaddr requestedIp serverId
  options := ⟨_, options_message c messageType ciaddr requestedIp serverId, h⟩

theorem pending_cases {past : List (DhcpClient × Call)} {c : DhcpClient}
    (h : Waiting c (messages past).getLast?) :
    (c.state = .init ∨ c.state = .bound) ∧ c.pending = none ∨
    ¬ (c.state = .init ∨ c.state = .bound) ∧ ∃ k msg, c.pending = some msg ∧
      (messages past).getLast? = some (k, msg) ∧ WellFormed past c msg := by
  generalize hlast : (messages past).getLast? = last at h
  cases h with
  | idle _ hs =>
    refine Or.inl ⟨hs, ?_⟩
    rcases hs with hs | hs <;> rw [pending, hs]
  | selecting hs =>
    refine Or.inr ⟨by simp [hs], .discover, _, by rw [pending, hs], rfl, wellFormed_message ?_⟩
    exact
      { clientId := lookup_clientId _ _ _ _
        selecting := fun _ =>
          ⟨lookup_messageType _ _ _ _, lookup_requestedIp _ _ _ _, lookup_serverId _ _ _ _⟩
        requesting := by simp [hs]
        renewing := by simp [hs] }
  | requesting offer p hs hp ht hoffered hserver =>
    refine Or.inr ⟨by simp [hs], .handle offer, _, by rw [pending, hs, hoffered, hserver], rfl,
      wellFormed_message ?_⟩
    exact
      { clientId := lookup_clientId _ _ _ _
        selecting := by simp [hs]
        requesting := fun _ => ⟨offer, p, hlast, hp, ht, lookup_messageType _ _ _ _,
          lookup_requestedIp _ _ _ _, lookup_serverId _ _ _ _, ciaddrOf_message _ _ _ _ _⟩
        renewing := by simp [hs] }
  | renewing lease hs hl =>
    refine Or.inr ⟨by simp [hs], .renew, _, by rw [pending, hs, hl]; rfl, rfl, wellFormed_message ?_⟩
    exact
      { clientId := lookup_clientId _ _ _ _
        selecting := by simp [hs]
        requesting := by simp [hs]
        renewing := fun _ => ⟨lease, hl, lookup_messageType _ _ _ _, lookup_requestedIp _ _ _ _,
          lookup_serverId _ _ _ _, ciaddrOf_message _ _ _ _ _⟩ }

/-- In every state a client can reach, it has nothing to repeat exactly in `init` and
`bound`; otherwise it repeats the last message it made up, which is well formed and is
found unchanged in the frame that is queued for it. -/
theorem messages_on_wire {mac : MacAddr} {xid : UInt32} {past : List (DhcpClient × Call)} {c : DhcpClient}
    (run : Machine.Run (client mac xid) Machine.any past c) :
    ((retransmit c).1 = .ok none ↔ c.state = .init ∨ c.state = .bound) ∧
    c.mac = mac ∧
    (∀ k msg, produced c k = some msg → (retransmit (call c k)).1 = .ok (some msg)) ∧
    ∀ msg, (retransmit c).1 = .ok (some msg) →
      (∃ k, (messages past).getLast? = some (k, msg)) ∧ WellFormed past c msg ∧
      ∀ hostMac s, ∃ frame f d,
        sendDhcp hostMac msg s = (.ok (), { s with log := s.log ++ [.queue frame] }) ∧
        Ethernet.parse frame = .ok f ∧ f.ethertype = Ethernet.ethertypeIpv4 ∧
        Ipv4.parseUdp f.payload = .ok d ∧ d.srcPort = 68 ∧ d.dstPort = 67 ∧ d.payload = msg := by
  rw [retransmit_eq]
  refine ⟨?_, (run_settled run).mac, ?_, ?_⟩
  · rcases pending_cases (run_waiting run) with ⟨hs, hp⟩ | ⟨hs, k, msg, hp, _, _⟩
    · simp [hp, hs]
    · simp [hp, hs]
  · intro k msg hmsg
    have hcalled := call_called c k
    rw [hmsg] at hcalled
    rw [retransmit_eq, hcalled.pending]
  · intro msg hmsg
    have hpending := Except.ok.inj hmsg
    rcases pending_cases (run_waiting run) with ⟨_, hp⟩ | ⟨_, k, msg', hp, hlast, hwell⟩
    · rw [hp] at hpending
      cases hpending
    · rw [hp] at hpending
      cases hpending
      refine ⟨⟨k, hlast⟩, hwell, ?_⟩
      intro hostMac s
      have hlen : msg.length ≤ 65507 := by
        rw [length_pending hp]
        decide
      obtain ⟨frame, hframe, hsend⟩ := sendDhcp_eq hostMac hlen s
      obtain ⟨f, hf, htype, hd⟩ := hframe.read hlen
      exact ⟨frame, f, _, hsend, hf, htype, hd, rfl, rfl, rfl⟩

theorem messages_on_wire_requesting :
    ∃ past c msg, Machine.Run (client ⟨2, 0, 0, 0, 0, 1⟩ 1) Machine.any past c ∧
      c.state = .requesting ∧ (retransmit c).1 = .ok (some msg) ∧ WellFormed past c msg := by
  have run := (Machine.Run.start (m := client ⟨2, 0, 0, 0, 0, 1⟩ 1)).takeAll
    [.discover, .handle (serverReply ⟨2, 0, 0, 0, 0, 1⟩ ⟨192, 168, 42, 129⟩ 1015568748 offerType
      ⟨192, 168, 42, 130⟩ [])]
  have hstate : ([.discover, .handle (serverReply ⟨2, 0, 0, 0, 0, 1⟩ ⟨192, 168, 42, 129⟩ 1015568748
      offerType ⟨192, 168, 42, 130⟩ [])].foldl (client ⟨2, 0, 0, 0, 0, 1⟩ 1).step
      (client ⟨2, 0, 0, 0, 0, 1⟩ 1).start).state = .requesting := by decide +kernel
  obtain ⟨hidle, _, _, hwire⟩ := messages_on_wire run
  rw [hstate] at hidle
  generalize [_, _].foldl (client ⟨2, 0, 0, 0, 0, 1⟩ 1).step
    (client ⟨2, 0, 0, 0, 0, 1⟩ 1).start = c at run hstate hidle hwire
  rw [retransmit_eq] at hidle hwire
  cases hp : c.pending with
  | none => simp [hp] at hidle
  | some msg =>
    refine ⟨_, c, msg, run, hstate, by rw [retransmit_eq, hp], (hwire msg (by rw [hp])).2.1⟩

end Muta.Link.Rx
