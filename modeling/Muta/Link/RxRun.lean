import Muta.Base.Machine
import Muta.Link.RxTimer
import Muta.Netstack.DhcpRun

/-!
# The thread as a machine

For properties of whole runs the thread is a machine that takes one frame, one check of
its timer or one request of the tunnel's reader at a time. A transfer is its frames one
after the other, so every state reached by transfers is reached by this machine, and so
are the states in between.
-/

namespace Muta.Link.Rx

open Usb Act Netstack Dhcp
set_option autoImplicit false

inductive Input where
  | frame (bytes : Bytes)
  | poll
  | request (lastRequest : Ipv4Addr → Option Instant)

section Thread

variable (hostMac : MacAddr) (clock : Nat → Instant)

def take (s : Rx) : Input → Rx
  | .frame bytes => (handleFrame hostMac clock bytes s).2
  | .poll => (poll hostMac clock s).2
  | .request lastRequest => { s with arp := { s.arp with lastRequest := lastRequest } }

def thread : Machine Rx Input :=
  { start := (start hostMac clock (initial hostMac)).2, step := take hostMac clock }

inductive Queued : Option Bytes → List Effect → Prop where
  | nothing : Queued none []
  | message (msg frame : Bytes) : IsDhcpFrame hostMac msg frame → Queued (some msg) [.queue frame]

/-- All that an input can change. -/
inductive Taken (s : Rx) : Input → Rx → Prop where
  | frame (bytes : Bytes) (t : Rx) : FrameStep hostMac clock s (classify hostMac bytes) t →
      Taken s (.frame bytes) t
  | poll (r : Option Bytes) (t : Rx) (new : List Effect) : DueStep clock s r t →
      Queued hostMac r new → Taken s .poll { t with log := t.log ++ new }
  | request (lastRequest : Ipv4Addr → Option Instant) :
      Taken s (.request lastRequest) { s with arp := { s.arp with lastRequest := lastRequest } }

end Thread

variable {hostMac : MacAddr} {clock : Nat → Instant}

attribute [local irreducible] start

theorem poll_taken (s : Rx) : Taken hostMac clock s .poll (poll hostMac clock s).2 := by
  obtain ⟨r, t, hdue, hstep⟩ := @due_step clock s
  unfold poll
  rw [bind_apply_ok _ _ hdue]
  cases r with
  | none =>
    have htaken := @Taken.poll hostMac clock s none t [] hstep .nothing
    simpa using htaken
  | some msg =>
    obtain ⟨frame, hframe, hsend⟩ :=
      sendDhcp_eq hostMac (Nat.le_trans (Nat.le_of_eq hstep.length) (by decide)) t
    dsimp only
    rw [hsend]
    exact .poll (some msg) t [.queue frame] hstep (.message msg frame hframe)

theorem take_taken (s : Rx) (i : Input) : Taken hostMac clock s i (take hostMac clock s i) := by
  cases i with
  | frame bytes =>
    obtain ⟨t, ht, hstep⟩ := @handleFrame_step hostMac clock bytes s
    rw [take, ht]
    exact .frame bytes t hstep
  | poll => exact poll_taken s
  | request lastRequest => exact .request lastRequest

theorem Taken.inStep {s t : Rx} {i : Input} (h : InStep s) (htaken : Taken hostMac clock s i t) :
    InStep t := by
  cases htaken with
  | frame bytes _ hstep => exact hstep.inStep h
  | poll r t new hdue _ =>
    have ht := hdue.inStep h
    exact ⟨ht.renewAt, ht.lease, ht.offered, ht.backoff⟩
  | request lastRequest => exact ⟨h.renewAt, h.lease, h.offered, h.backoff⟩

theorem Taken.holdsLease {s t : Rx} {i : Input} (htaken : Taken hostMac clock s i t) :
    HoldsLease s t := by
  cases htaken with
  | frame bytes _ hstep => exact hstep.holdsLease
  | poll r t new hdue _ =>
    obtain ⟨hlog, hlease⟩ := hdue.kept
    exact .of_kept new (congrArg (· ++ new) hlog) hlease
  | request lastRequest => exact .of_kept [] (List.append_nil _).symm rfl

theorem thread_inStep {ok : List (Rx × Input) → Rx → Input → Prop} {past : List (Rx × Input)} {s : Rx}
    (run : Machine.Run (thread hostMac clock) ok past s) : InStep s := by
  refine run.invariant (P := fun _ s => InStep s) ?_ ?_
  · obtain ⟨frame, hstart⟩ := @start_eq hostMac clock (initial hostMac)
    rw [thread, hstart]
    exact ⟨by simp, by simp [initial, DhcpClient.new], by simp, Nat.le_refl _, retryMin_le_retryMax⟩
  · intro past s i h _
    exact (take_taken s i).inStep h

theorem handleFrame_dhcp {bytes : Bytes} {srcMac : MacAddr} {d : UdpDatagram}
    (h : classify hostMac bytes = .dhcp srcMac d) (s : Rx) :
    handleFrame hostMac clock bytes s = handleDhcp hostMac clock srcMac d s := by
  rw [handleFrame_eq, h]

theorem handleDhcp_bound {srcMac : MacAddr} {d : UdpDatagram} {s : Rx} {lease : Lease}
    (h : (DhcpClient.handle d.payload s.dhcp).1 = .ok (.bound lease)) :
    handleDhcp hostMac clock srcMac d s = (.ok (),
      { s with
        dhcp := { s.dhcp with state := .bound, lease := some lease }
        timer :=
          { next := clock s.reads + lease.renewalTime, backoff := dhcpRetryMin,
            renewAt := some (clock s.reads + lease.renewalTime) }
        arp := (s.arp.setHostIp lease.ip).insert d.srcIp srcMac (clock (s.reads + 1))
        reads := s.reads + 2
        log := s.log ++ [.handled d.payload (.ok (.bound lease)), .event (.bound lease)] }) := by
  obtain ⟨p, hp, hl⟩ := DhcpClient.handle_bound_iff.mp h
  exact handleDhcp_bind (DhcpClient.handle_ack hp hl) srcMac

theorem handleDhcp_nak {srcMac : MacAddr} {d : UdpDatagram} {s : Rx}
    (h : (DhcpClient.handle d.payload s.dhcp).1 = .ok .nak) :
    handleDhcp hostMac clock srcMac d s = (.ok (),
      { s with
        dhcp := { s.dhcp with state := .init, lease := none, offered := none }
        timer := { next := clock s.reads, backoff := dhcpRetryMin, renewAt := none }
        reads := s.reads + 1
        log := s.log ++ [.handled d.payload (.ok .nak)] }) := by
  obtain ⟨p, hp⟩ := DhcpClient.handle_nak_iff.mp h
  exact handleDhcp_refuse (DhcpClient.handle_nak hp) srcMac

theorem handleDhcp_unused {d : UdpDatagram} {s : Rx}
    (h : (DhcpClient.handle d.payload s.dhcp).1 = .ok .ignored ∨
      ∃ e, (DhcpClient.handle d.payload s.dhcp).1 = .error e) :
    (DhcpClient.handle d.payload s.dhcp).2 = s.dhcp ∧
    ∃ r, ∀ srcMac, handleDhcp hostMac clock srcMac d s =
      (.ok (), { s with log := s.log ++ [.handled d.payload r] }) := by
  have hout := DhcpClient.handle_outcome s.dhcp d.payload
  generalize hr : DhcpClient.handle d.payload s.dhcp = r at h hout
  cases hout with
  | rejected e => exact ⟨rfl, .error e, handleDhcp_rejected hr⟩
  | ignored => exact ⟨rfl, .ok .ignored, handleDhcp_ignored hr⟩
  | offer _ _ _ _ _ _ _ _ => simp at h
  | ack _ _ _ _ _ _ _ _ => simp at h
  | nak _ _ _ _ _ _ => simp at h

theorem DhcpStep.calls {s t : Rx} {srcMac : MacAddr} {d : UdpDatagram}
    (hstep : DhcpStep hostMac clock s srcMac d t) :
    ∃ calls : List DhcpClient.Call, t.dhcp = calls.foldl DhcpClient.call s.dhcp := by
  have hhandle : ∀ c, (DhcpClient.handle d.payload s.dhcp).2 = c →
      ∃ calls : List DhcpClient.Call, c = calls.foldl DhcpClient.call s.dhcp :=
    fun c hc => ⟨[.handle d.payload], hc.symm⟩
  cases hstep with
  | unused r _ => exact ⟨[], rfl⟩
  | offer c msg frame hout _ =>
    cases hout with
    | offer p _ hp hx hm ht hs _ => exact hhandle _ (by rw [DhcpClient.handle_offer hp hx hm ht hs])
  | ack c lease hout =>
    cases hout with
    | ack p _ hp hx hm ht hs hl =>
      exact hhandle _ (by rw [DhcpClient.handle_ack ⟨hp, hx, hm, ht, hs⟩ hl])
  | nak c hout =>
    cases hout with
    | nak p hp hx hm ht hs => exact hhandle _ (by rw [DhcpClient.handle_nak ⟨hp, hx, hm, ht, hs⟩])

theorem Taken.calls {s t : Rx} {i : Input} (htaken : Taken hostMac clock s i t) :
    ∃ calls : List DhcpClient.Call, t.dhcp = calls.foldl DhcpClient.call s.dhcp := by
  cases htaken with
  | frame bytes _ hstep =>
    generalize classify hostMac bytes = c at hstep
    cases hstep with
    | dhcp srcMac d _ hd => exact hd.calls
    | _ => exact ⟨[], rfl⟩
  | poll r t new hdue _ =>
    cases hdue with
    | renew lease msg _ _ hl _ =>
      refine ⟨[.renew], ?_⟩
      rw [List.foldl_cons, DhcpClient.call, DhcpClient.renew_eq hl]
      rfl
    | rediscover msg _ _ _ _ =>
      refine ⟨[.discover], ?_⟩
      rw [List.foldl_cons, DhcpClient.call, DhcpClient.discover_eq]
      rfl
    | _ => exact ⟨[], rfl⟩
  | request lastRequest => exact ⟨[], rfl⟩

theorem thread_client {ok : List (Rx × Input) → Rx → Input → Prop} {past : List (Rx × Input)} {s : Rx}
    (run : Machine.Run (thread hostMac clock) ok past s) :
    ∃ calls, Machine.Run (DhcpClient.client hostMac (initial hostMac).dhcp.xid) Machine.any calls
      s.dhcp := by
  refine run.invariant (P := fun _ s => ∃ calls, Machine.Run (DhcpClient.client hostMac
    (initial hostMac).dhcp.xid) Machine.any calls s.dhcp) ?_ ?_
  · obtain ⟨frame, hstart⟩ := @start_eq hostMac clock (initial hostMac)
    have hcall : DhcpClient.call (initial hostMac).dhcp .discover = (initial hostMac).dhcp.fresh := by
      rw [DhcpClient.call, DhcpClient.discover_eq]
    have hrun : Machine.Run (DhcpClient.client hostMac (initial hostMac).dhcp.xid) Machine.any
        ([] ++ [((initial hostMac).dhcp, DhcpClient.Call.discover)])
        (DhcpClient.call (initial hostMac).dhcp .discover) :=
      Machine.Run.take DhcpClient.Call.discover .start trivial
    rw [hcall] at hrun
    rw [thread, hstart]
    exact ⟨_, hrun⟩
  · intro past s i h _
    obtain ⟨calls, hrun⟩ := h
    obtain ⟨more, hcalls⟩ := (@take_taken hostMac clock s i).calls
    rw [thread, hcalls]
    exact ⟨_, hrun.takeAll more⟩

theorem handleAll_eq_foldl (fs : List Bytes) (s : Rx) :
    (handleAll hostMac clock fs s).2 = (fs.map Input.frame).foldl (take hostMac clock) s := by
  induction fs generalizing s with
  | nil => rfl
  | cons f fs ih =>
    obtain ⟨t, ht, _⟩ := @handleFrame_step hostMac clock f s
    rw [handleAll, bind_apply_ok _ _ ht, ih t, List.map_cons, List.foldl_cons, take, ht]

theorem handleFrame_fields (srcMac : MacAddr) (packet : Bytes) (s : Rx) :
    handleFrame hostMac clock (Ethernet.fields hostMac srcMac Ethernet.ethertypeIpv4 packet) s =
      handleIpv4 hostMac clock srcMac packet s := by
  have hcall : rescue (checked (Ethernet.parse (Ethernet.fields hostMac srcMac
      Ethernet.ethertypeIpv4 packet))) s =
      (.ok (.ok ⟨hostMac, srcMac, Ethernet.ethertypeIpv4, packet⟩), s) := by
    rw [Ethernet.parse_fields]
    rfl
  have hother : Ethernet.ethertypeIpv4 ≠ Ethernet.ethertypeArp := by decide
  unfold handleFrame
  rw [bind_apply_ok _ _ hcall]
  simp [hother]

/-- Whatever transfers and expiries do, inputs of the machine do. -/
theorem Step.inputs {s t : Rx} (h : Step hostMac clock s t) :
    ∃ is : List Input, t = is.foldl (take hostMac clock) s := by
  cases h with
  | ipv4 srcMac packet =>
    rw [← handleFrame_fields]
    exact ⟨[.frame _], rfl⟩
  | transfer data =>
    rw [handleTransfer_eq, handleAll_eq_foldl]
    exact ⟨(frames data).map Input.frame, rfl⟩
  | poll => exact ⟨[.poll], rfl⟩
  | request lastRequest => exact ⟨[.request lastRequest], rfl⟩

theorem Run.inputs {s t : Rx} (h : Run hostMac clock s t) :
    ∃ is : List Input, t = is.foldl (take hostMac clock) s := by
  induction h with
  | refl => exact ⟨[], rfl⟩
  | tail _ hstep ih =>
    obtain ⟨is, rfl⟩ := ih
    obtain ⟨more, rfl⟩ := hstep.inputs
    exact ⟨is ++ more, (List.foldl_append ..).symm⟩

theorem Reachable.run {s : Rx} (h : Reachable hostMac clock s) :
    ∃ past, Machine.Run (thread hostMac clock) Machine.any past s := by
  obtain ⟨is, rfl⟩ := Run.inputs h
  exact ⟨_, Machine.Run.start.takeAll is⟩

theorem Run.holdsLease {s t : Rx} (h : Run hostMac clock s t) : HoldsLease s t := by
  obtain ⟨is, rfl⟩ := h.inputs
  clear h
  induction is generalizing s with
  | nil => exact .refl s
  | cons i is ih => exact (take_taken s i).holdsLease.trans ih

/-- The frame that brings `msg` from port 67 of `srcIp` to port 68. -/
def replyFrame (mac srcMac : MacAddr) (srcIp : Ipv4Addr) (msg : Bytes) : Bytes :=
  let d : UdpDatagram := ⟨srcIp, .broadcast, serverPort, clientPort, msg⟩
  Ethernet.fields mac srcMac Ethernet.ethertypeIpv4
    (Ipv4.ipHeader d 0 (28 + msg.length) 0 ++ Ipv4.udpSegment d (8 + msg.length) 0)

theorem classify_replyFrame (mac srcMac : MacAddr) (srcIp : Ipv4Addr) {msg : Bytes}
    (h : msg.length ≤ 65507) :
    classify mac (replyFrame mac srcMac srcIp msg) =
      .dhcp srcMac ⟨srcIp, .broadcast, serverPort, clientPort, msg⟩ := by
  have hpacket := Ipv4.parseUdp_packet ⟨srcIp, .broadcast, serverPort, clientPort, msg⟩ 0 0 0 [] h
  rw [List.append_nil] at hpacket
  have hother : Ethernet.ethertypeIpv4 ≠ Ethernet.ethertypeArp := by decide
  unfold classify replyFrame
  rw [Ethernet.parse_fields]
  simp [hother, dhcpReply, hpacket]

def delivery (mac srcMac : MacAddr) (srcIp : Ipv4Addr) (msg : Bytes) : Bytes :=
  Packet.append [] (replyFrame mac srcMac srcIp msg) 0

def testMac : MacAddr := ⟨2, 0, 0, 0, 0, 1⟩
def testServer : Ipv4Addr := ⟨192, 168, 42, 129⟩
def testOffered : Ipv4Addr := ⟨192, 168, 42, 130⟩

def testReply (messageType : UInt8) (options : List (UInt8 × Bytes)) : Bytes :=
  serverReply testMac testServer 1015568748 messageType testOffered options

def testFrame (messageType : UInt8) (options : List (UInt8 × Bytes)) : Bytes :=
  replyFrame testMac ⟨2, 0, 0, 0, 0, 9⟩ testServer (testReply messageType options)

/-- The thread after some transfers, its timer checked after each. -/
def after (hostMac : MacAddr) (clock : Nat → Instant) (transfers : List Bytes) : Rx :=
  transfers.foldl
    (fun s data => (poll hostMac clock (handleTransfer hostMac clock data s).2).2)
    (start hostMac clock (initial hostMac)).2

theorem after_reachable (transfers : List Bytes) :
    Reachable hostMac clock (after hostMac clock transfers) := by
  have hall : ∀ s, Reachable hostMac clock s → Reachable hostMac clock (transfers.foldl
      (fun s data => (poll hostMac clock (handleTransfer hostMac clock data s).2).2) s) := by
    induction transfers with
    | nil => exact fun s h => h
    | cons data transfers ih =>
      intro s h
      exact ih _ ((h.tail (.transfer data)).tail .poll)
  exact hall _ Relation.ReflTransGen.refl

/-- Along every run of the thread the client and its timer agree, an expired timer
always has a message to send, discovery starts over only from `init`, and a lease once
held is given up only for a NAK. -/
theorem dhcp_in_step {s : Rx} (h : Reachable hostMac clock s) :
    InStep s ∧
    (s.timer.next ≤ clock s.reads → ∃ msg, (due clock s).1 = .ok (some msg)) ∧
    (s.dhcp.state ≠ .init →
      (due clock s).2.dhcp = s.dhcp ∨
      s.dhcp.state = .bound ∧ (due clock s).2.dhcp = { s.dhcp with state := .renewing }) ∧
    (∀ t, Run hostMac clock s t → s.dhcp.lease.isSome = true → t.dhcp.lease = none →
      ∃ new msg, t.log = s.log ++ new ∧ Effect.handled msg (.ok .nak) ∈ new) := by
  obtain ⟨past, run⟩ := h.run
  have hs := thread_inStep run
  obtain ⟨r, t, hdue, hstep⟩ := @due_step clock s
  rw [hdue]
  refine ⟨hs, ?_, ?_, ?_⟩
  · intro hexpired
    obtain ⟨msg, rfl⟩ := hstep.answers hs hexpired
    exact ⟨msg, rfl⟩
  · intro hinit
    exact hstep.client hs hinit
  · intro u hrun hheld hlost
    obtain ⟨new, hlog, hkeep⟩ := Run.holdsLease hrun
    rcases hkeep hheld with hu | ⟨msg, hmem⟩
    · rw [hlost] at hu
      cases hu
    · exact ⟨new, msg, hlog, hmem⟩

/-- A lease is offered and acknowledged, at once due for renewal, and refused. -/
theorem dhcp_in_step_refused :
    ∃ s t, Reachable testMac (fun n => ofSecs n) s ∧ Run testMac (fun n => ofSecs n) s t ∧
      s.dhcp.state = .renewing ∧ s.dhcp.lease.isSome = true ∧ t.dhcp.lease = none ∧ InStep s ∧
      (∃ msg, (due (fun n => ofSecs n) s).1 = .ok (some msg)) ∧
      ∃ new msg, t.log = s.log ++ new ∧ Effect.handled msg (.ok .nak) ∈ new := by
  have hreach := @after_reachable testMac (fun n => ofSecs n)
    [Packet.append [] (testFrame offerType []) 0,
      Packet.append [] (testFrame ackType [(optRenewalTime, [0, 0, 0, 0])]) 0]
  generalize hs : after testMac (fun n => ofSecs n) _ = s at hreach
  have hrun : Run testMac (fun n => ofSecs n) s _ :=
    Relation.ReflTransGen.single (.transfer (Packet.append [] (testFrame nakType []) 0))
  obtain ⟨hstep, hdue, _, hkept⟩ := dhcp_in_step hreach
  have hheld : s.dhcp.lease.isSome = true := by
    rw [← hs]
    decide +kernel
  have hlost : (handleTransfer testMac (fun n => ofSecs n)
      (Packet.append [] (testFrame nakType []) 0) s).2.dhcp.lease = none := by
    rw [← hs]
    decide +kernel
  refine ⟨s, _, hreach, hrun, ?_, hheld, hlost, hstep, hdue ?_, hkept _ hrun hheld hlost⟩
  · rw [← hs]
    decide +kernel
  · rw [← hs]
    decide +kernel

end Muta.Link.Rx
