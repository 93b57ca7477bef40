import Muta.Link.RxRun
import Muta.Link.RxWire
import Muta.Netstack.DhcpGrammar

/-!
# Back to a lease

Whatever the thread has been through, it is never stuck. Without a lease it is never quiet
for longer than the longest retry interval; and once its timer has expired and a server
answers what it is asked, two rounds of messages bring it to a lease. A server may
refuse a request for an address it no longer knows, but it keeps to what it has offered.
The server reads its messages off the frames that are queued, and answers with frames.
-/

namespace Muta.Link.Rx

open Usb Act Netstack Dhcp
set_option autoImplicit false

section Waiting

variable {hostMac : MacAddr} {clock : Nat → Instant} {s t u : Rx}

/-- What an input does to the timer. -/
inductive Timed (clock : Nat → Instant) (s : Rx) : Input → Rx → Prop where
  | kept {i : Input} {t : Rx} : t.timer = s.timer → s.reads ≤ t.reads →
      (s.dhcp.state = .bound → t.dhcp.state = .bound) → Timed clock s i t
  | bound {i : Input} {t : Rx} : t.dhcp.state = .bound → Timed clock s i t
  | restarted {i : Input} {t : Rx} : t.timer.next ≤ clock t.reads → s.reads ≤ t.reads →
      Timed clock s i t
  | asked {t : Rx} : s.timer.next ≤ clock s.reads → s.reads ≤ t.reads →
      t.timer.next ≤ clock t.reads + dhcpRetryMax → Timed clock s .poll t

theorem DueStep.timed {r : Option Bytes} (mono : Monotone clock) (h : DueStep clock s r t) :
    Timed clock s .poll t := by
  have hset : clock (s.reads + 1) ≤ clock (s.reads + 2) := mono (Nat.le_succ _)
  cases h with
  | early _ => exact .kept rfl (Nat.le_succ _) id
  | renew _ _ hexpired _ _ _ =>
    exact .asked hexpired (Nat.le_add_right _ 2) (Nat.add_le_add hset (by decide))
  | lost hexpired _ _ =>
    exact .asked hexpired (Nat.le_add_right _ 2) (Nat.add_le_add hset (by decide))
  | resend _ hexpired _ _ =>
    exact .asked hexpired (Nat.le_add_right _ 2) (Nat.add_le_add hset (Nat.min_le_right _ _))
  | rediscover _ hexpired _ _ _ =>
    exact .asked hexpired (Nat.le_add_right _ 2) (Nat.add_le_add hset (Nat.min_le_right _ _))

theorem DhcpStep.timed {i : Input} {srcMac : MacAddr} {d : UdpDatagram} (mono : Monotone clock)
    (h : DhcpStep hostMac clock s srcMac d t) : Timed clock s i t := by
  cases h with
  | unused r _ => exact .kept rfl (Nat.le_refl _) id
  | offer c msg frame houtcome _ =>
    cases houtcome with
    | offer _ _ _ _ _ _ hselecting _ =>
      refine .kept rfl (Nat.le_refl _) fun hbound => ?_
      rw [hselecting] at hbound
      cases hbound
  | ack c lease houtcome =>
    cases houtcome with
    | ack _ _ _ _ _ _ _ _ => exact .bound rfl
  | nak c _ => exact .restarted (mono (Nat.le_succ _)) (Nat.le_succ _)

theorem FrameStep.timed {i : Input} {c : Class} (mono : Monotone clock)
    (h : FrameStep hostMac clock s c t) : Timed clock s i t := by
  cases h with
  | skip => exact .kept rfl (Nat.le_refl _) id
  | sink _ => exact .kept rfl (Nat.le_refl _) id
  | arpBad _ _ _ => exact .kept rfl (Nat.le_refl _) id
  | arp _ _ _ _ => exact .kept rfl (Nat.le_add_right _ _) id
  | dhcp _ _ _ hdhcp => exact hdhcp.timed mono

theorem Taken.timed {i : Input} (mono : Monotone clock) (h : Taken hostMac clock s i t) :
    Timed clock s i t := by
  cases h with
  | frame bytes _ hstep => exact hstep.timed mono
  | poll r _ _ hdue _ =>
    cases hdue.timed mono with
    | kept htimer hreads hstate => exact .kept htimer hreads hstate
    | bound hbound => exact .bound hbound
    | restarted hnext hreads => exact .restarted hnext hreads
    | asked hexpired hreads hnext => exact .asked hexpired hreads hnext
  | request _ => exact .kept rfl (Nat.le_refl _) id

/-- Without a lease the timer expires within the longest retry interval. -/
def Near (clock : Nat → Instant) (s : Rx) : Prop :=
  s.dhcp.state ≠ .bound → s.timer.next ≤ clock s.reads + dhcpRetryMax

theorem Timed.near {i : Input} (mono : Monotone clock) (h : Timed clock s i t) (hs : Near clock s) :
    Near clock t := by
  intro hunbound
  cases h with
  | kept htimer hreads hstate =>
    rw [htimer]
    exact Nat.le_trans (hs fun hbound => hunbound (hstate hbound)) (Nat.add_le_add_right (mono hreads) _)
  | bound hbound => exact absurd hbound hunbound
  | restarted hnext _ => exact Nat.le_add_right_of_le hnext
  | asked _ _ hnext => exact hnext

theorem run_near {past : List (Rx × Input)} (mono : Monotone clock)
    (run : Machine.Run (thread hostMac clock) Machine.any past s) : Near clock s := by
  refine run.invariant (P := fun _ s => Near clock s) ?_ ?_
  · obtain ⟨frame, hstart⟩ := @start_eq hostMac clock (.initial hostMac)
    intro _
    rw [thread, hstart]
    exact Nat.add_le_add (mono (Nat.le_succ _)) (by decide)
  · intro past s i ih _
    exact ((take_taken s i).timed mono).near mono ih

def Prompts (hostMac : MacAddr) (clock : Nat → Instant) (x : Rx × Input) : Prop :=
  x.2 = .poll ∧ ∃ msg frame, IsDhcpFrame hostMac msg frame ∧
    (take hostMac clock x.1 .poll).log = x.1.log ++ [.queue frame]

theorem poll_prompts (hs : InStep s) (hexpired : s.timer.next ≤ clock s.reads) :
    Prompts hostMac clock (s, .poll) := by
  refine ⟨rfl, ?_⟩
  have htaken : Taken hostMac clock s .poll (take hostMac clock s .poll) := take_taken s .poll
  generalize take hostMac clock s .poll = u at htaken
  cases htaken with
  | poll r t new hdue hqueued =>
    obtain ⟨msg, rfl⟩ := hdue.answers hs hexpired
    cases hqueued with
    | message _ frame hframe => exact ⟨msg, frame, hframe, by rw [hdue.kept.1]⟩

/-- A check of the timer has asked for something since `s`, or one is near. -/
structure Waits (hostMac : MacAddr) (clock : Nat → Instant) (s : Rx) (more : List (Rx × Input)) (u : Rx) :
    Prop where
  inStep : InStep u
  asks : (∀ x ∈ more, x.1.dhcp.state ≠ .bound) → u.dhcp.state ≠ .bound →
    (∃ x ∈ more, Prompts hostMac clock x) ∨
      u.timer.next ≤ clock s.reads + dhcpRetryMax ∨ u.timer.next ≤ clock u.reads

theorem Waits.after {more : List (Rx × Input)} (mono : Monotone clock) (h : Waits hostMac clock s more u)
    (i : Input) : Waits hostMac clock s (more ++ [(u, i)]) (take hostMac clock u i) := by
  have htaken := @take_taken hostMac clock u i
  refine ⟨htaken.inStep h.inStep, fun hall ht => ?_⟩
  have hmore : ∀ x ∈ more, x.1.dhcp.state ≠ .bound := fun x hx => hall x (List.mem_append_left _ hx)
  have hunbound : u.dhcp.state ≠ .bound := hall (u, i) (List.mem_append_right more List.mem_cons_self)
  rcases h.asks hmore hunbound with ⟨x, hx, hprompts⟩ | hwaits
  · exact Or.inl ⟨x, List.mem_append_left _ hx, hprompts⟩
  · generalize take hostMac clock u i = t at htaken ht
    cases htaken.timed mono with
    | kept htimer hreads _ =>
      rw [htimer]
      exact Or.inr (hwaits.imp id fun hnext => Nat.le_trans hnext (mono hreads))
    | bound hbound => exact absurd hbound ht
    | restarted hnext _ => exact Or.inr (Or.inr hnext)
    | asked hexpired _ _ =>
      exact Or.inl ⟨(u, .poll), List.mem_append_right more List.mem_cons_self,
        poll_prompts h.inStep hexpired⟩

/-- The thread never falls silent. If it has had no lease for the longest retry interval,
whatever it has received meanwhile, it has sent a message in that time or the next check
of its timer sends one. -/
theorem never_silent {past more : List (Rx × Input)} (mono : Monotone clock)
    (run : Machine.Run (thread hostMac clock) Machine.any past s)
    (later : Machine.Run (thread hostMac clock) Machine.any (past ++ more) u)
    (hunbound : ∀ x ∈ more, x.1.dhcp.state ≠ .bound) (hu : u.dhcp.state ≠ .bound)
    (hlong : clock s.reads + dhcpRetryMax ≤ clock u.reads) :
    (∃ x ∈ more, Prompts hostMac clock x) ∨ Prompts hostMac clock (u, .poll) := by
  have hwaits : Waits hostMac clock s more u := by
    refine run.since (P := Waits hostMac clock s) ?_ ?_ later
    · exact ⟨thread_inStep run, fun _ hs => Or.inr (Or.inl (run_near mono run hs))⟩
    · intro more u i ih _
      exact ih.after mono i
  rcases hwaits.asks hunbound hu with hasked | hnext | hnext
  · exact Or.inl hasked
  · exact Or.inr (poll_prompts hwaits.inStep (Nat.le_trans hnext hlong))
  · exact Or.inr (poll_prompts hwaits.inStep hnext)

end Waiting

structure Server where
  mac : MacAddr
  ip : Ipv4Addr
  /-- The answer to a message. -/
  answer : Bytes → Bytes

/-- `msg` is a reply of type `t` to the client, which reads `p` in it. -/
structure Replies (c : DhcpClient) (t : UInt8) (msg : Bytes) (p : Parsed) : Prop where
  parsed : Dhcp.parse msg = .ok p
  xid : p.xid = c.xid
  chaddr : p.chaddr = c.mac
  messageType : p.messageType = t

def Grants (c : DhcpClient) (msg : Bytes) : Prop :=
  ∃ p, Replies c ackType msg p ∧ p.yiaddr ≠ .unspecified

def Refuses (c : DhcpClient) (msg : Bytes) : Prop := ∃ p, Replies c nakType msg p

/-- What a client at `mac` may expect of a server. -/
structure Responsive (mac : MacAddr) (answer : Bytes → Bytes) : Prop where
  short : ∀ msg, (answer msg).length ≤ 65507
  offers : ∀ c : DhcpClient, c.mac = mac →
    ∃ p, Replies c offerType (answer (message c discoverType .unspecified none none)) p
  keeps : ∀ (c : DhcpClient) (p : Parsed), c.mac = mac →
    Dhcp.parse (answer (message c discoverType .unspecified none none)) = .ok p →
    Grants c (answer (message c requestType .unspecified (some p.yiaddr) p.serverId))
  decides : ∀ (c : DhcpClient) (ciaddr : Ipv4Addr) (requestedIp serverId : Option Ipv4Addr),
    c.mac = mac → Grants c (answer (message c requestType ciaddr requestedIp serverId)) ∨
      Refuses c (answer (message c requestType ciaddr requestedIp serverId))

def asked (frame : Bytes) : Option Bytes :=
  match Ethernet.parse frame with
  | .ok f =>
    if f.ethertype = Ethernet.ethertypeIpv4 then
      match Ipv4.parseUdp f.payload with
      | .ok d => if d.dstPort = serverPort then some d.payload else none
      | _ => none
    else
      none
  | _ => none

def askedSince (s t : Rx) : List Bytes :=
  (t.log.drop s.log.length).filterMap fun e =>
    match e with
    | .queue frame => asked frame
    | _ => none

section Conversation

variable (hostMac : MacAddr) (clock : Nat → Instant) (server : Server)

def replied (s : Rx) (msg : Bytes) : Rx :=
  take hostMac clock s (.frame (replyFrame hostMac server.mac server.ip (server.answer msg)))

/-- At most `n` of the messages sent since `s` are answered, and those sent in reply. -/
def converse : Nat → Rx → Rx → Rx
  | 0, _, t => t
  | n + 1, s, t =>
    match askedSince s t with
    | [] => t
    | msg :: _ => converse n t (replied hostMac clock server t msg)

/-- A check of the timer, and the conversation it starts. -/
def round (s : Rx) : Rx := converse hostMac clock server 2 s (take hostMac clock s .poll)

end Conversation

variable {hostMac : MacAddr} {clock : Nat → Instant} {server : Server}

theorem asked_frame {msg frame : Bytes} (h : IsDhcpFrame hostMac msg frame)
    (hlen : msg.length ≤ 65507) : asked frame = some msg := by
  obtain ⟨f, hparse, htype, hudp⟩ := h.read hlen
  have hport : (datagram msg).dstPort = serverPort := rfl
  simp only [asked, hparse, htype, hudp, hport, if_true]
  rfl

theorem askedSince_append {s t : Rx} {new : List Effect} (h : t.log = s.log ++ new) :
    askedSince s t = new.filterMap fun e =>
      match e with
      | .queue frame => asked frame
      | _ => none := by
  rw [askedSince, h, List.drop_left]

theorem replied_eq (hshort : ∀ msg, (server.answer msg).length ≤ 65507) (s : Rx) (msg : Bytes) :
    replied hostMac clock server s msg =
      (handleDhcp hostMac clock server.mac
        ⟨server.ip, .broadcast, serverPort, clientPort, server.answer msg⟩ s).2 := by
  have hclass := classify_replyFrame hostMac server.mac server.ip (hshort msg)
  rw [replied, take, handleFrame_dhcp hclass]

/-- From `s` to `t` a lease was bound, and the daemon told of it. -/
def Leased (s t : Rx) : Prop :=
  t.dhcp.state = .bound ∧ ∃ lease new, t.dhcp.lease = some lease ∧ t.log = s.log ++ new ∧
    .event (.bound lease) ∈ new

/-- The client has been refused and may begin again at once. -/
structure Refused (clock : Nat → Instant) (s t : Rx) : Prop where
  state : t.dhcp.state = .init
  mac : t.dhcp.mac = s.dhcp.mac
  expired : t.timer.next ≤ clock t.reads
  log : ∃ new, t.log = s.log ++ new

theorem Leased.after {s t u : Rx} (h : Leased t u) (hlog : ∃ new, t.log = s.log ++ new) :
    Leased s u := by
  obtain ⟨hstate, lease, later, hlease, hu, hmem⟩ := h
  obtain ⟨new, ht⟩ := hlog
  refine ⟨hstate, lease, new ++ later, hlease, ?_, List.mem_append_right new hmem⟩
  rw [hu, ht, List.append_assoc]

section Answers

variable (hserver : Responsive hostMac server.answer) {s : Rx} {msg : Bytes}
include hserver

variable (clock) in
theorem replied_granted (hstate : s.dhcp.state = .requesting ∨ s.dhcp.state = .renewing)
    (h : Grants s.dhcp (server.answer msg)) :
    Leased s (replied hostMac clock server s msg) ∧
      askedSince s (replied hostMac clock server s msg) = [] := by
  obtain ⟨p, hreplies, hip⟩ := h
  have hanswered : DhcpClient.Answered s.dhcp ackType (server.answer msg) p :=
    ⟨hreplies.parsed, hreplies.xid, hreplies.chaddr, hreplies.messageType, hstate⟩
  have hlease : DhcpClient.leaseFrom s.dhcp p = .ok (DhcpClient.leaseOf s.dhcp p) :=
    DhcpClient.leaseFrom_iff.mpr ⟨hip, rfl⟩
  have hbind := @handleDhcp_bind hostMac clock
    ⟨server.ip, .broadcast, serverPort, clientPort, server.answer msg⟩ s _ _
    (DhcpClient.handle_ack hanswered hlease) server.mac
  rw [replied_eq hserver.short, hbind]
  refine ⟨⟨rfl, _, _, rfl, rfl, by simp⟩, ?_⟩
  rw [askedSince_append rfl]
  rfl

theorem replied_refused (mono : Monotone clock)
    (hstate : s.dhcp.state = .requesting ∨ s.dhcp.state = .renewing)
    (h : Refuses s.dhcp (server.answer msg)) :
    Refused clock s (replied hostMac clock server s msg) ∧
      askedSince s (replied hostMac clock server s msg) = [] := by
  obtain ⟨p, hreplies⟩ := h
  have hanswered : DhcpClient.Answered s.dhcp nakType (server.answer msg) p :=
    ⟨hreplies.parsed, hreplies.xid, hreplies.chaddr, hreplies.messageType, hstate⟩
  have hrefuse := @handleDhcp_refuse hostMac clock
    ⟨server.ip, .broadcast, serverPort, clientPort, server.answer msg⟩ s _
    (DhcpClient.handle_nak hanswered) server.mac
  rw [replied_eq hserver.short, hrefuse]
  refine ⟨⟨rfl, rfl, mono (Nat.le_succ _), _, rfl⟩, ?_⟩
  rw [askedSince_append rfl]
  rfl

variable (clock) in
theorem replied_offered (hstate : s.dhcp.state = .selecting) {p : Parsed}
    (h : Replies s.dhcp offerType (server.answer msg) p) :
    let t := replied hostMac clock server s msg
    t.dhcp.state = .requesting ∧ t.dhcp.xid = s.dhcp.xid ∧ t.dhcp.mac = s.dhcp.mac ∧
      (∃ new, t.log = s.log ++ new) ∧
      askedSince s t = [message s.dhcp requestType .unspecified (some p.yiaddr) p.serverId] := by
  have hhandle := DhcpClient.handle_offer h.parsed h.xid h.chaddr h.messageType hstate
  obtain ⟨frame, hframe, hsend⟩ := @handleDhcp_send hostMac clock
    ⟨server.ip, .broadcast, serverPort, clientPort, server.answer msg⟩ s _ _ hhandle server.mac
  rw [replied_eq hserver.short, hsend]
  have hasked := asked_frame hframe (Nat.le_trans (Nat.le_of_eq (length_message _ _ _ _ _)) (by decide))
  refine ⟨rfl, rfl, rfl, ⟨_, rfl⟩, ?_⟩
  rw [askedSince_append rfl]
  simp only [List.filterMap_cons, hasked]
  rfl

theorem converse_request (mono : Monotone clock) {t : Rx} {ciaddr : Ipv4Addr}
    {requestedIp serverId : Option Ipv4Addr} (n : Nat) (hmac : t.dhcp.mac = hostMac)
    (hstate : t.dhcp.state = .requesting ∨ t.dhcp.state = .renewing)
    (hasked : askedSince s t = [message t.dhcp requestType ciaddr requestedIp serverId]) :
    Leased t (converse hostMac clock server (n + 1) s t) ∨
      Refused clock t (converse hostMac clock server (n + 1) s t) := by
  have hquiet : ∀ {u}, askedSince t u = [] → converse hostMac clock server n t u = u := by
    intro u hu
    cases n with
    | zero => rfl
    | succ n => rw [converse, hu]
  rw [converse, hasked]
  dsimp only
  rcases hserver.decides t.dhcp ciaddr requestedIp serverId hmac with hgrants | hrefuses
  · obtain ⟨hleased, hnone⟩ := replied_granted clock hserver hstate hgrants
    rw [hquiet hnone]
    exact Or.inl hleased
  · obtain ⟨hrefused, hnone⟩ := replied_refused hserver mono hstate hrefuses
    rw [hquiet hnone]
    exact Or.inr hrefused

theorem converse_discover {t : Rx} (hmac : t.dhcp.mac = hostMac)
    (hstate : t.dhcp.state = .selecting)
    (hasked : askedSince s t = [message t.dhcp discoverType .unspecified none none]) :
    Leased t (converse hostMac clock server 2 s t) := by
  obtain ⟨p, hoffer⟩ := hserver.offers t.dhcp hmac
  obtain ⟨hrequesting, hxid, hsame, hlog, hnext⟩ :=
    replied_offered clock hserver hstate hoffer
  have hkeeps := hserver.keeps t.dhcp p hmac hoffer.parsed
  rw [converse, hasked]
  dsimp only
  generalize replied hostMac clock server t
    (message t.dhcp discoverType .unspecified none none) = u at hrequesting hxid hsame hlog hnext ⊢
  rw [converse, hnext]
  dsimp only
  have hgrants : Grants u.dhcp (server.answer
      (message t.dhcp requestType .unspecified (some p.yiaddr) p.serverId)) := by
    obtain ⟨q, hreplies, hip⟩ := hkeeps
    exact ⟨q, ⟨hreplies.parsed, hreplies.xid.trans hxid.symm, hreplies.chaddr.trans hsame.symm,
      hreplies.messageType⟩, hip⟩
  exact (replied_granted clock hserver (Or.inl hrequesting) hgrants).1.after hlog

end Answers

theorem Refused.after {s t u : Rx} (h : Refused clock t u) (hmac : t.dhcp.mac = s.dhcp.mac)
    (hlog : ∃ new, t.log = s.log ++ new) : Refused clock s u := by
  obtain ⟨later, hu⟩ := h.log
  obtain ⟨new, ht⟩ := hlog
  refine ⟨h.state, h.mac.trans hmac, h.expired, new ++ later, ?_⟩
  rw [hu, ht, List.append_assoc]

theorem askedSince_queue {s t : Rx} {msg frame : Bytes} (hframe : IsDhcpFrame hostMac msg frame)
    (hlen : msg.length = 300) (hlog : t.log = s.log ++ [.queue frame]) :
    askedSince s t = [msg] := by
  have hasked := asked_frame hframe (Nat.le_trans (Nat.le_of_eq hlen) (by decide))
  rw [askedSince_append hlog]
  simp only [List.filterMap_cons, hasked]
  rfl

/-- What the client asks for when its timer has expired. -/
inductive Asks (s t : Rx) : Prop where
  | discovers : t.dhcp.state = .selecting →
      askedSince s t = [message t.dhcp discoverType .unspecified none none] → Asks s t
  | requests (ciaddr : Ipv4Addr) (requestedIp serverId : Option Ipv4Addr) : s.dhcp.state ≠ .init →
      t.dhcp.state = .requesting ∨ t.dhcp.state = .renewing →
      askedSince s t = [message t.dhcp requestType ciaddr requestedIp serverId] → Asks s t

theorem DueStep.asks {s t u : Rx} {msg : Bytes} (hdue : DueStep clock s (some msg) t)
    (hs : InStep s) (hu : u.dhcp = t.dhcp) (hasked : askedSince s u = [msg]) : Asks s u := by
  cases hdue with
  | renew lease _ _ hr hl hmsg =>
    have hbound := hs.renewAt.mp hr
    refine .requests lease.ip none none (by simp [hbound]) (Or.inr (hu ▸ rfl)) ?_
    rw [hasked, hmsg, hu]
  | resend _ _ _ hp =>
    rw [DhcpClient.pending] at hp
    cases hstate : s.dhcp.state with
    | init =>
      rw [hstate] at hp
      cases hp
    | bound =>
      rw [hstate] at hp
      cases hp
    | selecting =>
      rw [hstate] at hp
      refine .discovers (hu ▸ hstate) ?_
      rw [hasked, ← Option.some.inj hp, hu]
    | requesting =>
      rw [hstate] at hp
      refine .requests .unspecified s.dhcp.offered s.dhcp.serverId (by simp [hstate])
        (Or.inl (hu ▸ hstate)) ?_
      rw [hasked, ← Option.some.inj hp, hu]
    | renewing =>
      rw [hstate] at hp
      obtain ⟨lease, _, hmsg⟩ := Option.map_eq_some_iff.mp hp
      refine .requests lease.ip none none (by simp [hstate]) (Or.inr (hu ▸ hstate)) ?_
      rw [hasked, ← hmsg, hu]
  | rediscover _ _ _ _ hmsg =>
    refine .discovers (hu ▸ rfl) ?_
    rw [hasked, hmsg, hu]

theorem poll_asks {s : Rx} (hs : InStep s) (hexpired : s.timer.next ≤ clock s.reads) :
    let u := take hostMac clock s .poll
    Asks s u ∧ u.dhcp.mac = s.dhcp.mac ∧ ∃ new, u.log = s.log ++ new := by
  intro u
  have htaken : Taken hostMac clock s .poll u := take_taken s .poll
  generalize u = u at htaken
  cases htaken with
  | poll r t new hdue hqueued =>
    obtain ⟨msg, rfl⟩ := hdue.answers hs hexpired
    have hlog : t.log = s.log := hdue.kept.1
    have hmac : t.dhcp.mac = s.dhcp.mac := by cases hdue <;> rfl
    have hgrown : t.log ++ new = s.log ++ new := by rw [hlog]
    cases hqueued with
    | message _ frame hframe =>
      exact ⟨hdue.asks hs rfl (askedSince_queue hframe hdue.length hgrown), hmac, _, hgrown⟩

section Round

variable (hserver : Responsive hostMac server.answer) {s : Rx} (hs : InStep s)
  (hmac : s.dhcp.mac = hostMac) (hexpired : s.timer.next ≤ clock s.reads)
include hserver hs hmac hexpired

/-- A round ends in a lease, or in a refusal that was not asked for in vain: begun from
nothing it ends in a lease. -/
theorem round_cases (mono : Monotone clock) :
    Leased s (round hostMac clock server s) ∨
      s.dhcp.state ≠ .init ∧ Refused clock s (round hostMac clock server s) := by
  obtain ⟨hasks, hsame, hlog⟩ := @poll_asks hostMac clock s hs hexpired
  rw [round]
  generalize take hostMac clock s .poll = u at hasks hsame hlog ⊢
  cases hasks with
  | discovers hstate hasked =>
    exact Or.inl ((converse_discover hserver (hsame.trans hmac) hstate hasked).after hlog)
  | requests _ _ _ hinit hstate hasked =>
    rcases converse_request hserver mono 1 (hsame.trans hmac) hstate hasked with hdone | hrefused
    · exact Or.inl (hdone.after hlog)
    · exact Or.inr ⟨hinit, hrefused.after hsame hlog⟩

end Round

theorem converse_inStep {n : Nat} {s t : Rx} (h : InStep t) :
    InStep (converse hostMac clock server n s t) := by
  induction n generalizing s t with
  | zero => exact h
  | succ n ih =>
    rw [converse]
    split
    · exact h
    · exact ih ((take_taken t _).inStep h)

/-- The link always comes back. From whatever state the thread has been brought to, by any
server and any frames, a round after the timer has expired ends in a lease, or in a refusal
after which the next round does; and the daemon is told of the lease. -/
theorem back_to_lease {past : List (Rx × Input)} {s : Rx}
    (run : Machine.Run (thread hostMac clock) Machine.any past s) (mono : Monotone clock)
    (hserver : Responsive hostMac server.answer) (hexpired : s.timer.next ≤ clock s.reads) :
    Leased s (round hostMac clock server s) ∨
      Leased s (round hostMac clock server (round hostMac clock server s)) := by
  obtain ⟨calls, hclient⟩ := thread_client run
  have hmac := (DhcpClient.run_settled hclient).mac
  have hs := thread_inStep run
  rcases round_cases hserver hs hmac hexpired mono with hleased | ⟨_, hrefused⟩
  · exact Or.inl hleased
  · have hs' : InStep (round hostMac clock server s) := converse_inStep ((take_taken s .poll).inStep hs)
    rcases round_cases hserver hs' (hrefused.mac.trans hmac) hrefused.expired mono with
      hleased | ⟨hinit, _⟩
    · exact Or.inr (hleased.after hrefused.log)
    · exact absurd hrefused.state hinit

def clientOf (msg : Bytes) : MacAddr :=
  ⟨msg.getD 28 0, msg.getD 29 0, msg.getD 30 0, msg.getD 31 0, msg.getD 32 0, msg.getD 33 0⟩

/-- Offers its address to everyone and grants it to whoever asks. -/
def generous : Server where
  mac := ⟨2, 0, 0, 0, 0, 9⟩
  ip := testServer
  answer msg :=
    let t := if (Dhcp.options msg).bind (·.lookup optMessageType) = some [discoverType] then
      offerType else ackType
    serverReply (clientOf msg) testServer (xidOf msg) t testOffered []

def replyHeader (mac : MacAddr) (xid : UInt32) : Bytes :=
  [opReply, htypeEthernet, 6, 0] ++ u32beBytes xid ++ [0, 0, 0, 0] ++ [0, 0, 0, 0] ++
    testOffered.octets ++ testServer.octets ++ [0, 0, 0, 0] ++ mac.octets

theorem serverReply_eq (mac : MacAddr) (xid : UInt32) (t : UInt8) :
    serverReply mac testServer xid t testOffered [] =
      replyHeader mac xid ++ (List.replicate 202 0 ++ (magicCookie ++ [optMessageType, 1, t, optEnd])) := by
  have hresize : (replyHeader mac xid).resize bootpLen = replyHeader mac xid ++ List.replicate 202 0 :=
    resize_of_le (show 34 ≤ bootpLen by decide)
  have hreply : serverReply mac testServer xid t testOffered [] =
      (replyHeader mac xid).resize bootpLen ++ magicCookie ++ option optMessageType [t] ++ [] ++
        [optEnd] := rfl
  rw [hreply, hresize, List.append_nil, List.append_assoc, List.append_assoc, List.append_assoc]
  rfl

theorem parse_serverReply (mac : MacAddr) (xid : UInt32) {t : UInt8} (ht : t ≠ 0) :
    Dhcp.parse (serverReply mac testServer xid t testOffered []) =
      .ok { xid := xid, yiaddr := testOffered, siaddr := testServer, chaddr := mac, messageType := t } := by
  have hlength : (serverReply mac testServer xid t testOffered []).length = 244 :=
    length_serverReply _ _ _ _ _ _
  have hfixed : (replyHeader mac xid ++ (List.replicate 202 0 ++ magicCookie)).length =
      bootpLen + 4 := rfl
  rw [serverReply_eq] at hlength ⊢
  rw [parse_eq (by rw [hlength]; decide) rfl rfl, hlength, ← List.append_assoc,
    ← List.append_assoc, List.append_assoc _ _ magicCookie, List.drop_left' hfixed,
    headerOf_append hfixed]
  have hheader : headerOf (replyHeader mac xid ++ (List.replicate 202 0 ++ magicCookie)) =
      { xid := xid, yiaddr := testOffered, siaddr := testServer, chaddr := mac } := by
    have hxid : xidOf (replyHeader mac xid ++ (List.replicate 202 0 ++ magicCookie)) = xid :=
      u32le_bytes xid
    rw [headerOf, hxid]
    rfl
  have hoptions : ∀ p : Parsed, parseOptions (244 - (bootpLen + 4)) [optMessageType, 1, t, optEnd] p =
      .ok { p with messageType := t } := fun _ => rfl
  rw [hheader, hoptions, Checked.ok_bind, Checked.rejectIf_not_bind ht]
  rfl

theorem generous_answer (c : DhcpClient) (messageType : UInt8) (ciaddr : Ipv4Addr)
    (requestedIp serverId : Option Ipv4Addr) :
    generous.answer (message c messageType ciaddr requestedIp serverId) =
      serverReply c.mac testServer c.xid (if messageType = discoverType then offerType else ackType)
        testOffered [] := by
  have hclient : clientOf (message c messageType ciaddr requestedIp serverId) = c.mac := by
    obtain ⟨pad, hm⟩ := message_eq c messageType ciaddr requestedIp serverId
    rw [hm]
    rfl
  simp only [generous, hclient, xidOf_message, options_message, Option.bind_some, lookup_messageType,
    Option.some.injEq, List.cons.injEq, and_true]

theorem generous_responsive (mac : MacAddr) : Responsive mac generous.answer where
  short msg := by
    rw [generous, length_serverReply]
    decide
  offers c _ := by
    rw [generous_answer]
    exact ⟨_, parse_serverReply c.mac c.xid (by decide), rfl, rfl, rfl⟩
  keeps c p _ _ := by
    rw [generous_answer]
    exact ⟨_, ⟨parse_serverReply c.mac c.xid (by decide), rfl, rfl, rfl⟩,
      show testOffered ≠ .unspecified by decide⟩
  decides c _ _ _ _ := by
    rw [generous_answer]
    exact Or.inl ⟨_, ⟨parse_serverReply c.mac c.xid (by decide), rfl, rfl, rfl⟩,
      show testOffered ≠ .unspecified by decide⟩

def slowClock (n : Nat) : Instant := n * dhcpRetryMax

-- Unfolding it would build a whole message.
attribute [local irreducible] start

/-- Nobody answers the first discovery. -/
theorem never_silent_unanswered :
    let m := thread testMac slowClock
    (∃ x ∈ m.trace m.start [.poll], Prompts testMac slowClock x) ∨
      Prompts testMac slowClock ([.poll].foldl m.step m.start, .poll) := by
  intro m
  have run : Machine.Run m Machine.any [] m.start := .start
  have mono : Monotone slowClock := fun _ _ h => Nat.mul_le_mul_right _ h
  refine never_silent mono run (run.takeAll [.poll]) ?_ ?_ ?_
  · intro x hx
    rw [List.mem_singleton.mp hx]
    decide +kernel
  · decide +kernel
  · decide +kernel

/-- A lease is bound, due for renewal at once and lost to a refusal; then a server is there. -/
theorem back_to_lease_refused :
    ∃ past s, Machine.Run (thread testMac fun n => ofSecs n) Machine.any past s ∧
      past.length = 4 ∧ s.dhcp.state = .init ∧
      (Leased s (round testMac (fun n => ofSecs n) generous s) ∨
        Leased s (round testMac (fun n => ofSecs n) generous
          (round testMac (fun n => ofSecs n) generous s))) := by
  have run := (Machine.Run.start (m := thread testMac fun n => ofSecs n)).takeAll
    [.frame (testFrame offerType []), .frame (testFrame ackType [(optRenewalTime, [0, 0, 0, 0])]),
      .poll, .frame (testFrame nakType [])]
  exact ⟨_, _, run, rfl, by decide +kernel, back_to_lease run
    (fun _ _ h => Nat.mul_le_mul_right _ h) (generous_responsive testMac) (by decide +kernel)⟩

end Muta.Link.Rx
