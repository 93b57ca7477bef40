import Muta.Link.RxLease
import Muta.Netstack.DhcpGrammar

/-!
# The unspecified address

Addresses come to the client in OFFERs and ACKs and are sent again by other functions
later on. The address of an ACK and the fallback for a missing router are checked, the
address of an OFFER and the router option are not. What the thread puts to use is read
off its log, and the replies that let the unspecified address through are named exactly.
-/

namespace Muta.Netstack.DhcpClient

open Act Dhcp
set_option autoImplicit false

/-- The address a REQUEST asks for: its option 50, or `ciaddr` if it has none. -/
def asked (m : Bytes) : Option Ipv4Addr :=
  (options m).bind fun opts =>
    if opts.lookup optMessageType = some [requestType] then
      some (((opts.lookup optRequestedIp).map addressOf).getD (ciaddrOf m))
    else
      none

def used : Event → List Ipv4Addr
  | .send msg => (asked msg).toList
  | .bound lease => lease.ip :: lease.router.toList
  | .nak => []
  | .ignored => []

/-- An OFFER that is accepted has an address, and so has the router option of an ACK that
is accepted. -/
def Guarded (c : DhcpClient) (msg : Bytes) : Prop :=
  ∀ p, parse msg = .ok p → p.xid = c.xid → p.chaddr = c.mac →
    (c.state = .selecting → p.messageType = offerType → p.yiaddr ≠ .unspecified) ∧
    (c.state = .requesting ∨ c.state = .renewing → p.messageType = ackType →
      p.yiaddr ≠ .unspecified → p.router ≠ some .unspecified)

theorem asked_message (c : DhcpClient) (messageType : UInt8) (ciaddr : Ipv4Addr)
    (requestedIp serverId : Option Ipv4Addr) :
    asked (message c messageType ciaddr requestedIp serverId) =
      if messageType = requestType then some (requestedIp.getD ciaddr) else none := by
  simp only [asked, options_message, Option.bind_some, lookup_messageType, lookup_requestedIp,
    ciaddrOf_message, Option.some.injEq, List.cons.injEq, and_true]
  cases requestedIp with
  | none => rfl
  | some ip => rfl

theorem router_leaseOf (c : DhcpClient) (p : Parsed) :
    (leaseOf c p).router = some .unspecified ↔ p.router = some .unspecified := by
  unfold leaseOf
  cases p.router with
  | some ip => simp
  | none =>
    simp only [Option.none_or, Ipv4Addr.isUnspecified, decide_eq_true_eq, reduceCtorEq, iff_false]
    split
    · simp
    · rename_i hne
      intro heq
      exact hne (Option.some.inj heq)

theorem unspecified_notMem_bound {c : DhcpClient} {p : Parsed} (hip : p.yiaddr ≠ .unspecified) :
    Ipv4Addr.unspecified ∉ used (.bound (leaseOf c p)) ↔ p.router ≠ some .unspecified := by
  have hlease : (leaseOf c p).ip = p.yiaddr := rfl
  rw [used, hlease, List.mem_cons, Option.mem_toList, router_leaseOf]
  constructor
  · intro h hrouter
    exact h (Or.inr hrouter)
  · intro h hmem
    rcases hmem with heq | hrouter
    · exact hip heq.symm
    · exact h hrouter

/-- A reply brings the unspecified address in exactly through the two fields not checked. -/
theorem handle_guarded (c : DhcpClient) (msg : Bytes) :
    (∀ ev, (handle msg c).1 = .ok ev → Ipv4Addr.unspecified ∉ used ev) ↔ Guarded c msg := by
  constructor
  · intro h p hp hx hm
    constructor
    · intro hs ht hip
      refine h _ (congrArg Prod.fst (handle_offer hp hx hm ht hs)) ?_
      simp [used, asked_message, hip]
    · intro hs ht hip
      have hlease : leaseFrom c p = .ok (leaseOf c p) := leaseFrom_iff.mpr ⟨hip, rfl⟩
      have hbound := h _ (congrArg Prod.fst (handle_ack ⟨hp, hx, hm, ht, hs⟩ hlease))
      exact (unspecified_notMem_bound hip).mp hbound
  · intro h ev hev
    have hout := handle_outcome c msg
    generalize handle msg c = r at hev hout
    cases hout with
    | rejected e => cases hev
    | ignored =>
      cases hev
      exact List.not_mem_nil
    | offer p request hp hx hm ht hs hreq =>
      cases hev
      have hip := (h p hp hx hm).1 hs ht
      simp [used, hreq, asked_message, hip.symm]
    | ack p lease hp hx hm ht hs hl =>
      cases hev
      obtain ⟨hip, rfl⟩ := leaseFrom_iff.mp hl
      exact (unspecified_notMem_bound hip).mpr ((h p hp hx hm).2 hs ht hip)
    | nak p hp hx hm ht hs =>
      cases hev
      exact List.not_mem_nil

end Muta.Netstack.DhcpClient

namespace Muta.Link.Rx

open Usb Act Netstack Dhcp DhcpClient
set_option autoImplicit false

def addresses : Effect → List Ipv4Addr
  | .queue frame => ((sent frame).bind asked).toList
  | .event (.bound lease) => lease.ip :: lease.router.toList
  | _ => []

/-- No REQUEST asks for the unspecified address, and no lease that is delivered has it. -/
def Specified (log : List Effect) : Prop := ∀ e ∈ log, Ipv4Addr.unspecified ∉ addresses e

instance (log : List Effect) : Decidable (Specified log) :=
  inferInstanceAs (Decidable (∀ e ∈ log, Ipv4Addr.unspecified ∉ addresses e))

section Guarded

variable (hostMac : MacAddr)

def Input.Guarded (s : Rx) : Input → Prop
  | .frame bytes =>
    ∀ srcMac d, classify hostMac bytes = .dhcp srcMac d → DhcpClient.Guarded s.dhcp d.payload
  | .poll => True
  | .request _ => True

end Guarded

variable {hostMac : MacAddr} {clock : Nat → Instant}

theorem specified_append {log new : List Effect} :
    Specified (log ++ new) ↔ Specified log ∧ Specified new := List.forall_mem_append

theorem specified_queue {frame : Bytes} (h : Ipv4Addr.unspecified ∉ addresses (.queue frame)) :
    Specified [.queue frame] := by
  intro e he
  rw [List.mem_singleton] at he
  rw [he]
  exact h

theorem addresses_message {c : DhcpClient} {messageType : UInt8} {ciaddr : Ipv4Addr}
    {requestedIp serverId : Option Ipv4Addr} {frame : Bytes}
    (h : IsDhcpFrame hostMac (message c messageType ciaddr requestedIp serverId) frame) :
    addresses (.queue frame) = (asked (message c messageType ciaddr requestedIp serverId)).toList := by
  rw [addresses, h.sent_message, Option.bind_some]

theorem handleDhcp_used (srcMac : MacAddr) (d : UdpDatagram) (s : Rx) :
    ∃ new, (handleDhcp hostMac clock srcMac d s).2.log = s.log ++ new ∧
      (Specified new ↔
        ∀ ev, (handle d.payload s.dhcp).1 = .ok ev → Ipv4Addr.unspecified ∉ used ev) := by
  have hout := handle_outcome s.dhcp d.payload
  generalize hr : handle d.payload s.dhcp = r at hout
  cases hout with
  | rejected e =>
    rw [handleDhcp_rejected hr]
    exact ⟨_, rfl, by simp [Specified, addresses]⟩
  | ignored =>
    rw [handleDhcp_ignored hr]
    exact ⟨_, rfl, by simp [Specified, addresses, used]⟩
  | offer p request hp hx hm ht hs hreq =>
    obtain ⟨frame, hframe, hsend⟩ := @handleDhcp_send hostMac clock d s _ request hr srcMac
    rw [hreq] at hframe
    rw [hsend]
    exact ⟨_, rfl, by simp [Specified, addresses, used, hframe.sent_message, hreq]⟩
  | ack p lease hp hx hm ht hs hl =>
    rw [handleDhcp_bind hr]
    exact ⟨_, rfl, by simp [Specified, addresses, used]⟩
  | nak p hp hx hm ht hs =>
    rw [handleDhcp_refuse hr]
    exact ⟨_, rfl, by simp [Specified, addresses, used]⟩

theorem handleFrame_specified (bytes : Bytes) (s : Rx) :
    Specified (handleFrame hostMac clock bytes s).2.log ↔
      Specified s.log ∧ Input.Guarded hostMac s (.frame bytes) := by
  have haside : ∀ {log : List Effect}, (∀ srcMac d, classify hostMac bytes ≠ .dhcp srcMac d) →
      (∃ new, log = s.log ++ new ∧ Specified new) →
      (Specified log ↔ Specified s.log ∧ Input.Guarded hostMac s (.frame bytes)) := by
    intro log hother hlog
    obtain ⟨new, hlog, hnew⟩ := hlog
    have hguarded : Input.Guarded hostMac s (.frame bytes) :=
      fun srcMac d heq => absurd heq (hother srcMac d)
    rw [hlog, specified_append]
    exact and_congr_right fun _ => iff_of_true hnew hguarded
  rw [handleFrame_eq]
  split
  · rename_i hclass
    exact haside (by simp [hclass]) ⟨[], (List.append_nil _).symm, by simp [Specified]⟩
  · rename_i payload hclass
    obtain ⟨new, hlog, _, hnew⟩ := @handleArp_log clock payload s
    refine haside (by simp [hclass]) ⟨new, hlog, ?_⟩
    intro e he
    obtain ⟨frame, rfl, hsent⟩ := hnew e he
    simp [addresses, hsent]
  · rename_i packet hclass
    exact haside (by simp [hclass]) ⟨_, rfl, by simp [Specified, addresses]⟩
  · rename_i srcMac d hclass
    obtain ⟨new, hlog, hnew⟩ := @handleDhcp_used hostMac clock srcMac d s
    rw [hlog, specified_append, hnew, handle_guarded]
    refine and_congr_right fun _ => ?_
    constructor
    · intro h srcMac' d' heq
      rw [hclass] at heq
      cases heq
      exact h
    · intro h
      exact h srcMac d hclass

/-- The address that was offered is asked for in the log. -/
def Asking (s : Rx) : Prop :=
  s.dhcp.state = .requesting → ∃ e ∈ s.log, addresses e = s.dhcp.offered.toList

theorem Asking.keep {s t : Rx} {new : List Effect} (h : Asking s) (hdhcp : t.dhcp = s.dhcp)
    (hlog : t.log = s.log ++ new) : Asking t := by
  intro hstate
  rw [hdhcp] at hstate
  obtain ⟨e, he, haddr⟩ := h hstate
  refine ⟨e, ?_, by rw [hdhcp, haddr]⟩
  rw [hlog]
  exact List.mem_append_left new he

theorem DhcpStep.asking {s t : Rx} {srcMac : MacAddr} {d : UdpDatagram} (h : Asking s)
    (hstep : DhcpStep hostMac clock s srcMac d t) : Asking t := by
  cases hstep with
  | unused r _ => exact h.keep rfl rfl
  | offer c msg frame hout hframe =>
    cases hout with
    | offer p _ _ _ _ _ _ hreq =>
      rw [hreq] at hframe
      intro _
      refine ⟨.queue frame, by simp, ?_⟩
      rw [addresses_message hframe, asked_message]
      rfl
  | ack c lease hout =>
    cases hout with
    | ack p _ _ _ _ _ _ _ => exact fun hstate => absurd hstate (by simp)
  | nak c hout =>
    cases hout with
    | nak p _ _ _ _ _ => exact fun hstate => absurd hstate (by simp)

theorem Taken.asking {s t : Rx} {i : Input} (h : Asking s) (htaken : Taken hostMac clock s i t) :
    Asking t := by
  cases htaken with
  | frame bytes _ hstep =>
    generalize classify hostMac bytes = c at hstep
    cases hstep with
    | skip => exact h
    | sink packet => exact h.keep rfl rfl
    | arpBad payload e _ => exact h.keep rfl (List.append_nil _).symm
    | arp payload p reply _ => exact h.keep rfl rfl
    | dhcp srcMac d _ hd => exact hd.asking h
  | poll r t new hdue _ =>
    cases hdue with
    | early _ => exact h.keep rfl rfl
    | renew lease msg _ _ _ _ => exact fun hstate => absurd hstate (by simp)
    | lost _ _ _ => exact h.keep rfl rfl
    | resend msg _ _ _ => exact h.keep rfl rfl
    | rediscover msg _ _ _ _ => exact fun hstate => absurd hstate (by simp)
  | request lastRequest => exact h.keep rfl (List.append_nil _).symm

theorem thread_asking {past : List (Rx × Input)} {s : Rx}
    (run : Machine.Run (thread hostMac clock) Machine.any past s) : Asking s := by
  refine run.invariant (P := fun _ s => Asking s) ?_ ?_
  · obtain ⟨frame, _, hstart⟩ := @start_sends hostMac clock (initial hostMac)
    rw [thread, hstart]
    exact fun hstate => absurd hstate (by simp)
  · intro past s i h _
    exact (take_taken s i).asking h

theorem pending_specified {s : Rx} {msg frame : Bytes} (hs : InStep s)
    (hsettled : Settled hostMac s.dhcp) (hasking : Asking s) (hlog : Specified s.log)
    (hp : s.dhcp.pending = some msg) (hframe : IsDhcpFrame hostMac msg frame) :
    Specified [.queue frame] := by
  apply specified_queue
  unfold pending at hp
  split at hp
  · rw [← Option.some.inj hp] at hframe
    rw [addresses_message hframe, asked_message]
    exact List.not_mem_nil
  · rename_i hstate
    rw [← Option.some.inj hp] at hframe
    obtain ⟨e, he, haddr⟩ := hasking hstate
    obtain ⟨ip, hip⟩ := Option.isSome_iff_exists.mp (hs.offered hstate)
    have hproper := hlog e he
    rw [haddr, hip] at hproper
    rw [addresses_message hframe, asked_message, hip]
    exact hproper
  · obtain ⟨lease, hl, hmsg⟩ := Option.map_eq_some_iff.mp hp
    rw [← hmsg] at hframe
    rw [addresses_message hframe, asked_message]
    have hip := hsettled.lease lease hl
    simpa using hip.symm
  · cases hp
  · cases hp

theorem poll_specified {s : Rx} (hs : InStep s) (hsettled : Settled hostMac s.dhcp)
    (hasking : Asking s) (hlog : Specified s.log) : Specified (poll hostMac clock s).2.log := by
  have htaken := @poll_taken hostMac clock s
  generalize (poll hostMac clock s).2 = u at htaken
  cases htaken with
  | poll r t new hdue hqueued =>
    have hkept : t.log = s.log := by cases hdue <;> rfl
    rw [hkept, specified_append]
    refine ⟨hlog, ?_⟩
    cases hqueued with
    | nothing => simp [Specified]
    | message msg frame hframe =>
      cases hdue with
      | renew lease _ _ _ hl hmsg =>
        rw [hmsg] at hframe
        apply specified_queue
        rw [addresses_message hframe, asked_message]
        have hip := hsettled.lease lease hl
        simpa using hip.symm
      | resend _ _ _ hp => exact pending_specified hs hsettled hasking hlog hp hframe
      | rediscover _ _ _ _ hmsg =>
        rw [hmsg] at hframe
        apply specified_queue
        rw [addresses_message hframe, asked_message]
        exact List.not_mem_nil

theorem take_specified {past : List (Rx × Input)} {s : Rx}
    (run : Machine.Run (thread hostMac clock) Machine.any past s) (i : Input) :
    Specified (take hostMac clock s i).log ↔ Specified s.log ∧ i.Guarded hostMac s := by
  cases i with
  | frame bytes => exact handleFrame_specified bytes s
  | poll =>
    obtain ⟨calls, hclient⟩ := thread_client run
    constructor
    · intro h
      obtain ⟨r, t, new, hdue, hpoll, _⟩ := @poll_step hostMac clock s
      have hkept : t.log = s.log := by cases hdue <;> rfl
      rw [take, hpoll, hkept, specified_append] at h
      exact ⟨h.1, trivial⟩
    · intro h
      exact poll_specified (thread_inStep run) (run_settled hclient) (thread_asking run) h.1
  | request lastRequest => exact (and_iff_left trivial).symm

/-- The unspecified address is put to use in a run exactly if an OFFER was accepted that
offers it, or an ACK that names it as the router. -/
theorem addresses_specified_iff {past : List (Rx × Input)} {s : Rx}
    (run : Machine.Run (thread hostMac clock) Machine.any past s) :
    Specified s.log ↔ ∀ x ∈ past, x.2.Guarded hostMac x.1 := by
  induction run with
  | start =>
    obtain ⟨frame, hframe, hstart⟩ := @start_sends hostMac clock (initial hostMac)
    rw [thread, hstart]
    refine iff_of_true (specified_queue ?_) (by simp)
    rw [addresses_message hframe, asked_message]
    exact List.not_mem_nil
  | @take past s i run _ ih =>
    have hstep := take_specified run i
    simp only [List.forall_mem_append, List.forall_mem_singleton]
    rw [← ih]
    exact hstep

theorem addresses_specified_bound :
    ∃ past s, Machine.Run (thread testMac fun n => ofSecs n) Machine.any past s ∧ past.length = 2 ∧
      s.dhcp.state = .bound ∧ Specified s.log ∧ ∀ x ∈ past, x.2.Guarded testMac x.1 := by
  have run := (Machine.Run.start (m := thread testMac fun n => ofSecs n)).takeAll
    [.frame (testFrame offerType []), .frame (testFrame ackType [(optRouter, testServer.octets)])]
  have hlog : Specified ([Input.frame (testFrame offerType []),
      .frame (testFrame ackType [(optRouter, testServer.octets)])].foldl
    (thread testMac fun n => ofSecs n).step (thread testMac fun n => ofSecs n).start).log := by
    decide +kernel
  exact ⟨_, _, run, rfl, by decide +kernel, hlog, (addresses_specified_iff run).mp hlog⟩

def emptyReplies : List Input :=
  [.frame (replyFrame testMac ⟨2, 0, 0, 0, 0, 9⟩ testServer
      (serverReply testMac testServer 1015568748 offerType .unspecified [])),
    .frame (testFrame ackType [(optRouter, Ipv4Addr.unspecified.octets)])]

def requestsUnspecified : Effect → Bool
  | .queue frame => (sent frame).bind asked = some .unspecified
  | _ => false

def bindsUnspecified : Effect → Bool
  | .event (.bound lease) => lease.router = some .unspecified
  | _ => false

theorem addresses_unspecified :
    ∃ past s, Machine.Run (thread testMac fun n => ofSecs n) Machine.any past s ∧
      (∃ frame m, Effect.queue frame ∈ s.log ∧ sent frame = some m ∧ asked m = some .unspecified) ∧
      ∃ lease, Effect.event (.bound lease) ∈ s.log ∧ lease.router = some .unspecified := by
  have run := (Machine.Run.start (m := thread testMac fun n => ofSecs n)).takeAll emptyReplies
  refine ⟨_, _, run, ?_, ?_⟩
  · obtain ⟨e, hmem, he⟩ := List.any_eq_true.mp (show List.any (emptyReplies.foldl
        (thread testMac fun n => ofSecs n).step (thread testMac fun n => ofSecs n).start).log
      requestsUnspecified = true by decide +kernel)
    unfold requestsUnspecified at he
    split at he
    · rename_i frame
      obtain ⟨m, hsent, hasked⟩ := Option.bind_eq_some_iff.mp (of_decide_eq_true he)
      exact ⟨frame, m, hmem, hsent, hasked⟩
    · cases he
  · obtain ⟨e, hmem, he⟩ := List.any_eq_true.mp (show List.any (emptyReplies.foldl
        (thread testMac fun n => ofSecs n).step (thread testMac fun n => ofSecs n).start).log
      bindsUnspecified = true by decide +kernel)
    unfold bindsUnspecified at he
    split at he
    · rename_i lease
      exact ⟨lease, hmem, of_decide_eq_true he⟩
    · cases he

end Muta.Link.Rx
