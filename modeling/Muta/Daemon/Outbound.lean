import Muta.Daemon.Forwarding
import Muta.Daemon.Mtu

/-!
# From the tunnel to the phone

The reader makes frames of packets and sends them into the same channel as the RX thread
its answers and requests; the TX thread packs what comes out of it into transfers, which
the phone takes apart. Followed from one end to the other, a packet that is read while the
gateway is known is read again by the phone, in order, once and unaltered.
-/

namespace Muta.Reader

open Usb Act Netstack Dhcp Link Wire
set_option autoImplicit false

def frameOf : Effect → Option Bytes
  | .queue frame => some frame
  | _ => none

def channel (s : Shared) : List Bytes := s.rx.log.filterMap frameOf

/-- A frame in the channel, and whether the reader made it of a packet. -/
structure Entry where
  frame : Bytes
  carries : Bool
deriving DecidableEq, Repr

def Turn.sends : Turn → Bool
  | .send => true
  | _ => false

section Machine

variable (hostMac : MacAddr) (clock : Nat → Instant)

def entered (x : Shared × Turn) : List Entry :=
  (queued hostMac clock x.1 x.2).map fun frame => ⟨frame, x.2.sends⟩

def entries (past : List (Shared × Turn)) : List Entry :=
  (channel (shared hostMac clock).start).map (fun frame => ⟨frame, false⟩) ++
    past.flatMap (entered hostMac clock)

/-- The packet a turn reads while the gateway is known, with the gateway's address. -/
def accepted (x : Shared × Turn) : Option (MacAddr × Bytes) :=
  match x.2 with
  | .read r raw =>
    if x.1.held.isSome then
      none
    else
      (r.read raw).bind fun packet =>
        if packet = [] then none
        else (x.1.rx.arp.lookup r.gateway (clock x.1.rx.reads)).map fun mac => (mac, packet)
  | _ => none

/-- The frame is the packet's, and a receiver finds the packet in it. -/
structure Made (x : MacAddr × Bytes) (frame : Bytes) : Prop where
  parsed : ∃ pad, Ethernet.parse frame = .ok ⟨x.1, hostMac, Ethernet.ethertypeIpv4, x.2 ++ pad⟩
  length : dataHeaderLen + frame.length = Daemon.needed x.2.length

end Machine

variable {hostMac : MacAddr} {clock : Nat → Instant} {past : List (Shared × Turn)} {s : Shared}

theorem Made.of_build {mac : MacAddr} {packet frame : Bytes}
    (hlen : Ethernet.headerLen + packet.length < 2 ^ 64)
    (h : (Ethernet.build mac hostMac Ethernet.ethertypeIpv4 packet : Checked Empty _) = .ok frame) :
    Made hostMac (mac, packet) frame := by
  refine ⟨?_, ?_⟩
  · obtain ⟨pad, _, hbuild⟩ := Ethernet.build_ok (ε := Empty) mac hostMac Ethernet.ethertypeIpv4 packet hlen
    rw [h] at hbuild
    cases hbuild
    exact ⟨_, Ethernet.parse_fields _ _ _ _⟩
  · rw [Daemon.needed, Ethernet.length_build h]

theorem turn_log (s : Shared) (t : Turn) :
    ∃ new, (turn hostMac clock s t).rx.log = s.rx.log ++ new := by
  have hturned := @turn_turned hostMac clock s t
  generalize turn hostMac clock s t = u at hturned
  cases hturned with
  | frame bytes =>
    obtain ⟨new, hlog, _⟩ := (@handleFrame_apart hostMac clock bytes s.rx).log
    exact ⟨new, hlog⟩
  | poll =>
    obtain ⟨new, hlog, _⟩ := (@poll_apart hostMac clock s.rx).log
    exact ⟨new, hlog⟩
  | read r raw held rx _ hreceived =>
    cases hreceived with
    | asks _ _ _ _ _ _ _ => exact ⟨_, rfl⟩
    | _ => exact ⟨[], (List.append_nil _).symm⟩
  | busy r raw frame _ => exact ⟨[], (List.append_nil _).symm⟩
  | send frame _ => exact ⟨_, rfl⟩
  | done _ => exact ⟨[], (List.append_nil _).symm⟩

theorem channel_turn (s : Shared) (t : Turn) :
    channel (turn hostMac clock s t) = channel s ++ queued hostMac clock s t := by
  obtain ⟨new, hlog⟩ := @turn_log hostMac clock s t
  rw [channel, channel, queued, hlog, List.filterMap_append, List.drop_left]
  rfl

theorem entries_concat (past : List (Shared × Turn)) (x : Shared × Turn) :
    entries hostMac clock (past ++ [x]) = entries hostMac clock past ++ entered hostMac clock x := by
  rw [entries, entries, List.flatMap_append, List.flatMap_singleton, List.append_assoc]

theorem entries_frames (run : Machine.Run (shared hostMac clock) Machine.any past s) :
    (entries hostMac clock past).map Entry.frame = channel s := by
  induction run with
  | start =>
    rw [entries, List.flatMap_nil, List.append_nil, List.map_map]
    exact List.map_id _
  | @take past s t _ _ ih =>
    rw [entries_concat, List.map_append, ih, shared_step, channel_turn, entered, List.map_map]
    exact congrArg (channel s ++ ·) (List.map_id _)

def carried (es : List Entry) : List Bytes := (es.filter Entry.carries).map Entry.frame

theorem carried_append (es es' : List Entry) : carried (es ++ es') = carried es ++ carried es' := by
  rw [carried, List.filter_append, List.map_append]
  rfl

theorem carried_entered (x : Shared × Turn) :
    carried (entered hostMac clock x) = if x.2.sends then queued hostMac clock x.1 x.2 else [] := by
  rw [carried, entered, List.filter_map, List.map_map]
  split
  · rename_i h
    have hall : (Entry.carries ∘ fun frame => (⟨frame, x.2.sends⟩ : Entry)) = fun _ => true := by
      funext frame
      exact h
    rw [hall, List.filter_true]
    exact List.map_id _
  · rename_i h
    have hnone : (Entry.carries ∘ fun frame => (⟨frame, x.2.sends⟩ : Entry)) = fun _ => false := by
      funext frame
      exact Bool.eq_false_iff.mpr h
    rw [hnone, List.filter_false]
    rfl

theorem Carries.keep {made : List (MacAddr × Bytes)} {sent : List Bytes} {held : Option Bytes}
    (h : List.Forall₂ (Made hostMac) made (sent ++ held.toList)) :
    List.Forall₂ (Made hostMac) (made ++ (none : Option (MacAddr × Bytes)).toList)
      (sent ++ [] ++ held.toList) := by
  rw [Option.toList_none, List.append_nil, List.append_nil]
  exact h

/-- A turn that accepts a packet holds its frame, and what is held is queued before the next. -/
theorem turn_carries (s : Shared) (t : Turn) {made : List (MacAddr × Bytes)} {sent : List Bytes}
    (h : List.Forall₂ (Made hostMac) made (sent ++ s.held.toList)) :
    List.Forall₂ (Made hostMac) (made ++ (accepted clock (s, t)).toList)
      (sent ++ carried (entered hostMac clock (s, t)) ++ (turn hostMac clock s t).held.toList) := by
  rw [carried_entered]
  have hturned := @turn_turned hostMac clock s t
  generalize hturn : turn hostMac clock s t = u at hturned
  cases hturned with
  | frame bytes => exact Carries.keep h
  | poll => exact Carries.keep h
  | read r raw held rx hnone hreceived =>
    have haccepted : accepted clock (s, .read r raw) = (r.read raw).bind fun packet =>
        if packet = [] then none
        else (s.rx.arp.lookup r.gateway (clock s.rx.reads)).map fun mac => (mac, packet) := by
      simp [accepted, hnone]
    rw [hnone] at h
    rw [haccepted]
    cases hreceived with
    | idle hidle =>
      rcases hidle with hidle | hidle <;> rw [hidle] <;> exact Carries.keep h
    | wrapped packet mac frame hread hne hlookup hbuild =>
      rw [hread, Option.bind_some, if_neg hne, hlookup]
      rw [Option.toList_none, List.append_nil] at h
      refine List.rel_append ?_ (.cons (Made.of_build (read_fits hread) hbuild) .nil)
      change List.Forall₂ (Made hostMac) made (sent ++ [])
      rw [List.append_nil]
      exact h
    | limited packet hread hne hlookup _ =>
      rw [hread, Option.bind_some, if_neg hne, hlookup]
      exact Carries.keep h
    | asks packet pad hread hne hlookup _ _ =>
      rw [hread, Option.bind_some, if_neg hne, hlookup]
      exact Carries.keep h
  | busy r raw frame hheld =>
    have haccepted : accepted clock (s, .read r raw) = none := by simp [accepted, hheld]
    rw [haccepted]
    exact Carries.keep h
  | send frame hheld =>
    have hqueued : queued hostMac clock s .send = [frame] := by simp [queued, hturn]
    rw [hheld] at h
    simpa [Turn.sends, hqueued, accepted] using h
  | done hnone =>
    have hqueued : queued hostMac clock s .send = [] := queued_eq_nil (by rw [hturn])
    rw [hqueued]
    exact Carries.keep h

theorem run_carries (run : Machine.Run (shared hostMac clock) Machine.any past s) :
    List.Forall₂ (Made hostMac) (past.filterMap (accepted clock))
      (carried (entries hostMac clock past) ++ s.held.toList) := by
  induction run with
  | start =>
    have hnone : carried (entries hostMac clock []) = [] := by
      simp [carried, entries, List.filter_map, Function.comp_def]
    rw [hnone]
    exact .nil
  | @take past s t _ _ ih =>
    have hturn := @turn_carries hostMac clock s t _ _ ih
    rw [entries_concat, carried_append, shared_step, List.filterMap_append]
    cases haccepted : accepted clock (s, t) with
    | none => simpa [haccepted] using hturn
    | some x => simpa [haccepted] using hturn

theorem turn_short (run : Machine.Run (shared hostMac clock) Machine.any past s) (t : Turn)
    {frame : Bytes} (h : frame ∈ queued hostMac clock s t) : frame.length < 2 ^ 17 := by
  have hapart : Apart s.rx (turn hostMac clock s t).rx → frame.length < 2 ^ 17 := by
    intro hapart
    obtain ⟨new, hlog, hshort⟩ := hapart.log
    exact (hshort frame ((mem_queued hlog).mp h)).2
  have hturned := @turn_turned hostMac clock s t
  generalize hturn : turn hostMac clock s t = u at hturned hapart
  cases hturned with
  | frame bytes => exact hapart (handleFrame_apart bytes s.rx)
  | poll => exact hapart (poll_apart s.rx)
  | read r raw held rx _ hreceived =>
    cases hreceived with
    | idle _ => exact hapart (Apart.refl s.rx)
    | wrapped _ _ _ _ _ _ _ => exact hapart (Apart.reading s.rx 1)
    | limited _ _ _ _ _ => exact hapart (Apart.reading s.rx _)
    | asks packet pad _ _ _ _ hpad =>
      have hlog := congrArg (fun u => u.rx.log) hturn
      have hmem := (mem_queued hlog).mp h
      simp only [List.mem_singleton, Effect.queue.injEq] at hmem
      rw [hmem]
      exact length_arpFrame _ _ _ hpad
  | busy r raw frame' _ => exact hapart (Apart.refl s.rx)
  | send frame' hheld =>
    have hlog := congrArg (fun u => u.rx.log) hturn
    have hmem := (mem_queued hlog).mp h
    simp only [List.mem_singleton, Effect.queue.injEq] at hmem
    rw [hmem]
    exact (held_target run hheld).2
  | done _ => exact hapart (Apart.refl s.rx)

theorem channel_short (run : Machine.Run (shared hostMac clock) Machine.any past s) :
    ∀ f ∈ channel s, f.length < 2 ^ 17 := by
  induction run with
  | start =>
    obtain ⟨frame, hframe, hstart⟩ := @Rx.start_sends hostMac clock (Rx.initial hostMac)
    intro f hf
    rw [channel, shared, Rx.thread, hstart] at hf
    simp only [Rx.initial, frameOf, List.nil_append, List.filterMap_cons, List.filterMap_nil,
      List.mem_singleton] at hf
    rw [hf]
    exact hframe.short
  | @take past s t before _ ih =>
    intro f hf
    rw [shared_step, channel_turn] at hf
    rcases List.mem_append.mp hf with hf | hf
    · exact ih f hf
    · exact turn_short before t hf

theorem channel_small (run : Machine.Run (shared hostMac clock) Machine.any past s) {alignment : Nat}
    (halign : alignment ≤ 2 ^ 7) : ∀ f ∈ channel s, Packet.messageLen f alignment < 2 ^ 32 := by
  intro f hf
  have hshort := channel_short run f hf
  have hle := nextMultipleOf_le_add (Wire.dataHeaderLen + f.length) (max alignment 1)
  have hhdr : Wire.dataHeaderLen = 44 := rfl
  rw [Packet.messageLen]
  omega

section Transfers

variable {ε κ : Type} (ep : OutEndpoint ε) (world : Schedule κ) (limits : TxLimits)
  (turns steps : Nat) (dev : ε) (sched : κ)

def taken (es : List Entry) : List Entry := es.filter fun e => Tx.Fitting limits e.frame

theorem taken_frames (es : List Entry) :
    (taken limits es).map Entry.frame = (es.map Entry.frame).filter (Tx.Fitting limits) := by
  rw [taken, List.filter_map]
  rfl

theorem carried_taken (es : List Entry) :
    carried (taken limits es) = (carried es).filter (Tx.Fitting limits) := by
  rw [carried, carried, taken, List.filter_map, List.filter_filter, List.filter_filter]
  simp only [Function.comp_apply, Bool.and_comm]

variable {limits}

def passing (limits : TxLimits) (packets : List (MacAddr × Bytes)) : List (MacAddr × Bytes) :=
  packets.filter fun x => Daemon.needed x.2.length ≤ limits.maxTransferSize

theorem made_fitting {made : List (MacAddr × Bytes)} {frames : List Bytes}
    (h : List.Forall₂ (Made hostMac) made frames) :
    List.Forall₂ (Made hostMac) (passing limits made) (frames.filter (Tx.Fitting limits)) := by
  induction h with
  | nil => exact .nil
  | cons hmade _ ih =>
    simp only [passing, List.filter_cons, Tx.Fitting, hmade.length] at ih ⊢
    split
    · exact .cons hmade ih
    · exact ih

theorem sent_all (hmax : 1 ≤ limits.maxPackets) (frames : List Bytes) :
    let r := Tx.txLoop ep world limits turns steps (Tx.start dev sched frames)
    ∃ fs, fs <+: frames.filter (Tx.Fitting limits) ∧
      Tx.Sent limits (max (ep.maxPacketSize dev) 1) r.2 fs ∧
      ((r.1 = .ok () ∨ r.1 = .error .head) → r.2.frames = [] → r.2.shutdown = false →
        fs = frames.filter (Tx.Fitting limits)) := by
  intro r
  rcases Tx.delivered_or_partly ep world limits turns steps dev sched frames hmax with
    (⟨front, _, hall, hsent⟩ | ⟨hshut, fs, hpre, hsent⟩) | ⟨e, he, hne, fs, hpre, hsent⟩
  · refine ⟨_, Tx.filter_prefix hall, hsent, ?_⟩
    intro _ hnil _
    rw [hnil, List.append_nil] at hall
    rw [hall]
  · refine ⟨fs, hpre, hsent, ?_⟩
    intro _ _ hdown
    cases hdown.symm.trans hshut
  · refine ⟨fs, hpre, hsent, ?_⟩
    intro hend
    rcases hend with hend | hend
    · cases he.symm.trans hend
    · cases he.symm.trans hend
      exact absurd rfl hne

/-- The phone reads the frames of `out`, and the packets in them are `packets`. -/
structure Arrived (hostMac : MacAddr) (transfers : List Bytes) (out : List Entry)
    (packets : List (MacAddr × Bytes)) : Prop where
  items : transfers.flatMap Packet.items = out.map fun e => .ok e.frame
  packets : List.Forall₂ (Made hostMac) packets (carried out)

theorem arrived_of_limits (run : Machine.Run (shared hostMac clock) Machine.any past s)
    (hmax : 1 ≤ limits.maxPackets)
    (hsmall : ∀ f ∈ channel s, Packet.messageLen f limits.alignment < 2 ^ 32) :
    let r := Tx.txLoop ep world limits turns steps (Tx.start dev sched (channel s))
    ∃ out packets, Arrived hostMac r.2.submitted out packets ∧
      out <+: taken limits (entries hostMac clock past) ∧
      packets <+: passing limits (past.filterMap (accepted clock)) ∧
      ((r.1 = .ok () ∨ r.1 = .error .head) → r.2.frames = [] → r.2.shutdown = false →
        out = taken limits (entries hostMac clock past) ∧
          (s.held = none → packets = passing limits (past.filterMap (accepted clock)))) := by
  have hframes := entries_frames run
  have hmade := @made_fitting hostMac limits _ _ (run_carries run)
  rw [List.filter_append, ← carried_taken] at hmade
  obtain ⟨fs, hpre, hsent, hall⟩ := sent_all ep world turns steps dev sched hmax (channel s)
  generalize Tx.txLoop ep world limits turns steps (Tx.start dev sched (channel s)) = r at hsent hall ⊢
  dsimp only at hall ⊢
  rw [← hframes, ← taken_frames] at hpre
  obtain ⟨out, hout, rfl⟩ := List.prefix_map_iff.mp hpre
  have hcarried : carried out <+: carried (taken limits (entries hostMac clock past)) := by
    obtain ⟨rest, hrest⟩ := hout
    rw [← hrest, carried_append]
    exact List.prefix_append _ _
  obtain ⟨rest, hrest⟩ :=
    hcarried.trans (List.prefix_append _ (s.held.toList.filter (Tx.Fitting limits)))
  have hmatched := hmade
  rw [← hrest] at hmatched
  refine ⟨out, _, ⟨?_, List.forall₂_take_append _ _ _ hmatched⟩, hout, List.take_prefix _ _, ?_⟩
  · rw [hsent.items_eq, List.map_map]
    · rfl
    · intro f hf
      obtain ⟨e, he, rfl⟩ := List.mem_map.mp hf
      have hentry := hout.subset he
      rw [taken, List.mem_filter] at hentry
      apply hsmall
      rw [← hframes]
      exact List.mem_map_of_mem hentry.1
  · intro hend hnil hdown
    have hcomplete := hall hend hnil hdown
    rw [← hframes, ← taken_frames] at hcomplete
    have hlength := congrArg List.length hcomplete
    rw [List.length_map, List.length_map] at hlength
    have hfull := hout.eq_of_length hlength
    refine ⟨hfull, fun hnone => ?_⟩
    rw [hnone, Option.toList_none, List.filter_nil, List.append_nil] at hmade
    rw [hfull, List.take_of_length_le (Nat.le_of_eq hmade.length_eq)]

/-- The outbound path is exact, with the limits of any device that was brought up. However the
reader and the RX thread take turns, and whatever the endpoint and the batching do, the phone
reads a beginning of what was sent into the channel and fits it. The packets in it are those
accepted by the reader, in order and each once, for the gateway's address of that moment; none
is missing once the channel is empty. -/
theorem outbound_exact {τ : Type} {c : Rndis.ControlTransport τ} {d : Rndis τ}
    {session : Rndis.Session} (hd : Rndis.Reachable c d)
    (hsession : (Rndis.bringUp c d).1 = .ok session)
    (run : Machine.Run (shared hostMac clock) Machine.any past s) :
    let limits := Daemon.txLimits session
    let r := Tx.txLoop ep world limits turns steps (Tx.start dev sched (channel s))
    ∃ out packets, Arrived hostMac r.2.submitted out packets ∧
      out <+: taken limits (entries hostMac clock past) ∧
      packets <+: passing limits (past.filterMap (accepted clock)) ∧
      ((r.1 = .ok () ∨ r.1 = .error .head) → r.2.frames = [] → r.2.shutdown = false →
        out = taken limits (entries hostMac clock past) ∧
          (s.held = none → packets = passing limits (past.filterMap (accepted clock)))) := by
  obtain ⟨_, _, _, hbrought, _⟩ := (wp_iff.mp (Rndis.bringUp_spec c hd.linked)).1 session _
    (Prod.ext hsession rfl)
  apply arrived_of_limits ep world turns steps dev sched run hbrought.packets
  apply channel_small run
  obtain ⟨e, he, halign⟩ := hbrought.alignment
  rw [Daemon.txLimits, halign]
  exact Nat.pow_le_pow_right (by decide) he

end Transfers

/-- A lease is bound, and then a packet of two bytes is read and sent. -/
def boundThenRead : List Turn :=
  [.frame (Rx.testFrame offerType []), .frame (Rx.testFrame ackType []),
    .read ⟨Rx.testServer, 1500⟩ (some [0, 0, 0, 2, 69, 0]), .send]

def readOnce : Shared :=
  boundThenRead.foldl (shared Rx.testMac fun n => ofSecs n).step
    (shared Rx.testMac fun n => ofSecs n).start

theorem outbound_exact_once : (channel readOnce).length = 3 ∧
    ∃ out packets, Arrived Rx.testMac (Tx.txLoop (Tx.idlePipe 64) allQueued
      (Daemon.txLimits Daemon.gadgetSession) 4 4 (Tx.start () () (channel readOnce))).2.submitted
      out packets ∧ out.length = 3 := by
  have run := (.start : Machine.Run (shared Rx.testMac fun n => ofSecs n) Machine.any [] _).takeAll
    boundThenRead
  have hsession : (Rndis.bringUp Rndis.scripted Daemon.gadget).1 = .ok Daemon.gadgetSession := by
    decide +kernel
  obtain ⟨out, packets, harrived, _, _, hall⟩ :=
    outbound_exact (Tx.idlePipe 64) allQueued 4 4 () () (.new _) hsession run
  have hfull := (hall (by decide +kernel) (by decide +kernel) (by decide +kernel)).1
  refine ⟨by decide +kernel, out, packets, harrived, ?_⟩
  rw [hfull]
  decide +kernel

end Muta.Reader
