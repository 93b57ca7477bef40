import Muta.Daemon.Agreement
import Muta.Link.RxDispatch
import Muta.Link.RxRun
import Muta.Tun.Utun

/-!
# From the phone into the tunnel

The RX thread hands packets to the sink while the daemon attaches it to a tunnel's device
and detaches it again. Each of these is done under the sink's lock, so together they are a
machine that takes an input of the thread or an action of the daemon at a time. Packets
are counted, and those that come while a device is attached are written to it.
-/

namespace Muta.Daemon

open Act Netstack Tun Link
set_option autoImplicit false

/-- The sink that the tunnel's is swapped into; devices are named by their handles. -/
structure SwitchableSink where
  inner : Option Nat
  delivered : UInt64
  bytesIn : UInt64
  dropped : UInt64
deriving DecidableEq, Repr

/-- What was handed to a device with one `writev`. That the kernel refuses it is only
logged. -/
structure Write where
  device : Nat
  bytes : Bytes
deriving DecidableEq, Repr

structure Inbound where
  rx : Rx
  sink : SwitchableSink
  writes : List Write

namespace Inbound

inductive Input where
  | rx (i : Rx.Input)
  | act (a : Action)

def emptySink : SwitchableSink where
  inner := none
  delivered := 0
  bytesIn := 0
  dropped := 0

/-- `UtunSink::deliver`. -/
def write (device : Nat) (packet : Bytes) : List Write :=
  ((framed packet).map fun bytes => ⟨device, bytes⟩).toList

def deliver (s : Inbound) (packet : Bytes) : Inbound :=
  match s.sink.inner with
  | some device =>
    { s with
      sink :=
        { s.sink with
          delivered := s.sink.delivered + 1
          bytesIn := s.sink.bytesIn + UInt64.ofNat packet.length }
      writes := s.writes ++ write device packet }
  | none => { s with sink := { s.sink with dropped := s.sink.dropped + 1 } }

def act (sink : SwitchableSink) : Action → SwitchableSink
  | .attach device => { sink with inner := some device }
  | .detach => { sink with inner := none }
  | _ => sink

section Machine

variable (hostMac : MacAddr) (clock : Nat → Instant)

def step (s : Inbound) : Input → Inbound
  | .rx i =>
    let rx := Rx.take hostMac clock s.rx i
    (Rx.delivered (rx.log.drop s.rx.log.length)).foldl deliver { s with rx }
  | .act a => { s with sink := act s.sink a }

def machine : Machine Inbound Input where
  start := { rx := (Rx.thread hostMac clock).start, sink := emptySink, writes := [] }
  step := step hostMac clock

def packet : Input → Option Bytes
  | .rx (.frame f) => if Rx.ForSink hostMac f then some (f.drop 14) else none
  | _ => none

/-- The packets that came to the sink, each with the device it was attached to. -/
def arrivals (past : List (Inbound × Input)) : List (Option Nat × Bytes) :=
  past.filterMap fun x => (packet hostMac x.2).map fun p => (x.1.sink.inner, p)

end Machine

def actions (past : List (Inbound × Input)) : List Action := past.filterMap fun x =>
  match x.2 with
  | .act a => some a
  | _ => none

def writeOf (x : Option Nat × Bytes) : List Write :=
  match x.1 with
  | some device => write device x.2
  | none => []

def takenBytes (l : List (Option Nat × Bytes)) : Nat :=
  ((l.filter fun x => x.1.isSome).map fun x => x.2.length).sum

variable {hostMac : MacAddr} {clock : Nat → Instant}

theorem taken_delivers (s : Rx) (i : Rx.Input) :
    Rx.delivered ((Rx.take hostMac clock s i).log.drop s.log.length) =
      (packet hostMac (.rx i)).toList := by
  have hdrop : ∀ {t : Rx} {new : List Effect}, t.log = s.log ++ new →
      t.log.drop s.log.length = new := by
    intro t new ht
    rw [ht, List.drop_left]
  have htaken := @Rx.take_taken hostMac clock s i
  generalize Rx.take hostMac clock s i = t at htaken
  cases htaken with
  | frame bytes _ hstep =>
    obtain ⟨new, hlog, hdelivered, _⟩ := hstep.log
    rw [hdrop hlog, hdelivered, Rx.classify_packet]
    rfl
  | poll r t new hdue hqueued =>
    have hlog : t.log = s.log := by cases hdue <;> rfl
    rw [hdrop (congrArg (· ++ new) hlog)]
    cases hqueued <;> rfl
  | request lastRequest =>
    rw [hdrop (List.append_nil _).symm]
    rfl

theorem step_rx (s : Inbound) (i : Rx.Input) :
    step hostMac clock s (.rx i) =
      (packet hostMac (.rx i)).toList.foldl deliver
        { s with rx := Rx.take hostMac clock s.rx i } := by
  rw [step, taken_delivers]

theorem deliver_none {s : Inbound} (p : Bytes) (h : s.sink.inner = none) :
    deliver s p = { s with sink := { s.sink with dropped := s.sink.dropped + 1 } } := by
  simp only [deliver, h]

theorem deliver_some {s : Inbound} {device : Nat} (p : Bytes) (h : s.sink.inner = some device) :
    deliver s p =
      { s with
        sink :=
          { s.sink with
            delivered := s.sink.delivered + 1
            bytesIn := s.sink.bytesIn + UInt64.ofNat p.length }
        writes := s.writes ++ write device p } := by
  simp only [deliver, h]

theorem takenBytes_append (l m : List (Option Nat × Bytes)) :
    takenBytes (l ++ m) = takenBytes l + takenBytes m := by
  simp [takenBytes]

theorem packet_act (a : Action) : packet hostMac (.act a) = none := rfl

theorem arrivals_concat (past : List (Inbound × Input)) (s : Inbound) (i : Input) :
    arrivals hostMac (past ++ [(s, i)]) =
      arrivals hostMac past ++ ((packet hostMac i).map fun p => (s.sink.inner, p)).toList := by
  rw [arrivals, List.filterMap_append]
  cases h : packet hostMac i <;> simp [arrivals, h]

theorem actions_rx (past : List (Inbound × Input)) (s : Inbound) (i : Rx.Input) :
    actions (past ++ [(s, .rx i)]) = actions past := by
  simp [actions]

theorem actions_act (past : List (Inbound × Input)) (s : Inbound) (a : Action) :
    actions (past ++ [(s, .act a)]) = actions past ++ [a] := by
  simp [actions]

/-- The books of the sink: what came, where it went, and the counters, which wrap. -/
structure Accounted (hostMac : MacAddr) (past : List (Inbound × Input)) (s : Inbound) : Prop where
  inner : s.sink.inner = attached (actions past)
  writes : s.writes = (arrivals hostMac past).flatMap writeOf
  delivered : s.sink.delivered =
    UInt64.ofNat ((arrivals hostMac past).countP fun x => x.1.isSome)
  bytesIn : s.sink.bytesIn = UInt64.ofNat (takenBytes (arrivals hostMac past))
  dropped : s.sink.dropped = UInt64.ofNat ((arrivals hostMac past).countP fun x => x.1.isNone)

theorem Accounted.act {past : List (Inbound × Input)} {s : Inbound} (h : Accounted hostMac past s)
    (a : Action) :
    Accounted hostMac (past ++ [(s, .act a)]) (step hostMac clock s (.act a)) := by
  have harrivals : arrivals hostMac (past ++ [(s, .act a)]) = arrivals hostMac past := by
    rw [arrivals_concat, packet_act]
    exact List.append_nil _
  have hcounters : (Inbound.act s.sink a).delivered = s.sink.delivered ∧
      (Inbound.act s.sink a).bytesIn = s.sink.bytesIn ∧
      (Inbound.act s.sink a).dropped = s.sink.dropped := by
    cases a <;> exact ⟨rfl, rfl, rfl⟩
  constructor
  · rw [actions_act, attached_concat, step]
    cases a <;> first | rfl | exact h.inner
  · rw [harrivals]
    exact h.writes
  · rw [harrivals]
    exact hcounters.1.trans h.delivered
  · rw [harrivals]
    exact hcounters.2.1.trans h.bytesIn
  · rw [harrivals]
    exact hcounters.2.2.trans h.dropped

theorem Accounted.rx {past : List (Inbound × Input)} {s : Inbound} (h : Accounted hostMac past s)
    (i : Rx.Input) :
    Accounted hostMac (past ++ [(s, .rx i)]) (step hostMac clock s (.rx i)) := by
  rw [step_rx]
  have harrivals := @arrivals_concat hostMac past s (.rx i)
  cases hpacket : packet hostMac (.rx i) with
  | none =>
    rw [hpacket, Option.map_none, Option.toList_none, List.append_nil] at harrivals
    constructor
    · rw [actions_rx]
      exact h.inner
    · rw [harrivals]
      exact h.writes
    · rw [harrivals]
      exact h.delivered
    · rw [harrivals]
      exact h.bytesIn
    · rw [harrivals]
      exact h.dropped
  | some p =>
    rw [hpacket, Option.map_some, Option.toList_some] at harrivals
    rw [Option.toList_some, List.foldl_cons, List.foldl_nil]
    cases hinner : s.sink.inner with
    | none =>
      rw [hinner] at harrivals
      rw [@deliver_none { s with rx := Rx.take hostMac clock s.rx i } p hinner]
      constructor
      · rw [actions_rx]
        exact hinner ▸ h.inner
      · rw [harrivals, List.flatMap_append, ← h.writes]
        exact (List.append_nil _).symm
      · rw [harrivals, List.countP_append]
        exact h.delivered
      · rw [harrivals, takenBytes_append]
        exact h.bytesIn
      · rw [harrivals, List.countP_append, UInt64.ofNat_add, ← h.dropped]
        rfl
    | some device =>
      rw [hinner] at harrivals
      rw [@deliver_some { s with rx := Rx.take hostMac clock s.rx i } device p hinner]
      constructor
      · rw [actions_rx]
        exact hinner ▸ h.inner
      · rw [harrivals, List.flatMap_append, ← h.writes, List.flatMap_singleton]
        rfl
      · rw [harrivals, List.countP_append, UInt64.ofNat_add, ← h.delivered]
        rfl
      · rw [harrivals, takenBytes_append, UInt64.ofNat_add, ← h.bytesIn]
        rfl
      · rw [harrivals, List.countP_append]
        exact h.dropped

theorem run_accounted {ok : List (Inbound × Input) → Inbound → Input → Prop}
    {past : List (Inbound × Input)} {s : Inbound}
    (run : Machine.Run (machine hostMac clock) ok past s) : Accounted hostMac past s := by
  apply run.invariant (P := fun past s => Accounted hostMac past s)
  · exact ⟨rfl, rfl, rfl, rfl, rfl⟩
  · intro past s i h _
    cases i with
    | rx i => exact h.rx i
    | act a => exact @Accounted.act hostMac clock past s h a

def received (past : List (Inbound × Input)) : List Bytes := past.filterMap fun x =>
  match x.2 with
  | .rx (.frame f) => some f
  | _ => none

theorem arrivals_packets (past : List (Inbound × Input)) :
    (arrivals hostMac past).map Prod.snd =
      ((received past).filter fun f => Rx.ForSink hostMac f).map fun f => f.drop 14 := by
  induction past with
  | nil => rfl
  | cons x past ih =>
    obtain ⟨s, i⟩ := x
    rw [arrivals] at ih
    rw [arrivals, received, List.filterMap_cons, List.filterMap_cons]
    cases i with
    | act a => exact ih
    | rx i =>
      cases i with
      | poll => exact ih
      | request lastRequest => exact ih
      | frame f =>
        by_cases hf : Rx.ForSink hostMac f
        · simpa [packet, hf, received] using ih
        · simpa [packet, hf, received] using ih

/-- The inbound path is exact. In every interleaving of received frames with the daemon's
actions, each packet for the sink comes to it once and in order; it is written to the
device attached at that moment, behind the header of its family, or else only counted. -/
theorem inbound_exact {past : List (Inbound × Input)} {s : Inbound}
    (run : Machine.Run (machine hostMac clock) Machine.any past s) :
    Accounted hostMac past s ∧ (arrivals hostMac past).map Prod.snd =
      ((received past).filter fun f => Rx.ForSink hostMac f).map fun f => f.drop 14 :=
  ⟨run_accounted run, arrivals_packets past⟩

def pingFrame : Bytes := Ethernet.fields Rx.testMac .zero Ethernet.ethertypeIpv4 [0x45]

/-- The session raises its tunnel, and then a packet comes. -/
def raisedThenPing : List Input :=
  [.act .detach, .act (.up 0), .act (.attach 0), .rx (.frame pingFrame)]

def pinged : Inbound :=
  raisedThenPing.foldl (step Rx.testMac fun _ => 0) (machine Rx.testMac fun _ => 0).start

theorem inbound_exact_ping :
    pinged.sink.delivered = 1 ∧ ∃ past, Accounted Rx.testMac past pinged :=
  ⟨by decide +kernel, _, (inbound_exact (Machine.Run.start.takeAll raisedThenPing)).1⟩

end Inbound

def Phase.system : Phase → System
  | .scanning y => y
  | .tethering s => s.system
  | .returned y => y
  | .panicked y => y

theorem Sound.ordered {served : Bool} {p : Phase} (h : Sound served p) : Ordered p.system.log := by
  cases p with
  | scanning y => exact h.1.ordered
  | tethering s => exact h.tracked.ordered
  | returned y => exact h.1.ordered
  | panicked y => exact Tracked.ordered h

theorem attached_append {l m : List Action} (h : attached l = none) :
    attached (l ++ m) = attached m := by
  rw [attached] at h
  rw [attached, List.foldl_append, h]
  rfl

namespace Inbound

variable {hostMac : MacAddr} {clock : Nat → Instant}

theorem packet_eq_some {i : Input} {p : Bytes} (h : packet hostMac i = some p) :
    ∃ f, i = .rx (.frame f) ∧ Rx.ForSink hostMac f ∧ f.drop 14 = p := by
  cases i with
  | act a => cases h
  | rx i =>
    cases i with
    | poll => cases h
    | request lastRequest => cases h
    | frame f =>
      rw [packet] at h
      split at h
      · exact ⟨f, rfl, ‹_›, Option.some.inj h⟩
      · cases h

theorem mem_writeOf {w : Write} {inner : Option Nat} {p : Bytes} (h : w ∈ writeOf (inner, p)) :
    inner = some w.device ∧ framed p = some w.bytes := by
  cases inner with
  | none => cases h
  | some device =>
    obtain ⟨bytes, hbytes, rfl⟩ := Option.map_eq_some_iff.mp (Option.mem_toList.mp h)
    exact ⟨rfl, hbytes⟩

theorem exists_arrival {past : List (Inbound × Input)} {w : Write}
    (h : w ∈ (arrivals hostMac past).flatMap writeOf) :
    ∃ t f, (t, .rx (.frame f)) ∈ past ∧ Rx.ForSink hostMac f ∧ t.sink.inner = some w.device ∧
      framed (f.drop 14) = some w.bytes := by
  obtain ⟨x, hx, hw⟩ := List.mem_flatMap.mp h
  obtain ⟨⟨t, i⟩, hmem, harrives⟩ := List.mem_filterMap.mp hx
  obtain ⟨p, hp, rfl⟩ := Option.map_eq_some_iff.mp harrives
  obtain ⟨f, rfl, hf, rfl⟩ := packet_eq_some hp
  obtain ⟨hinner, hbytes⟩ := mem_writeOf hw
  exact ⟨t, f, hmem, hf, hinner, hbytes⟩

/-- Packets go only into a tunnel that is up. However a session's actions are interleaved
with the frames from the phone, every write was for a packet, and at that moment its
device's tunnel had come up and had not been dropped. -/
theorem writes_live {h : Host} {served : Bool} {before later : List (Phase × Daemon.Input)} {y : System}
    {p : Phase} {session : List Action} {past : List (Inbound × Input)} {s : Inbound}
    (hbefore : Machine.Run (Daemon.run h served) Machine.any before (.scanning y))
    (hlater : Machine.Run (Daemon.run h served) Machine.any later p)
    (hsession : p.system.log = y.log ++ session)
    (run : Machine.Run (machine hostMac clock) Machine.any past s) (hacts : actions past <+: session) :
    ∀ w ∈ s.writes, ∃ front t f back, past = front ++ (t, .rx (.frame f)) :: back ∧
      Rx.ForSink hostMac f ∧ framed (f.drop 14) = some w.bytes ∧
      .up w.device ∈ y.log ++ actions front ∧ .drop w.device ∉ y.log ++ actions front := by
  intro w hw
  rw [(run_accounted run).writes] at hw
  obtain ⟨t, f, hmem, hf, hinner, hbytes⟩ := exists_arrival hw
  obtain ⟨front, back, rfl⟩ := List.append_of_mem hmem
  refine ⟨front, t, f, back, rfl, hf, hbytes, ?_⟩
  have hquiet : attached y.log = none := (run_sound hbefore).1.attached_none
  have hattached : attached (y.log ++ actions front) = some w.device := by
    rw [attached_append hquiet, ← (run_accounted run.before.1).inner, hinner]
  apply (run_sound hlater).ordered.live _ _ _ hattached
  rw [hsession]
  apply (List.prefix_append_right_inj y.log).mpr
  have hfront : actions front <+: actions (front ++ (t, .rx (.frame f)) :: back) := by
    rw [actions, actions, List.filterMap_append]
    exact List.prefix_append _ _
  exact hfront.trans hacts

theorem writes_live_ping :
    pinged.writes = [⟨0, [0, 0, 0, 2, 0x45]⟩] ∧
      ∀ w ∈ pinged.writes, ∃ acts : List Action, .up w.device ∈ acts ∧ .drop w.device ∉ acts := by
  refine ⟨by decide +kernel, ?_⟩
  intro w hw
  have hsession : ((unplugged.take 2).foldl Daemon.step
      (Daemon.run Tunnel.bareHost true).start).system.log = [] ++ [.detach, .up 0, .attach 0] := by
    decide +kernel
  obtain ⟨front, _, _, _, _, _, _, hup, hdrop⟩ := writes_live
    (@Machine.Run.start _ _ (Daemon.run Tunnel.bareHost true) _)
    (Machine.Run.start.takeAll (unplugged.take 2)) hsession
    (Machine.Run.start.takeAll raisedThenPing) (by decide +kernel) w hw
  exact ⟨_, hup, hdrop⟩

end Inbound

end Muta.Daemon
