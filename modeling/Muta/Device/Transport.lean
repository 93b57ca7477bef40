import Muta.Rndis.BringUp
import Muta.Usb.Bus

/-!
# The control channel over USB

Encapsulated commands and responses travel as class requests on the control endpoint, and
the interrupt endpoint, where there is one, tells when a response can be fetched. Its reads
are kept queued. The control channel's own log is compared with the log of the bus: what
the RNDIS layer believes to have sent and received is what went over the wire.
-/

namespace Muta.Device

open Act Usb Wire
set_option autoImplicit false

def controlTimeout : Duration := ofSecs 2
def notifyDepth : Nat := 2

/-- The transport owns the claimed interface `interface` of the device `id`, and with it
the bus, until it is given back. -/
structure UsbControlTransport (δ ι : Type) where
  bus : Bus δ
  id : DeviceId
  interface : UInt8
  interfaceNumber : UInt16
  notify : Option (Port ι Nat Bytes)

/-- What the transport is run on: a backend, its interrupt endpoints, and how often a
transaction finds its deadline still ahead. -/
structure Platform (δ ι ο : Type) where
  backend : UsbBackend δ ι ο
  endpoint : InEndpoint ι
  polls : UsbControlTransport δ ι → Nat

namespace UsbControlTransport

variable {δ ι ο ω : Type} (p : Platform δ ι ο)

def notifyLen : Nat := 8

def submitReads : Nat → Act Empty (Port ι Nat Bytes) Unit
  | 0 => pure ()
  | n + 1 => do
    Port.submit p.endpoint notifyLen
    submitReads n

def new (id : DeviceId) (interface : UInt8) (interruptIn : Option UInt8) :
    Act Wire.Error (Bus δ) (UsbControlTransport δ ι) := do
  let notify ← match interruptIn with
    | some address =>
      match ← Bus.run (.openIn interface address .interrupt)
          (fun d => p.backend.openIn d id interface address .interrupt) with
      | .ok ep => pure (some (submitReads p notifyDepth ⟨ep, []⟩).2)
      | .error e => stop (.transport e.text)
    | none => pure none
  return { bus := ← state, id, interface, interfaceNumber := interface.toUInt16, notify }

variable (t : UsbControlTransport δ ι)

def setup (request : UInt8) : ControlSetup :=
  { request, value := 0, index := t.interfaceNumber }

/-- Run a call on the bus, with its error as the RNDIS layer sees it. -/
def onBus {α : Type} (call : Act Wire.Error (Bus δ) (Except UsbError α)) :
    Except Wire.Error α × UsbControlTransport δ ι :=
  let r := (do
    match ← call with
    | .ok a => pure a
    | .error e => stop (.transport e.text)) t.bus
  (r.1, { t with bus := r.2 })

def send (msg : Bytes) : Except Wire.Error Unit × UsbControlTransport δ ι :=
  t.onBus (Bus.run (.controlOut t.interface (t.setup reqSendEncapsulated) msg controlTimeout)
    fun d => p.backend.controlOut d t.id t.interface (t.setup reqSendEncapsulated) msg controlTimeout)

def receive : Except Wire.Error Bytes × UsbControlTransport δ ι :=
  let len : UInt16 := UInt16.ofNat maxControlMsg
  t.onBus (Bus.call (.controlIn t.interface (t.setup reqGetEncapsulated) len controlTimeout) (fun msg => msg)
    fun d => p.backend.controlIn d t.id t.interface (t.setup reqGetEncapsulated) len controlTimeout)

/-- A completed read is queued again at once; what it says is only traced, since the caller
polls anyway. -/
def notified (timeout : Duration) : Act Wire.Error (Port ι Nat Bytes) Unit := do
  match ← Port.wait p.endpoint .read timeout with
  | some (.ok _) => Port.submit p.endpoint notifyLen
  | some (.error e) =>
    Port.submit p.endpoint notifyLen
    stop (.transport e.text)
  | none => pure ()

/-- Without an interrupt endpoint the thread sleeps, which leaves no trace. -/
def awaitResponse (timeout : Duration) : Except Wire.Error Unit × UsbControlTransport δ ι :=
  match t.notify with
  | none => (.ok (), t)
  | some port =>
    let r := notified p timeout port
    (r.1, { t with notify := some r.2 })

def transport : Rndis.ControlTransport (UsbControlTransport δ ι) where
  send := send p
  receive := receive p
  awaitResponse := awaitResponse p
  polls := p.polls

end UsbControlTransport

/-- The request is one of the two of the control channel, put to the interface `number`. -/
def IsControl (number : UInt8) : Op → Prop
  | .controlOut n setup _ timeout =>
    n = number ∧ setup = ⟨reqSendEncapsulated, 0, number.toUInt16⟩ ∧ timeout = controlTimeout
  | .controlIn n setup len timeout =>
    n = number ∧ setup = ⟨reqGetEncapsulated, 0, number.toUInt16⟩ ∧ len = 1024 ∧
      timeout = controlTimeout
  | _ => False

/-- What a request amounts to for the control channel; a read that failed is nothing. -/
def traffic (d : Done) : Option Rndis.Traffic :=
  match d.op, d.result with
  | .controlOut _ _ data _, _ => some (.sent data)
  | .controlIn _ _ _ _, .ok msg => some (.received msg)
  | _, _ => none

/-- The interrupt endpoint is never without its reads, and never has more. -/
structure Listening (port : List (Call Nat Bytes)) : Prop where
  pending : inFlight port = notifyDepth
  disciplined : Disciplined notifyDepth port
  lengths : ∀ len ∈ submissions port, len = UsbControlTransport.notifyLen

variable {δ ι ο : Type}

/-- Since the bus log was `before`, the bus has carried the channel's traffic, in its order,
and nothing else. -/
structure Carried (number : UInt8) (before : List Done) (s : Rndis (UsbControlTransport δ ι)) :
    Prop where
  interface : s.transport.interface = number
  index : s.transport.interfaceNumber = number.toUInt16
  log : ∃ new, s.transport.bus.log = before ++ new ∧ (∀ d ∈ new, IsControl number d.op) ∧
    new.filterMap traffic = Rndis.wired s.log
  notify : ∀ port, s.transport.notify = some port → Listening port.log

namespace Listening

variable {port : List (Call Nat Bytes)}

theorem idle (h : Listening port) : Listening (port ++ [.waited .read none]) where
  pending := by
    rw [inFlight_concat]
    exact h.pending
  disciplined := by
    apply h.disciplined.concat
    · rw [inFlight_concat]
      exact Nat.le_of_eq h.pending
    · intro r hr
      cases hr
  lengths := by
    intro len hlen
    rw [submissions_append] at hlen
    exact h.lengths len (by simpa [submissions] using hlen)

theorem renewed (h : Listening port) (r : Except UsbError Bytes) :
    Listening (port ++ [.waited .read (some r)] ++ [.submit UsbControlTransport.notifyLen]) where
  pending := by
    rw [inFlight_concat, inFlight_concat, h.pending]
    rfl
  disciplined := by
    apply Disciplined.concat
    · apply h.disciplined.concat
      · rw [inFlight_concat, h.pending]
        exact Nat.le_succ 1
      · intro r hr
        cases hr
    · rw [inFlight_concat, inFlight_concat, h.pending]
      exact Nat.le_refl 2
    · intro r hr
      cases hr
  lengths := by
    intro len hlen
    simp only [submissions_append, List.mem_append] at hlen
    rcases hlen with (hlen | hlen) | hlen
    · exact h.lengths len hlen
    · simp [submissions] at hlen
    · simpa [submissions] using hlen

end Listening

namespace UsbControlTransport

variable (p : Platform δ ι ο) (t : UsbControlTransport δ ι)

section OnBus

variable {α : Type} (op : Op) (bytes : α → Bytes) (f : δ → Except UsbError α × δ)

theorem onBus_state :
    (t.onBus (Bus.call op bytes f)).2 =
      { t with bus := ⟨(f t.bus.dev).2, t.bus.log ++ [⟨op, (f t.bus.dev).1.map bytes⟩]⟩ } := by
  simp only [onBus, Bus.call, bind_apply, apply_apply]
  cases (f t.bus.dev).1 with
  | ok a => rfl
  | error e => rfl

theorem onBus_result :
    (t.onBus (Bus.call op bytes f)).1 =
      (f t.bus.dev).1.mapError fun e => .transport e.text := by
  simp only [onBus, Bus.call, bind_apply, apply_apply]
  cases (f t.bus.dev).1 with
  | ok a => rfl
  | error e => rfl

end OnBus

theorem notified_log (timeout : Duration) (port : Port ι Nat Bytes) :
    (notified p timeout port).2.log = port.log ++ [.waited .read none] ∨
      ∃ r, (notified p timeout port).2.log =
        port.log ++ [.waited .read (some r)] ++ [.submit notifyLen] := by
  simp only [notified, Port.wait, bind_apply, apply_apply]
  rcases (p.endpoint.wait port.dev timeout).1 with _ | _ | data
  · exact Or.inl rfl
  · exact Or.inr ⟨_, rfl⟩
  · exact Or.inr ⟨_, rfl⟩

end UsbControlTransport

namespace Carried

variable {number : UInt8} {before : List Done} {s : Rndis (UsbControlTransport δ ι)}

theorem more (h : Carried number before s) {u : Rndis (UsbControlTransport δ ι)} {b : Bus δ}
    {d : Done} (hu : u.transport = { s.transport with bus := b }) (hb : b.log = s.transport.bus.log ++ [d])
    (hd : IsControl number d.op) (hlog : Rndis.wired u.log = Rndis.wired s.log ++ (traffic d).toList) :
    Carried number before u where
  interface := by rw [hu]; exact h.interface
  index := by rw [hu]; exact h.index
  log := by
    obtain ⟨new, hnew, hcontrol, htraffic⟩ := h.log
    refine ⟨new ++ [d], ?_, ?_, ?_⟩
    · rw [hu, hb, hnew, List.append_assoc]
    · intro d' hd'
      rcases List.mem_append.mp hd' with hd' | hd'
      · exact hcontrol d' hd'
      · rw [List.mem_singleton.mp hd']
        exact hd
    · rw [List.filterMap_append, htraffic, hlog]
      cases hd : traffic d <;> simp [hd]
  notify := by rw [hu]; exact h.notify

end Carried

variable (p : Platform δ ι ο)

theorem receive_spec (t : UsbControlTransport δ ι) :
    ∃ b d, (UsbControlTransport.receive p t).2 = { t with bus := b } ∧ b.log = t.bus.log ++ [d] ∧
      d.op = .controlIn t.interface (t.setup reqGetEncapsulated) 1024 controlTimeout ∧
      (∀ msg, (UsbControlTransport.receive p t).1 = .ok msg → traffic d = some (.received msg)) ∧
      (∀ e, (UsbControlTransport.receive p t).1 = .error e → traffic d = none) := by
  refine ⟨_, _, UsbControlTransport.onBus_state t _ _ _, rfl, rfl, ?_, ?_⟩
  · intro msg hmsg
    rw [UsbControlTransport.receive, UsbControlTransport.onBus_result] at hmsg
    generalize (p.backend.controlIn _ _ _ _ _ _).1 = r at hmsg ⊢
    cases r with
    | ok bytes =>
      cases hmsg
      rfl
    | error e => cases hmsg
  · intro e he
    rw [UsbControlTransport.receive, UsbControlTransport.onBus_result] at he
    generalize (p.backend.controlIn _ _ _ _ _ _).1 = r at he ⊢
    cases r with
    | ok bytes => cases he
    | error e => rfl

theorem carried_kept (number : UInt8) (before : List Done) :
    Rndis.Kept (UsbControlTransport.transport p) (Carried number before) where
  send := by
    intro msg s h
    have hsetup : s.transport.setup reqSendEncapsulated = ⟨reqSendEncapsulated, 0, number.toUInt16⟩ := by
      rw [UsbControlTransport.setup, h.index]
    refine h.more (UsbControlTransport.onBus_state s.transport _ _ _) rfl ⟨h.interface, hsetup, rfl⟩ ?_
    exact Rndis.wired_append s.log [.sent msg]
  receive := by
    intro s h
    have hsetup : s.transport.setup reqGetEncapsulated = ⟨reqGetEncapsulated, 0, number.toUInt16⟩ := by
      rw [UsbControlTransport.setup, h.index]
    obtain ⟨b, d, hstate, hlog, hop, hok, herror⟩ := receive_spec p s.transport
    have hd : IsControl number d.op := by
      rw [hop]
      exact ⟨h.interface, hsetup, rfl, rfl⟩
    have hcall : Rndis.onTransport (UsbControlTransport.transport p).receive s =
        ((UsbControlTransport.receive p s.transport).1,
          { s with transport := { s.transport with bus := b } }) := by
      rw [← hstate]
      rfl
    generalize (UsbControlTransport.receive p s.transport).1 = r at hcall hok herror
    cases r with
    | ok msg =>
      rw [Rndis.receive, bind_apply_ok s _ hcall]
      refine h.more rfl hlog hd ?_
      rw [hok msg rfl]
      exact Rndis.wired_append s.log [.received msg]
    | error e =>
      rw [Rndis.receive, bind_apply_error s _ hcall]
      refine h.more rfl hlog hd ?_
      rw [herror e rfl]
      exact (List.append_nil _).symm
  await := by
    intro timeout s h
    change Carried number before
      { s with transport := (UsbControlTransport.awaitResponse p s.transport timeout).2 }
    unfold UsbControlTransport.awaitResponse
    cases hport : s.transport.notify with
    | none => exact h
    | some port =>
      refine ⟨h.interface, h.index, h.log, ?_⟩
      intro port' hport'
      cases hport'
      rcases UsbControlTransport.notified_log p timeout port with hlog | ⟨r, hlog⟩
      · rw [hlog]
        exact (h.notify port hport).idle
      · rw [hlog]
        exact (h.notify port hport).renewed r
  aside := by
    intro s t htransport hlog h
    refine ⟨?_, ?_, ?_, ?_⟩
    · rw [htransport]
      exact h.interface
    · rw [htransport]
      exact h.index
    · rw [htransport, hlog]
      exact h.log
    · rw [htransport]
      exact h.notify

theorem listening_submitReads (ep : ι) :
    Listening (UsbControlTransport.submitReads p notifyDepth ⟨ep, []⟩).2.log := by
  have hone : Disciplined notifyDepth ([] ++ [.submit UsbControlTransport.notifyLen] :
      List (Call Nat Bytes)) := by
    apply (disciplined_nil notifyDepth).concat
    · exact Nat.le_succ 1
    · intro r hr
      cases hr
  refine ⟨rfl, ?_, ?_⟩
  · apply hone.concat
    · exact Nat.le_refl 2
    · intro r hr
      cases hr
  · intro len hlen
    have hmem : len ∈ [UsbControlTransport.notifyLen, UsbControlTransport.notifyLen] := hlen
    simpa using hmem

theorem new_spec (id : DeviceId) (number : UInt8) (interruptIn : Option UInt8) (b : Bus δ) :
    wp (UsbControlTransport.new p id number interruptIn)
      (fun t u => t.bus = u ∧ Carried number u.log (Rndis.new t) ∧
        u.log = b.log ++ (interruptIn.map fun address => ⟨.openIn number address .interrupt, .ok []⟩).toList)
      (fun e u => ∃ address usb, interruptIn = some address ∧ e = .transport usb.text ∧
        u.log = b.log ++ [⟨.openIn number address .interrupt, .error usb⟩]) b := by
  cases interruptIn with
  | none =>
    refine ⟨rfl, ⟨rfl, rfl, ⟨[], ?_, ?_, rfl⟩, ?_⟩, ?_⟩
    · exact (List.append_nil _).symm
    · intro d hd
      cases hd
    · intro port hport
      cases hport
    · exact (List.append_nil _).symm
  | some address =>
    simp only [UsbControlTransport.new, Bus.run, Bus.call, wp_bind, wp_apply]
    generalize p.backend.openIn b.dev id number address .interrupt = r
    obtain ⟨r, dev⟩ := r
    cases r with
    | error e => exact ⟨address, e, rfl, rfl, rfl⟩
    | ok ep =>
      refine ⟨rfl, ⟨rfl, rfl, ⟨[], ?_, ?_, rfl⟩, ?_⟩, rfl⟩
      · exact (List.append_nil _).symm
      · intro d hd
        cases hd
      · intro port hport
        cases hport
        exact listening_submitReads p ep

/-- The transport carries the control channel. Whatever a program does on the channel and
however the bus behaves, the requests on the bus are the channel's messages in their order,
each put to the control interface, and the interrupt endpoint is kept supplied with reads. -/
theorem control_traffic_carried {id : DeviceId} {number : UInt8} {interruptIn : Option UInt8} {b u : Bus δ}
    {t : UsbControlTransport δ ι} (h : UsbControlTransport.new p id number interruptIn b = (.ok t, u))
    {s : Rndis (UsbControlTransport δ ι)}
    (run : Rndis.Uses (UsbControlTransport.transport p) (Rndis.new t) s) : Carried number u.log s := by
  have hnew := new_spec p id number interruptIn b
  rw [wp_of_ok h] at hnew
  exact (carried_kept p number u.log).uses hnew.2.1 run

/-- A phone that has its replies ready and notifies at once. Its interrupt endpoint is the
number of reads queued on it. -/
def phone : Platform (List Bytes) Nat Unit where
  backend :=
    { list := fun d => (.ok [], d)
      openDevice := fun d _ => (.ok (), d)
      configurations := fun d _ => (.ok [], d)
      activeConfiguration := fun d _ => (.ok 1, d)
      setConfiguration := fun d _ _ => (.ok (), d)
      claimInterface := fun d _ _ => (.ok (), d)
      setAltSetting := fun d _ _ _ => (.ok (), d)
      controlOut := fun d _ _ _ _ _ => (.ok (), d)
      controlIn := fun d _ _ _ _ _ =>
        match d with
        | [] => (.error .timeout, [])
        | msg :: rest => (.ok msg, rest)
      openIn := fun d _ _ _ _ => (.ok 0, d)
      openOut := fun d _ _ _ _ => (.ok (), d) }
  endpoint :=
    { pending := fun n => n
      submit := fun n _ => n + 1
      wait := fun n _ => if n = 0 then (none, 0) else (some (.ok [1, 0, 0, 0, 0, 0, 0, 0]), n - 1)
      cancelAll := fun n => n
      clearHalt := fun n => (.ok (), n) }
  polls := fun _ => 20

/-- The phone tells its address only when asked a second time. -/
theorem control_traffic_carried_phone :
    ∃ t u, UsbControlTransport.new phone 7 0 (some 0x82) ⟨Rndis.reluctant.transport, []⟩ = (.ok t, u) ∧
      (Rndis.bringUp (UsbControlTransport.transport phone) (Rndis.new t)).1 =
        .ok Rndis.reluctantSession ∧
      Carried 0 u.log (Rndis.bringUp (UsbControlTransport.transport phone) (Rndis.new t)).2 := by
  have hnew : UsbControlTransport.new phone 7 0 (some 0x82) ⟨Rndis.reluctant.transport, []⟩ =
    (.ok _, _) := rfl
  refine ⟨_, _, hnew, ?_, control_traffic_carried phone hnew (.bringUp .refl)⟩
  decide +kernel

end Muta.Device
