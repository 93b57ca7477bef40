import Muta.Base.Staged
import Muta.Device.Transport
import Muta.Usb.Matcher

/-!
# Opening a phone

Opening a phone is a sequence of calls on the bus with the bring-up of the control channel
in the middle. It gives up at the first call that fails, so that what was done to the
device is a beginning of the plan, and the error names the stage that failed.
-/

namespace Muta.Device

open Act Usb Wire
set_option autoImplicit false

/-- An error with what was being attempted. -/
structure Failure where
  context : Text
  cause : Text
deriving DecidableEq

/-- An open, initialised RNDIS link. -/
structure RndisDevice (δ ι ο : Type) where
  session : Rndis.Session
  control : Rndis (UsbControlTransport δ ι)
  bulkIn : ι
  bulkOut : ο

namespace RndisDevice

variable {δ ι ο α : Type} (p : Platform δ ι ο)

def withContext (context : Text) (call : Act Failure (Bus δ) (Except UsbError α)) :
    Act Failure (Bus δ) α := do
  match ← call with
  | .ok a => pure a
  | .error e => stop ⟨context, e.text.toList⟩

def hex8 (n : UInt32) : Text :=
  let digits := Nat.toDigits 16 n.toNat
  List.replicate (8 - digits.length) '0' ++ digits

/-- How an error of the control channel is displayed. -/
def display : Wire.Error → Text
  | .truncated => "message truncated".toList
  | .malformed what => "malformed message: ".toList ++ what.toList
  | .unexpectedMessage msgType => "unexpected message type 0x".toList ++ hex8 msgType
  | .status code => "device returned status 0x".toList ++ hex8 code
  | .noResponse => "no response from device".toList
  | .transport what => "transport: ".toList ++ what.toList

variable (a : Attached) (f : RndisFunction)

def selectConfiguration : Act Failure (Bus δ) Unit :=
  withContext "selecting the RNDIS configuration".toList
    (Bus.run (.setConfiguration f.configValue) fun d => p.backend.setConfiguration d a.id f.configValue)

/-- Some devices report no active configuration until one is selected. -/
def configure : Act Failure (Bus δ) Unit := do
  match ← Bus.call .activeConfiguration (fun v => [v]) (fun d => p.backend.activeConfiguration d a.id) with
  | .ok active =>
    if active = f.configValue then
      pure ()
    else
      selectConfiguration p a f
  | .error _ => selectConfiguration p a f

def claimInterface (what : Text) (number : UInt8) : Act Failure (Bus δ) Unit :=
  withContext ("claiming ".toList ++ what ++ " interface ".toList ++ Text.decimal number.toNat)
    (Bus.run (.claimInterface number) fun d => p.backend.claimInterface d a.id number)

def selectAltSetting : Act Failure (Bus δ) Unit := do
  if f.dataAltSetting ≠ 0 then
    withContext "selecting the data interface alt setting".toList
      (Bus.run (.setAltSetting f.dataInterface f.dataAltSetting) fun d =>
        p.backend.setAltSetting d a.id f.dataInterface f.dataAltSetting)
  else
    pure ()

def openTransport : Act Failure (Bus δ) (UsbControlTransport δ ι) := fun b =>
  match UsbControlTransport.new p a.id f.controlInterface f.interruptIn b with
  | (.ok t, b) => (.ok t, b)
  | (.error e, b) => (.error ⟨"opening the control transport".toList, display e⟩, b)

/-- The transport has the bus while the channel is brought up. -/
def bringUp (t : UsbControlTransport δ ι) :
    Act Failure (Bus δ) (Rndis.Session × Rndis (UsbControlTransport δ ι)) := fun b =>
  match Rndis.bringUp (UsbControlTransport.transport p) (Rndis.new { t with bus := b }) with
  | (.ok session, control) => (.ok (session, control), control.transport.bus)
  | (.error e, control) => (.error ⟨"RNDIS bring-up".toList, display e⟩, control.transport.bus)

def openBulkIn : Act Failure (Bus δ) ι :=
  withContext "opening the bulk IN endpoint".toList
    (Bus.run (.openIn f.dataInterface f.bulkIn .bulk) fun d =>
      p.backend.openIn d a.id f.dataInterface f.bulkIn .bulk)

def openBulkOut : Act Failure (Bus δ) ο :=
  withContext "opening the bulk OUT endpoint".toList
    (Bus.run (.openOut f.dataInterface f.bulkOut .bulk) fun d =>
      p.backend.openOut d a.id f.dataInterface f.bulkOut .bulk)

/-- Claim the interfaces and run the bring-up sequence. -/
def openDevice : Act Failure (Bus δ) (RndisDevice δ ι ο) := do
  withContext ("opening ".toList ++ a.info.label)
    (Bus.run (.openDevice a.id) fun d => p.backend.openDevice d a.id)
  configure p a f
  claimInterface p a "control".toList f.controlInterface
  claimInterface p a "data".toList f.dataInterface
  selectAltSetting p a f
  let transport ← openTransport p a f
  let (session, control) ← bringUp p transport
  let bulkIn ← openBulkIn p a f
  let bulkOut ← openBulkOut p a f
  let bus ← state
  return { session, control := { control with transport := { control.transport with bus } }, bulkIn, bulkOut }

end RndisDevice

inductive Stage where
  | openDevice
  | configure
  | claimControl
  | claimData
  | altSetting
  | interrupt
  | bringUp
  | bulkIn
  | bulkOut
deriving DecidableEq, Repr

namespace Stage

/-- The stages a function calls for. -/
def plan (f : RndisFunction) : List Stage :=
  [openDevice] ++ ([configure] ++ ([claimControl] ++ ([claimData] ++
    ((if f.dataAltSetting ≠ 0 then [altSetting] else []) ++
      ((if f.interruptIn.isSome then [interrupt] else []) ++ ([bringUp] ++ ([bulkIn] ++ [bulkOut])))))))

def op (a : Attached) (f : RndisFunction) : Stage → Option Op
  | openDevice => some (.openDevice a.id)
  | claimControl => some (.claimInterface f.controlInterface)
  | claimData => some (.claimInterface f.dataInterface)
  | altSetting => some (.setAltSetting f.dataInterface f.dataAltSetting)
  | interrupt => f.interruptIn.map fun address => .openIn f.controlInterface address .interrupt
  | bulkIn => some (.openIn f.dataInterface f.bulkIn .bulk)
  | bulkOut => some (.openOut f.dataInterface f.bulkOut .bulk)
  | _ => none

/-- What a stage does to the device. The configuration is selected unless the device says
that it is active; of bring-up, that it keeps to the control interface. -/
inductive Does (a : Attached) (f : RndisFunction) : Stage → List Done → Bool → Prop where
  | call {stage : Stage} {o : Op} (r : Except UsbError Bytes) : stage.op a f = some o →
      Does a f stage [⟨o, r⟩] r.isOk
  | active : Does a f configure [⟨.activeConfiguration, .ok [f.configValue]⟩] true
  | select {active : Except UsbError Bytes} (r : Except UsbError Bytes) :
      active ≠ .ok [f.configValue] →
      Does a f configure [⟨.activeConfiguration, active⟩, ⟨.setConfiguration f.configValue, r⟩] r.isOk
  | bringUp {new : List Done} (ok : Bool) : (∀ d ∈ new, IsControl f.controlInterface d.op) →
      Does a f bringUp new ok

def context (a : Attached) (f : RndisFunction) : Stage → Text
  | openDevice => "opening ".toList ++ a.info.label
  | configure => "selecting the RNDIS configuration".toList
  | claimControl => "claiming control interface ".toList ++ Text.decimal f.controlInterface.toNat
  | claimData => "claiming data interface ".toList ++ Text.decimal f.dataInterface.toNat
  | altSetting => "selecting the data interface alt setting".toList
  | interrupt => "opening the control transport".toList
  | bringUp => "RNDIS bring-up".toList
  | bulkIn => "opening the bulk IN endpoint".toList
  | bulkOut => "opening the bulk OUT endpoint".toList

end Stage

variable {δ ι ο α : Type} (p : Platform δ ι ο) {a : Attached} {f : RndisFunction}

def Opens (a : Attached) (f : RndisFunction) (plan : List Stage) (p : Act Failure (Bus δ) α) : Prop :=
  Staged (fun b => b.log) (Stage.Does a f) (fun e stage => e.context = stage.context a f) plan p

open RndisDevice

theorem withContext_wp (context : Text) (op : Op) (g : δ → Except UsbError α × δ) (b : Bus δ) :
    wp (withContext context (Bus.run op g))
      (fun _ u => u.log = b.log ++ [⟨op, .ok []⟩])
      (fun e u => ∃ usb, u.log = b.log ++ [⟨op, .error usb⟩] ∧ e = ⟨context, usb.text.toList⟩) b := by
  simp only [withContext, Bus.run, Bus.call, wp_bind, wp_apply]
  generalize g b.dev = r
  obtain ⟨r, dev⟩ := r
  cases r with
  | ok a => exact rfl
  | error e => exact ⟨e, rfl, rfl⟩

theorem opens_call (stage : Stage) {op : Op} (hop : stage.op a f = some op)
    (g : δ → Except UsbError α × δ) :
    Opens a f [stage] (withContext (stage.context a f) (Bus.run op g)) := by
  apply Staged.single
  intro b
  refine wp_mono (withContext_wp _ op g b) ?_ ?_
  · intro x u hu
    exact ⟨_, hu, .call (.ok []) hop⟩
  · intro e u hu
    obtain ⟨usb, hlog, he⟩ := hu
    refine ⟨_, hlog, .call (.error usb) hop, ?_⟩
    rw [he]

theorem opens_configure : Opens a f [.configure] (configure p a f) := by
  apply Staged.single
  intro b
  simp only [configure, Bus.call, wp_bind, wp_apply]
  generalize p.backend.activeConfiguration b.dev a.id = r
  obtain ⟨r, dev⟩ := r
  -- Whatever the device says but the right value, the configuration is selected.
  have hselect : ∀ active : Except UsbError Bytes, active ≠ .ok [f.configValue] →
      wp (selectConfiguration p a f)
        (fun _ t => ∃ new, t.log = b.log ++ new ∧ Stage.Does a f .configure new true)
        (fun e t => ∃ new, t.log = b.log ++ new ∧ Stage.Does a f .configure new false ∧
          e.context = Stage.configure.context a f) ⟨dev, b.log ++ [⟨.activeConfiguration, active⟩]⟩ := by
    intro active hne
    refine wp_mono (withContext_wp _ _ _ _) ?_ ?_
    · intro _ u hu
      refine ⟨_, ?_, .select (.ok []) hne⟩
      rw [hu, List.append_assoc]
      rfl
    · intro e u hu
      obtain ⟨usb, hlog, he⟩ := hu
      refine ⟨_, ?_, .select (.error usb) hne, ?_⟩
      · rw [hlog, List.append_assoc]
        rfl
      · rw [he]
        rfl
  cases r with
  | error e =>
    apply hselect
    intro h
    cases h
  | ok active =>
    by_cases hactive : active = f.configValue
    · rw [hactive]
      simp only [if_pos]
      exact ⟨_, rfl, .active⟩
    · simp only [if_neg hactive]
      apply hselect
      intro h
      cases h
      exact hactive rfl

theorem opens_altSetting :
    Opens a f (if f.dataAltSetting ≠ 0 then [.altSetting] else []) (selectAltSetting p a f) := by
  unfold selectAltSetting
  split
  · exact opens_call .altSetting rfl _
  · exact Staged.pure ()

/-- The transport speaks to the interface `number` and keeps its reads queued. -/
structure Ready (number : UInt8) (t : UsbControlTransport δ ι) : Prop where
  interface : t.interface = number
  index : t.interfaceNumber = number.toUInt16
  notify : ∀ port, t.notify = some port → Listening port.log

theorem openTransport_wp (b : Bus δ) :
    wp (openTransport p a f)
      (fun t u => Ready f.controlInterface t ∧ u.log = b.log ++
        (f.interruptIn.map fun address => ⟨.openIn f.controlInterface address .interrupt, .ok []⟩).toList)
      (fun e u => ∃ address usb, f.interruptIn = some address ∧
        e.context = "opening the control transport".toList ∧
        u.log = b.log ++ [⟨.openIn f.controlInterface address .interrupt, .error usb⟩]) b := by
  have hnew := new_spec p a.id f.controlInterface f.interruptIn b
  unfold wp at hnew ⊢
  rw [openTransport]
  generalize UsbControlTransport.new p a.id f.controlInterface f.interruptIn b = r at hnew
  obtain ⟨r, u⟩ := r
  cases r with
  | ok t =>
    obtain ⟨_, hcarried, hlog⟩ := hnew
    exact ⟨⟨hcarried.interface, hcarried.index, hcarried.notify⟩, hlog⟩
  | error e =>
    obtain ⟨address, usb, haddress, _, hlog⟩ := hnew
    exact ⟨address, usb, haddress, rfl, hlog⟩

theorem opens_transport :
    Opens a f (if f.interruptIn.isSome then [.interrupt] else []) (openTransport p a f) := by
  intro b
  refine wp_mono (openTransport_wp p b) ?_ ?_
  · intro t u h
    refine ⟨_, h.2, ?_⟩
    cases haddress : f.interruptIn with
    | none => exact .finished
    | some address =>
      apply CutOff.single
      apply Stage.Does.call (.ok [])
      rw [Stage.op, haddress]
      rfl
  · intro e u h
    obtain ⟨address, usb, haddress, hcontext, hlog⟩ := h
    refine ⟨_, .interrupt, hlog, ?_, hcontext⟩
    rw [haddress]
    apply CutOff.failed
    apply Stage.Does.call (.error usb)
    rw [Stage.op, haddress]
    rfl

theorem Ready.carried {number : UInt8} {t : UsbControlTransport δ ι} (h : Ready number t) (b : Bus δ) :
    Carried number b.log (Rndis.new { t with bus := b }) where
  interface := h.interface
  index := h.index
  log := by
    refine ⟨[], (List.append_nil _).symm, ?_, rfl⟩
    intro d hd
    cases hd
  notify := h.notify

/-- Bring-up over a transport that is ready: the bus carries its traffic, and what it
returns can be relied on. -/
theorem bringUp_wp {t : UsbControlTransport δ ι} (h : Ready f.controlInterface t) (b : Bus δ) :
    wp (bringUp p t)
      (fun r u => r.2.transport.bus = u ∧ Carried f.controlInterface b.log r.2 ∧
        Rndis.BroughtUp r.2 r.2.log r.1)
      (fun e u => e.context = "RNDIS bring-up".toList ∧ ∃ s : Rndis (UsbControlTransport δ ι),
        s.transport.bus = u ∧ Carried f.controlInterface b.log s) b := by
  have hkept := (carried_kept p f.controlInterface b.log).bringUp _ (h.carried b)
  have hspec := Rndis.bringUp_spec (UsbControlTransport.transport p)
    (Rndis.Reachable.linked (UsbControlTransport.transport p) (.new { t with bus := b }))
  unfold wp at hspec ⊢
  rw [bringUp]
  generalize Rndis.bringUp (UsbControlTransport.transport p) (Rndis.new { t with bus := b }) = r
    at hkept hspec
  obtain ⟨r, s⟩ := r
  cases r with
  | ok session =>
    obtain ⟨new, hlog, _, hup, _⟩ := hspec
    refine ⟨rfl, hkept, ?_⟩
    have hnew : s.log = new := hlog
    rw [hnew]
    exact hup
  | error e => exact ⟨rfl, s, rfl, hkept⟩

theorem opens_bringUp {t : UsbControlTransport δ ι} (h : Ready f.controlInterface t) :
    Opens a f [.bringUp] (bringUp p t) := by
  apply Staged.single
  intro b
  refine wp_mono (bringUp_wp p h b) ?_ ?_
  · intro r u hu
    obtain ⟨hbus, hcarried, _⟩ := hu
    obtain ⟨new, hlog, hcontrol, _⟩ := hcarried.log
    rw [hbus] at hlog
    exact ⟨new, hlog, .bringUp true hcontrol⟩
  · intro e u hu
    obtain ⟨hcontext, s, hbus, hcarried⟩ := hu
    obtain ⟨new, hlog, hcontrol, _⟩ := hcarried.log
    rw [hbus] at hlog
    exact ⟨new, hlog, .bringUp false hcontrol, hcontext⟩

theorem opens_bulkIn : Opens a f [.bulkIn] (openBulkIn p a f) := opens_call .bulkIn rfl _

theorem opens_bulkOut : Opens a f [.bulkOut] (openBulkOut p a f) := opens_call .bulkOut rfl _

theorem opens_device : Opens a f (Stage.plan f) (openDevice p a f) := by
  refine (opens_call .openDevice rfl _).bind fun _ => ?_
  refine (opens_configure p).bind fun _ => ?_
  refine (opens_call .claimControl rfl _).bind fun _ => ?_
  refine (opens_call .claimData rfl _).bind fun _ => ?_
  refine (opens_altSetting p).bind fun _ => ?_
  refine (opens_transport p).bind_of (P := Ready f.controlInterface) ?_ ?_
  · intro b
    refine wp_mono (openTransport_wp p b) (fun t u h => h.1) (fun _ _ _ => trivial)
  intro t ht
  refine (opens_bringUp p ht).bind fun r => ?_
  refine (opens_bulkIn p).bind fun _ => ?_
  change Opens a f ([.bulkOut] ++ []) _
  refine (opens_bulkOut p).bind fun _ => ?_
  intro b
  exact ⟨[], (List.append_nil _).symm, .finished⟩

/-- The requests of the control channel that the bus has carried. -/
def carriedBy (log : List Done) : List Rndis.Traffic := log.filterMap traffic

theorem carriedBy_append (l m : List Done) : carriedBy (l ++ m) = carriedBy l ++ carriedBy m :=
  List.filterMap_append

theorem Stage.Does.quiet {stage : Stage} {new : List Done} {ok : Bool} (h : stage.Does a f new ok)
    (hstage : stage ≠ .bringUp) : carriedBy new = [] := by
  cases h with
  | @call _ o r hop =>
    cases stage with
    | configure => cases hop
    | bringUp => exact absurd rfl hstage
    | interrupt =>
      obtain ⟨address, _, ho⟩ := Option.map_eq_some_iff.mp hop
      rw [← ho]
      rfl
    | _ =>
      cases hop
      rfl
  | active => rfl
  | select r hne => rfl
  | bringUp ok hcontrol => exact absurd rfl hstage

theorem quiet_of_cutOff {plan : List Stage} {new : List Done} {failed : Option Stage}
    (h : CutOff (Stage.Does a f) plan new failed) (hplan : .bringUp ∉ plan) : carriedBy new = [] := by
  induction h with
  | finished => rfl
  | passed hdoes _ ih =>
    rw [List.mem_cons, not_or] at hplan
    rw [carriedBy_append, hdoes.quiet (Ne.symm hplan.1), ih hplan.2]
    rfl
  | failed hdoes =>
    rw [List.mem_cons, not_or] at hplan
    exact hdoes.quiet (Ne.symm hplan.1)

theorem Opens.quiet {plan : List Stage} {q : Act Failure (Bus δ) α} {Q : α → Bus δ → Prop} {b : Bus δ}
    {carried : List Rndis.Traffic} (h : Opens a f plan q) (hplan : .bringUp ∉ plan)
    (hb : carriedBy b.log = carried) (hQ : ∀ x u, carriedBy u.log = carried → Q x u) :
    wp q Q (fun _ _ => True) b := by
  refine wp_mono (h b) ?_ (fun _ _ _ => trivial)
  intro x u hu
  obtain ⟨new, hlog, hcut⟩ := hu
  have hnew : u.log = b.log ++ new := hlog
  apply hQ
  rw [hnew, carriedBy_append, quiet_of_cutOff hcut hplan, List.append_nil, hb]

/-- What a caller gets of a phone that was opened. -/
structure Established (b u : Bus δ) (dev : RndisDevice δ ι ο) : Prop where
  bus : dev.control.transport.bus = u
  traffic : carriedBy u.log = carriedBy b.log ++ Rndis.wired dev.control.log
  session : Rndis.BroughtUp dev.control dev.control.log dev.session
  notify : ∀ port, dev.control.transport.notify = some port → Listening port.log

theorem openDevice_established (b : Bus δ) :
    wp (openDevice p a f) (fun dev u => Established b u dev) (fun _ _ => True) b := by
  simp only [openDevice, wp_bind]
  refine (opens_call (f := f) .openDevice rfl _).quiet (by decide) rfl fun _ u₁ h₁ => ?_
  refine (opens_configure p).quiet (by decide) h₁ fun _ u₂ h₂ => ?_
  refine (opens_call (a := a) .claimControl rfl _).quiet (by decide) h₂ fun _ u₃ h₃ => ?_
  refine (opens_call (a := a) .claimData rfl _).quiet (by decide) h₃ fun _ u₄ h₄ => ?_
  refine (opens_altSetting p).quiet (by split <;> decide) h₄ fun _ u₅ h₅ => ?_
  have htransport := wp_and (openTransport_wp p (a := a) (f := f) u₅)
    ((opens_transport p).quiet (by split <;> decide) h₅ fun _ _ hu => hu)
  refine wp_mono htransport ?_ (fun _ _ _ => trivial)
  intro t u₆ h
  obtain ⟨⟨hready, _⟩, h₆⟩ := h
  refine wp_mono (bringUp_wp p hready u₆) ?_ (fun _ _ _ => trivial)
  intro r u₇ h
  obtain ⟨hbus, hcarried, hup⟩ := h
  obtain ⟨new, hlog, _, htraffic⟩ := hcarried.log
  have h₇ : carriedBy u₇.log = carriedBy b.log ++ Rndis.wired r.2.log := by
    rw [hbus] at hlog
    rw [hlog, carriedBy_append, h₆, ← htraffic]
    rfl
  refine (opens_bulkIn p).quiet (by decide) h₇ fun bulkIn u₈ h₈ => ?_
  refine (opens_bulkOut p).quiet (by decide) h₈ fun bulkOut u₉ h₉ => ?_
  refine ⟨rfl, ?_, ⟨hup.sequence, hup.transferSize, hup.packets, hup.alignment, hup.link, hup.upOrDown⟩, ?_⟩
  · exact h₉
  · exact hcarried.notify

/-- Opening a phone. However the bus behaves, what is done to the device is the plan cut
off at the first stage that fails, and the error names that stage; a phone that is opened
has had the whole plan, and hands over a channel whose traffic is what the bus carried. -/
theorem openDevice_cut_off (a : Attached) (f : RndisFunction) (b : Bus δ) :
    ∃ new failed, (openDevice p a f b).2.log = b.log ++ new ∧
      CutOff (Stage.Does a f) (Stage.plan f) new failed ∧
      (∀ e, (openDevice p a f b).1 = .error e →
        ∃ stage, failed = some stage ∧ e.context = stage.context a f) ∧
      (∀ dev, (openDevice p a f b).1 = .ok dev →
        failed = none ∧ Established b (openDevice p a f b).2 dev) := by
  have hopens := opens_device p (a := a) (f := f) b
  have hestablished := openDevice_established p (a := a) (f := f) b
  unfold wp at hopens hestablished
  generalize openDevice p a f b = r at hopens hestablished
  obtain ⟨r, u⟩ := r
  cases r with
  | ok dev =>
    obtain ⟨new, hlog, hcut⟩ := hopens
    refine ⟨new, none, hlog, hcut, ?_, ?_⟩
    · intro e he
      cases he
    · intro dev' hdev
      cases hdev
      exact ⟨rfl, hestablished⟩
  | error e =>
    obtain ⟨new, stage, hlog, hcut, hcontext⟩ := hopens
    refine ⟨new, some stage, hlog, hcut, ?_, ?_⟩
    · intro e' he
      cases he
      exact ⟨stage, rfl, hcontext⟩
    · intro dev hdev
      cases hdev

end Muta.Device
