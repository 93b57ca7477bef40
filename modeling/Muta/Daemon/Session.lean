import Muta.Base.Machine
import Muta.Daemon.Status
import Muta.Daemon.Tunnel
import Muta.Link.Rx

/-!
# The resident daemon

The daemon looks for a phone, holds one session at a time, and scans again when the session
has ended. A session polls the link for events and the phone for signs of life; each turn
of its loop is one `Tick`, which says what the outside world does during it. That a tunnel
is up is recorded in three places, the tunnel itself, the sink and the published status;
what is done to sink, tunnel and link is logged in the order in which it is done.
-/

namespace Muta.Daemon

open Act Netstack Tun Link
set_option autoImplicit false

def keepaliveInterval : Duration := ofSecs 10

/-- What a session does besides publishing its status. Devices are named by their handles. -/
inductive Action where
  | up (device : Nat)
  | drop (device : Nat)
  | attach (device : Nat)
  | detach
  | halt
  | stopThreads
deriving DecidableEq, Repr

/-- What outlives a session; there is no status if its socket could not be opened. -/
structure System where
  host : Host
  status : Option Status
  log : List Action

structure Session where
  system : System
  sink : Option Utun
  tunnel : Option Tunnel
  nextKeepalive : Instant

/-- How the loop is left. -/
inductive Ending where
  | requested
  | tunnel (e : Tun.Error)
  | link (cause : Failure)
  | keepalive (e : Wire.Error)
deriving DecidableEq, Repr

abbrev SessionM (α : Type) := Act Ending Session α

/-- One turn of the loop, as the outside world decides it. -/
structure Tick where
  requested : Bool
  event : Option LinkEvent
  outcomes : Outcomes
  now : Instant
  later : Instant
  keepalive : Except Wire.Error Unit
  delivered : UInt64
  sent : UInt64

namespace System

def record (y : System) (a : Action) : System := { y with log := y.log ++ [a] }

def publish (y : System) (f : Status → Status) : System := { y with status := y.status.map f }

end System

namespace Session

def onSystem (f : System → System) : SessionM Unit :=
  update fun s => { s with system := f s.system }

def attach (utun : Utun) : SessionM Unit := do
  update fun s => { s with sink := some utun }
  onSystem fun y => y.record (.attach utun.handle)

def detach : SessionM Unit := do
  update fun s => { s with sink := none }
  onSystem fun y => y.record .detach

/-- `tunnel = None`. -/
def dropTunnel : SessionM Unit := do
  match (← state).tunnel with
  | some t =>
    onSystem fun y => { y with host := t.drop y.host }.record (.drop t.utun.handle)
    update fun s => { s with tunnel := none }
  | none => pure ()

def tunnelUp (o : Outcomes) (lease : Lease) : SessionM Tunnel := fun s =>
  match Tunnel.up o lease s.system.host with
  | (.ok t, h) =>
    (.ok t, { s with system := { s.system with host := h }.record (.up t.utun.handle) })
  | (.error e, h) => (.error (.tunnel e), { s with system := { s.system with host := h } })

def announce (t : Tunnel) (st : Status) : Status :=
  { st with
    linkUp := true
    interface := some t.utun.name
    address := some t.lease.ip
    gateway := t.lease.router
    dns := t.lease.dns }

def rebuild (o : Outcomes) (lease : Lease) : SessionM Unit := do
  detach
  dropTunnel
  let t ← tunnelUp o lease
  attach t.utun
  onSystem fun y => y.publish (announce t)
  update fun s => { s with tunnel := some t }

def handleEvent (o : Outcomes) : Option LinkEvent → SessionM Unit
  | some (.bound lease) => do
    if (← state).tunnel.any fun t => t.lease.ip = lease.ip then
      pure ()
    else
      rebuild o lease
  | some (.failed cause) => stop (.link cause)
  | none => pure ()

def keepalive (tick : Tick) : SessionM Unit := do
  if (← state).nextKeepalive ≤ tick.now then
    update fun s => { s with nextKeepalive := tick.later + keepaliveInterval }
    match tick.keepalive with
    | .error e => stop (.keepalive e)
    | .ok () =>
      onSystem fun y => y.publish fun st =>
        { st with packetsIn := tick.delivered, packetsOut := tick.sent }

def body (tick : Tick) : SessionM Unit := do
  if tick.requested then stop .requested
  handleEvent tick.outcomes tick.event
  keepalive tick

/-- The code behind the loop. -/
def finish : SessionM Unit := do
  detach
  dropTunnel
  onSystem fun y => y.record .halt
  onSystem fun y => y.record .stopThreads

def start (y : System) (now : Instant) : Session where
  system := y
  sink := none
  tunnel := none
  nextKeepalive := now + keepaliveInterval

end Session

/-- What a scan turns up: for a phone, when its session starts, if it can be opened. -/
inductive Scan where
  | found (info : Usb.DeviceInfo) (opened : Option Instant)
  | idle
  | failed

inductive Input where
  | poll (requested : Bool) (scan : Scan)
  | tick (t : Tick)

/-- Where `run` is. A thread that cannot be spawned is a panic, which unwinds the session. -/
inductive Phase where
  | scanning (y : System)
  | tethering (s : Session)
  | returned (y : System)
  | panicked (y : System)

def reset (y : System) : System := y.publish fun _ => {}

def afterSession (e : Ending) (s : Session) : Phase :=
  match e with
  | .tunnel (.failed .spawnReader) => .panicked (Session.dropTunnel s).2.system
  | _ => .scanning (reset (Session.finish s).2.system)

def afterScan (y : System) : Scan → Phase
  | .found info opened =>
    let y := y.publish fun st => { st with device := some info.label }
    match opened with
    | some now => .tethering (Session.start y now)
    | none => .scanning (reset y)
  | .idle => .scanning y
  | .failed => .scanning y

def step : Phase → Input → Phase
  | .scanning y, .poll requested scan => if requested then .returned y else afterScan y scan
  | .tethering s, .tick t =>
    match Session.body t s with
    | (.ok (), s) => .tethering s
    | (.error e, s) => afterSession e s
  | p, _ => p

def run (h : Host) (served : Bool) : Machine Phase Input where
  start := .scanning ⟨h, if served then some {} else none, []⟩
  step := step

end Muta.Daemon
