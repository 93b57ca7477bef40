import Muta.Link.Queue
import Muta.Netstack.Arp
import Muta.Netstack.Dhcp
import Muta.Netstack.Ipv4
import Muta.Rndis.Packet

/-!
# The RX thread

A received transfer is taken apart and dispatched to the ARP table, the DHCP client
or the sink; a timer drives the client while nothing arrives. All the thread does to
the outside is an `Effect` in its log. The clock is any function of the number of
times it has been read.
-/

namespace Muta.Link

open Usb Act Netstack Dhcp
set_option autoImplicit false

def maxConsecutiveStalls : Nat := 5
def dhcpRetryMin : Duration := ofSecs 1
def dhcpRetryMax : Duration := ofSecs 16

/-- Why the thread gives the link up. -/
inductive Failure where
  | fatal (e : UsbError)
  | stalled (times : Nat)
  | recovery (e : UsbError)
deriving DecidableEq, Repr

def Failure.text : Failure → String
  | .fatal e => e.text
  | .stalled times => "bulk IN endpoint stalled " ++ toString times ++ " times in a row"
  | .recovery e => e.text

inductive LinkEvent where
  | bound (lease : Lease)
  | failed (cause : Failure)
deriving DecidableEq, Repr

inductive Effect where
  /-- A packet handed to the sink. -/
  | deliver (packet : Bytes)
  /-- A message handed to the DHCP client, with what came of it. -/
  | handled (msg : Bytes) (result : Except Netstack.Error Event)
  /-- A frame queued for the TX thread. -/
  | queue (frame : Bytes)
  | event (e : LinkEvent)

structure DhcpTimer where
  next : Instant
  backoff : Duration
  renewAt : Option Instant
deriving DecidableEq, Repr

structure Rx where
  dhcp : DhcpClient
  timer : DhcpTimer
  arp : Arp
  reads : Nat
  log : List Effect

abbrev RxM (α : Type) := Act Fault Rx α

namespace Rx

def emit (e : Effect) : RxM Unit := update fun s => { s with log := s.log ++ [e] }

def onDhcp {α : Type} (p : Act Fault DhcpClient α) : RxM α :=
  zoom dhcp (fun d s => { s with dhcp := d }) p

def onArp {α : Type} (p : Act Fault Arp α) : RxM α := zoom arp (fun a s => { s with arp := a }) p

variable (hostMac : MacAddr) (clock : Nat → Instant)

def now : RxM Instant := apply fun s => (clock s.reads, { s with reads := s.reads + 1 })

/-- The clock is read only where its time is `needed`. -/
def nowIf (needed : Bool) : RxM Instant := if needed then now clock else pure 0

def bound (lease : Lease) : RxM Unit := do
  let renewAt := (← now clock) + lease.renewalTime
  update fun s =>
    { s with timer := { s.timer with backoff := dhcpRetryMin, renewAt := some renewAt } }
  let next ← unwrap (← state).timer.renewAt
  update fun s => { s with timer := { s.timer with next := next } }

def restart : RxM Unit := do
  let next ← now clock
  update fun s => { s with timer := { backoff := dhcpRetryMin, next := next, renewAt := none } }

def due : RxM (Option Bytes) := do
  let present ← now clock
  if present < (← state).timer.next then
    return none
  else if (← state).timer.renewAt.isSome then
    let next := (← now clock) + dhcpRetryMin
    update fun s => { s with timer := { renewAt := none, next := next, backoff := dhcpRetryMin } }
    onDhcp DhcpClient.renew
  else
    let backoff := min ((← state).timer.backoff * 2) dhcpRetryMax
    let next := (← now clock) + backoff
    update fun s => { s with timer := { s.timer with backoff := backoff, next := next } }
    match ← onDhcp DhcpClient.retransmit with
    | some msg => return some msg
    | none => return some (← onDhcp DhcpClient.discover)

def datagram (msg : Bytes) : UdpDatagram :=
  { srcIp := .unspecified, dstIp := .broadcast, srcPort := clientPort, dstPort := serverPort,
    payload := msg }

/-- Wrap a DHCP message in UDP, IP and Ethernet and queue it. -/
def sendDhcp (msg : Bytes) : RxM Unit := do
  let ip ← sure (Ipv4.buildUdp (datagram msg) 0)
  let frame ← sure (Ethernet.build .broadcast hostMac Ethernet.ethertypeIpv4 ip)
  emit (.queue frame)

def handleDhcp (srcMac : MacAddr) (d : UdpDatagram) : RxM Unit := do
  let result ← onDhcp (rescue (DhcpClient.handle d.payload))
  emit (.handled d.payload result)
  match result with
  | .ok (.send msg) => sendDhcp hostMac msg
  | .ok (.bound lease) =>
    bound clock lease
    update fun s => { s with arp := s.arp.setHostIp lease.ip }
    let learned ← now clock
    update fun s => { s with arp := s.arp.insert d.srcIp srcMac learned }
    emit (.event (.bound lease))
  | .ok .nak => restart clock
  | .ok .ignored => return
  | .error _ => return

def handleIpv4 (srcMac : MacAddr) (payload : Bytes) : RxM Unit := do
  match ← rescue (checked (Ipv4.parseUdp payload)) with
  | .ok d =>
    if d.dstPort = clientPort ∧ d.srcPort = serverPort then
      handleDhcp hostMac clock srcMac d
    else
      emit (.deliver payload)
  | .error _ => emit (.deliver payload)

def handleArp (payload : Bytes) : RxM Unit := do
  -- Only an entry of the table is stamped with the time.
  let learned ← nowIf clock (Arp.inserts payload)
  match ← onArp (rescue (Arp.handle payload learned)) with
  | .ok (some reply) => emit (.queue reply)
  | .ok none => return
  | .error _ => return

def handleFrame (bytes : Bytes) : RxM Unit := do
  match ← rescue (checked (Ethernet.parse bytes)) with
  | .error _ => return
  | .ok frame =>
    if frame.dst ≠ hostMac ∧ !frame.dst.isMulticast then
      return
    else if frame.ethertype = Ethernet.ethertypeArp then
      handleArp clock frame.payload
    else if frame.ethertype = Ethernet.ethertypeIpv4 then
      handleIpv4 hostMac clock frame.src frame.payload
    else
      return

/-- The loop over a transfer's items; every item but the last takes a byte or more. -/
def handleItems : Nat → Bytes → RxM Unit
  | 0, _ => return
  | n + 1, buf => do
    match ← sure (Packet.next buf) with
    | none => return
    | some (.error _, _) => return
    | some (.ok frame, rest) =>
      handleFrame hostMac clock frame
      handleItems n rest

def handleTransfer (data : Bytes) : RxM Unit := handleItems hostMac clock (data.length + 1) data

/-- The thread's state before it has done anything; `start` sets the timer. -/
def initial : Rx :=
  { dhcp := .new hostMac (u32be hostMac.m2 hostMac.m3 hostMac.m4 hostMac.m5)
    timer := { next := 0, backoff := dhcpRetryMin, renewAt := none }
    arp := .new hostMac .unspecified, reads := 0, log := [] }

def start : RxM Unit := do
  let next := (← now clock) + dhcpRetryMin
  update fun s => { s with timer := { next := next, backoff := dhcpRetryMin, renewAt := none } }
  let msg ← onDhcp DhcpClient.discover
  sendDhcp hostMac msg

/-- What the main loop does after every wait. -/
def poll : RxM Unit := do
  match ← due clock with
  | some msg => sendDhcp hostMac msg
  | none => return

end Rx

end Muta.Link
