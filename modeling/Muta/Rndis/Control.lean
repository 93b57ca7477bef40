import Muta.Rndis.Wire

/-!
# The RNDIS control channel

Bring-up and keepalives over a transport about which nothing is assumed. Each
command takes a request id, and `transact` waits for the completion carrying it,
servicing what the device sends on its own in between. The number of times the loop
finds its deadline still ahead is one more thing the transport decides.

What goes over the channel is kept in a log. A `completed` entry marks the reply
that `transact` returned for a command.
-/

namespace Muta.Rndis

open Act Wire
set_option autoImplicit false

def pollInterval : Duration := ofMillis 50
def hostMaxTransferSize : UInt32 := 16384

/-- The USB control endpoint, as the RNDIS layer needs it. -/
structure ControlTransport (τ : Type) where
  send : τ → Bytes → Except Wire.Error Unit × τ
  receive : τ → Except Wire.Error Bytes × τ
  awaitResponse : τ → Duration → Except Wire.Error Unit × τ
  /-- How often a transaction begun now polls before its deadline. -/
  polls : τ → Nat

inductive LinkState where
  | unknown
  | up
  | down
deriving DecidableEq, Repr

abbrev Mac := { octets : Bytes // octets.length = 6 }

structure Session where
  hostMac : Mac
  deviceMaxTransferSize : UInt32
  maxPacketsPerTransfer : UInt32
  packetAlignment : UInt32
deriving DecidableEq, Repr

inductive Traffic where
  /-- A message handed to the transport, whether or not it was taken. -/
  | sent (msg : Bytes)
  | received (msg : Bytes)
  | completed (msg reply : Bytes)
deriving DecidableEq, Repr

end Rndis

/-- The control channel. Zero is never a request id. -/
structure Rndis (τ : Type) where
  transport : τ
  nextRequestId : UInt32
  link : Rndis.LinkState
  log : List Rndis.Traffic
  nonzero : nextRequestId ≠ 0

abbrev RndisM (τ α : Type) := Act Wire.Error (Rndis τ) α

namespace Rndis

open Act Wire

variable {τ : Type}

def new (transport : τ) : Rndis τ :=
  { transport, nextRequestId := 1, link := .unknown, log := [], nonzero := by decide }

def linkState (s : Rndis τ) : LinkState := s.link

def record (e : Traffic) : RndisM τ Unit := update fun s => { s with log := s.log ++ [e] }

def onTransport {α : Type} (call : τ → Except Wire.Error α × τ) : RndisM τ α := fun s =>
  ((call s.transport).1, { s with transport := (call s.transport).2 })

/-- The counter after `id`, which passes over zero when it wraps. -/
def nextId (id : UInt32) : UInt32 := max (id + 1) 1

theorem toNat_nextId (id : UInt32) : (nextId id).toNat = max ((id.toNat + 1) % 2 ^ 32) 1 := by
  rw [nextId, UInt32.toNat_max, UInt32.toNat_add]
  rfl

theorem nextId_ne_zero (id : UInt32) : nextId id ≠ 0 := by
  intro h
  have hnat := toNat_nextId id
  rw [h, UInt32.toNat_zero] at hnat
  omega

def takeRequestId : RndisM τ UInt32 := apply fun s =>
  (s.nextRequestId,
    { s with nextRequestId := nextId s.nextRequestId, nonzero := nextId_ne_zero s.nextRequestId })

variable (c : ControlTransport τ)

def send (msg : Bytes) : RndisM τ Unit := do
  record (.sent msg)
  onTransport fun t => c.send t msg

def receive : RndisM τ Bytes := do
  let msg ← onTransport c.receive
  record (.received msg)
  return msg

/-- Link-state changes and the device's own pings, which must be answered. -/
def handleUnsolicited (msgType : UInt32) (reply : Bytes) : RndisM τ Unit := do
  if msgType = msgIndicate then
    let status ← ofExcept (decodeIndicateStatus reply)
    update fun s =>
      { s with
        link :=
          if status = statusMediaConnect then .up
          else if status = statusMediaDisconnect then .down
          else s.link }
  else if msgType = msgKeepalive then
    let id ← ofExcept (u32At reply 8)
    send c (encodeKeepaliveComplete id)
  else
    return

/-- One turn of the loop in `transact`; a right result is the completion. -/
def poll (expect requestId : UInt32) : RndisM τ (Unit ⊕ Bytes) := do
  onTransport fun t => c.awaitResponse t pollInterval
  let reply ← receive c
  if reply.length < 12 then
    return .inl ()
  else
    let msgType ← ofExcept (u32At reply 0)
    if msgType = expect then
      let (id, _) ← ofExcept (decodeCompletion reply)
      if id = requestId then
        return .inr reply
      else
        return .inl ()
    else
      handleUnsolicited c msgType reply
      return .inl ()

def transact (msg : Bytes) (expect requestId : UInt32) : RndisM τ Bytes := do
  send c msg
  let polls := c.polls (← state).transport
  let reply ← iter .noResponse (fun _ => poll c expect requestId) polls ()
  record (.completed msg reply)
  return reply

/-- Take a request id and transact the command built with it. -/
def exchange (encode : UInt32 → Bytes) (expect : UInt32) : RndisM τ Bytes := do
  let id ← takeRequestId
  transact c (encode id) expect id

def initialise : RndisM τ InitComplete := do
  let reply ← exchange c (fun id => encodeInit id hostMaxTransferSize) msgInitC
  let init ← ofExcept (decodeInitComplete reply)
  if init.status ≠ statusSuccess then
    stop (.status init.status)
  else if init.maxTransferSize = 0 then
    stop (.malformed "device advertised a zero transfer size")
  else
    return init

def query (oid : UInt32) : RndisM τ Bytes := do
  let reply ← exchange c (fun id => encodeQuery id oid) msgQueryC
  let (_, status, info) ← ofExcept (decodeQueryComplete reply)
  if status ≠ statusSuccess then
    stop (.status status)
  else
    return info

/-- The end of `set` and of `keepalive`. -/
def succeeded (reply : Bytes) : RndisM τ Unit := do
  let (_, status) ← ofExcept (decodeCompletion reply)
  if status ≠ statusSuccess then
    stop (.status status)
  else
    return

def set (oid : UInt32) (data : Bytes) : RndisM τ Unit := do
  succeeded (← exchange c (fun id => encodeSet id oid data) msgSetC)

def keepalive : RndisM τ Unit := do
  succeeded (← exchange c encodeKeepalive msgKeepaliveC)

/-- Best-effort shutdown; the device has no completion for HALT. -/
def halt : RndisM τ Unit := do
  let id ← takeRequestId
  send c (encodeHalt id)

/-- The address in an information buffer, if it is long enough and not all zero. -/
def macFrom (info : Bytes) : Option Mac :=
  if h : 6 ≤ info.length then
    if info.take 6 ≠ List.replicate 6 0 then
      some ⟨info.take 6, by rw [List.length_take, Nat.min_eq_left h]⟩
    else
      none
  else
    none

/-- One of the two queries for the address; its errors are only logged. -/
def tryMac (oid : UInt32) : RndisM τ (Option Mac) := do
  match ← attempt (query c oid) with
  | .ok info => return macFrom info
  | .error _ => return none

/-- Prefer the permanent address; fall back to the current one. -/
def queryMac : RndisM τ Mac := do
  match ← tryMac c oid8023PermanentAddress with
  | some mac => return mac
  | none =>
    match ← tryMac c oid8023CurrentAddress with
    | some mac => return mac
    | none => stop (.malformed "device did not report a usable MAC")

def bringUp : RndisM τ Session := do
  let init ← initialise c
  let hostMac ← queryMac c
  set c oidGenCurrentPacketFilter (u32leBytes defaultPacketFilter)
  update fun s => { s with link := if s.link = .unknown then .up else s.link }
  return {
    hostMac, deviceMaxTransferSize := init.maxTransferSize
    maxPacketsPerTransfer := max init.maxPacketsPerTransfer 1
    packetAlignment := max init.packetAlignment 1 }

/-- The commands that have a completion. -/
inductive Request where
  | initialise
  | query (oid : UInt32)
  | set (oid : UInt32) (data : Bytes)
  | keepalive

namespace Request

def encode (id : UInt32) : Request → Bytes
  | .initialise => encodeInit id hostMaxTransferSize
  | .query oid => encodeQuery id oid
  | .set oid data => encodeSet id oid data
  | .keepalive => encodeKeepalive id

def expect : Request → UInt32
  | .initialise => msgInitC
  | .query _ => msgQueryC
  | .set _ _ => msgSetC
  | .keepalive => msgKeepaliveC

def issue : Request → RndisM τ Unit
  | .initialise => do let _ ← attempt (Rndis.initialise c)
  | .query oid => do let _ ← attempt (Rndis.query c oid)
  | .set oid data => do let _ ← attempt (Rndis.set c oid data)
  | .keepalive => do let _ ← attempt (Rndis.keepalive c)

end Request

inductive Command where
  | request (r : Request)
  | halt

def Command.encode (id : UInt32) : Command → Bytes
  | .request r => r.encode id
  | .halt => encodeHalt id

def Command.issue : Command → RndisM τ Unit
  | .request r => r.issue c
  | .halt => do let _ ← attempt (Rndis.halt c)

def issueAll : List Command → RndisM τ Unit
  | [] => return
  | cmd :: cmds => do
    cmd.issue c
    issueAll cmds

end Rndis

end Muta
