import Muta.Link.Queue
import Muta.Rndis.Packet

/-!
# The TX thread

`txLoop` packs the frames of the channel into bulk transfers. Everything outside
the thread is arbitrary: the endpoint, which frames are already queued when the
thread looks, whether all senders are gone, and when shutdown is requested. The
main loop is granted a number of turns and every loop inside it a number of steps;
a run granted few of them is an initial part of a run granted more.
-/

namespace Muta.Link

open Usb Act Wire
set_option autoImplicit false

/-- What the device said it can accept in one bulk transfer. -/
structure TxLimits where
  maxTransferSize : Nat
  maxPackets : Nat
  alignment : Nat
deriving DecidableEq, Repr

/-- The other threads, as seen from this one. -/
structure Schedule (κ : Type) where
  queued : κ → Bool × κ
  hungUp : κ → Bool × κ
  shutdown : κ → Bool × κ

def allQueued : Schedule Unit where
  queued _ := (true, ())
  hungUp _ := (false, ())
  shutdown _ := (false, ())

structure Tx (ε κ : Type) where
  bulkOut : Port ε Bytes Unit
  batch : Bytes
  packets : Nat
  sent : UInt64
  transfers : UInt64
  bytes : UInt64
  -- The flag is only ever set, so once a load has seen it, every later one does.
  shutdown : Bool
  -- The channel: frames sent, or yet to be sent, that were not received so far.
  frames : List Bytes
  sched : κ

abbrev TxM (ε κ α : Type) := Act Unfinished (Tx ε κ) α

inductive Received where
  | frame (f : Bytes)
  | timeout
  | disconnected
deriving DecidableEq, Repr

namespace Tx

variable {ε κ : Type}

def start (dev : ε) (sched : κ) (frames : List Bytes) : Tx ε κ :=
  { bulkOut := { dev := dev, log := [] }, batch := [], packets := 0, sent := 0, transfers := 0,
    bytes := 0, shutdown := false, frames := frames, sched := sched }

def submitted (s : Tx ε κ) : List Bytes := submissions s.bulkOut.log

def onPort {α : Type} (p : Act Unfinished (Port ε Bytes Unit) α) : TxM ε κ α :=
  zoom bulkOut (fun q s => { s with bulkOut := q }) p

def fits (limits : TxLimits) (s : Tx ε κ) (frame : Bytes) : Bool :=
  s.packets < limits.maxPackets &&
    s.batch.length + dataHeaderLen + frame.length ≤ limits.maxTransferSize

def push (limits : TxLimits) (frame : Bytes) : TxM ε κ Unit := update fun s =>
  { s with batch := Packet.append s.batch frame limits.alignment, packets := s.packets + 1 }

variable (ep : OutEndpoint ε) (world : Schedule κ) (limits : TxLimits) (maxPacket : Nat)

def loadShutdown : TxM ε κ Bool := apply fun s =>
  let r := world.shutdown s.sched
  (s.shutdown || r.1, { s with shutdown := s.shutdown || r.1, sched := r.2 })

/-- `recv_timeout`: a channel whose senders are gone is drained before it says so. -/
def recvTimeout : TxM ε κ Received := apply fun s =>
  match s.frames with
  | f :: rest =>
    let r := world.queued s.sched
    if r.1 then (.frame f, { s with frames := rest, sched := r.2 })
    else (.timeout, { s with sched := r.2 })
  | [] =>
    let r := world.hungUp s.sched
    (if r.1 then .disconnected else .timeout, { s with sched := r.2 })

def tryRecv : TxM ε κ (Option Bytes) := apply fun s =>
  match s.frames with
  | f :: rest =>
    let r := world.queued s.sched
    if r.1 then (some f, { s with frames := rest, sched := r.2 })
    else (none, { s with sched := r.2 })
  | [] => (none, s)

/-- The back-pressure loop of `flush`: whether it gave up because of shutdown. -/
def awaitRoom (steps : Nat) : TxM ε κ Bool :=
  loop .full (do
    if ep.pending (← state).bulkOut.dev < txDepth then
      return some false
    match ← onPort (Port.wait ep.toEndpoint .backPressure tick) with
    | some _ => return none
    | none => if ← loadShutdown world then return some true else return none) steps

/-- One byte past the last message avoids a transfer of whole packets. -/
def terminate (s : Tx ε κ) : Tx ε κ :=
  if s.batch.length % maxPacket = 0 then { s with batch := s.batch ++ [0] } else s

def counted (s : Tx ε κ) : Tx ε κ :=
  { s with
    bytes := s.bytes + UInt64.ofNat s.batch.length
    sent := s.sent + UInt64.ofNat s.packets
    transfers := s.transfers + 1 }

def flush (steps : Nat) : TxM ε κ Unit := do
  if (← state).packets = 0 then
    return
  update (terminate maxPacket)
  if ← awaitRoom ep world steps then
    return
  update counted
  let full := (← state).batch
  update fun s => { s with batch := [] }
  onPort (Port.submit ep.toEndpoint full)
  update fun s => { s with packets := 0 }
  onPort (reap ep steps 0)

/-- Whether `frame` can be added, after a flush if need be. -/
def makeRoom (steps : Nat) (frame : Bytes) : TxM ε κ Bool := do
  if fits limits (← state) frame then
    return true
  flush ep world maxPacket steps
  return fits limits (← state) frame

/-- Fill transfers with whatever is already queued, starting with `frame`. -/
def fill (steps : Nat) (frame : Bytes) : TxM ε κ Unit :=
  iter .filling (fun frame => do
    if ← makeRoom ep world limits maxPacket steps frame then
      push limits frame
      match ← tryRecv world with
      | some next => return .inl next
      | none => return .inr ()
    else
      -- Dropped: over the device limit.
      return .inr ()) steps frame

/-- One turn of the main loop; `some` ends it. -/
def turn (steps : Nat) : TxM ε κ (Option Unit) := do
  if ← loadShutdown world then
    return some ()
  match ← recvTimeout world with
  | .timeout =>
    onPort (reap ep steps 0)
    return none
  | .disconnected => return some ()
  | .frame f =>
    fill ep world limits maxPacket steps f
    flush ep world maxPacket steps
    return none

def txLoop (turns steps : Nat) : TxM ε κ Unit := do
  let maxPacket := max (ep.maxPacketSize (← state).bulkOut.dev) 1
  loop .head (turn ep world limits maxPacket steps) turns
  onPort (reap ep steps (ofMillis 500))

section Calls

variable {s : Tx ε κ} {E : Unfinished → Tx ε κ → Prop}

theorem loadShutdown_wp {Q : Bool → Tx ε κ → Prop}
    (h : ∀ b k, (s.shutdown = true → b = true) → Q b { s with shutdown := b, sched := k }) :
    wp (loadShutdown world) Q E s := by
  rw [loadShutdown, wp_apply]
  exact h _ _ (fun hs => by simp [hs])

theorem recvTimeout_wp {Q : Received → Tx ε κ → Prop}
    (hframe : ∀ f rest k, s.frames = f :: rest →
      Q (.frame f) { s with frames := rest, sched := k })
    (htimeout : ∀ k, Q .timeout { s with sched := k })
    (hgone : ∀ k, s.frames = [] → Q .disconnected { s with sched := k }) :
    wp (recvTimeout world) Q E s := by
  rw [recvTimeout, wp_apply]
  split
  · rename_i f rest hf
    cases hq : (world.queued s.sched).1 with
    | true => simpa only [hq, if_true] using hframe f rest (world.queued s.sched).2 hf
    | false => simpa only [hq, Bool.false_eq_true, if_false] using htimeout (world.queued s.sched).2
  · rename_i hf
    cases hh : (world.hungUp s.sched).1 with
    | true => simpa only [hh, if_true] using hgone (world.hungUp s.sched).2 hf
    | false => simpa only [hh, Bool.false_eq_true, if_false] using htimeout (world.hungUp s.sched).2

theorem tryRecv_wp {Q : Option Bytes → Tx ε κ → Prop}
    (hframe : ∀ f rest k, s.frames = f :: rest → Q (some f) { s with frames := rest, sched := k })
    (hnone : ∀ k, Q none { s with sched := k }) : wp (tryRecv world) Q E s := by
  rw [tryRecv, wp_apply]
  split
  · rename_i f rest hf
    cases hq : (world.queued s.sched).1 with
    | true => simpa only [hq, if_true] using hframe f rest (world.queued s.sched).2 hf
    | false => simpa only [hq, Bool.false_eq_true, if_false] using hnone (world.queued s.sched).2
  · exact hnone s.sched

end Calls

end Tx

end Muta.Link
