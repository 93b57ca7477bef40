import Muta.Base.Keeps
import Muta.Rndis.Control

/-!
# Conditions a control channel keeps

Every command of the control channel is put together from three calls to the transport
and from bookkeeping that leaves the transport alone. A condition that survives these
survives every command and every bring-up, however they end.
-/

namespace Muta.Rndis

open Act Wire
set_option autoImplicit false

variable {τ : Type}

/-- Completions are marks in the log, everything else went over the channel. -/
def Traffic.onWire : Traffic → Bool
  | .completed _ _ => false
  | _ => true

def wired (l : List Traffic) : List Traffic := l.filter Traffic.onWire

@[simp] theorem wired_append (l m : List Traffic) : wired (l ++ m) = wired l ++ wired m :=
  List.filter_append ..

/-- What the transport and the bookkeeping around its calls do to `I`. -/
structure Kept (c : ControlTransport τ) (I : Rndis τ → Prop) : Prop where
  send : ∀ msg, Keeps I (Rndis.send c msg)
  receive : Keeps I (Rndis.receive c)
  await : ∀ timeout, Keeps I (onTransport fun t => c.awaitResponse t timeout)
  /-- Request ids, the link and the marks of completions are not what `I` is about. -/
  aside : ∀ s t : Rndis τ, t.transport = s.transport → wired t.log = wired s.log → I s → I t

theorem keeps_succeeded (I : Rndis τ → Prop) (reply : Bytes) :
    Keeps I (succeeded reply : RndisM τ Unit) := by
  refine (Keeps.ofExcept _).bind ?_
  intro _
  exact Keeps.ite (Keeps.stop _) (Keeps.pure _)

namespace Kept

variable {c : ControlTransport τ} {I : Rndis τ → Prop} (h : Kept c I)
include h

theorem takeRequestId : Keeps I (takeRequestId : RndisM τ UInt32) := by
  intro s hs
  exact h.aside s _ rfl rfl hs

theorem setLink (f : Rndis τ → LinkState) :
    Keeps I (update fun s => { s with link := f s } : RndisM τ Unit) := by
  intro s hs
  exact h.aside s _ rfl rfl hs

theorem complete (msg reply : Bytes) : Keeps I (record (.completed msg reply) : RndisM τ Unit) := by
  intro s hs
  refine h.aside s _ rfl ?_ hs
  simp [record, wired, Traffic.onWire]

theorem handleUnsolicited (msgType : UInt32) (reply : Bytes) :
    Keeps I (handleUnsolicited c msgType reply) := by
  refine Keeps.ite ?_ ?_
  · exact (Keeps.ofExcept _).bind fun _ => h.setLink _
  refine Keeps.ite ?_ ?_
  · exact (Keeps.ofExcept _).bind fun _ => h.send _
  · exact Keeps.pure _

theorem poll (expect requestId : UInt32) : Keeps I (poll c expect requestId) := by
  refine (h.await pollInterval).bind ?_
  intro _
  refine h.receive.bind ?_
  intro reply
  refine Keeps.ite ?_ ?_
  · exact Keeps.pure _
  refine (Keeps.ofExcept _).bind ?_
  intro msgType
  refine Keeps.ite ?_ ?_
  · refine (Keeps.ofExcept _).bind ?_
    intro _
    exact Keeps.ite (Keeps.pure _) (Keeps.pure _)
  · exact (h.handleUnsolicited msgType reply).bind fun _ => Keeps.pure _

theorem transact (msg : Bytes) (expect id : UInt32) : Keeps I (transact c msg expect id) := by
  refine (h.send _).bind ?_
  intro _
  refine Keeps.state.bind ?_
  intro s
  refine (Keeps.iter (fun _ => h.poll expect id) _ ()).bind ?_
  intro reply
  exact (h.complete _ reply).bind fun _ => Keeps.pure _

theorem exchange (encode : UInt32 → Bytes) (expect : UInt32) : Keeps I (exchange c encode expect) :=
  h.takeRequestId.bind fun id => h.transact (encode id) expect id

theorem initialise : Keeps I (initialise c) := by
  refine (h.exchange _ _).bind ?_
  intro reply
  refine (Keeps.ofExcept _).bind ?_
  intro init
  exact Keeps.ite (Keeps.stop _) (Keeps.ite (Keeps.stop _) (Keeps.pure _))

theorem query (oid : UInt32) : Keeps I (query c oid) := by
  refine (h.exchange _ _).bind ?_
  intro reply
  refine (Keeps.ofExcept _).bind ?_
  intro _
  exact Keeps.ite (Keeps.stop _) (Keeps.pure _)

theorem set (oid : UInt32) (data : Bytes) : Keeps I (set c oid data) :=
  (h.exchange _ _).bind (keeps_succeeded I)

theorem keepalive : Keeps I (keepalive c) := (h.exchange _ _).bind (keeps_succeeded I)

theorem halt : Keeps I (halt c) := h.takeRequestId.bind fun _ => h.send _

theorem command (cmd : Command) : Keeps I (cmd.issue c) := by
  cases cmd with
  | halt => exact h.halt.attempt.bind fun _ => Keeps.pure _
  | request r =>
    cases r with
    | initialise => exact h.initialise.attempt.bind fun _ => Keeps.pure _
    | query oid => exact (h.query oid).attempt.bind fun _ => Keeps.pure _
    | set oid data => exact (h.set oid data).attempt.bind fun _ => Keeps.pure _
    | keepalive => exact h.keepalive.attempt.bind fun _ => Keeps.pure _

theorem issueAll (cmds : List Command) : Keeps I (issueAll c cmds) := by
  induction cmds with
  | nil => exact Keeps.pure _
  | cons cmd cmds ih => exact (h.command cmd).bind fun _ => ih

theorem tryMac (oid : UInt32) : Keeps I (tryMac c oid) := by
  refine (h.query oid).attempt.bind ?_
  intro r
  cases r with
  | ok info => exact Keeps.pure _
  | error e => exact Keeps.pure _

theorem queryMac : Keeps I (queryMac c) := by
  refine (h.tryMac _).bind ?_
  intro found
  cases found with
  | some mac => exact Keeps.pure _
  | none =>
    refine (h.tryMac _).bind ?_
    intro found
    cases found with
    | some mac => exact Keeps.pure _
    | none => exact Keeps.stop _

theorem bringUp : Keeps I (bringUp c) := by
  refine h.initialise.bind ?_
  intro init
  refine h.queryMac.bind ?_
  intro mac
  refine (h.set _ _).bind ?_
  intro _
  exact (h.setLink _).bind fun _ => Keeps.pure _

end Kept

/-- What a program makes of the channel it starts with. -/
inductive Uses (c : ControlTransport τ) (start : Rndis τ) : Rndis τ → Prop where
  | refl : Uses c start start
  | command {s : Rndis τ} (cmd : Command) : Uses c start s → Uses c start (cmd.issue c s).2
  | bringUp {s : Rndis τ} : Uses c start s → Uses c start (bringUp c s).2

theorem Kept.uses {c : ControlTransport τ} {I : Rndis τ → Prop} (h : Kept c I) {s t : Rndis τ}
    (hs : I s) (huses : Uses c s t) : I t := by
  induction huses with
  | refl => exact hs
  | command cmd _ ih => exact h.command cmd _ ih
  | bringUp _ ih => exact h.bringUp _ ih

end Muta.Rndis
