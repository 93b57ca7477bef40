import Muta.Base.Act
import Muta.Base.Bytes

/-!
# USB endpoints

An endpoint is a queue of transfers owned by one thread. It is modelled as the
trait object it is in the program: a device state of any type and the operations
on it, about which nothing is assumed. `Lawful` names the bookkeeping that the
trait's documentation promises for the number of pending transfers.

A thread's `Port` is the device state with the log of the calls made so far; what
is proved about an endpoint is proved about that log.
-/

namespace Muta.Usb

set_option autoImplicit false

inductive UsbError where
  | disconnected
  | timeout
  | stall
  | notFound
  | other (what : String)
deriving DecidableEq, Repr

def UsbError.isFatal : UsbError → Bool
  | .disconnected | .notFound => true
  | _ => false

def UsbError.text : UsbError → String
  | .disconnected => "device disconnected"
  | .timeout => "transfer timed out"
  | .stall => "endpoint stalled"
  | .notFound => "device not found"
  | .other what => what

/-- A queue taking submissions `δ` and completing them with `β`. -/
structure Endpoint (ε δ β : Type) where
  pending : ε → Nat
  submit : ε → δ → ε
  wait : ε → Duration → Option (Except UsbError β) × ε
  cancelAll : ε → ε
  clearHalt : ε → Except UsbError Unit × ε

/-- Reads are submitted by length and return the bytes received. -/
abbrev InEndpoint (ε : Type) := Endpoint ε Nat Bytes

structure OutEndpoint (ε : Type) extends Endpoint ε Bytes Unit where
  maxPacketSize : ε → Nat

/-- `pending` counts the transfers submitted and not yet returned by `wait`. -/
structure Endpoint.Counts {ε δ β : Type} (ep : Endpoint ε δ β) : Prop where
  submit : ∀ e d, ep.pending (ep.submit e d) = ep.pending e + 1
  waitSome : ∀ e t r, (ep.wait e t).1 = some r → ep.pending (ep.wait e t).2 + 1 = ep.pending e
  waitNone : ∀ e t, (ep.wait e t).1 = none → ep.pending (ep.wait e t).2 = ep.pending e
  cancelAll : ∀ e, ep.pending (ep.cancelAll e) = ep.pending e

/-- Clearing the halt leaves the count alone as well. -/
structure Endpoint.Lawful {ε δ β : Type} (ep : Endpoint ε δ β) : Prop extends ep.Counts where
  clearHalt : ∀ e, ep.pending (ep.clearHalt e).2 = ep.pending e

/-- The states an endpoint can be in after `cancel_all`, until the next submit. -/
inductive Endpoint.AfterCancel {ε δ β : Type} (ep : Endpoint ε δ β) : ε → Prop where
  | cancel (e : ε) : AfterCancel ep (ep.cancelAll e)
  | wait {e : ε} (t : Duration) : AfterCancel ep e → AfterCancel ep (ep.wait e t).2

/-- Cancelled transfers come back from `wait`. -/
def Endpoint.Responsive {ε δ β : Type} (ep : Endpoint ε δ β) : Prop :=
  ∀ e t, ep.AfterCancel e → 0 < ep.pending e → (ep.wait e t).1.isSome = true

-- The places in the program that wait on an endpoint.
inductive Site where
  | read
  | backPressure
  | reap
  | drain
deriving DecidableEq, Repr

inductive Call (δ β : Type) where
  | submit (data : δ)
  | waited (site : Site) (result : Option (Except UsbError β))
  | cancelAll
  /-- A recovery that found transfers still pending after its drain. -/
  | undrained
  | clearHalt (result : Except UsbError Unit)
deriving DecidableEq

structure Port (ε δ β : Type) where
  dev : ε
  log : List (Call δ β)

namespace Port

variable {ω ε δ β : Type} (ep : Endpoint ε δ β)

def submit (data : δ) : Act ω (Port ε δ β) Unit := .update fun p =>
  { dev := ep.submit p.dev data, log := p.log ++ [.submit data] }

def wait (site : Site) (timeout : Duration) :
    Act ω (Port ε δ β) (Option (Except UsbError β)) := .apply fun p =>
  let r := ep.wait p.dev timeout
  (r.1, { dev := r.2, log := p.log ++ [.waited site r.1] })

def cancelAll : Act ω (Port ε δ β) Unit := .update fun p =>
  { dev := ep.cancelAll p.dev, log := p.log ++ [.cancelAll] }

def clearHalt : Act ω (Port ε δ β) (Except UsbError Unit) := .apply fun p =>
  let r := ep.clearHalt p.dev
  (r.1, { dev := r.2, log := p.log ++ [.clearHalt r.1] })

def undrained : Act ω (Port ε δ β) Unit := .update fun p =>
  { p with log := p.log ++ [.undrained] }

end Port

section Log

variable {δ β : Type}

def Call.count (n : Nat) : Call δ β → Nat
  | .submit _ => n + 1
  | .waited _ (some _) => n - 1
  | _ => n

def inFlight (log : List (Call δ β)) : Nat := log.foldl Call.count 0

theorem inFlight_concat (log : List (Call δ β)) (c : Call δ β) :
    inFlight (log ++ [c]) = c.count (inFlight log) := by
  simp [inFlight, List.foldl_append]

/-- What was submitted, in order. -/
def submissions (log : List (Call δ β)) : List δ := log.filterMap fun c =>
  match c with
  | .submit d => some d
  | _ => none

@[simp] theorem submissions_append (l m : List (Call δ β)) :
    submissions (l ++ m) = submissions l ++ submissions m := List.filterMap_append

theorem submissions_eq_nil {l : List (Call δ β)} (h : ∀ d, .submit d ∉ l) :
    submissions l = [] := by
  rw [submissions, List.filterMap_eq_nil_iff]
  intro c hc
  cases c with
  | submit d => exact absurd hc (h d)
  | _ => rfl

theorem split_append {α : Type} {l m a b : List α} {x : α} (h : l ++ m = a ++ x :: b) :
    (∃ c, l = a ++ x :: c ∧ b = c ++ m) ∨ (∃ c, a = l ++ c ∧ m = c ++ x :: b) := by
  rcases List.append_eq_append_iff.mp h with ⟨c, ha, hm⟩ | ⟨c, hl, hc⟩
  · exact Or.inr ⟨c, ha, hm⟩
  · cases c with
    | nil => exact Or.inr ⟨[], by simpa using hl.symm, hc.symm⟩
    | cons y c =>
      obtain ⟨rfl, hb⟩ := List.cons.inj hc
      exact Or.inl ⟨c, hl, hb⟩

/-- At every point of the log at most `depth` transfers are pending, and none are
when the halt is cleared. -/
def Disciplined (depth : Nat) (log : List (Call δ β)) : Prop :=
  ∀ l c, l ++ [c] <+: log →
    inFlight (l ++ [c]) ≤ depth ∧ ∀ r, c = .clearHalt r → inFlight l = 0

theorem disciplined_nil (depth : Nat) : Disciplined depth ([] : List (Call δ β)) := by
  intro l c h
  have hlen := h.length_le
  simp at hlen

theorem Disciplined.concat {depth : Nat} {log : List (Call δ β)} {c : Call δ β}
    (h : Disciplined depth log) (hc : inFlight (log ++ [c]) ≤ depth)
    (hz : ∀ r, c = .clearHalt r → inFlight log = 0) : Disciplined depth (log ++ [c]) := by
  intro l d hl
  rcases List.prefix_concat_iff.mp hl with heq | hlog
  · obtain ⟨rfl, hd⟩ := List.append_inj' heq rfl
    obtain rfl : d = c := by simpa using hd
    exact ⟨hc, hz⟩
  · exact h l d hlog

end Log

end Muta.Usb
