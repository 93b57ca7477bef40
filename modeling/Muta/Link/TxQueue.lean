import Muta.Link.Tx

/-!
# The TX thread's endpoint

A property of the port is carried through a whole run once it is kept by the waits
of the back-pressure loop, by a submit into a queue with room, and by `reap`. It
may take a weaker form while the back-pressure loop runs, and it may depend on
whether shutdown has been seen.
-/

namespace Muta.Link.Tx

open Usb Act Wire
set_option autoImplicit false

variable {ε κ : Type} (ep : OutEndpoint ε) (world : Schedule κ)

def pressed (q : Port ε Bytes Unit) : Port ε Bytes Unit :=
  { dev := (ep.wait q.dev tick).2,
    log := q.log ++ [.waited .backPressure (ep.wait q.dev tick).1] }

def submittedTo (q : Port ε Bytes Unit) (b : Bytes) : Port ε Bytes Unit :=
  { dev := ep.submit q.dev b, log := q.log ++ [.submit b] }

/-- What a port invariant `J` has to survive; `P` is its form under back-pressure,
and the flag says whether shutdown was seen. -/
structure PortInvariant (J P : Bool → Port ε Bytes Unit → Prop) : Prop where
  raise : ∀ q, J false q → J true q
  enter : ∀ b q, J b q → P b q
  pressed : ∀ b q, P b q → txDepth ≤ ep.pending q.dev → P b (pressed ep q)
  leave : ∀ b q, P b q → J true q
  submit : ∀ b q d, P b q → ep.pending q.dev < txDepth → J b (submittedTo ep q d)
  reap : ∀ b n t q, J b q → wp (reap ep n t) (fun _ => J b)
    (fun e q => e = .reaping ∧ J b q) q

section Port

variable {J P : Bool → Port ε Bytes Unit → Prop}

/-- How a run that did not finish leaves the port. -/
def Left (J P : Bool → Port ε Bytes Unit → Prop) (e : Unfinished) (t : Tx ε κ) : Prop :=
  match e with
  | .full => P t.shutdown t.bulkOut
  | _ => J t.shutdown t.bulkOut

variable {ep} (inv : PortInvariant ep J P)
include inv

theorem PortInvariant.load {b c : Bool} {q : Port ε Bytes Unit} (h : J b q)
    (hbc : b = true → c = true) : J c q := by
  cases b with
  | true => rwa [hbc rfl]
  | false =>
    cases c with
    | true => exact inv.raise q h
    | false => exact h

theorem reap_port (steps : Nat) (timeout : Duration) {s : Tx ε κ}
    (h : J s.shutdown s.bulkOut) :
    wp (onPort (reap ep steps timeout)) (fun _ t => J t.shutdown t.bulkOut) (Left J P) s := by
  rw [onPort, wp_zoom]
  have hr := inv.reap s.shutdown steps timeout s.bulkOut h
  refine wp_mono hr (fun _ _ hq => hq) ?_
  intro _ q hres
  obtain ⟨rfl, hq⟩ := hres
  exact hq

theorem awaitRoom_port (steps : Nat) {s : Tx ε κ} (h : P s.shutdown s.bulkOut) :
    wp (awaitRoom ep world steps)
      (fun r t => if r then J t.shutdown t.bulkOut
        else P t.shutdown t.bulkOut ∧ ep.pending t.bulkOut.dev < txDepth)
      (Left J P) s := by
  refine wp_loop (fun t => P t.shutdown t.bulkOut) ?_ ?_ steps h
  case refine_2 => exact fun _ ht => ht
  intro t ht
  simp only [wp_bind, wp_state]
  apply wp_ite
  · exact fun hlt => ⟨ht, hlt⟩
  · intro hge
    simp only [wp_bind, onPort, wp_zoom, Port.wait, wp_apply]
    have hp := inv.pressed _ t.bulkOut ht (Nat.le_of_not_lt hge)
    unfold pressed at hp
    generalize (ep.wait t.bulkOut.dev tick).1 = r at hp ⊢
    cases r with
    | some _ => exact hp
    | none =>
      rw [wp_bind]
      apply loadShutdown_wp
      intro b k hb
      cases b with
      | true => exact inv.leave _ _ hp
      | false =>
        have hs : t.shutdown = false := by
          cases hc : t.shutdown with
          | false => rfl
          | true => exact absurd (hb hc) (by decide)
        rw [hs] at hp
        exact hp

theorem flush_port (maxPacket steps : Nat) {s : Tx ε κ} (h : J s.shutdown s.bulkOut) :
    wp (flush ep world maxPacket steps) (fun _ t => J t.shutdown t.bulkOut) (Left J P) s := by
  simp only [flush, wp_bind, wp_state]
  apply wp_ite
  · exact fun _ => h
  · intro _
    simp only [wp_bind, wp_update]
    have hterm : P (terminate maxPacket s).shutdown (terminate maxPacket s).bulkOut := by
      unfold terminate
      split <;> exact inv.enter _ _ h
    refine wp_mono (awaitRoom_port world inv steps hterm) ?_ (fun _ _ ht => ht)
    intro r t ht
    cases r with
    | true => exact ht
    | false =>
      obtain ⟨hp, hroom⟩ : P t.shutdown t.bulkOut ∧ ep.pending t.bulkOut.dev < txDepth := by
        simpa using ht
      simp only [wp_bind, wp_update, wp_state, Bool.false_eq_true, if_false]
      rw [onPort, wp_zoom, Port.submit, wp_update]
      exact reap_port inv steps 0 (inv.submit _ _ _ hp hroom)

theorem makeRoom_port (limits : TxLimits) (maxPacket steps : Nat) (f : Bytes) {s : Tx ε κ}
    (h : J s.shutdown s.bulkOut) :
    wp (makeRoom ep world limits maxPacket steps f) (fun _ t => J t.shutdown t.bulkOut)
      (Left J P) s := by
  simp only [makeRoom, wp_bind, wp_state]
  apply wp_ite
  · exact fun _ => h
  · intro _
    rw [wp_bind]
    exact wp_mono (flush_port world inv maxPacket steps h) (fun _ _ ht => ht) (fun _ _ ht => ht)

theorem fill_port (limits : TxLimits) (maxPacket steps : Nat) (f : Bytes) {s : Tx ε κ}
    (h : J s.shutdown s.bulkOut) :
    wp (fill ep world limits maxPacket steps f) (fun _ t => J t.shutdown t.bulkOut)
      (Left J P) s := by
  refine wp_iter (fun _ t => J t.shutdown t.bulkOut) ?_ ?_ steps f h
  case refine_2 => exact fun _ _ ht => ht
  intro g t ht
  rw [wp_bind]
  refine wp_mono (makeRoom_port world inv limits maxPacket steps g ht) ?_ (fun _ _ hu => hu)
  intro r u hu
  apply wp_ite
  · intro _
    simp only [wp_bind, push, wp_update]
    apply tryRecv_wp
    · exact fun _ _ _ _ => hu
    · exact fun _ => hu
  · exact fun _ => hu

theorem turn_port (limits : TxLimits) (maxPacket steps : Nat) {s : Tx ε κ}
    (h : J s.shutdown s.bulkOut) :
    wp (turn ep world limits maxPacket steps) (fun _ t => J t.shutdown t.bulkOut)
      (Left J P) s := by
  rw [turn, wp_bind]
  apply loadShutdown_wp
  intro b k hb
  have hload : J b s.bulkOut := inv.load h hb
  apply wp_ite
  · exact fun _ => hload
  · intro _
    rw [wp_bind]
    apply recvTimeout_wp
    · intro f rest _ _
      simp only [wp_bind]
      refine wp_mono (fill_port world inv limits maxPacket steps f hload) ?_ (fun _ _ ht => ht)
      intro _ t ht
      exact wp_mono (flush_port world inv maxPacket steps ht) (fun _ _ hu => hu) (fun _ _ hu => hu)
    · intro _
      rw [wp_bind]
      exact wp_mono (reap_port inv steps 0 hload) (fun _ _ hu => hu) (fun _ _ hu => hu)
    · exact fun _ _ => hload

/-- A port invariant holds throughout every run of the TX thread. -/
theorem txLoop_port (limits : TxLimits) (turns steps : Nat) {s : Tx ε κ}
    (h : J s.shutdown s.bulkOut) :
    wp (txLoop ep world limits turns steps) (fun _ t => J t.shutdown t.bulkOut) (Left J P) s := by
  simp only [txLoop, wp_bind, wp_state]
  have hloop : wp (loop .head (turn ep world limits
        (max (ep.maxPacketSize s.bulkOut.dev) 1) steps) turns)
      (fun _ t => J t.shutdown t.bulkOut) (Left J P) s := by
    refine wp_loop (fun t => J t.shutdown t.bulkOut) ?_ ?_ turns h
    case refine_2 => exact fun _ ht => ht
    intro t ht
    refine wp_mono (turn_port world inv limits _ steps ht) ?_ (fun _ _ hu => hu)
    intro r u hu
    cases r <;> exact hu
  refine wp_mono hloop ?_ (fun _ _ ht => ht)
  exact fun _ t ht => reap_port inv steps _ ht

end Port

theorem uniform_invariant {J : Port ε Bytes Unit → Prop}
    (hpressed : ∀ q, J q → txDepth ≤ ep.pending q.dev → J (pressed ep q))
    (hsubmit : ∀ q d, J q → ep.pending q.dev < txDepth → J (submittedTo ep q d))
    (hreap : ∀ n t q, J q → wp (Link.reap ep n t) (fun _ => J) (fun e q => e = .reaping ∧ J q) q) :
    PortInvariant ep (fun _ => J) (fun _ => J) where
  raise := fun _ h => h
  enter := fun _ _ h => h
  pressed := fun _ q h => hpressed q h
  leave := fun _ _ h => h
  submit := fun _ q d h => hsubmit q d h
  reap := fun _ n t q h => hreap n t q h

theorem txLoop_orderly {ep : OutEndpoint ε} (lawful : ep.Lawful) (limits : TxLimits)
    (turns steps : Nat) {s : Tx ε κ} (h : Orderly ep.toEndpoint txDepth s.bulkOut) :
    Orderly ep.toEndpoint txDepth (txLoop ep world limits turns steps s).2.bulkOut := by
  have inv : PortInvariant ep (fun _ => Orderly ep.toEndpoint txDepth)
      (fun _ => Orderly ep.toEndpoint txDepth) := by
    apply uniform_invariant
    · exact fun q hq _ => hq.wait lawful .backPressure tick
    · exact fun q d hq hroom => hq.submit lawful hroom d
    · exact fun n t q hq => reap_orderly lawful n t hq
  have hrun := txLoop_port world inv limits turns steps h
  refine wp_snd.mp (wp_mono hrun (fun _ _ ht => ht) ?_)
  intro e t ht
  cases e <;> exact ht

end Muta.Link.Tx
