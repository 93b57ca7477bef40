import Muta.Link.RxTimer
import Muta.Link.TxStall

/-!
# The main loop of the RX thread, and the queue discipline of both threads

`rxLoop` keeps a fixed number of reads submitted. Each outcome of a wait restores
that number in its own way: a finished or failed read is submitted again, a stall is
recovered from by draining and refilling the queue, a fatal error ends the thread.
The ARP table's request times belong to the tunnel's reader and are not read here,
so the only thing another thread does to this one is to ask for shutdown.
-/

namespace Muta.Link

open Usb Act Netstack Dhcp
set_option autoImplicit false

structure RxThread (ε κ : Type) where
  bulkIn : Port ε Nat Bytes
  rx : Rx
  stalls : Nat
  -- As in the TX thread, the flag is only ever set.
  shutdown : Bool
  sched : κ

abbrev RxThreadM (ε κ α : Type) := Act (Halt Unfinished) (RxThread ε κ) α

namespace RxThread

variable {ε κ : Type}

def onPort {α : Type} (p : Act (Halt Unfinished) (Port ε Nat Bytes) α) : RxThreadM ε κ α :=
  zoom bulkIn (fun q s => { s with bulkIn := q }) p

def onRx {α : Type} (p : RxM α) : RxThreadM ε κ α :=
  zoom rx (fun r s => { s with rx := r }) (orFault p)

def initial (hostMac : MacAddr) (dev : ε) (sched : κ) : RxThread ε κ :=
  { bulkIn := { dev := dev, log := [] }, rx := .initial hostMac, stalls := 0, shutdown := false,
    sched := sched }

variable (ep : InEndpoint ε) (shutdown : κ → Bool × κ) (hostMac : MacAddr)
  (clock : Nat → Instant) (transferSize : Nat)

def loadShutdown : RxThreadM ε κ Bool := apply fun s =>
  let r := shutdown s.sched
  (s.shutdown || r.1, { s with shutdown := s.shutdown || r.1, sched := r.2 })

def fail (cause : Failure) : RxThreadM ε κ Bool := do
  onRx (Rx.emit (.event (.failed cause)))
  return false

def handleStall : RxThreadM ε κ Bool := do
  update fun s => { s with stalls := s.stalls + 1 }
  let stalls := (← state).stalls
  if stalls > maxConsecutiveStalls then
    fail (.stalled stalls)
  else
    match ← onPort (recoverBulkIn ep transferSize) with
    | .ok () => return true
    | .error e => fail (.recovery e)

/-- One wait and what it calls for: whether the thread goes on. -/
def receive : RxThreadM ε κ Bool := do
  match ← onPort (Port.wait ep .read tick) with
  | some (.ok data) =>
    update fun s => { s with stalls := 0 }
    onPort (Port.submit ep transferSize)
    onRx (Rx.handleTransfer hostMac clock data)
    return true
  | some (.error e) =>
    if e.isFatal then
      fail (.fatal e)
    else if e = .stall then
      handleStall ep transferSize
    else
      onPort (Port.submit ep transferSize)
      return true
  | none => return true

/-- One turn of the main loop; `some` ends it. -/
def turn : RxThreadM ε κ (Option Unit) := do
  if ← loadShutdown shutdown then
    return some ()
  else if ← receive ep hostMac clock transferSize then
    onRx (Rx.poll hostMac clock)
    return none
  else
    return some ()

def rxLoop (turns : Nat) : RxThreadM ε κ Unit := do
  onPort (submitReads ep transferSize rxDepth)
  onRx (Rx.start hostMac clock)
  loop (.err .head) (turn ep shutdown hostMac clock transferSize) turns

theorem onRx_wp {α : Type} {p : RxM α} {s : RxThread ε κ} {a : α} {t : Rx}
    {Q : α → RxThread ε κ → Prop} {E : Halt Unfinished → RxThread ε κ → Prop}
    (hp : p s.rx = (.ok a, t)) (hQ : Q a { s with rx := t }) : wp (onRx p) Q E s := by
  rw [onRx, wp_zoom, wp_orFault, wp, hp]
  exact hQ

end RxThread

namespace Rx

variable {hostMac : MacAddr} {clock : Nat → Instant}

def NoFailure (log : List Effect) : Prop := ∀ cause, .event (.failed cause) ∉ log

theorem NoFailure.append {l m : List Effect} (hl : NoFailure l) (hm : NoFailure m) :
    NoFailure (l ++ m) := by
  intro cause hmem
  rcases List.mem_append.mp hmem with hmem | hmem
  · exact hl cause hmem
  · exact hm cause hmem

theorem DhcpStep.noFailure {s t : Rx} {srcMac : MacAddr} {d : UdpDatagram} (h : NoFailure s.log)
    (hstep : DhcpStep hostMac clock s srcMac d t) : NoFailure t.log := by
  cases hstep <;> exact h.append (by simp [NoFailure])

theorem FrameStep.noFailure {s t : Rx} {c : Class} (h : NoFailure s.log)
    (hstep : FrameStep hostMac clock s c t) : NoFailure t.log := by
  cases hstep with
  | skip => exact h
  | sink packet => exact h.append (by simp [NoFailure])
  | arpBad payload e _ => exact h
  | arp payload p reply _ => exact h.append (by cases reply <;> simp [NoFailure])
  | dhcp srcMac d _ hd => exact hd.noFailure h

theorem FrameSteps.noFailure {s t : Rx} {fs : List Bytes} (h : NoFailure s.log)
    (hsteps : FrameSteps hostMac clock s fs t) : NoFailure t.log := by
  induction hsteps with
  | nil s => exact h
  | cons hstep _ ih => exact ih (hstep.noFailure h)

end Rx

section Refill

variable {ω ε : Type} {ep : InEndpoint ε}

theorem submitReads_orderly (lawful : ep.Lawful) {depth : Nat} (transferSize n : Nat)
    {p : Port ε Nat Bytes} (h : Orderly ep depth p) (hroom : ep.pending p.dev + n ≤ depth) :
    wp (submitReads ep transferSize n : Act ω _ _)
      (fun _ q => Orderly ep depth q ∧ ep.pending q.dev = ep.pending p.dev + n ∧
        q.log = p.log ++ List.replicate n (.submit transferSize))
      (fun _ _ => False) p := by
  induction n generalizing p with
  | zero => exact ⟨h, rfl, by simp⟩
  | succ n ih =>
    simp only [submitReads, wp_bind, Port.submit, wp_update]
    have hcount : ep.pending (ep.submit p.dev transferSize) = ep.pending p.dev + 1 :=
      lawful.submit _ _
    have hnext := h.submit lawful (by omega) transferSize
    refine wp_mono (ih hnext (by rw [hcount]; omega)) ?_ (fun _ _ hf => hf)
    intro _ q hres
    obtain ⟨hq, hpending, hlog⟩ := hres
    refine ⟨hq, ?_, ?_⟩
    · rw [hpending, hcount, Nat.add_assoc, Nat.add_comm 1 n]
    rw [hlog, List.append_assoc, List.replicate_succ]
    rfl

/-- A recovery refills the queue, or leaves an error; it makes no call of `rx_loop`'s own. -/
theorem recoverBulkIn_orderly (lawful : ep.Lawful) (transferSize : Nat) {p : Port ε Nat Bytes}
    (h : Orderly ep rxDepth p) :
    wp (recoverBulkIn ep transferSize : Act ω _ _)
      (fun r q => Orderly ep rxDepth q ∧ (r = .ok () → ep.pending q.dev = rxDepth) ∧
        ∃ l, q.log = p.log ++ l ∧ ∀ x, .waited .read x ∉ l)
      (fun _ _ => False) p := by
  rw [recoverBulkIn, wp_bind]
  have hboth := wp_and (h.recoverHalt (ω := ω) lawful "bulk IN reads did not drain after cancel")
    (recoverHalt_log ep rxDepth "bulk IN reads did not drain after cancel" p)
  refine wp_mono hboth ?_ (fun _ _ hf => hf.1)
  intro r q hres
  obtain ⟨⟨hq, hzero⟩, l, hlog, hl⟩ := hres
  have hread : ∀ x, Call.waited .read x ∉ l := by
    intro x hmem
    rcases hl.mem_cases hmem with hx | ⟨y, hx⟩ | hx | ⟨y, hx⟩ <;> cases hx
  cases r with
  | error e => exact ⟨hq, (fun he => by cases he), l, hlog, hread⟩
  | ok u =>
    have hempty : ep.pending q.dev = 0 := hzero rfl
    rw [wp_bind]
    have hfill := submitReads_orderly (ω := ω) lawful transferSize rxDepth hq (by omega)
    refine wp_mono hfill ?_ (fun _ _ hf => hf)
    intro _ t hres
    obtain ⟨ht, hpending, htlog⟩ := hres
    refine ⟨ht, fun _ => by omega, l ++ List.replicate rxDepth (.submit transferSize), ?_, ?_⟩
    · rw [htlog, hlog, List.append_assoc]
    · intro x hmem
      rcases List.mem_append.mp hmem with hmem | hmem
      · exact hread x hmem
      · cases List.eq_of_mem_replicate hmem

end Refill

namespace RxThread

-- `start_eq` says all there is to know; unfolding it would build a whole message.
attribute [local irreducible] Rx.start

/-- Since some point of the log, `rx_loop` has seen `n` stalls and no successful read. -/
def StallRun (n : Nat) (log : List (Call Nat Bytes)) : Prop := ∃ a b, log = a ++ b ∧
  b.count (.waited .read (some (.error .stall))) = n ∧
  ∀ data, .waited .read (some (.ok data)) ∉ b

theorem stallRun_zero (log : List (Call Nat Bytes)) : StallRun 0 log :=
  ⟨log, [], by simp, rfl, by simp⟩

theorem StallRun.stall {n : Nat} {log : List (Call Nat Bytes)} (h : StallRun n log) :
    StallRun (n + 1) (log ++ [.waited .read (some (.error .stall))]) := by
  obtain ⟨a, b, rfl, hcount, hok⟩ := h
  refine ⟨a, b ++ [.waited .read (some (.error .stall))], by simp, ?_, ?_⟩
  · rw [List.count_append, hcount, List.count_singleton_self]
  · intro data hmem
    rcases List.mem_append.mp hmem with hmem | hmem
    · exact hok data hmem
    · cases List.mem_singleton.mp hmem

theorem StallRun.append {n : Nat} {log l : List (Call Nat Bytes)} (h : StallRun n log)
    (hstall : .waited .read (some (.error .stall)) ∉ l)
    (hread : ∀ data, .waited .read (some (.ok data)) ∉ l) : StallRun n (log ++ l) := by
  obtain ⟨a, b, rfl, hcount, hok⟩ := h
  refine ⟨a, b ++ l, by simp, ?_, ?_⟩
  · rw [List.count_append, hcount, List.count_eq_zero_of_not_mem hstall, Nat.add_zero]
  · intro data hmem
    rcases List.mem_append.mp hmem with hmem | hmem
    · exact hok data hmem
    · exact hread data hmem

variable {ε κ : Type}

/-- The thread gives up at most once and does nothing after it; it gives up for
stalling only when `rx_loop` has seen too many stalls in a row. -/
structure GivesUpOnce (s : RxThread ε κ) : Prop where
  last : ∀ l cause m, s.rx.log = l ++ .event (.failed cause) :: m → m = [] ∧ Rx.NoFailure l
  stalled : ∀ n, .event (.failed (.stalled n)) ∈ s.rx.log →
    maxConsecutiveStalls < n ∧ StallRun n s.bulkIn.log

/-- What holds whenever the main loop starts a turn. -/
structure AtHead (ep : InEndpoint ε) (s : RxThread ε κ) : Prop where
  orderly : Orderly ep rxDepth s.bulkIn
  full : ep.pending s.bulkIn.dev = rxDepth
  stalls : StallRun s.stalls s.bulkIn.log
  alive : Rx.NoFailure s.rx.log

/-- What holds when the thread has ended. -/
structure Ended (ep : InEndpoint ε) (s : RxThread ε κ) : Prop where
  orderly : Orderly ep rxDepth s.bulkIn
  once : GivesUpOnce s

theorem GivesUpOnce.of_alive {s : RxThread ε κ} (h : Rx.NoFailure s.rx.log) : GivesUpOnce s where
  last := by
    intro l cause m heq
    refine absurd ?_ (h cause)
    rw [heq]
    exact List.mem_append_right l List.mem_cons_self
  stalled := fun n hmem => absurd hmem (h (.stalled n))

section Turns

variable {ep : InEndpoint ε} {s : RxThread ε κ} {hostMac : MacAddr} {clock : Nat → Instant}
  {E : Halt Unfinished → RxThread ε κ → Prop}

theorem AtHead.ended (h : AtHead ep s) : Ended ep s := ⟨h.orderly, .of_alive h.alive⟩

theorem fail_wp (cause : Failure) (horderly : Orderly ep rxDepth s.bulkIn)
    (halive : Rx.NoFailure s.rx.log)
    (hcause : ∀ n, cause = .stalled n → maxConsecutiveStalls < n ∧ StallRun n s.bulkIn.log) :
    wp (fail cause) (fun go t => if go then AtHead ep t else Ended ep t) E s := by
  rw [fail, wp_bind]
  refine onRx_wp rfl ⟨horderly, ?_, ?_⟩
  · intro l other m heq
    rcases split_append heq with ⟨c, hl, _⟩ | ⟨c, hl, hc⟩
    · refine absurd ?_ (halive other)
      rw [hl]
      exact List.mem_append_right l List.mem_cons_self
    · cases c with
      | nil =>
        refine ⟨(List.cons.inj hc).2.symm, ?_⟩
        rw [hl, List.append_nil]
        exact halive
      | cons _ _ => simp at hc
  · intro n hmem
    rcases List.mem_append.mp hmem with hmem | hmem
    · exact absurd hmem (halive _)
    · refine hcause n ?_
      simpa using (List.mem_singleton.mp hmem).symm

theorem AtHead.submit (lawful : ep.Lawful) {r : Except UsbError Bytes} (h : AtHead ep s)
    (hw : (ep.wait s.bulkIn.dev tick).1 = some r) (transferSize : Nat) :
    Orderly ep rxDepth
        { dev := ep.submit (ep.wait s.bulkIn.dev tick).2 transferSize,
          log := s.bulkIn.log ++ [.waited .read (some r)] ++ [.submit transferSize] } ∧
      ep.pending (ep.submit (ep.wait s.bulkIn.dev tick).2 transferSize) = rxDepth := by
  have hsome := lawful.waitSome _ _ _ hw
  have hfull := h.full
  have hwait := h.orderly.wait lawful .read tick
  rw [hw] at hwait
  refine ⟨hwait.submit lawful (by dsimp only; omega) transferSize, ?_⟩
  rw [lawful.submit, hsome, hfull]

theorem handleStall_wp (lawful : ep.Lawful) (transferSize : Nat)
    (horderly : Orderly ep rxDepth s.bulkIn) (hstalls : StallRun (s.stalls + 1) s.bulkIn.log)
    (halive : Rx.NoFailure s.rx.log) :
    wp (handleStall ep transferSize)
      (fun go t => if go then AtHead ep t else Ended ep t) E s := by
  simp only [handleStall, wp_bind, wp_update, wp_state]
  apply wp_ite
  · intro hmany
    refine fail_wp (.stalled (s.stalls + 1)) horderly halive ?_
    intro n hn
    cases hn
    exact ⟨hmany, hstalls⟩
  · intro _
    rw [wp_bind, onPort, wp_zoom]
    refine wp_mono (recoverBulkIn_orderly lawful transferSize horderly) ?_ (fun _ _ hf => hf.elim)
    intro r q hres
    obtain ⟨hq, hfull, l, hlog, hl⟩ := hres
    cases r with
    | ok u =>
      refine ⟨hq, hfull rfl, ?_, halive⟩
      dsimp only
      rw [hlog]
      exact hstalls.append (hl _) (fun data => hl _)
    | error e =>
      refine fail_wp (.recovery e) hq halive ?_
      intro n hn
      cases hn

theorem receive_wp (lawful : ep.Lawful) (transferSize : Nat) (h : AtHead ep s) :
    wp (receive ep hostMac clock transferSize)
      (fun go t => if go then AtHead ep t else Ended ep t) E s := by
  rw [receive, wp_bind, onPort, wp_zoom, Port.wait, wp_apply]
  have hwait := h.orderly.wait lawful .read tick
  have hsubmit := fun r hw => @AtHead.submit _ _ ep s lawful r h hw transferSize
  have hnone := lawful.waitNone s.bulkIn.dev tick
  dsimp only
  generalize (ep.wait s.bulkIn.dev tick).1 = r at hwait hsubmit hnone ⊢
  rcases r with _ | e | data
  · refine ⟨hwait, (hnone rfl).trans h.full, ?_, h.alive⟩
    exact h.stalls.append (by simp) (by simp)
  · obtain ⟨hagain, hpending⟩ := hsubmit (.error e) rfl
    apply wp_ite
    · intro _
      refine fail_wp (.fatal e) hwait h.alive ?_
      intro n hn
      cases hn
    · intro _
      apply wp_ite
      · rintro rfl
        exact handleStall_wp lawful transferSize hwait h.stalls.stall h.alive
      · intro hne
        simp only [wp_bind, onPort, wp_zoom, Port.submit, wp_update, wp_pure]
        refine ⟨hagain, hpending, ?_, h.alive⟩
        have hother := h.stalls.append (l := [.waited .read (some (.error e))])
          (by simpa using fun he => hne he.symm) (by simp)
        exact hother.append (by simp) (by simp)
  · obtain ⟨hagain, hpending⟩ := hsubmit (.ok data) rfl
    simp only [wp_bind, onPort, wp_zoom, Port.submit, wp_update]
    obtain ⟨t, ht, hsteps⟩ := @Rx.handleTransfer_steps hostMac clock data s.rx
    exact onRx_wp ht ⟨hagain, hpending, stallRun_zero _, hsteps.noFailure h.alive⟩

theorem turn_wp (lawful : ep.Lawful) (shutdown : κ → Bool × κ) (transferSize : Nat)
    (h : AtHead ep s) :
    wp (turn ep shutdown hostMac clock transferSize)
      (fun r t => match r with | none => AtHead ep t | some () => Ended ep t) E s := by
  rw [turn, wp_bind, loadShutdown, wp_apply]
  apply wp_ite
  · intro _
    exact ⟨h.orderly, .of_alive h.alive⟩
  · intro _
    rw [wp_bind]
    have hload : AtHead ep { s with
        shutdown := s.shutdown || (shutdown s.sched).1, sched := (shutdown s.sched).2 } :=
      ⟨h.orderly, h.full, h.stalls, h.alive⟩
    refine wp_mono (receive_wp lawful transferSize hload) ?_ (fun _ _ he => he)
    intro go t ht
    cases go with
    | false => exact ht
    | true =>
      rw [if_pos rfl, wp_bind]
      obtain ⟨r, u, new, hdue, hpoll, hnew⟩ := @Rx.poll_step hostMac clock t.rx
      refine onRx_wp hpoll ⟨ht.orderly, ht.full, ht.stalls, ?_⟩
      dsimp only
      rw [hdue.kept.1]
      refine ht.alive.append fun cause hmem => ?_
      obtain ⟨frame, hframe⟩ := hnew _ hmem
      cases hframe

theorem rxLoop_wp (lawful : ep.Lawful) (shutdown : κ → Bool × κ) (transferSize turns : Nat)
    (horderly : Orderly ep rxDepth s.bulkIn) (hempty : ep.pending s.bulkIn.dev = 0)
    (hstalls : s.stalls = 0) (halive : Rx.NoFailure s.rx.log) :
    wp (rxLoop ep shutdown hostMac clock transferSize turns) (fun _ => Ended ep)
      (fun e t => e = .err .head ∧ AtHead ep t) s := by
  simp only [rxLoop, wp_bind]
  rw [onPort, wp_zoom]
  have hfill := submitReads_orderly (ω := Halt Unfinished) lawful transferSize rxDepth horderly
    (by omega)
  refine wp_mono hfill ?_ (fun _ _ hf => hf.elim)
  intro _ q hres
  obtain ⟨hq, hpending, _⟩ := hres
  obtain ⟨frame, hstart⟩ := @Rx.start_eq hostMac clock s.rx
  refine onRx_wp hstart ?_
  refine wp_loop (AtHead ep) ?_ (fun _ ht => ⟨rfl, ht⟩) turns ?_
  · intro t ht
    refine wp_mono (turn_wp lawful shutdown transferSize ht) ?_ (fun _ _ he => he)
    intro r u hu
    cases r <;> exact hu
  · refine ⟨hq, ?_, ?_, halive.append ?_⟩
    · rw [hpending, hempty, Nat.zero_add]
    · dsimp only
      rw [hstalls]
      exact stallRun_zero _
    · simp [Rx.NoFailure]

end Turns

/-- What every run of the RX thread shows: it has ended or is at the head of its loop
with a full queue, its calls are in order, and it gives up at most once. -/
structure WellRun (ep : InEndpoint ε) (r : Except (Halt Unfinished) Unit × RxThread ε κ) : Prop where
  heads : r.1 = .ok () ∨ r.1 = .error (.err .head) ∧ ep.pending r.2.bulkIn.dev = rxDepth
  orderly : Orderly ep rxDepth r.2.bulkIn
  once : GivesUpOnce r.2

theorem wellRun_of_wp {ep : InEndpoint ε} {p : RxThreadM ε κ Unit} {s : RxThread ε κ}
    (h : wp p (fun _ => Ended ep) (fun e t => e = .err .head ∧ AtHead ep t) s) :
    WellRun ep (p s) := by
  unfold wp at h
  generalize p s = r at h ⊢
  rcases r with ⟨e | u, t⟩
  · obtain ⟨rfl, ht⟩ := h
    exact ⟨Or.inr ⟨rfl, ht.full⟩, ht.orderly, ht.ended.once⟩
  · exact ⟨Or.inl rfl, h.orderly, h.once⟩

/-- The queue discipline of both threads, in every run. -/
theorem queue_discipline {ζ ι : Type} {bulkIn : InEndpoint ε} {bulkOut : OutEndpoint ζ}
    (lawfulIn : bulkIn.Lawful) (lawfulOut : bulkOut.Lawful) {dev : ε} {out : ζ}
    (hdev : bulkIn.pending dev = 0) (hout : bulkOut.pending out = 0) (shutdown : κ → Bool × κ)
    (hostMac : MacAddr) (clock : Nat → Instant) (transferSize rxTurns : Nat) (sched : κ)
    (world : Schedule ι) (limits : TxLimits) (txTurns txSteps : Nat) (txSched : ι)
    (frames : List Bytes) :
    WellRun bulkIn (rxLoop bulkIn shutdown hostMac clock transferSize rxTurns
      (initial hostMac dev sched)) ∧
    Orderly bulkOut.toEndpoint txDepth
      (Tx.txLoop bulkOut world limits txTurns txSteps (Tx.start out txSched frames)).2.bulkOut := by
  constructor
  · apply wellRun_of_wp
    exact rxLoop_wp lawfulIn shutdown transferSize rxTurns (.of_empty hdev) hdev rfl
      (fun _ hmem => by cases hmem)
  · exact Tx.txLoop_orderly world lawfulOut limits txTurns txSteps (.of_empty hout)

/-- Every read of `rx_loop` stalls; reads cancelled by a recovery come back as if
they had succeeded, and clearing the halt adds `extra` to the count. -/
def stallingPipe (extra : Nat) : InEndpoint (Nat × Bool) where
  pending e := e.1
  submit e _ := (e.1 + 1, false)
  wait e _ :=
    match e with
    | (0, draining) => (none, (0, draining))
    | (n + 1, true) => (some (.ok []), (n, true))
    | (n + 1, false) => (some (.error .stall), (n, false))
  cancelAll e := (e.1, true)
  clearHalt e := (.ok (), (e.1 + extra, false))

theorem stallingPipe_counts (extra : Nat) : (stallingPipe extra).Counts where
  submit _ _ := rfl
  waitSome := by
    rintro ⟨_ | n, _ | _⟩ _ r hr
    · cases hr
    · cases hr
    · rfl
    · rfl
  waitNone := by
    rintro ⟨_ | n, _ | _⟩ _ hr
    · rfl
    · rfl
    · cases hr
    · cases hr
  cancelAll _ := rfl

theorem stallingPipe_lawful : (stallingPipe 0).Lawful where
  toCounts := stallingPipe_counts 0
  clearHalt _ := rfl

theorem stallingPipe_responsive (extra : Nat) : (stallingPipe extra).Responsive := by
  rintro ⟨_ | n, _ | _⟩ _ _ hpos
  · cases hpos
  · cases hpos
  · rfl
  · rfl

def stallingRun (extra turns : Nat) : Except (Halt Unfinished) Unit × RxThread (Nat × Bool) Unit :=
  rxLoop (stallingPipe extra) (fun _ => (false, ())) ⟨2, 0, 0, 0, 0, 1⟩ (fun _ => 0) 16384 turns
    (initial ⟨2, 0, 0, 0, 0, 1⟩ (0, false) ())

theorem queue_discipline_stalling :
    WellRun (stallingPipe 0) (stallingRun 0 6) ∧ ClearsHalts (stallingRun 0 6).2.bulkIn.log ∧
      Orderly Tx.haltedPipe.toEndpoint txDepth (Tx.txLoop Tx.haltedPipe allQueued ⟨1580, 1, 1⟩ 1 12
        (Tx.start 0 () (List.replicate 9 (List.replicate 60 0)))).2.bulkOut := by
  have hdev : (stallingPipe 0).pending (0, false) = 0 := rfl
  have hout : Tx.haltedPipe.pending 0 = 0 := rfl
  obtain ⟨hrx, htx⟩ := queue_discipline stallingPipe_lawful Tx.haltedPipe_lawful hdev hout
    (fun _ => (false, ())) ⟨2, 0, 0, 0, 0, 1⟩ (fun _ => 0) 16384 6 () allQueued ⟨1580, 1, 1⟩ 1 12 ()
    (List.replicate 9 (List.replicate 60 0))
  exact ⟨hrx, hrx.orderly.clears (stallingPipe_responsive 0), htx⟩

/-- The stalls since the last successful read, whichever wait returned it. -/
def stallsSinceRead (log : List (Call Nat Bytes)) : Nat := log.foldl (fun n c =>
  match c with
  | .waited _ (some (.ok _)) => 0
  | .waited _ (some (.error .stall)) => n + 1
  | _ => n) 0

def gaveUpAfter : Effect → Option Nat
  | .event (.failed (.stalled n)) => some n
  | _ => none

/-- Reads that a recovery drains do not reset the count of stalls, and a count that
changes when the halt is cleared is never put right. -/
theorem drained_reads_do_not_reset :
    ((stallingPipe 0).Counts ∧ (stallingRun 0 6).2.rx.log.filterMap gaveUpAfter = [6] ∧
      ∀ l ∈ (stallingRun 0 6).2.bulkIn.log.inits, stallsSinceRead l ≤ 1) ∧
    ((stallingPipe 1).Counts ∧ (stallingRun 1 1).1 = .error (.err .head) ∧
      (stallingPipe 1).pending (stallingRun 1 1).2.bulkIn.dev = rxDepth + 1) := by
  refine ⟨⟨stallingPipe_counts 0, ?_⟩, stallingPipe_counts 1, ?_⟩
  · decide +kernel
  · decide +kernel

end RxThread

end Muta.Link
