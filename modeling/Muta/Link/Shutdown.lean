import Muta.Link.RxRefinement

/-!
# Shutdown

`Link::shutdown` sets the flag and joins both threads. Each of them comes to its end, whatever
its endpoint does: a loop that waits on the endpoint looks at the flag whenever a wait brings
nothing, and every other loop uses up transfers or frames. How long the TX thread takes still
depends on the frames that are sent meanwhile, since the loop that fills transfers does not
look at the flag.
-/

namespace Muta.Link

open Usb Act Netstack
set_option autoImplicit false

variable {ω ε κ : Type}

/-- The flag is set by the time of the last of `left` looks at it. -/
structure Sets (shutdown : κ → Bool × κ) (left : κ → Nat) : Prop where
  le : ∀ k, left (shutdown k).2 ≤ left k
  lt : ∀ k, (shutdown k).1 = false → left (shutdown k).2 < left k

structure Schedule.Ends (world : Schedule κ) (left : κ → Nat) : Prop extends
    Sets world.shutdown left where
  queued : ∀ k, left (world.queued k).2 ≤ left k
  hungUp : ∀ k, left (world.hungUp k).2 ≤ left k

namespace Tx

section Ends

variable {ep : OutEndpoint ε} {world : Schedule κ} {left : κ → Nat} {s : Tx ε κ}
  {F : Unfinished → Port ε Bytes Unit → Prop} {E : Unfinished → Tx ε κ → Prop}

theorem reap_ends (lawful : ep.Lawful) {steps : Nat} (hsteps : txDepth < steps) (timeout : Duration)
    {p : Port ε Bytes Unit} (h : Orderly ep.toEndpoint txDepth p) :
    wp (Link.reap ep steps timeout) (fun _ => Orderly ep.toEndpoint txDepth) F p := by
  refine wp_loop_within
    (fun n q => Orderly ep.toEndpoint txDepth q ∧ ep.pending q.dev = n) ?_
    (Nat.lt_of_le_of_lt h.le_depth hsteps) ⟨h, rfl⟩
  intro n q hq
  obtain ⟨hq, hpending⟩ := hq
  simp only [wp_bind, wp_state]
  apply wp_ite
  · exact fun _ => hq
  · intro _
    simp only [wp_bind, Port.wait, wp_apply]
    have hwait := hq.wait lawful .reap timeout
    have hsome := lawful.waitSome q.dev timeout
    generalize (ep.wait q.dev timeout).1 = r at hwait hsome ⊢
    rcases r with _ | e | u
    · exact hwait
    · apply wp_ite
      · intro _
        rw [wp_bind]
        refine wp_mono (hwait.recoverHalt lawful _) (fun _ _ hr => hr.1) (fun _ _ hf => hf.elim)
      · exact fun _ => hwait
    · have hless := hsome _ rfl
      refine ⟨_, ?_, hwait, rfl⟩
      dsimp only
      omega

/-- At most `looks` more looks at the flag bring nothing, and at most `frames` are to come. -/
structure Ready (ep : OutEndpoint ε) (left : κ → Nat) (looks frames : Nat) (s : Tx ε κ) :
    Prop where
  orderly : Orderly ep.toEndpoint txDepth s.bulkOut
  looks : left s.sched ≤ looks
  frames : s.frames.length ≤ frames

variable {looks frames : Nat}

theorem Ready.mono {looks' frames' : Nat} (h : Ready ep left looks frames s)
    (hlooks : looks ≤ looks') (hframes : frames ≤ frames') : Ready ep left looks' frames' s :=
  ⟨h.orderly, h.looks.trans hlooks, h.frames.trans hframes⟩

theorem loadShutdown_ends (ends : Sets world.shutdown left) (h : Ready ep left looks frames s) :
    wp (loadShutdown world)
      (fun b t => Ready ep left looks frames t ∧ t.bulkOut = s.bulkOut ∧
        (b = false → left t.sched < left s.sched)) E s := by
  rw [loadShutdown, wp_apply]
  refine ⟨⟨h.orderly, (ends.le s.sched).trans h.looks, h.frames⟩, rfl, ?_⟩
  intro hb
  rw [Bool.or_eq_false_iff] at hb
  exact ends.lt s.sched hb.2

theorem tryRecv_ends (ends : world.Ends left) (h : Ready ep left looks frames s)
    {Q : Option Bytes → Tx ε κ → Prop}
    (hframe : ∀ f t, ∀ n < frames, Ready ep left looks n t → Q (some f) t)
    (hnone : ∀ t, Ready ep left looks frames t → Q none t) : wp (tryRecv world) Q E s := by
  have hqueued := (ends.queued s.sched).trans h.looks
  have hframes := h.frames
  rw [tryRecv, wp_apply]
  split
  · rename_i f rest hf
    rw [hf, List.length_cons] at hframes
    cases hq : (world.queued s.sched).1 with
    | true =>
      simp only [hq, if_true]
      exact hframe f _ rest.length (by omega) ⟨h.orderly, hqueued, Nat.le_refl _⟩
    | false =>
      simp only [hq, Bool.false_eq_true, if_false]
      exact hnone _ ⟨h.orderly, hqueued, h.frames⟩
  · exact hnone _ h

theorem recvTimeout_ends (ends : world.Ends left) (h : Ready ep left looks frames s) :
    wp (recvTimeout world) (fun _ => Ready ep left looks frames) E s := by
  have hqueued := (ends.queued s.sched).trans h.looks
  have hgone := (ends.hungUp s.sched).trans h.looks
  have hframes := h.frames
  rw [recvTimeout, wp_apply]
  split
  · rename_i f rest hf
    rw [hf, List.length_cons] at hframes
    cases hq : (world.queued s.sched).1 with
    | true =>
      simp only [hq, if_true]
      exact ⟨h.orderly, hqueued, by dsimp only; omega⟩
    | false =>
      simp only [hq, Bool.false_eq_true, if_false]
      exact ⟨h.orderly, hqueued, h.frames⟩
  · exact ⟨h.orderly, hgone, h.frames⟩

/-- Each wait that brings something leaves fewer transfers pending, and each that brings
nothing leads to a look at the flag. -/
theorem awaitRoom_ends (lawful : ep.Lawful) (ends : world.Ends left) {steps : Nat}
    (hsteps : txDepth + looks < steps) (h : Ready ep left looks frames s) :
    wp (awaitRoom ep world steps)
      (fun gaveUp t => Ready ep left looks frames t ∧
        (gaveUp = false → ep.pending t.bulkOut.dev < txDepth)) E s := by
  have hlooks := h.looks
  have hdepth := h.orderly.le_depth
  refine wp_loop_within
    (fun n t => Ready ep left looks frames t ∧ ep.pending t.bulkOut.dev + left t.sched = n) ?_
    (n := steps) (k := ep.pending s.bulkOut.dev + left s.sched) (by omega) ⟨h, rfl⟩
  intro n t ht
  obtain ⟨ht, hn⟩ := ht
  simp only [wp_bind, wp_state]
  apply wp_ite
  · exact fun hlt => ⟨ht, fun _ => hlt⟩
  · intro _
    simp only [wp_bind, onPort, wp_zoom, Port.wait, wp_apply]
    have hwait := ht.orderly.wait lawful .backPressure tick
    have hsome := lawful.waitSome t.bulkOut.dev tick
    have hnone := lawful.waitNone t.bulkOut.dev tick
    generalize (ep.wait t.bulkOut.dev tick).1 = r at hwait hsome hnone ⊢
    cases r with
    | some r =>
      have hless := hsome r rfl
      refine ⟨_, ?_, ⟨hwait, ht.looks, ht.frames⟩, rfl⟩
      dsimp only
      omega
    | none =>
      have hsame := hnone rfl
      rw [wp_bind]
      refine wp_mono (loadShutdown_ends ends.toSets ⟨hwait, ht.looks, ht.frames⟩) ?_
        (fun _ _ he => he)
      intro b u hu
      obtain ⟨hu, hport, hless⟩ := hu
      cases b with
      | true => exact ⟨hu, fun hf => by cases hf⟩
      | false =>
        have hless := hless rfl
        refine ⟨_, ?_, hu, rfl⟩
        rw [hport]
        dsimp only at hless ⊢
        omega

theorem flush_ends (lawful : ep.Lawful) (ends : world.Ends left) (maxPacket : Nat) {steps : Nat}
    (hsteps : txDepth + looks < steps) (h : Ready ep left looks frames s) :
    wp (flush ep world maxPacket steps) (fun _ => Ready ep left looks frames) E s := by
  simp only [flush, wp_bind, wp_state]
  apply wp_ite
  · exact fun _ => h
  · intro _
    simp only [wp_bind, wp_update]
    have hterm : Ready ep left looks frames (terminate maxPacket s) := by
      unfold terminate
      split
      · exact ⟨h.orderly, h.looks, h.frames⟩
      · exact h
    refine wp_mono (awaitRoom_ends lawful ends hsteps hterm) ?_ (fun _ _ he => he)
    intro gaveUp t ht
    obtain ⟨ht, hroom⟩ := ht
    cases gaveUp with
    | true => exact ht
    | false =>
      simp only [wp_bind, wp_update, wp_state, Bool.false_eq_true, if_false]
      rw [onPort, wp_zoom, Port.submit, wp_update, onPort, wp_zoom]
      have hsubmit := ht.orderly.submit lawful (hroom rfl) t.batch
      refine wp_mono (reap_ends (F := fun _ _ => False) lawful (by omega) 0 hsubmit) ?_
        (fun _ _ hf => hf.elim)
      intro _ q hq
      exact ⟨hq, ht.looks, ht.frames⟩

theorem makeRoom_ends (lawful : ep.Lawful) (ends : world.Ends left) (limits : TxLimits)
    (maxPacket : Nat) {steps : Nat} (hsteps : txDepth + looks < steps) (f : Bytes)
    (h : Ready ep left looks frames s) :
    wp (makeRoom ep world limits maxPacket steps f) (fun _ => Ready ep left looks frames) E s := by
  simp only [makeRoom, wp_bind, wp_state]
  apply wp_ite
  · exact fun _ => h
  · intro _
    rw [wp_bind]
    exact wp_mono (flush_ends lawful ends maxPacket hsteps h) (fun _ _ ht => ht) (fun _ _ he => he)

/-- Each iteration but the last takes a frame off the channel. -/
theorem fill_ends (lawful : ep.Lawful) (ends : world.Ends left) (limits : TxLimits)
    (maxPacket : Nat) {steps : Nat} (hsteps : txDepth + looks < steps) (hframes : frames < steps)
    (f : Bytes) (h : Ready ep left looks frames s) :
    wp (fill ep world limits maxPacket steps f) (fun _ => Ready ep left looks frames) E s := by
  refine wp_iter_within (fun n _ t => n ≤ frames ∧ Ready ep left looks n t) ?_ hframes f
    ⟨Nat.le_refl _, h⟩
  intro n g t ht
  obtain ⟨hn, ht⟩ := ht
  rw [wp_bind]
  refine wp_mono (makeRoom_ends lawful ends limits maxPacket hsteps g ht) ?_ (fun _ _ he => he)
  intro room u hu
  apply wp_ite
  · intro _
    simp only [wp_bind, push, wp_update]
    have hpushed : Ready ep left looks n { u with
        batch := Packet.append u.batch g limits.alignment, packets := u.packets + 1 } :=
      ⟨hu.orderly, hu.looks, hu.frames⟩
    apply tryRecv_ends ends hpushed
    · exact fun next v m hm hv => ⟨m, hm, by omega, hv⟩
    · exact fun v hv => hv.mono (Nat.le_refl _) hn
  · exact fun _ => hu.mono (Nat.le_refl _) hn

theorem turn_ends (lawful : ep.Lawful) (ends : world.Ends left) (limits : TxLimits)
    (maxPacket : Nat) {steps : Nat} (hsteps : txDepth + looks < steps) (hframes : frames < steps)
    (h : Ready ep left looks frames s) :
    wp (turn ep world limits maxPacket steps)
      (fun r t => match r with
        | none => ∃ n < looks, Ready ep left n frames t
        | some () => Ready ep left looks frames t) E s := by
  rw [turn, wp_bind]
  refine wp_mono (loadShutdown_ends ends.toSets h) ?_ (fun _ _ he => he)
  intro told t ht
  obtain ⟨ht, _, hless⟩ := ht
  apply wp_ite
  · exact fun _ => ht
  · intro htold
    have hless := hless (Bool.eq_false_iff.mpr htold)
    have hlooks := h.looks
    obtain ⟨n, hn, ht⟩ : ∃ n < looks, Ready ep left n frames t :=
      ⟨left t.sched, by omega, ht.orderly, Nat.le_refl _, ht.frames⟩
    rw [wp_bind]
    refine wp_mono (recvTimeout_ends ends ht) ?_ (fun _ _ he => he)
    intro received u hu
    cases received with
    | frame f =>
      simp only [wp_bind]
      refine wp_mono (fill_ends lawful ends limits maxPacket (by omega) hframes f hu) ?_
        (fun _ _ he => he)
      intro _ v hv
      refine wp_mono (flush_ends lawful ends maxPacket (by omega) hv) ?_ (fun _ _ he => he)
      exact fun _ w hw => ⟨n, hn, hw⟩
    | timeout =>
      rw [wp_bind, onPort, wp_zoom]
      refine wp_mono (reap_ends (F := fun _ _ => False) lawful (by omega) 0 hu.orderly) ?_
        (fun _ _ hf => hf.elim)
      exact fun _ q hq => ⟨n, hn, hq, hu.looks, hu.frames⟩
    | disconnected => exact hu.mono (Nat.le_of_lt hn) (Nat.le_refl _)

theorem txLoop_ends (lawful : ep.Lawful) (ends : world.Ends left) (limits : TxLimits)
    {turns steps : Nat} (hturns : looks < turns) (hsteps : txDepth + looks < steps)
    (hframes : frames < steps) (h : Ready ep left looks frames s) :
    wp (txLoop ep world limits turns steps) (fun _ _ => True) E s := by
  simp only [txLoop, wp_bind, wp_state]
  generalize max (ep.maxPacketSize s.bulkOut.dev) 1 = maxPacket
  have hloop : wp (loop .head (turn ep world limits maxPacket steps) turns)
      (fun _ => Ready ep left looks frames) E s := by
    refine wp_loop_within (fun n t => n ≤ looks ∧ Ready ep left n frames t) ?_ hturns
      ⟨Nat.le_refl _, h⟩
    intro n t ht
    obtain ⟨hn, ht⟩ := ht
    refine wp_mono (turn_ends lawful ends limits maxPacket (by omega) hframes ht) ?_
      (fun _ _ he => he)
    intro r u hu
    cases r with
    | none =>
      obtain ⟨m, hm, hu⟩ := hu
      exact ⟨m, hm, by omega, hu⟩
    | some u => exact hu.mono hn (Nat.le_refl _)
  refine wp_mono hloop ?_ (fun _ _ he => he)
  intro _ t ht
  rw [onPort, wp_zoom]
  exact wp_mono (reap_ends (F := fun _ _ => False) lawful (by omega) _ ht.orderly)
    (fun _ _ _ => trivial) (fun _ _ hf => hf.elim)

end Ends

end Tx

-- As in the refinement, unfolding it would build a whole message.
attribute [local irreducible] Rx.start

namespace RxThread

section Ends

variable {ep : InEndpoint ε} {hostMac : MacAddr} {clock : Nat → Instant} {s : RxThread ε κ}
  {E : Halt Unfinished → RxThread ε κ → Prop}

theorem fail_ends (cause : Failure) : wp (fail cause) (fun _ t => t.sched = s.sched) E s := by
  rw [fail, wp_bind]
  exact onRx_wp rfl rfl

theorem handleStall_ends (transferSize : Nat) :
    wp (handleStall ep transferSize) (fun _ t => t.sched = s.sched) E s := by
  simp only [handleStall, wp_bind, wp_update, wp_state]
  apply wp_ite
  · exact fun _ => fail_ends _
  · intro _
    rw [wp_bind, onPort, wp_zoom]
    refine wp_mono (recoverBulkIn_internal ep transferSize s.bulkIn) ?_ (fun _ _ hf => hf.elim)
    intro r q _
    cases r with
    | ok u => rfl
    | error e => exact fail_ends (s := { s with bulkIn := q, stalls := s.stalls + 1 }) (.recovery e)

/-- A wait never leads to more than one recovery, and that one is bounded. -/
theorem receive_ends (transferSize : Nat) :
    wp (receive ep hostMac clock transferSize) (fun _ t => t.sched = s.sched) E s := by
  rw [receive, wp_bind, onPort, wp_zoom, Port.wait, wp_apply]
  dsimp only
  generalize (ep.wait s.bulkIn.dev tick).1 = r
  generalize hport : (⟨(ep.wait s.bulkIn.dev tick).2, s.bulkIn.log ++ [.waited .read r]⟩ :
    Port ε Nat Bytes) = q
  rcases r with _ | e | data
  · rfl
  · apply wp_ite
    · exact fun _ => fail_ends (s := { s with bulkIn := q }) (.fatal e)
    · intro _
      apply wp_ite
      · exact fun _ => handleStall_ends (s := { s with bulkIn := q }) transferSize
      · intro _
        simp only [wp_bind, onPort, wp_zoom, Port.submit, wp_update, wp_pure]
  · simp only [wp_bind, onPort, wp_zoom, Port.submit, wp_update]
    exact onRx_wp (handleTransfer_take data s.rx) rfl

theorem turn_ends {shutdown : κ → Bool × κ} {left : κ → Nat} (sets : Sets shutdown left)
    (transferSize : Nat) :
    wp (turn ep shutdown hostMac clock transferSize)
      (fun r t => match r with | none => left t.sched < left s.sched | some () => True) E s := by
  rw [turn, wp_bind, loadShutdown, wp_apply]
  apply wp_ite
  · exact fun _ => trivial
  · intro htold
    rw [Bool.not_eq_true, Bool.or_eq_false_iff] at htold
    have hless := sets.lt s.sched htold.2
    rw [wp_bind]
    refine wp_mono (receive_ends transferSize) ?_ (fun _ _ he => he)
    intro go t ht
    dsimp only at ht
    cases go with
    | false => trivial
    | true =>
      rw [if_pos rfl, wp_bind]
      obtain ⟨_, _, _, _, hpoll, _⟩ := @Rx.poll_step hostMac clock t.rx
      refine onRx_wp hpoll ?_
      change left t.sched < left s.sched
      rwa [ht]

theorem rxLoop_ends {shutdown : κ → Bool × κ} {left : κ → Nat} (sets : Sets shutdown left)
    (transferSize : Nat) {turns : Nat} (hturns : left s.sched < turns) :
    wp (rxLoop ep shutdown hostMac clock transferSize turns) (fun _ _ => True) E s := by
  simp only [rxLoop, wp_bind]
  rw [onPort, wp_zoom]
  refine wp_mono (submitReads_internal ep transferSize rxDepth _) ?_ (fun _ _ hf => hf.elim)
  intro _ q _
  obtain ⟨_, hstart⟩ := @Rx.start_eq hostMac clock s.rx
  refine onRx_wp hstart ?_
  refine wp_loop_within (fun n t => left t.sched = n) ?_ hturns rfl
  intro n t ht
  refine wp_mono (turn_ends sets transferSize) ?_ (fun _ _ he => he)
  intro r u hu
  cases r with
  | none => exact ⟨left u.sched, by omega, rfl⟩
  | some _ => trivial

end Ends

end RxThread

theorem ok_of_wp {σ : Type} {p : Act ω σ Unit} {s : σ}
    (h : wp p (fun _ _ => True) (fun _ _ => False) s) : (p s).1 = .ok () := by
  unfold wp at h
  rcases hp : p s with ⟨_ | _, t⟩
  · rw [hp] at h
    exact h.elim
  · rfl

/-- Both threads return, so that `shutdown` does: the writing one for every endpoint that
counts its transfers, the reading one for every endpoint there is. -/
theorem shutdown_returns {ζ ι : Type} {bulkIn : InEndpoint ε} {bulkOut : OutEndpoint ζ}
    (lawful : bulkOut.Lawful) {world : Schedule ι} {left : ι → Nat} (ends : world.Ends left)
    {shutdown : κ → Bool × κ} {rxLeft : κ → Nat} (sets : Sets shutdown rxLeft) (limits : TxLimits)
    {out : ζ} (hout : bulkOut.pending out = 0) {sched : ι} {frames : List Bytes}
    {turns steps : Nat} (hturns : left sched < turns) (hsteps : txDepth + left sched < steps)
    (hframes : frames.length < steps) (hostMac : MacAddr) (clock : Nat → Instant)
    (transferSize : Nat) (dev : ε) {rxSched : κ} {rxTurns : Nat}
    (hrx : rxLeft rxSched < rxTurns) :
    (Tx.txLoop bulkOut world limits turns steps (Tx.start out sched frames)).1 = .ok () ∧
      (RxThread.rxLoop bulkIn shutdown hostMac clock transferSize rxTurns
        (.initial hostMac dev rxSched)).1 = .ok () := by
  constructor
  · apply ok_of_wp
    exact Tx.txLoop_ends lawful ends limits hturns hsteps hframes
      ⟨.of_empty hout, Nat.le_refl _, Nat.le_refl _⟩
  · apply ok_of_wp
    have hlooks : rxLeft (RxThread.initial hostMac dev rxSched).sched < rxTurns := hrx
    exact RxThread.rxLoop_ends sets transferSize hlooks

def countdown : Nat → Bool × Nat
  | 0 => (true, 0)
  | n + 1 => (false, n)

theorem countdown_sets : Sets countdown id where
  le k := by
    cases k with
    | zero => exact Nat.le_refl _
    | succ n => exact Nat.le_succ n
  lt k hk := by
    cases k with
    | zero => cases hk
    | succ n => exact Nat.lt_succ_self n

def hurried : Schedule Nat where
  queued k := (true, k)
  hungUp k := (false, k)
  shutdown := countdown

theorem hurried_ends : hurried.Ends id where
  toSets := countdown_sets
  queued _ := Nat.le_refl _
  hungUp _ := Nat.le_refl _

/-- The threads of a link both of whose pipes stall. -/
theorem shutdown_returns_stalling :
    (Tx.txLoop Tx.haltedPipe hurried ⟨1580, 1, 1⟩ 3 12
      (Tx.start 0 2 (List.replicate 9 (List.replicate 60 0)))).1 = .ok () ∧
    (RxThread.rxLoop (RxThread.stallingPipe 0) countdown ⟨2, 0, 0, 0, 0, 1⟩ (fun _ => 0) 16384 3
      (.initial ⟨2, 0, 0, 0, 0, 1⟩ (0, false) 2)).1 = .ok () :=
  shutdown_returns Tx.haltedPipe_lawful hurried_ends countdown_sets ⟨1580, 1, 1⟩ rfl (by decide)
    (by decide) (by decide) ⟨2, 0, 0, 0, 0, 1⟩ (fun _ => 0) 16384 (0, false) (by decide)

end Muta.Link
