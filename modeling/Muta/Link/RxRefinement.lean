import Muta.Link.RxDispatch
import Muta.Link.RxLoop
import Muta.Link.RxRun

/-!
# The loop runs the machine

`rxLoop` waits, recovers and gives up as its endpoint has it; what it does to the thread's
state is a run of the machine. The inputs of that run are read off the endpoint's log: the
frames of each read that the loop itself collected, and a check of the timer after each
wait. Reads that a recovery drains are no inputs.
-/

namespace Muta.Link

open Usb Act Netstack Dhcp
set_option autoImplicit false

namespace RxThread

def brought : Call Nat Bytes → Option (List Bytes)
  | .waited .read (some (.ok data)) => some (Rx.frames data)
  | .waited .read _ => some []
  | _ => none

/-- What a wait is to the machine: the frames, and then a check of the timer. -/
def turnInputs (fs : List Bytes) : List Rx.Input := fs.map Rx.Input.frame ++ [.poll]

def inputs (log : List (Call Nat Bytes)) : List Rx.Input :=
  (log.filterMap brought).flatMap turnInputs

theorem inputs_append (log new : List (Call Nat Bytes)) :
    inputs (log ++ new) = inputs log ++ inputs new := by
  rw [inputs, List.filterMap_append, List.flatMap_append]
  rfl

def Internal (log : List (Call Nat Bytes)) : Prop := ∀ r, Call.waited .read r ∉ log

theorem Internal.inputs_eq {log : List (Call Nat Bytes)} (h : Internal log) : inputs log = [] := by
  have hnone : log.filterMap brought = [] := by
    rw [List.filterMap_eq_nil_iff]
    intro c hc
    cases c with
    | waited site r =>
      cases site with
      | read => exact absurd hc (h r)
      | _ => rfl
    | _ => rfl
  rw [inputs, hnone]
  rfl

theorem inputs_internal {log new : List (Call Nat Bytes)} (h : Internal new) :
    inputs (log ++ new) = inputs log := by
  rw [inputs_append, h.inputs_eq, List.append_nil]

theorem inputs_wait (log : List (Call Nat Bytes)) {r : Option (Except UsbError Bytes)}
    (h : ∀ data, r ≠ some (.ok data)) : inputs (log ++ [.waited .read r]) = inputs log ++ [.poll] := by
  rw [inputs_append]
  rcases r with _ | e | data
  · rfl
  · rfl
  · exact absurd rfl (h data)

theorem inputs_read (log : List (Call Nat Bytes)) (data : Bytes) :
    inputs (log ++ [.waited .read (some (.ok data))]) =
      inputs log ++ (Rx.frames data).map Rx.Input.frame ++ [.poll] := by
  rw [inputs_append, List.append_assoc]
  exact congrArg (inputs log ++ ·) (List.append_nil _)

end RxThread

section Internal

variable {ω ε : Type} (ep : InEndpoint ε) (transferSize : Nat)

theorem submitReads_internal (n : Nat) (p : Port ε Nat Bytes) :
    wp (submitReads ep transferSize n : Act ω _ _)
      (fun _ q => ∃ l, q.log = p.log ++ l ∧ RxThread.Internal l) (fun _ _ => False) p := by
  induction n generalizing p with
  | zero => exact ⟨[], (List.append_nil _).symm, fun r hmem => by cases hmem⟩
  | succ n ih =>
    simp only [submitReads, wp_bind, Port.submit, wp_update]
    refine wp_mono (ih _) ?_ (fun _ _ hf => hf)
    intro _ q hq
    obtain ⟨l, hlog, hl⟩ := hq
    refine ⟨.submit transferSize :: l, ?_, ?_⟩
    · rw [hlog, List.append_assoc]
      rfl
    · intro r hmem
      rcases List.mem_cons.mp hmem with heq | hmem
      · cases heq
      · exact hl r hmem

theorem recoverBulkIn_internal (p : Port ε Nat Bytes) :
    wp (recoverBulkIn ep transferSize : Act ω _ _)
      (fun _ q => ∃ l, q.log = p.log ++ l ∧ RxThread.Internal l) (fun _ _ => False) p := by
  rw [recoverBulkIn, wp_bind]
  refine wp_mono (recoverHalt_log ep rxDepth _ p) ?_ (fun _ _ hf => hf)
  intro r q hq
  obtain ⟨l, hlog, hl⟩ := hq
  have hinternal : RxThread.Internal l := by
    intro x hmem
    rcases hl.mem_cases hmem with hx | ⟨y, hx⟩ | hx | ⟨y, hx⟩ <;> cases hx
  cases r with
  | error e => exact ⟨l, hlog, hinternal⟩
  | ok u =>
    rw [wp_bind]
    refine wp_mono (submitReads_internal ep transferSize rxDepth q) ?_ (fun _ _ hf => hf)
    intro _ t ht
    obtain ⟨l', hlog', hl'⟩ := ht
    refine ⟨l ++ l', ?_, ?_⟩
    · rw [hlog', hlog, List.append_assoc]
    · intro x hmem
      rcases List.mem_append.mp hmem with hmem | hmem
      · exact hinternal x hmem
      · exact hl' x hmem

end Internal

namespace RxThread

variable {ε κ : Type} {ep : InEndpoint ε} {hostMac : MacAddr} {clock : Nat → Instant}
  {E : Halt Unfinished → RxThread ε κ → Prop} {s : RxThread ε κ}

-- `start_eq` says all there is to know; unfolding it would build a whole message.
attribute [local irreducible] Rx.start

theorem handleTransfer_take (data : Bytes) (s : Rx) :
    Rx.handleTransfer hostMac clock data s =
      (.ok (), ((Rx.frames data).map Rx.Input.frame).foldl (Rx.take hostMac clock) s) := by
  rw [Rx.handleTransfer_eq]
  generalize Rx.frames data = fs
  induction fs generalizing s with
  | nil => rfl
  | cons f fs ih =>
    obtain ⟨t, hframe, _⟩ := @Rx.handleFrame_step hostMac clock f s
    rw [Rx.handleAll, bind_apply_ok _ _ hframe, ih t, List.map_cons, List.foldl_cons, Rx.take, hframe]

def Reaches (hostMac : MacAddr) (clock : Nat → Instant) (is : List Rx.Input) (s : Rx) : Prop :=
  ∃ past, Machine.Run (Rx.thread hostMac clock) Machine.any past s ∧ past.map Prod.snd = is

theorem Reaches.takes {is : List Rx.Input} {s : Rx} (h : Reaches hostMac clock is s)
    (new : List Rx.Input) : Reaches hostMac clock (is ++ new) (new.foldl (Rx.take hostMac clock) s) := by
  obtain ⟨past, run, rfl⟩ := h
  refine ⟨_, run.takeAll new, ?_⟩
  rw [List.map_append, Machine.map_snd_trace]

/-- At the head of the loop, and after it was told to end. -/
def Follows (hostMac : MacAddr) (clock : Nat → Instant) (s : RxThread ε κ) : Prop :=
  Reaches hostMac clock (inputs s.bulkIn.log) s.rx

/-- The state after a wait has been dealt with: the check of the timer is still to come. -/
def Waited (hostMac : MacAddr) (clock : Nat → Instant) (s : RxThread ε κ) : Prop :=
  ∃ is, inputs s.bulkIn.log = is ++ [.poll] ∧ Reaches hostMac clock is s.rx

def GaveUp (hostMac : MacAddr) (clock : Nat → Instant) (s : RxThread ε κ) : Prop :=
  ∃ is t cause, inputs s.bulkIn.log = is ++ [.poll] ∧ Reaches hostMac clock is t ∧
    s.rx = { t with log := t.log ++ [.event (.failed cause)] }

theorem fail_follows {cause : Failure} (h : Waited hostMac clock s) :
    wp (fail cause) (fun go t => if go then Waited hostMac clock t else GaveUp hostMac clock t) E s := by
  obtain ⟨is, hinputs, hreaches⟩ := h
  rw [fail, wp_bind]
  exact onRx_wp rfl ⟨is, s.rx, cause, hinputs, hreaches, rfl⟩

theorem handleStall_follows (transferSize : Nat) (h : Waited hostMac clock s) :
    wp (handleStall ep transferSize)
      (fun go t => if go then Waited hostMac clock t else GaveUp hostMac clock t) E s := by
  obtain ⟨is, hinputs, hreaches⟩ := h
  simp only [handleStall, wp_bind, wp_update, wp_state]
  apply wp_ite
  · intro _
    exact fail_follows ⟨is, hinputs, hreaches⟩
  · intro _
    rw [wp_bind, onPort, wp_zoom]
    refine wp_mono (recoverBulkIn_internal ep transferSize s.bulkIn) ?_ (fun _ _ hf => hf.elim)
    intro r q hq
    obtain ⟨l, hlog, hl⟩ := hq
    have hafter : inputs q.log = is ++ [.poll] := by rw [hlog, inputs_internal hl, hinputs]
    cases r with
    | ok u => exact ⟨is, hafter, hreaches⟩
    | error e => exact fail_follows ⟨is, hafter, hreaches⟩

theorem internal_submit (transferSize : Nat) : Internal [.submit transferSize] := by
  intro r hmem
  cases List.mem_singleton.mp hmem

theorem receive_follows (transferSize : Nat) (h : Follows hostMac clock s) :
    wp (receive ep hostMac clock transferSize)
      (fun go t => if go then Waited hostMac clock t else GaveUp hostMac clock t) E s := by
  rw [receive, wp_bind, onPort, wp_zoom, Port.wait, wp_apply]
  dsimp only
  generalize (ep.wait s.bulkIn.dev tick).1 = r
  rcases r with _ | e | data
  · exact ⟨_, inputs_wait _ (fun _ hr => by cases hr), h⟩
  · have hwaited : inputs (s.bulkIn.log ++ [.waited .read (some (.error e))]) =
        inputs s.bulkIn.log ++ [.poll] := inputs_wait _ (fun _ hr => by cases hr)
    apply wp_ite
    · intro _
      exact fail_follows ⟨_, hwaited, h⟩
    · intro _
      apply wp_ite
      · intro _
        exact handleStall_follows transferSize ⟨_, hwaited, h⟩
      · intro _
        simp only [wp_bind, onPort, wp_zoom, Port.submit, wp_update, wp_pure]
        refine ⟨_, ?_, h⟩
        dsimp only
        rw [inputs_internal (internal_submit transferSize), hwaited]
  · simp only [wp_bind, onPort, wp_zoom, Port.submit, wp_update]
    refine onRx_wp (handleTransfer_take data s.rx) ⟨_, ?_, h.takes _⟩
    dsimp only
    rw [inputs_internal (internal_submit transferSize), inputs_read]

theorem turn_follows (shutdown : κ → Bool × κ) (transferSize : Nat) (h : Follows hostMac clock s) :
    wp (turn ep shutdown hostMac clock transferSize)
      (fun r t => match r with
        | none => Follows hostMac clock t
        | some () => Follows hostMac clock t ∨ GaveUp hostMac clock t) E s := by
  rw [turn, wp_bind, loadShutdown, wp_apply]
  apply wp_ite
  · intro _
    exact Or.inl h
  · intro _
    rw [wp_bind]
    refine wp_mono (receive_follows (s := { s with
      shutdown := s.shutdown || (shutdown s.sched).1, sched := (shutdown s.sched).2 })
      transferSize h) ?_ (fun _ _ he => he)
    intro go t ht
    cases go with
    | false => exact Or.inr ht
    | true =>
      rw [if_pos rfl] at ht
      obtain ⟨is, hinputs, hreaches⟩ := ht
      rw [if_pos rfl, wp_bind]
      have hpoll : Rx.poll hostMac clock t.rx = (.ok (), Rx.take hostMac clock t.rx .poll) := by
        obtain ⟨_, _, _, _, hpoll, _⟩ := @Rx.poll_step hostMac clock t.rx
        rw [Rx.take, hpoll]
      refine onRx_wp hpoll ?_
      have hnext := hreaches.takes [.poll]
      rw [← hinputs] at hnext
      exact hnext

theorem rxLoop_follows (ep : InEndpoint ε) (shutdown : κ → Bool × κ) (transferSize turns : Nat)
    (dev : ε) (sched : κ) :
    wp (rxLoop ep shutdown hostMac clock transferSize turns)
      (fun _ t => Follows hostMac clock t ∨ GaveUp hostMac clock t)
      (fun e t => e = .err .head ∧ Follows hostMac clock t) (initial hostMac dev sched) := by
  simp only [rxLoop, wp_bind]
  rw [onPort, wp_zoom]
  refine wp_mono (submitReads_internal ep transferSize rxDepth _) ?_ (fun _ _ hf => hf.elim)
  intro _ q hq
  obtain ⟨l, hlog, hl⟩ := hq
  have hstart : Rx.start hostMac clock (.initial hostMac) =
      (.ok (), (Rx.thread hostMac clock).start) := by
    obtain ⟨frame, hstart⟩ := @Rx.start_eq hostMac clock (.initial hostMac)
    rw [Rx.thread, hstart]
  refine onRx_wp hstart ?_
  refine wp_loop (Follows hostMac clock) ?_ (fun _ ht => ⟨rfl, ht⟩) turns ?_
  · intro t ht
    refine wp_mono (turn_follows shutdown transferSize ht) ?_ (fun _ _ he => he)
    intro r u hu
    cases r <;> exact hu
  · refine ⟨[], .start, ?_⟩
    have hempty : inputs q.log = [] := by
      rw [hlog, inputs_internal hl]
      rfl
    exact hempty.symm

/-- The loop refines the machine. Whatever the endpoint does and however the loop ends, the
thread's state is reached by the run on what the loop's waits brought; if the thread gave
up, it reported that and left out the last check of the timer. -/
theorem rxLoop_refines (ep : InEndpoint ε) (shutdown : κ → Bool × κ) (hostMac : MacAddr)
    (clock : Nat → Instant) (transferSize turns : Nat) (dev : ε) (sched : κ) :
    let r := rxLoop ep shutdown hostMac clock transferSize turns (initial hostMac dev sched)
    ∃ past t, Machine.Run (Rx.thread hostMac clock) Machine.any past t ∧
      (past.map Prod.snd = inputs r.2.bulkIn.log ∧ r.2.rx = t ∨
        r.1 = .ok () ∧ past.map Prod.snd ++ [.poll] = inputs r.2.bulkIn.log ∧
          ∃ cause, r.2.rx = { t with log := t.log ++ [.event (.failed cause)] }) := by
  have hfollows := @rxLoop_follows ε κ hostMac clock ep shutdown transferSize turns dev sched
  unfold wp at hfollows
  generalize rxLoop ep shutdown hostMac clock transferSize turns (initial hostMac dev sched) = r
    at hfollows
  rcases r with ⟨e | u, t⟩
  · obtain ⟨_, past, run, hinputs⟩ := hfollows
    exact ⟨past, t.rx, run, Or.inl ⟨hinputs, rfl⟩⟩
  · rcases hfollows with ⟨past, run, hinputs⟩ | ⟨is, v, cause, hinputs, ⟨past, run, hpast⟩, hrx⟩
    · exact ⟨past, t.rx, run, Or.inl ⟨hinputs, rfl⟩⟩
    · exact ⟨past, v, run, Or.inr ⟨rfl, by rw [hpast, hinputs], cause, hrx⟩⟩

end RxThread

namespace Rx

variable {hostMac : MacAddr} {clock : Nat → Instant}

def Input.bytes : Input → Option Bytes
  | .frame f => some f
  | _ => none

/-- The log shows the packets of `fs` delivered and their DHCP messages handled, and no others. -/
structure Dispatched (hostMac : MacAddr) (fs : List Bytes) (log : List Effect) : Prop where
  delivered : Rx.delivered log = (fs.filter fun f => ForSink hostMac f).map (·.drop 14)
  handled : handledMessages log = fs.filterMap (dhcpMessage hostMac)

theorem Dispatched.append {fs gs : List Bytes} {log new : List Effect}
    (h : Dispatched hostMac fs log) (hnew : Dispatched hostMac gs new) :
    Dispatched hostMac (fs ++ gs) (log ++ new) where
  delivered := by
    rw [List.filter_append, List.map_append, ← h.delivered, ← hnew.delivered]
    exact List.filterMap_append
  handled := by
    rw [List.filterMap_append, ← h.handled, ← hnew.handled]
    exact List.filterMap_append

theorem FrameStep.dispatched {f : Bytes} {s t : Rx} (h : FrameStep hostMac clock s (classify hostMac f) t) :
    ∃ new, t.log = s.log ++ new ∧ Dispatched hostMac [f] new := by
  obtain ⟨new, hlog, hdelivered, hhandled⟩ := h.log
  refine ⟨new, hlog, ?_, ?_⟩
  · rw [hdelivered, classify_packet]
    by_cases hf : ForSink hostMac f <;> simp [hf]
  · rw [hhandled, classify_message, List.filterMap_cons]
    cases dhcpMessage hostMac f <;> rfl

theorem take_dispatched (s : Rx) (i : Input) :
    ∃ new, (take hostMac clock s i).log = s.log ++ new ∧ Dispatched hostMac i.bytes.toList new := by
  have htaken := @take_taken hostMac clock s i
  generalize take hostMac clock s i = t at htaken
  cases htaken with
  | frame f _ hstep => exact hstep.dispatched
  | poll r t new hdue hqueued =>
    refine ⟨new, by rw [hdue.kept.1], ?_⟩
    cases hqueued with
    | nothing => exact ⟨rfl, rfl⟩
    | message msg frame _ => exact ⟨rfl, rfl⟩
  | request lastRequest => exact ⟨[], (List.append_nil _).symm, rfl, rfl⟩

theorem run_dispatched {past : List (Rx × Input)} {s : Rx}
    (run : Machine.Run (thread hostMac clock) Machine.any past s) :
    Dispatched hostMac ((past.map Prod.snd).filterMap Input.bytes) s.log := by
  induction run with
  | start =>
    obtain ⟨frame, hstart⟩ := @start_eq hostMac clock (.initial hostMac)
    have hlog : (thread hostMac clock).start.log = [.queue frame] := by
      rw [thread, hstart]
      rfl
    rw [hlog]
    exact ⟨rfl, rfl⟩
  | @take past s i _ _ ih =>
    obtain ⟨new, hlog, hnew⟩ := @take_dispatched hostMac clock s i
    have hboth := ih.append hnew
    rw [← hlog] at hboth
    rw [List.map_append, List.filterMap_append]
    have hbytes : ([(s, i)].map Prod.snd).filterMap Input.bytes = i.bytes.toList := by
      cases i <;> rfl
    rw [hbytes]
    exact hboth

end Rx

namespace RxThread

variable {ε κ : Type} {hostMac : MacAddr} {clock : Nat → Instant}

attribute [local irreducible] Rx.start

def completed (log : List (Call Nat Bytes)) : List Bytes := log.filterMap fun c =>
  match c with
  | .waited .read (some (.ok data)) => some data
  | _ => none

theorem filterMap_bytes (fs : List Bytes) :
    (fs.map Rx.Input.frame).filterMap Rx.Input.bytes = fs := by
  rw [List.filterMap_map]
  exact List.filterMap_some

theorem completed_append (log new : List (Call Nat Bytes)) :
    completed (log ++ new) = completed log ++ completed new :=
  List.filterMap_append

theorem bytes_inputs_one (c : Call Nat Bytes) :
    (inputs [c]).filterMap Rx.Input.bytes = (completed [c]).flatMap Rx.frames := by
  rcases c with d | ⟨site, r⟩ | _ | _ | r
  · rfl
  · rcases site with _ | _ | _ | _ <;> rcases r with _ | e | data <;> try rfl
    have hread := inputs_read [] data
    rw [List.nil_append] at hread
    rw [hread, List.filterMap_append, List.filterMap_append, filterMap_bytes]
    simp [inputs, completed, Rx.Input.bytes]
  · rfl
  · rfl
  · rfl

theorem bytes_inputs (log : List (Call Nat Bytes)) :
    (inputs log).filterMap Rx.Input.bytes = (completed log).flatMap Rx.frames := by
  induction log with
  | nil => rfl
  | cons c log ih =>
    rw [← List.singleton_append, inputs_append, completed_append, List.filterMap_append,
      List.flatMap_append, bytes_inputs_one, ih]

theorem Reaches.dispatched {is : List Rx.Input} {s : Rx} (h : Reaches hostMac clock is s) :
    Rx.Dispatched hostMac (is.filterMap Rx.Input.bytes) s.log := by
  obtain ⟨past, run, rfl⟩ := h
  exact Rx.run_dispatched run

end RxThread

end Muta.Link
