import Muta.Usb.Backend

/-!
# Draining and recovering an endpoint

The parts of the link threads that touch nothing but their endpoint: reaping
finished writes and recovering from a stall. For each of them it is shown what it
adds to the log and that it keeps the queue discipline of a lawful endpoint.
-/

namespace Muta.Link

open Usb Act
set_option autoImplicit false

def rxDepth : Nat := 16
def txDepth : Nat := 8
def tick : Duration := ofMillis 200
def drainTimeout : Duration := ofMillis 250

/-- Where a thread still was when the number of steps granted to it ran out. -/
inductive Unfinished where
  /-- At the head of its main loop. -/
  | head
  /-- Waiting for room in a full queue. -/
  | full
  /-- Taking frames off the channel. -/
  | filling
  /-- Collecting finished transfers. -/
  | reaping
deriving DecidableEq, Repr

variable {ω ε δ β : Type}

/-- At most `n` waits, until nothing is pending. -/
def drain (ep : Endpoint ε δ β) : Nat → Act ω (Port ε δ β) Unit
  | 0 => pure ()
  | n + 1 => do
    if ep.pending (← state).dev = 0 then
      return
    let _ ← Port.wait ep .drain drainTimeout
    drain ep n

/-- The common part of `recover_bulk_in` and `recover_bulk_out`. -/
def recoverHalt (ep : Endpoint ε δ β) (depth : Nat) (what : String) :
    Act ω (Port ε δ β) (Except UsbError Unit) := do
  Port.cancelAll ep
  drain ep (depth + 1)
  if ep.pending (← state).dev > 0 then
    Port.undrained
    return .error (.other what)
  Port.clearHalt ep

def recoverBulkOut (ep : OutEndpoint ε) : Act ω (Port ε Bytes Unit) (Except UsbError Unit) :=
  recoverHalt ep.toEndpoint txDepth "bulk OUT transfers did not drain after cancel"

def submitReads (ep : InEndpoint ε) (transferSize : Nat) : Nat → Act ω (Port ε Nat Bytes) Unit
  | 0 => pure ()
  | n + 1 => do
    Port.submit ep transferSize
    submitReads ep transferSize n

def recoverBulkIn (ep : InEndpoint ε) (transferSize : Nat) :
    Act ω (Port ε Nat Bytes) (Except UsbError Unit) := do
  match ← recoverHalt ep rxDepth "bulk IN reads did not drain after cancel" with
  | .error e => return .error e
  | .ok () =>
    submitReads ep transferSize rxDepth
    return .ok ()

/-- Collect finished writes until none is left or one is not done. -/
def reap (ep : OutEndpoint ε) (steps : Nat) (timeout : Duration) :
    Act Unfinished (Port ε Bytes Unit) Unit :=
  loop .reaping (do
    if ep.pending (← state).dev = 0 then
      return some ()
    match ← Port.wait ep.toEndpoint .reap timeout with
    | some (.ok ()) => return none
    | some (.error e) =>
      if e = .stall then
        let _ ← recoverBulkOut ep
        return some ()
      else
        return some ()
    | none => return some ()) steps

/-- Cancel, drain, and clear the halt unless the queue did not drain. -/
def IsRecovery (l : List (Call δ β)) : Prop :=
  ∃ ws last, l = .cancelAll :: (ws ++ [last]) ∧ (∀ c ∈ ws, ∃ r, c = .waited .drain r) ∧
    (last = .undrained ∨ ∃ r, last = .clearHalt r)

theorem IsRecovery.mem_cases {l : List (Call δ β)} (h : IsRecovery l) {c : Call δ β} (hc : c ∈ l) :
    c = .cancelAll ∨ (∃ r, c = .waited .drain r) ∨ c = .undrained ∨ ∃ r, c = .clearHalt r := by
  obtain ⟨ws, last, rfl, hws, hlast⟩ := h
  rcases List.mem_cons.mp hc with rfl | hc
  · exact Or.inl rfl
  rcases List.mem_append.mp hc with hc | hc
  · exact Or.inr (Or.inl (hws c hc))
  · rw [List.mem_singleton.mp hc]
    exact Or.inr (Or.inr hlast)

theorem drain_log (ep : Endpoint ε δ β) (n : Nat) (p : Port ε δ β) :
    wp (drain ep n : Act ω _ _)
      (fun _ q => ∃ ws, q.log = p.log ++ ws ∧ ∀ c ∈ ws, ∃ r, c = .waited .drain r)
      (fun _ _ => False) p := by
  induction n generalizing p with
  | zero => exact ⟨[], by simp, by simp⟩
  | succ n ih =>
    simp only [drain, wp_bind, wp_state]
    apply wp_ite
    · intro _
      exact ⟨[], by simp, by simp⟩
    · intro _
      simp only [wp_bind, Port.wait, wp_apply]
      refine wp_mono (ih _) ?_ (fun _ _ h => h)
      intro _ q hres
      obtain ⟨ws, hlog, hws⟩ := hres
      refine ⟨.waited .drain (ep.wait p.dev drainTimeout).1 :: ws, by simpa using hlog, ?_⟩
      intro c hc
      rcases List.mem_cons.mp hc with rfl | hc
      · exact ⟨_, rfl⟩
      · exact hws c hc

theorem recoverHalt_log (ep : Endpoint ε δ β) (depth : Nat) (what : String) (p : Port ε δ β) :
    wp (recoverHalt ep depth what : Act ω _ _)
      (fun _ q => ∃ l, q.log = p.log ++ l ∧ IsRecovery l) (fun _ _ => False) p := by
  simp only [recoverHalt, wp_bind, Port.cancelAll, wp_update]
  refine wp_mono (drain_log ep _ _) ?_ (fun _ _ h => h)
  intro _ q hres
  obtain ⟨ws, hlog, hws⟩ := hres
  simp only [wp_state]
  apply wp_ite
  · intro _
    simp only [wp_bind, Port.undrained, wp_update, wp_pure]
    exact ⟨.cancelAll :: (ws ++ [.undrained]), by simp [hlog], ws, _, rfl, hws, Or.inl rfl⟩
  · intro _
    simp only [Port.clearHalt, wp_apply]
    exact ⟨.cancelAll :: (ws ++ [.clearHalt (ep.clearHalt q.dev).1]), by simp [hlog], ws, _, rfl,
      hws, Or.inr ⟨_, rfl⟩⟩

/-- The device's own count agrees with the log, and the log is disciplined. -/
structure Tracked (ep : Endpoint ε δ β) (depth : Nat) (p : Port ε δ β) : Prop where
  agrees : ep.pending p.dev = inFlight p.log
  disciplined : Disciplined depth p.log

namespace Tracked

variable {ep : Endpoint ε δ β} {depth : Nat} {p : Port ε δ β}

theorem le_depth (h : Tracked ep depth p) : ep.pending p.dev ≤ depth := by
  rw [h.agrees]
  rcases List.eq_nil_or_concat p.log with hnil | ⟨l, c, hlog⟩
  · simp [hnil, inFlight]
  · rw [List.concat_eq_append] at hlog
    have hle := (h.disciplined l c ⟨[], by simp [hlog]⟩).1
    rwa [hlog]

theorem submit (lawful : ep.Lawful) (h : Tracked ep depth p) (hlt : ep.pending p.dev < depth)
    (d : δ) :
    Tracked ep depth { dev := ep.submit p.dev d, log := p.log ++ [.submit d] } := by
  have hcount : inFlight (p.log ++ [.submit d]) = inFlight p.log + 1 := inFlight_concat _ _
  constructor
  · rw [hcount, lawful.submit, h.agrees]
  · apply h.disciplined.concat
    · rw [hcount, ← h.agrees]
      omega
    · intro r hr
      cases hr

theorem wait_count (lawful : ep.Lawful) (h : ep.pending p.dev = inFlight p.log) (site : Site)
    (t : Duration) :
    ep.pending (ep.wait p.dev t).2 =
      inFlight (p.log ++ [.waited site (ep.wait p.dev t).1]) := by
  rw [inFlight_concat]
  cases hr : (ep.wait p.dev t).1 with
  | none => exact (lawful.waitNone _ _ hr).trans h
  | some r =>
    have hsome := lawful.waitSome _ _ r hr
    rw [Call.count, ← h]
    omega

theorem wait (lawful : ep.Lawful) (h : Tracked ep depth p) (site : Site) (t : Duration) :
    Tracked ep depth
      { dev := (ep.wait p.dev t).2, log := p.log ++ [.waited site (ep.wait p.dev t).1] } := by
  have hcount := wait_count lawful h.agrees site t
  have hdepth := h.le_depth
  refine ⟨hcount, h.disciplined.concat ?_ ?_⟩
  · rw [← hcount]
    cases hr : (ep.wait p.dev t).1 with
    | none => rw [lawful.waitNone _ _ hr]; exact hdepth
    | some r =>
      have hsome := lawful.waitSome _ _ r hr
      omega
  · intro r hr
    cases hr

theorem cancelAll (lawful : ep.Lawful) (h : Tracked ep depth p) :
    Tracked ep depth { dev := ep.cancelAll p.dev, log := p.log ++ [.cancelAll] } := by
  have hcount : inFlight (p.log ++ [.cancelAll]) = inFlight p.log := inFlight_concat _ _
  refine ⟨by rw [hcount, lawful.cancelAll, h.agrees], h.disciplined.concat ?_ ?_⟩
  · rw [hcount, ← h.agrees]
    exact h.le_depth
  · intro r hr
    cases hr

theorem undrained (h : Tracked ep depth p) :
    Tracked ep depth { p with log := p.log ++ [.undrained] } := by
  have hcount : inFlight (p.log ++ [.undrained]) = inFlight p.log := inFlight_concat _ _
  refine ⟨by rw [hcount]; exact h.agrees, h.disciplined.concat ?_ ?_⟩
  · rw [hcount, ← h.agrees]
    exact h.le_depth
  · intro r hr
    cases hr

theorem clearHalt (lawful : ep.Lawful) (h : Tracked ep depth p) (hz : ep.pending p.dev = 0) :
    Tracked ep depth
      { dev := (ep.clearHalt p.dev).2, log := p.log ++ [.clearHalt (ep.clearHalt p.dev).1] } := by
  have hcount : inFlight (p.log ++ [.clearHalt (ep.clearHalt p.dev).1]) = inFlight p.log :=
    inFlight_concat _ _
  have hzero : inFlight p.log = 0 := by rw [← h.agrees, hz]
  refine ⟨by rw [hcount, lawful.clearHalt, h.agrees], h.disciplined.concat ?_ ?_⟩
  · rw [hcount, hzero]
    exact Nat.zero_le depth
  · intro _ _
    exact hzero

end Tracked

theorem drain_tracked {ep : Endpoint ε δ β} (lawful : ep.Lawful) {depth : Nat} (n : Nat)
    {p : Port ε δ β} (h : Tracked ep depth p) :
    wp (drain ep n : Act ω _ _) (fun _ q => Tracked ep depth q) (fun _ _ => False) p := by
  induction n generalizing p with
  | zero => exact h
  | succ n ih =>
    simp only [drain, wp_bind, wp_state]
    apply wp_ite
    · exact fun _ => h
    · intro _
      simp only [wp_bind, Port.wait, wp_apply]
      exact ih (h.wait lawful .drain drainTimeout)

theorem recoverHalt_tracked {ep : Endpoint ε δ β} (lawful : ep.Lawful) {depth : Nat} (n : Nat)
    (what : String) {p : Port ε δ β} (h : Tracked ep depth p) :
    wp (recoverHalt ep n what : Act ω _ _)
      (fun r q => Tracked ep depth q ∧ (r = .ok () → ep.pending q.dev = 0))
      (fun _ _ => False) p := by
  simp only [recoverHalt, wp_bind, Port.cancelAll, wp_update]
  refine wp_mono (drain_tracked lawful _ (h.cancelAll lawful)) ?_ (fun _ _ h => h)
  intro _ q hq
  simp only [wp_state]
  apply wp_ite
  · intro _
    simp only [wp_bind, Port.undrained, wp_update, wp_pure]
    exact ⟨hq.undrained, fun he => by cases he⟩
  · intro hz
    have hzero : ep.pending q.dev = 0 := by omega
    simp only [Port.clearHalt, wp_apply]
    exact ⟨hq.clearHalt lawful hzero, fun _ => by rw [lawful.clearHalt, hzero]⟩

def IsCleared (l : List (Call δ β)) : Prop :=
  ∃ ws r, l = .cancelAll :: (ws ++ [.clearHalt r]) ∧ ∀ c ∈ ws, ∃ x, c = .waited .drain x

/-- Every cancellation is followed by a drain and then by clearing the halt. -/
def ClearsHalts (log : List (Call δ β)) : Prop := ∀ a b, log = a ++ .cancelAll :: b →
  ∃ ws r c, b = ws ++ .clearHalt r :: c ∧ ∀ w ∈ ws, ∃ x, w = .waited .drain x

theorem clearsHalts_nil : ClearsHalts ([] : List (Call δ β)) := by
  intro a b h
  simp at h

theorem clearsHalts_singleton {c : Call δ β} (hc : c ≠ .cancelAll) : ClearsHalts [c] := by
  intro a b h
  cases a with
  | nil => exact absurd (List.cons.inj h).1 hc
  | cons _ _ => simp at h

theorem IsCleared.clearsHalts {l : List (Call δ β)} (h : IsCleared l) : ClearsHalts l := by
  obtain ⟨ws, r, rfl, hws⟩ := h
  intro a b heq
  cases a with
  | nil => exact ⟨ws, r, [], (List.cons.inj heq).2.symm, hws⟩
  | cons x a =>
    -- No other call of a recovery cancels anything.
    have hmem : Call.cancelAll ∈ ws ++ [Call.clearHalt r] := by
      rw [(List.cons.inj heq).2]
      exact List.mem_append_right a List.mem_cons_self
    rcases List.mem_append.mp hmem with hw | hlast
    · obtain ⟨x, hx⟩ := hws _ hw
      cases hx
    · cases List.mem_singleton.mp hlast

theorem ClearsHalts.append {l m : List (Call δ β)} (hl : ClearsHalts l) (hm : ClearsHalts m) :
    ClearsHalts (l ++ m) := by
  intro a b heq
  rcases split_append heq with ⟨c, hlog, rfl⟩ | ⟨c, _, hc⟩
  · obtain ⟨ws, r, d, rfl, hws⟩ := hl a c hlog
    exact ⟨ws, r, d ++ m, by simp, hws⟩
  · exact hm c b hc

theorem drain_empties {ep : Endpoint ε δ β} (counts : ep.Counts) (responsive : ep.Responsive)
    (n : Nat) {p : Port ε δ β} (hafter : ep.AfterCancel p.dev) (hle : ep.pending p.dev ≤ n) :
    wp (drain ep n : Act ω _ _) (fun _ q => ep.pending q.dev = 0) (fun _ _ => False) p := by
  induction n generalizing p with
  | zero => exact Nat.le_zero.mp hle
  | succ n ih =>
    simp only [drain, wp_bind, wp_state]
    apply wp_ite
    · exact fun hz => hz
    · intro hpos
      simp only [wp_bind, Port.wait, wp_apply]
      apply ih
      · exact .wait drainTimeout hafter
      · obtain ⟨r, hr⟩ := Option.isSome_iff_exists.mp
          (responsive p.dev drainTimeout hafter (Nat.pos_of_ne_zero hpos))
        have hsome := counts.waitSome _ _ r hr
        dsimp only
        omega

theorem recoverHalt_clears {ep : Endpoint ε δ β} (counts : ep.Counts) (responsive : ep.Responsive)
    (depth : Nat) (what : String) {p : Port ε δ β} (hle : ep.pending p.dev ≤ depth) :
    wp (recoverHalt ep depth what : Act ω _ _)
      (fun _ q => ∃ l, q.log = p.log ++ l ∧ IsCleared l) (fun _ _ => False) p := by
  simp only [recoverHalt, wp_bind, Port.cancelAll, wp_update]
  have hcount : ep.pending (ep.cancelAll p.dev) ≤ depth + 1 := by
    rw [counts.cancelAll]
    exact Nat.le_succ_of_le hle
  have hboth := wp_and (drain_log (ω := ω) ep (depth + 1) _)
    (drain_empties counts responsive (depth + 1)
      (p := { dev := ep.cancelAll p.dev, log := p.log ++ [.cancelAll] }) (.cancel p.dev) hcount)
  refine wp_mono hboth ?_ (fun _ _ h => h.1)
  intro _ q hres
  obtain ⟨⟨ws, hlog, hws⟩, hzero⟩ := hres
  simp only [wp_state]
  apply wp_ite
  · intro hpos
    exact absurd hzero (Nat.ne_of_gt hpos)
  · intro _
    simp only [Port.clearHalt, wp_apply]
    exact ⟨.cancelAll :: (ws ++ [.clearHalt (ep.clearHalt q.dev).1]), by simp [hlog], ws, _, rfl, hws⟩

/-- The queue discipline, with every recovery of a responsive endpoint complete. -/
structure Orderly (ep : Endpoint ε δ β) (depth : Nat) (p : Port ε δ β) : Prop
    extends Tracked ep depth p where
  clears : ep.Responsive → ClearsHalts p.log

namespace Orderly

variable {ep : Endpoint ε δ β} {depth : Nat} {p : Port ε δ β}

theorem of_empty {dev : ε} (h : ep.pending dev = 0) :
    Orderly ep depth { dev := dev, log := [] } where
  agrees := h
  disciplined := disciplined_nil depth
  clears := fun _ => clearsHalts_nil

theorem submit (lawful : ep.Lawful) (h : Orderly ep depth p) (hlt : ep.pending p.dev < depth)
    (d : δ) : Orderly ep depth { dev := ep.submit p.dev d, log := p.log ++ [.submit d] } where
  toTracked := h.toTracked.submit lawful hlt d
  clears := fun hr => (h.clears hr).append (clearsHalts_singleton (by simp))

theorem wait (lawful : ep.Lawful) (h : Orderly ep depth p) (site : Site) (t : Duration) :
    Orderly ep depth
      { dev := (ep.wait p.dev t).2, log := p.log ++ [.waited site (ep.wait p.dev t).1] } where
  toTracked := h.toTracked.wait lawful site t
  clears := fun hr => (h.clears hr).append (clearsHalts_singleton (by simp))

theorem recoverHalt (lawful : ep.Lawful) (h : Orderly ep depth p) (what : String) :
    wp (recoverHalt ep depth what : Act ω _ _)
      (fun r q => Orderly ep depth q ∧ (r = .ok () → ep.pending q.dev = 0)) (fun _ _ => False) p := by
  by_cases hr : ep.Responsive
  · have hboth := wp_and (recoverHalt_tracked (ω := ω) lawful depth what h.toTracked)
      (recoverHalt_clears lawful.toCounts hr depth what h.le_depth)
    refine wp_mono hboth ?_ (fun _ _ hf => hf.1)
    intro r q hres
    obtain ⟨⟨hq, hzero⟩, l, hlog, hl⟩ := hres
    refine ⟨⟨hq, fun _ => ?_⟩, hzero⟩
    rw [hlog]
    exact (h.clears hr).append hl.clearsHalts
  · refine wp_mono (recoverHalt_tracked lawful depth what h.toTracked) ?_ (fun _ _ hf => hf)
    intro r q hres
    obtain ⟨hq, hzero⟩ := hres
    exact ⟨⟨hq, fun hresp => absurd hresp hr⟩, hzero⟩

end Orderly

section Reap

variable {ep : OutEndpoint ε}

def reaped (ep : OutEndpoint ε) (q : Port ε Bytes Unit) (timeout : Duration) :
    Port ε Bytes Unit :=
  { dev := (ep.wait q.dev timeout).2,
    log := q.log ++ [.waited .reap (ep.wait q.dev timeout).1] }

/-- What every wait keeps, with a recovery run after a stall, holds after `reap`. -/
theorem reap_inv (J : Port ε Bytes Unit → Prop)
    (hwait : ∀ q t, J q → (ep.wait q.dev t).1 ≠ some (.error .stall) → J (reaped ep q t))
    (hstall : ∀ q t, J q → (ep.wait q.dev t).1 = some (.error .stall) →
      wp (recoverBulkOut ep : Act Unfinished _ _) (fun _ => J) (fun _ _ => False) (reaped ep q t))
    (steps : Nat) (timeout : Duration) {p : Port ε Bytes Unit} (h : J p) :
    wp (reap ep steps timeout) (fun _ => J) (fun e q => e = .reaping ∧ J q) p := by
  refine wp_loop J ?_ ?_ steps h
  case refine_2 => exact fun _ hq => ⟨rfl, hq⟩
  intro q hq
  simp only [wp_bind, wp_state]
  apply wp_ite
  · exact fun _ => hq
  · intro _
    simp only [wp_bind, Port.wait, wp_apply]
    have hw := hwait q timeout hq
    have hs := hstall q timeout hq
    unfold reaped at hw hs
    generalize (ep.wait q.dev timeout).1 = r at hw hs ⊢
    rcases r with _ | e | u
    · exact hw (by simp)
    · apply wp_ite
      · rintro rfl
        rw [wp_bind]
        exact wp_mono (hs rfl) (fun _ _ hu => hu) (fun _ _ hf => hf.elim)
      · intro he
        exact hw (by simpa using he)
    · exact hw (by simp)

theorem reap_orderly (lawful : ep.Lawful) (steps : Nat) (timeout : Duration)
    {p : Port ε Bytes Unit} (h : Orderly ep.toEndpoint txDepth p) :
    wp (reap ep steps timeout) (fun _ => Orderly ep.toEndpoint txDepth)
      (fun e q => e = .reaping ∧ Orderly ep.toEndpoint txDepth q) p := by
  apply reap_inv (Orderly ep.toEndpoint txDepth) ?_ ?_ steps timeout h
  · exact fun q t hq _ => hq.wait lawful .reap t
  · intro q t hq _
    exact wp_mono ((hq.wait lawful .reap t).recoverHalt lawful _) (fun _ _ hr => hr.1)
      (fun _ _ hf => hf)

end Reap

end Muta.Link
