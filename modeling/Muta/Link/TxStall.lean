import Muta.Link.TxQueue

/-!
# Stalls seen by the TX thread

A halted pipe rejects every later submit, so a stall that a wait has returned must
be answered by `recover_bulk_out` before the next submit. `reap` does so. The
back-pressure loop of `flush` only looks at whether its wait returned anything, so
a stall it consumes is forgotten and the transfer behind it is submitted into the
halted pipe.
-/

namespace Muta.Link.Tx

open Usb Act Wire
set_option autoImplicit false

variable {ε κ δ β : Type}

def Recovered (l : List (Call δ β)) : Prop := ∃ a r b, l = a ++ r ++ b ∧ IsRecovery r

/-- Every stall returned outside a recovery has been followed by one. -/
def Settled (log : List (Call δ β)) : Prop := ∀ a site b, site ≠ .drain →
  log = a ++ .waited site (some (.error .stall)) :: b → Recovered b

/-- Whenever something is submitted, no stall is left unanswered. -/
def RecoversBeforeSubmit (log : List (Call δ β)) : Prop := ∀ a d b,
  log = a ++ .submit d :: b → Settled a

def PressedStall (log : List (Call δ β)) : Prop :=
  .waited .backPressure (some (.error .stall)) ∈ log

theorem Recovered.append_right {l : List (Call δ β)} (h : Recovered l) (m : List (Call δ β)) :
    Recovered (l ++ m) := by
  obtain ⟨a, r, b, rfl, hr⟩ := h
  exact ⟨a, r, b ++ m, by simp, hr⟩

theorem Settled.concat {log : List (Call δ β)} {c : Call δ β} (h : Settled log)
    (hc : ∀ site, site ≠ .drain → c ≠ .waited site (some (.error .stall))) :
    Settled (log ++ [c]) := by
  intro a site b hs heq
  rcases split_append heq with ⟨d, hlog, rfl⟩ | ⟨d, rfl, hd⟩
  · exact (h a site d hs hlog).append_right [c]
  · cases d with
    | nil => exact absurd (List.cons.inj hd).1 (hc site hs)
    | cons _ _ => simp at hd

theorem settled_append_recovery (log : List (Call δ β)) {r : List (Call δ β)}
    (hr : IsRecovery r) : Settled (log ++ r) := by
  intro a site b hs heq
  rcases split_append heq with ⟨d, _, rfl⟩ | ⟨d, rfl, hd⟩
  · exact ⟨d, r, [], by simp, hr⟩
  · exfalso
    have hmem : Call.waited site (some (.error .stall)) ∈ r := by
      rw [hd]
      exact List.mem_append_right d List.mem_cons_self
    rcases hr.mem_cases hmem with hx | ⟨x, hx⟩ | hx | ⟨x, hx⟩
    · cases hx
    · exact hs (Call.waited.inj hx).1
    · cases hx
    · cases hx

theorem RecoversBeforeSubmit.of_append {log m : List (Call δ β)}
    (h : RecoversBeforeSubmit (log ++ m)) : RecoversBeforeSubmit log := by
  intro a d b heq
  exact h a d (b ++ m) (by simp [heq])

theorem RecoversBeforeSubmit.append {log m : List (Call δ β)} (h : RecoversBeforeSubmit log)
    (hm : ∀ d, Call.submit d ∉ m) : RecoversBeforeSubmit (log ++ m) := by
  intro a d b heq
  rcases split_append heq with ⟨c, hlog, _⟩ | ⟨c, _, hc⟩
  · exact h a d c hlog
  · refine absurd ?_ (hm d)
    rw [hc]
    exact List.mem_append_right c List.mem_cons_self

theorem RecoversBeforeSubmit.submit {log : List (Call δ β)} (h : RecoversBeforeSubmit log)
    (hs : Settled log) (d : δ) : RecoversBeforeSubmit (log ++ [.submit d]) := by
  intro a e b heq
  rcases split_append heq with ⟨c, hlog, _⟩ | ⟨c, rfl, hc⟩
  · exact h a e c hlog
  · cases c with
    | nil => simpa using hs
    | cons _ _ => simp at hc

section Answered

variable (ep : OutEndpoint ε)

def Answered (q : Port ε Bytes Unit) : Prop :=
  PressedStall q.log ∨ Settled q.log ∧ RecoversBeforeSubmit q.log

theorem answered_concat {q : Port ε Bytes Unit} (h : Answered q) {c : Call Bytes Unit}
    (hc : ∀ site, site ≠ .drain → c ≠ .waited site (some (.error .stall)))
    (hd : ∀ d, c ≠ .submit d) (e : ε) : Answered { dev := e, log := q.log ++ [c] } := by
  rcases h with h | ⟨hs, hr⟩
  · exact Or.inl (List.mem_append_left _ h)
  · exact Or.inr ⟨hs.concat hc, hr.append (by simpa using fun d => (hd d).symm)⟩

theorem pressed_answered {q : Port ε Bytes Unit} (h : Answered q) : Answered (pressed ep q) := by
  by_cases hp : (ep.wait q.dev tick).1 = some (.error .stall)
  · refine Or.inl ?_
    unfold PressedStall pressed
    rw [hp]
    exact List.mem_append_right _ List.mem_cons_self
  · apply answered_concat h
    · intro site _ heq
      exact hp (Call.waited.inj heq).2
    · exact fun d heq => by cases heq

theorem reap_answered (n : Nat) (t : Duration) {q : Port ε Bytes Unit} (h : Answered q) :
    wp (reap ep n t) (fun _ => Answered) (fun e q => e = .reaping ∧ Answered q) q := by
  apply reap_inv Answered ?_ ?_ n t h
  · intro p t hp hne
    apply answered_concat hp
    · intro site _ heq
      exact hne (Call.waited.inj heq).2
    · exact fun d heq => by cases heq
  · intro p t hp _
    refine wp_mono (recoverHalt_log _ _ _ _) ?_ (fun _ _ hf => hf)
    intro _ u hres
    obtain ⟨r, hlog, hr⟩ := hres
    rcases hp with hp | ⟨_, hrec⟩
    · refine Or.inl ?_
      unfold PressedStall reaped at *
      rw [hlog]
      exact List.mem_append_left _ (List.mem_append_left _ hp)
    · refine Or.inr ⟨?_, ?_⟩
      · rw [hlog]
        exact settled_append_recovery _ hr
      · rw [hlog]
        refine RecoversBeforeSubmit.append (hrec.append (by simp)) ?_
        intro d hd
        rcases hr.mem_cases hd with hx | ⟨x, hx⟩ | hx | ⟨x, hx⟩ <;> cases hx

theorem answered_invariant : PortInvariant ep (fun _ => Answered) (fun _ => Answered) := by
  apply uniform_invariant
  · exact fun q h _ => pressed_answered ep h
  · intro q d h _
    rcases h with h | ⟨hs, hr⟩
    · exact Or.inl (List.mem_append_left _ h)
    · exact Or.inr ⟨hs.concat (fun _ _ heq => by cases heq), hr.submit hs d⟩
  · exact fun n t q h => reap_answered ep n t h

end Answered

section Lost

variable (ep : OutEndpoint ε)

/-- A stall lost to back-pressure has already led to a submit. -/
def Lost (q : Port ε Bytes Unit) : Prop := PressedStall q.log → ¬ RecoversBeforeSubmit q.log

/-- The back-pressure loop has consumed a stall and done nothing but wait since. -/
def Open (log : List (Call δ β)) : Prop := ∃ a b,
  log = a ++ .waited .backPressure (some (.error .stall)) :: b ∧
    ∀ c ∈ b, ∃ r, c = .waited .backPressure r

theorem Open.not_settled {log : List (Call δ β)} (h : Open log) : ¬ Settled log := by
  intro hs
  obtain ⟨a, b, hlog, hb⟩ := h
  obtain ⟨x, r, y, rfl, ws, last, rfl, _, _⟩ := hs a .backPressure b (by decide) hlog
  obtain ⟨z, hz⟩ := hb .cancelAll (by simp)
  cases hz

theorem lost_append {q : Port ε Bytes Unit} (h : Lost q) {m : List (Call Bytes Unit)}
    (hm : ¬ PressedStall m) (e : ε) : Lost { dev := e, log := q.log ++ m } := by
  intro hp hr
  rcases List.mem_append.mp hp with hp | hp
  · exact h hp hr.of_append
  · exact hm hp

def LostOrOpen (q : Port ε Bytes Unit) : Prop := Lost q ∨ Open q.log

theorem pressed_lost {q : Port ε Bytes Unit} (h : LostOrOpen q) : LostOrOpen (pressed ep q) := by
  by_cases hp : (ep.wait q.dev tick).1 = some (.error .stall)
  · refine Or.inr ⟨q.log, [], ?_, by simp⟩
    unfold pressed
    rw [hp]
  · rcases h with h | ⟨a, b, hlog, hb⟩
    · refine Or.inl (lost_append h ?_ _)
      intro hmem
      have heq := List.mem_singleton.mp hmem
      exact hp (Call.waited.inj heq).2.symm
    · refine Or.inr ⟨a, b ++ [.waited .backPressure (ep.wait q.dev tick).1], ?_, ?_⟩
      · simp [pressed, hlog]
      · intro c hc
        rcases List.mem_append.mp hc with hc | hc
        · exact hb c hc
        · exact ⟨_, List.mem_singleton.mp hc⟩

theorem submit_lost {q : Port ε Bytes Unit} (h : LostOrOpen q) (d : Bytes) :
    Lost (submittedTo ep q d) := by
  rcases h with h | h
  · exact lost_append h (by simp [PressedStall]) _
  · intro _ hr
    exact h.not_settled (hr q.log d [] rfl)

theorem reap_lost (n : Nat) (t : Duration) {b : Bool} {q : Port ε Bytes Unit}
    (h : b = false → Lost q) :
    wp (reap ep n t) (fun _ q => b = false → Lost q)
      (fun e q => e = .reaping ∧ (b = false → Lost q)) q := by
  apply reap_inv (fun q => b = false → Lost q) ?_ ?_ n t h
  · intro p t hp _ hb
    exact lost_append (hp hb) (by simp [PressedStall]) _
  · intro p t hp _
    refine wp_mono (recoverHalt_log _ _ _ _) ?_ (fun _ _ hf => hf)
    rintro _ ⟨e, log⟩ ⟨r, rfl, hr⟩ hb
    have hreaped : Lost (reaped ep p t) := lost_append (hp hb) (by simp [PressedStall]) _
    refine lost_append hreaped ?_ e
    intro hd
    rcases hr.mem_cases hd with hx | ⟨x, hx⟩ | hx | ⟨x, hx⟩ <;> cases hx

theorem lost_invariant :
    PortInvariant ep (fun b q => b = false → Lost q) (fun b q => b = false → LostOrOpen q) where
  raise := fun _ _ h => by cases h
  enter := fun _ _ h hb => Or.inl (h hb)
  pressed := fun _ _ h _ hb => pressed_lost ep (h hb)
  leave := fun _ _ _ hb => by cases hb
  submit := fun _ _ d h _ hb => submit_lost ep (h hb) d
  reap := fun _ n t _ h => reap_lost ep n t h

theorem lost_of_run (world : Schedule κ) (limits : TxLimits) (turns steps : Nat) (dev : ε) (sched : κ)
    (frames : List Bytes)
    (hr : (txLoop ep world limits turns steps (start dev sched frames)).1 ≠ .error .full)
    (hs : (txLoop ep world limits turns steps (start dev sched frames)).2.shutdown = false) :
    Lost (txLoop ep world limits turns steps (start dev sched frames)).2.bulkOut := by
  have hwp := wp_iff.mp (txLoop_port world (lost_invariant ep) limits turns steps
    (s := start dev sched frames) (fun _ hp => by cases hp))
  rcases hrun : txLoop ep world limits turns steps (start dev sched frames) with ⟨e | u, s⟩
  · rw [hrun] at hr hs
    have he := hwp.2 e s hrun
    cases e with
    | full => exact absurd rfl hr
    | head => exact he hs
    | filling => exact he hs
    | reaping => exact he hs
  · rw [hrun] at hs
    exact hwp.1 u s hrun hs

end Lost

/-- In every run: if no wait of the back-pressure loop returns a stall, every stall
is answered before the next submit. Conversely, unless shutdown was seen or the
thread is still waiting for room, a stall returned there has already led to a
submit without a recovery. -/
theorem recovers_iff_no_pressed_stall (ep : OutEndpoint ε) (world : Schedule κ)
    (limits : TxLimits) (turns steps : Nat) (dev : ε) (sched : κ) (frames : List Bytes) :
    let r := txLoop ep world limits turns steps (start dev sched frames)
    let log := r.2.bulkOut.log
    (¬ PressedStall log → RecoversBeforeSubmit log) ∧
    (r.1 ≠ .error .full → r.2.shutdown = false →
      (RecoversBeforeSubmit log ↔ ¬ PressedStall log)) := by
  intro r log
  have hans : Answered r.2.bulkOut := by
    have hnil : Answered (start dev sched frames : Tx ε κ).bulkOut := by
      refine Or.inr ⟨?_, ?_⟩
      · intro a site b _ heq
        simp [start] at heq
      · intro a d b heq
        simp [start] at heq
    have hwp := wp_iff.mp (txLoop_port world (answered_invariant ep) limits turns steps hnil)
    rcases hres : r with ⟨_ | _, s⟩
    · rename_i e
      have he := hwp.2 e s hres
      cases e <;> exact he
    · exact hwp.1 _ s hres
  have hfirst : ¬ PressedStall log → RecoversBeforeSubmit log := by
    intro hp
    rcases hans with h | ⟨_, h⟩
    · exact absurd h hp
    · exact h
  refine ⟨hfirst, ?_⟩
  intro hr hs
  refine ⟨?_, hfirst⟩
  intro hrec hp
  exact lost_of_run ep world limits turns steps dev sched frames hr hs hp hrec

/-- Writes never finish on their own; the first wait of the back-pressure loop
returns a stall. -/
def haltedPipe : OutEndpoint Nat where
  pending n := n
  submit n _ := n + 1
  wait n timeout := if timeout = tick ∧ 0 < n then (some (.error .stall), n - 1) else (none, n)
  cancelAll n := n
  clearHalt n := (.ok (), n)
  maxPacketSize _ := 512

theorem haltedPipe_lawful : haltedPipe.Lawful where
  submit _ _ := rfl
  waitSome n t r hr := by
    unfold haltedPipe at hr ⊢
    dsimp only at hr ⊢
    split at hr
    · rename_i hc
      rw [if_pos hc]
      exact Nat.sub_add_cancel hc.2
    · cases hr
  waitNone n t hr := by
    unfold haltedPipe at hr ⊢
    dsimp only at hr ⊢
    split at hr
    · cases hr
    · rename_i hc
      rw [if_neg hc]
  cancelAll _ := rfl
  clearHalt _ := rfl

theorem pressed_stall_not_recovered :
    ¬ RecoversBeforeSubmit (txLoop haltedPipe allQueued ⟨1580, 1, 1⟩ 1 12
      (start 0 () (List.replicate 9 (List.replicate 60 0)))).2.bulkOut.log := by
  apply lost_of_run
  · decide +kernel
  · decide +kernel
  · unfold PressedStall
    decide +kernel

end Muta.Link.Tx
