import Muta.Base.Machine
import Muta.Daemon.Status

/-!
# The status server

A thread of its own accepts one client at a time, takes a copy of the status, waits for the
client's line and writes the copy back, whatever the line says. The daemon changes the
status meanwhile; at its end it stops the server and waits for the thread. The thread looks
for that between clients only, so a client that says nothing holds up the end of the daemon,
and nothing else does.
-/

namespace Muta

set_option autoImplicit false

/-- Where the thread is in `serve`. -/
inductive Serving (γ : Type) where
  /-- At the head of the loop. -/
  | checking
  | accepting
  | accepted (client : γ)
  /-- Waiting for the line of a client. -/
  | handling (client : γ) (status : Status)
  | returned

structure StatusServer (γ : Type) where
  shared : Status
  shutdown : Bool
  thread : Serving γ
  /-- Connections that have not been accepted. -/
  backlog : List γ
  /-- Clients whose line has arrived, or whose end has closed. -/
  spoken : List γ
  replies : List (γ × Text)
  /-- There is a socket at the path. -/
  socket : Bool

namespace StatusServer

variable {γ : Type} [DecidableEq γ]

inductive Input (γ : Type) where
  | update (f : Status → Status)
  | connect (client : γ)
  | speak (client : γ)
  /-- A turn of the thread, with whether the calls it makes succeed. -/
  | turn (ok : Bool)
  /-- `Drop` sets the flag, and then joins the thread. -/
  | drop
  | join

/-- One step of `serve`, with `handle` in it. -/
def serve (s : StatusServer γ) (ok : Bool) : StatusServer γ :=
  match s.thread with
  | .checking => { s with thread := if s.shutdown then .returned else .accepting }
  | .accepting =>
    if ok then
      match s.backlog with
      | client :: rest => { s with thread := .accepted client, backlog := rest }
      -- Nobody is there; the thread sleeps.
      | [] => { s with thread := .checking }
    else
      { s with thread := .returned }
  | .accepted client => { s with thread := .handling client s.shared }
  | .handling client status =>
    if ok then
      if client ∈ s.spoken then
        { s with thread := .checking, replies := s.replies ++ [(client, status.encode)] }
      else
        s
    else
      { s with thread := .checking }
  | .returned => s

/-- The listener lives as long as the thread. -/
def listening (s : StatusServer γ) : Bool :=
  match s.thread with
  | .returned => false
  | _ => true

def step (s : StatusServer γ) : Input γ → StatusServer γ
  | .update f => { s with shared := f s.shared }
  | .connect client => if s.listening then { s with backlog := s.backlog ++ [client] } else s
  | .speak client => { s with spoken := client :: s.spoken }
  | .turn ok => s.serve ok
  | .drop => { s with shutdown := true }
  | .join => if s.shutdown && !s.listening then { s with socket := false } else s

def server (γ : Type) [DecidableEq γ] : Machine (StatusServer γ) (Input γ) where
  start := ⟨{}, false, .checking, [], [], [], true⟩
  step := step

variable {past more : List (StatusServer γ × Input γ)} {s u : StatusServer γ}

/-- The copy of the status that a turn takes, and for whom. -/
def copied : StatusServer γ × Input γ → Option (γ × Status)
  | (s, .turn _) =>
    match s.thread with
    | .accepted client => some (client, s.shared)
    | _ => none
  | _ => none

def copies (past : List (StatusServer γ × Input γ)) : List (γ × Status) := past.filterMap copied

def connected : StatusServer γ × Input γ → Option γ
  | (s, .connect client) => if s.listening then some client else none
  | _ => none

def reply (x : γ × Status) : γ × Text := (x.1, x.2.encode)

def waiting (s : StatusServer γ) : List γ :=
  match s.thread with
  | .accepted client => client :: s.backlog
  | _ => s.backlog

def due (s : StatusServer γ) : List (γ × Text) :=
  match s.thread with
  | .handling client status => [(client, status.encode)]
  | _ => []

/-- Clients are served in the order in which they came, each with the copy taken for it, and
all of them if no call fails. -/
structure Served (past : List (StatusServer γ × Input γ)) (s : StatusServer γ) : Prop where
  order : (copies past).map Prod.fst ++ s.waiting = past.filterMap connected
  replies : (s.replies ++ s.due).Sublist ((copies past).map reply)
  all : (∀ x ∈ past, x.2 ≠ .turn false) → s.replies ++ s.due = (copies past).map reply

omit [DecidableEq γ] in
theorem copies_concat (past : List (StatusServer γ × Input γ)) (x : StatusServer γ × Input γ) :
    copies (past ++ [x]) = copies past ++ (copied x).toList := by
  rw [copies, List.filterMap_append, List.filterMap_cons]
  cases copied x <;> rfl

omit [DecidableEq γ] in
theorem connected_concat (past : List (StatusServer γ × Input γ)) (x : StatusServer γ × Input γ) :
    (past ++ [x]).filterMap connected = past.filterMap connected ++ (connected x).toList := by
  rw [List.filterMap_append, List.filterMap_cons]
  cases connected x <;> rfl

/-- All that a turn of the thread can do. -/
inductive Turns (s : StatusServer γ) : Bool → StatusServer γ → Prop where
  | checks (ok : Bool) : s.thread = .checking →
      Turns s ok { s with thread := if s.shutdown then .returned else .accepting }
  | accepts {client : γ} {rest : List γ} : s.thread = .accepting → s.backlog = client :: rest →
      Turns s true { s with thread := .accepted client, backlog := rest }
  | sleeps : s.thread = .accepting → s.backlog = [] → Turns s true { s with thread := .checking }
  | leaves : s.thread = .accepting → Turns s false { s with thread := .returned }
  | copies {client : γ} (ok : Bool) : s.thread = .accepted client →
      Turns s ok { s with thread := .handling client s.shared }
  | waits {client : γ} {status : Status} :
      s.thread = .handling client status → client ∉ s.spoken → Turns s true s
  | replies {client : γ} {status : Status} :
      s.thread = .handling client status → client ∈ s.spoken → Turns s true
        { s with thread := .checking, replies := s.replies ++ [(client, status.encode)] }
  | fails {client : γ} {status : Status} : s.thread = .handling client status →
      Turns s false { s with thread := .checking }
  | rests (ok : Bool) : s.thread = .returned → Turns s ok s

theorem turns (s : StatusServer γ) (ok : Bool) : Turns s ok (s.serve ok) := by
  cases hthread : s.thread with
  | checking =>
    rw [serve, hthread]
    exact .checks ok hthread
  | accepting =>
    rw [serve, hthread]
    cases ok with
    | false => exact .leaves hthread
    | true =>
      dsimp only
      rw [if_pos rfl]
      split
      · exact .accepts hthread ‹_›
      · exact .sleeps hthread ‹_›
  | accepted client =>
    rw [serve, hthread]
    exact .copies ok hthread
  | handling client status =>
    rw [serve, hthread]
    cases ok with
    | false => exact .fails hthread
    | true =>
      dsimp only
      rw [if_pos rfl]
      split
      · exact .replies hthread ‹_›
      · exact .waits hthread ‹_›
  | returned =>
    rw [serve, hthread]
    exact .rests ok hthread

omit [DecidableEq γ] in
theorem Served.quiet {t : StatusServer γ} {i : Input γ} (h : Served past s)
    (hcopied : copied (s, i) = none) (hconnected : connected (s, i) = none)
    (hwaiting : t.waiting = s.waiting) (hreplies : (t.replies ++ t.due).Sublist (s.replies ++ s.due))
    (hall : i ≠ .turn false → t.replies ++ t.due = s.replies ++ s.due) :
    Served (past ++ [(s, i)]) t := by
  have hcopies : copies (past ++ [(s, i)]) = copies past := by
    rw [copies_concat, hcopied, Option.toList_none, List.append_nil]
  constructor
  · rw [hcopies, connected_concat, hconnected, Option.toList_none, List.append_nil, hwaiting]
    exact h.order
  · rw [hcopies]
    exact hreplies.trans h.replies
  · intro hok
    rw [List.forall_mem_append, List.forall_mem_singleton] at hok
    rw [hcopies, hall hok.2]
    exact h.all hok.1

theorem Served.serve {ok : Bool} (h : Served past s) :
    Served (past ++ [(s, .turn ok)]) (s.serve ok) := by
  have hturns := s.turns ok
  generalize s.serve ok = t at hturns
  have hconnected : connected (s, Input.turn ok) = none := rfl
  cases hturns with
  | checks ok hthread =>
    have hdue : s.replies ++ due { s with thread := if s.shutdown then .returned else .accepting } =
        s.replies ++ s.due := by
      cases s.shutdown <;> simp [due, hthread]
    apply h.quiet (by simp [copied, hthread]) hconnected
    · cases s.shutdown <;> simp [waiting, hthread]
    · exact hdue ▸ List.Sublist.refl _
    · intro _
      exact hdue
  | accepts hthread hbacklog =>
    apply h.quiet (by simp [copied, hthread]) hconnected
    · simp [waiting, hthread, hbacklog]
    · simp [due, hthread]
    · simp [due, hthread]
  | sleeps hthread hbacklog =>
    apply h.quiet (by simp [copied, hthread]) hconnected
    · simp [waiting, hthread]
    · simp [due, hthread]
    · simp [due, hthread]
  | leaves hthread =>
    apply h.quiet (by simp [copied, hthread]) hconnected
    · simp [waiting, hthread]
    · simp [due, hthread]
    · simp [due, hthread]
  | @copies client ok hthread =>
    have hcopied : copied (s, Input.turn ok) = some (client, s.shared) := by simp [copied, hthread]
    have hdue : s.due = [] := by simp [due, hthread]
    have hreplies := h.replies
    have hall := h.all
    rw [hdue, List.append_nil] at hreplies hall
    constructor
    · have horder := h.order
      rw [waiting, hthread] at horder
      rw [copies_concat, connected_concat, hcopied, hconnected]
      simpa [waiting] using horder
    · rw [copies_concat, hcopied, List.map_append]
      exact hreplies.append (List.Sublist.refl _)
    · intro hok
      rw [List.forall_mem_append] at hok
      rw [copies_concat, hcopied, List.map_append, ← hall hok.1]
      rfl
  | waits hthread _ =>
    exact h.quiet (by simp [copied, hthread]) hconnected rfl (List.Sublist.refl _) fun _ => rfl
  | replies hthread _ =>
    apply h.quiet (by simp [copied, hthread]) hconnected
    · simp [waiting, hthread]
    · simp [due, hthread]
    · simp [due, hthread]
  | fails hthread =>
    apply h.quiet (by simp [copied, hthread]) hconnected
    · simp [waiting, hthread]
    · simp [due]
    · intro hok
      exact absurd rfl hok
  | rests ok hthread =>
    exact h.quiet (by simp [copied, hthread]) hconnected rfl (List.Sublist.refl _) fun _ => rfl

theorem Served.step {i : Input γ} (h : Served past s) : Served (past ++ [(s, i)]) (s.step i) := by
  cases i with
  | turn ok => exact h.serve
  | connect client =>
    rw [StatusServer.step]
    split
    · have hcopied : copied (s, Input.connect client) = none := rfl
      have hconnected : connected (s, Input.connect client) = some client := by
        rw [connected, if_pos ‹_›]
      have hcopies : copies (past ++ [(s, Input.connect client)]) = copies past := by
        rw [copies_concat, hcopied, Option.toList_none, List.append_nil]
      constructor
      · have horder := h.order
        have hwaiting :
            waiting { s with backlog := s.backlog ++ [client] } = s.waiting ++ [client] := by
          cases hthread : s.thread <;> simp [waiting, hthread]
        rw [hcopies, connected_concat, hconnected, ← horder, hwaiting, List.append_assoc]
        rfl
      · rw [hcopies]
        exact h.replies
      · intro hok
        rw [List.forall_mem_append] at hok
        rw [hcopies]
        exact h.all hok.1
    · have hconnected : connected (s, Input.connect client) = none := by
        rw [connected, if_neg ‹_›]
      exact h.quiet rfl hconnected rfl (List.Sublist.refl _) fun _ => rfl
  | update f => exact h.quiet rfl rfl rfl (List.Sublist.refl _) fun _ => rfl
  | speak client => exact h.quiet rfl rfl rfl (List.Sublist.refl _) fun _ => rfl
  | drop => exact h.quiet rfl rfl rfl (List.Sublist.refl _) fun _ => rfl
  | join =>
    rw [StatusServer.step]
    split
    · exact h.quiet rfl rfl rfl (List.Sublist.refl _) fun _ => rfl
    · exact h.quiet rfl rfl rfl (List.Sublist.refl _) fun _ => rfl

open Machine in
/-- Whoever connects is served in turn, and told what the status was after that. -/
theorem serve_exact (run : Run (server γ) any past s) : Served past s := by
  apply run.invariant
  · exact ⟨rfl, List.Sublist.refl _, fun _ => rfl⟩
  · intro past s i h _
    exact h.step

/-- How many turns the thread is from its end, once it has been told. -/
def rank (s : StatusServer γ) : Nat :=
  match s.thread with
  | .returned => 0
  | .checking => 1
  | .handling _ _ => 2
  | .accepted _ => 3
  | .accepting => 4

/-- The thread waits for a client that has said nothing. -/
def held (s : StatusServer γ) : Bool :=
  match s.thread with
  | .handling client _ => !decide (client ∈ s.spoken)
  | _ => false

def spends : StatusServer γ × Input γ → Bool
  | (s, .turn ok) => !(ok && s.held)
  | _ => false

theorem Turns.rank {ok : Bool} {t : StatusServer γ} (h : Turns s ok t) (hdrop : s.shutdown = true) :
    t.rank ≤ s.rank - (spends (s, .turn ok)).toNat := by
  cases h with
  | checks ok hthread => simp [StatusServer.rank, spends, held, hthread, hdrop]
  | accepts hthread _ => simp [StatusServer.rank, spends, held, hthread]
  | sleeps hthread _ => simp [StatusServer.rank, spends, held, hthread]
  | leaves hthread => simp [StatusServer.rank]
  | copies ok hthread => simp [StatusServer.rank, spends, held, hthread]
  | waits hthread hsilent => simp [StatusServer.rank, spends, held, hthread, hsilent]
  | replies hthread hspoken => simp [StatusServer.rank, spends, held, hthread, hspoken]
  | fails hthread => simp [StatusServer.rank, spends, hthread]
  | rests ok hthread => simp [StatusServer.rank, hthread]

theorem serve_kept (s : StatusServer γ) (ok : Bool) :
    (s.serve ok).shutdown = s.shutdown ∧ (s.serve ok).spoken = s.spoken ∧
      (s.serve ok).socket = s.socket := by
  have hturns := s.turns ok
  generalize s.serve ok = t at hturns
  cases hturns <;> exact ⟨rfl, rfl, rfl⟩

theorem rank_step (hdrop : s.shutdown = true) (i : Input γ) :
    (s.step i).shutdown = true ∧ (s.step i).rank ≤ s.rank - (spends (s, i)).toNat := by
  cases i with
  | turn ok => exact ⟨(s.serve_kept ok).1.trans hdrop, (s.turns ok).rank hdrop⟩
  | connect client =>
    rw [StatusServer.step]
    split
    · exact ⟨hdrop, Nat.le_refl _⟩
    · exact ⟨hdrop, Nat.le_refl _⟩
  | update f => exact ⟨hdrop, Nat.le_refl _⟩
  | speak client => exact ⟨hdrop, Nat.le_refl _⟩
  | drop => exact ⟨rfl, Nat.le_refl _⟩
  | join =>
    rw [StatusServer.step]
    split
    · exact ⟨hdrop, Nat.le_refl _⟩
    · exact ⟨hdrop, Nat.le_refl _⟩

/-- The socket goes after the thread only. -/
def Bound (s : StatusServer γ) : Prop := s.listening = true → s.socket = true

theorem Bound.step (h : Bound s) (i : Input γ) : Bound (s.step i) := by
  cases i with
  | turn ok =>
    have hturns := s.turns ok
    rw [StatusServer.step]
    generalize s.serve ok = t at hturns
    intro hlistening
    cases hturns with
    | leaves hthread => cases hlistening
    | waits _ _ => exact h hlistening
    | rests ok _ => exact h hlistening
    | checks ok hthread => exact h (by rw [listening, hthread])
    | accepts hthread _ => exact h (by rw [listening, hthread])
    | sleeps hthread _ => exact h (by rw [listening, hthread])
    | copies ok hthread => exact h (by rw [listening, hthread])
    | replies hthread _ => exact h (by rw [listening, hthread])
    | fails hthread => exact h (by rw [listening, hthread])
  | connect client =>
    rw [StatusServer.step]
    split
    · exact h
    · exact h
  | update f => exact h
  | speak client => exact h
  | drop => exact h
  | join =>
    rw [StatusServer.step]
    split
    · rename_i hjoin
      intro hlistening
      have hstill : s.listening = true := hlistening
      rw [hstill, Bool.not_true, Bool.and_false] at hjoin
      cases hjoin
    · exact h

theorem held_step {client : γ} {status : Status} (h : s.thread = .handling client status)
    {i : Input γ} (hi : i ≠ .turn false) (hsilent : client ∉ (s.step i).spoken) :
    (s.step i).thread = .handling client status := by
  cases i with
  | turn ok =>
    have hturns := s.turns ok
    rw [StatusServer.step, (s.serve_kept ok).2.1] at hsilent
    rw [StatusServer.step]
    generalize s.serve ok = t at hturns
    cases hturns with
    | waits _ _ => exact h
    | replies hthread hspoken =>
      cases h.symm.trans hthread
      exact absurd hspoken hsilent
    | fails _ => exact absurd rfl hi
    | rests ok _ => exact h
    | checks ok hthread => cases h.symm.trans hthread
    | accepts hthread _ => cases h.symm.trans hthread
    | sleeps hthread _ => cases h.symm.trans hthread
    | leaves hthread => cases h.symm.trans hthread
    | copies ok hthread => cases h.symm.trans hthread
  | connect client' =>
    rw [StatusServer.step]
    split
    · exact h
    · exact h
  | update f => exact h
  | speak client' => exact h
  | drop => exact h
  | join =>
    rw [StatusServer.step]
    split
    · exact h
    · exact h

theorem spoken_step (s : StatusServer γ) (i : Input γ) : s.spoken ⊆ (s.step i).spoken := by
  cases i with
  | turn ok =>
    rw [StatusServer.step, (s.serve_kept ok).2.1]
    exact List.Subset.refl _
  | connect client =>
    rw [StatusServer.step]
    split <;> exact List.Subset.refl _
  | update f => exact List.Subset.refl _
  | speak client => exact List.subset_cons_self _ _
  | drop => exact List.Subset.refl _
  | join =>
    rw [StatusServer.step]
    split <;> exact List.Subset.refl _

section Drop

open Machine

theorem Bound.run (run : Run (server γ) any past s) : Bound s := by
  apply run.invariant
  · intro _
    rfl
  · intro past s i h _
    exact h.step i

theorem ends (run : Run (server γ) any past s) (hdrop : s.shutdown = true)
    (later : Run (server γ) any (past ++ more) u) :
    u.shutdown = true ∧ u.rank ≤ 4 - more.countP spends := by
  apply run.since (P := fun more u => u.shutdown = true ∧ u.rank ≤ 4 - more.countP spends) _ _ later
  · refine ⟨hdrop, ?_⟩
    cases hthread : s.thread <;> simp [rank, hthread]
  · intro more u i h _
    obtain ⟨hshutdown, hrank⟩ := rank_step h.1 i
    refine ⟨hshutdown, ?_⟩
    have hcount : (more ++ [(u, i)]).countP spends = more.countP spends + (spends (u, i)).toNat := by
      rw [List.countP_append, List.countP_singleton]
      cases spends (u, i) <;> rfl
    have hbefore := h.2
    rw [hcount]
    change (u.step i).rank ≤ _
    omega

theorem stays {client : γ} {status : Status} (run : Run (server γ) any past s)
    (h : s.thread = .handling client status) (later : Run (server γ) any (past ++ more) u)
    (hok : ∀ x ∈ more, x.2 ≠ .turn false) (hsilent : client ∉ u.spoken) :
    u.thread = .handling client status := by
  have hrun := run.since
    (P := fun more u => (∀ x ∈ more, x.2 ≠ .turn false) → client ∉ u.spoken →
      u.thread = .handling client status) (fun _ _ => h) ?_ later
  · exact hrun hok hsilent
  · intro more u i ih _ hok hsilent
    rw [List.forall_mem_append, List.forall_mem_singleton] at hok
    have hbefore := ih hok.1 fun hmem => hsilent (spoken_step u i hmem)
    exact held_step hbefore hok.2 hsilent

/-- Once dropped, the server is gone after four turns of its thread, unless these are spent on
a client that says nothing; and as long as that one says nothing, it is not gone. -/
theorem drop_waits (run : Run (server γ) any past s) (hdrop : s.shutdown = true)
    (later : Run (server γ) any (past ++ more) u) :
    (4 ≤ more.countP spends → (u.step .join).socket = false) ∧
    ∀ client status, s.thread = .handling client status → (∀ x ∈ more, x.2 ≠ .turn false) →
      client ∉ u.spoken → (u.step .join).socket = true := by
  constructor
  · intro hspent
    obtain ⟨hshutdown, hrank⟩ := ends run hdrop later
    have hreturned : u.listening = false := by
      have hzero : u.rank = 0 := by omega
      cases hthread : u.thread with
      | returned => rw [listening, hthread]
      | checking | accepting | accepted _ | handling _ _ => simp [rank, hthread] at hzero
    rw [step, hshutdown, hreturned]
    rfl
  · intro client status h hok hsilent
    have hthread := stays run h later hok hsilent
    have hlistening : u.listening = true := by rw [listening, hthread]
    rw [step, hlistening, Bool.not_true, Bool.and_false]
    exact Bound.run later hlistening

end Drop

section Silent

open Machine

/-- The first is told that the link is up; the second is let in when it is down again. -/
def visits : List (Input Nat) :=
  [.connect 1, .update fun s => { s with linkUp := true }, .turn true, .turn true, .turn true,
    .connect 2, .speak 1, .update fun s => { s with linkUp := false }, .turn true, .turn true,
    .turn true, .turn true]

def visited : StatusServer Nat := visits.foldl step (server Nat).start

def visit : List (StatusServer Nat × Input Nat) := (server Nat).trace (server Nat).start visits

theorem visited_run : Run (server Nat) any visit visited :=
  (Run.start (m := server Nat)).takeAll visits

theorem serve_exact_visits : visited.replies = [(1, Status.encode { linkUp := true })] ∧
    Served visit visited :=
  ⟨rfl, serve_exact visited_run⟩

theorem visited_held : visited.thread = .handling 2 {} := rfl

def waitingOn : List (Input Nat) := List.replicate 5 (.turn true)

def told : StatusServer Nat := visited.step .drop

theorem told_run : Run (server Nat) any (visit ++ [(visited, .drop)]) told :=
  visited_run.take .drop trivial

theorem drop_waits_silent :
    ((waitingOn.foldl step told).step .join).socket = true ∧
    (([.speak 2, .turn true, .turn true, .turn true, .turn true].foldl step told).step
      .join).socket = false := by
  constructor
  · have hwaits := drop_waits told_run rfl (told_run.takeAll waitingOn)
    refine hwaits.2 2 {} visited_held ?_ (by decide)
    intro x hx hfails
    have hmem := List.mem_map_of_mem (f := Prod.snd) hx
    rw [map_snd_trace, hfails] at hmem
    cases List.eq_of_mem_replicate hmem
  · have hwaits := drop_waits told_run rfl
      (told_run.takeAll [.speak 2, .turn true, .turn true, .turn true, .turn true])
    exact hwaits.1 (by decide)

end Silent

end StatusServer

end Muta
