import Mathlib.Data.List.Forall2
import Muta.Link.TxQueue

/-!
# What the TX thread delivers

The batch under construction is tied to the frames it stands for: every frame taken
off the channel that fits the device is in a submitted transfer or in the batch, in
order. A flush that gives up leaves the batch with a terminator behind it; this
happens only after shutdown was seen, so the run then ends without another frame.
-/

namespace Muta.Link.Tx

open Usb Act Wire
set_option autoImplicit false

variable {ε κ : Type}

def encode (alignment : Nat) (fs : List Bytes) : Bytes := fs.flatMap (Packet.message · alignment)

/-- The batches that `fits` lets grow, frame by frame. -/
inductive Packed (limits : TxLimits) : List Bytes → Prop where
  | nil : Packed limits []
  | concat {fs : List Bytes} {f : Bytes} : Packed limits fs → fs.length < limits.maxPackets →
      (encode limits.alignment fs).length + dataHeaderLen + f.length ≤ limits.maxTransferSize →
      Packed limits (fs ++ [f])

/-- With packets of at least two bytes, `t` terminators behind `n` bytes are at most
one, and only where it was needed. -/
def Padding (maxPacket n t : Nat) : Prop := 2 ≤ maxPacket → t ≤ 1 ∧ (t = 1 → maxPacket ∣ n)

/-- The batch holds the messages of `fs` and `t` terminators. -/
structure Building (limits : TxLimits) (maxPacket : Nat) (s : Tx ε κ) (fs : List Bytes) (t : Nat) :
    Prop where
  batch : s.batch = encode limits.alignment fs ++ List.replicate t 0
  packets : s.packets = fs.length
  packed : Packed limits fs
  padding : Padding maxPacket (encode limits.alignment fs).length t
  empty : fs = [] → t = 0

/-- The buffer `b` is a whole transfer carrying the frames `fs`. -/
def Transfer (limits : TxLimits) (maxPacket : Nat) (b : Bytes) (fs : List Bytes) : Prop :=
  fs ≠ [] ∧ Packed limits fs ∧ ∃ t, t ≤ 2 ∧ b = encode limits.alignment fs ++ List.replicate t 0 ∧
    Padding maxPacket (encode limits.alignment fs).length t ∧ (2 ≤ maxPacket → ¬ maxPacket ∣ b.length)

def Sent (limits : TxLimits) (maxPacket : Nat) (s : Tx ε κ) (fs : List Bytes) : Prop :=
  ∃ groups, List.Forall₂ (Transfer limits maxPacket) s.submitted groups ∧ groups.flatten = fs

structure Untouched (s u : Tx ε κ) : Prop where
  batch : u.batch = s.batch
  packets : u.packets = s.packets
  frames : u.frames = s.frames
  submitted : u.submitted = s.submitted
  shutdown : s.shutdown = true → u.shutdown = true

section Untouched

variable {limits : TxLimits} {maxPacket : Nat} {s u v : Tx ε κ}

theorem Untouched.refl (s : Tx ε κ) : Untouched s s := ⟨rfl, rfl, rfl, rfl, fun h => h⟩

theorem Untouched.trans (h : Untouched s u) (k : Untouched u v) : Untouched s v :=
  ⟨k.batch.trans h.batch, k.packets.trans h.packets, k.frames.trans h.frames,
    k.submitted.trans h.submitted, fun hs => k.shutdown (h.shutdown hs)⟩

theorem Building.congr {fs : List Bytes} {t : Nat} (h : Building limits maxPacket s fs t)
    (hb : u.batch = s.batch) (hp : u.packets = s.packets) : Building limits maxPacket u fs t :=
  ⟨hb.trans h.batch, hp.trans h.packets, h.packed, h.padding, h.empty⟩

theorem Building.untouched {fs : List Bytes} {t : Nat} (h : Building limits maxPacket s fs t)
    (k : Untouched s u) : Building limits maxPacket u fs t := h.congr k.batch k.packets

theorem Sent.untouched {fs : List Bytes} (h : Sent limits maxPacket s fs) (k : Untouched s u) :
    Sent limits maxPacket u fs := by
  unfold Sent
  rw [k.submitted]
  exact h

theorem untouched_port (s : Tx ε κ) {q : Port ε Bytes Unit}
    (h : submissions q.log = submissions s.bulkOut.log) : Untouched s { s with bulkOut := q } :=
  ⟨rfl, rfl, rfl, h, fun hs => hs⟩

theorem untouched_load {s : Tx ε κ} {b : Bool} (k : κ) (h : s.shutdown = true → b = true) :
    Untouched s { s with shutdown := b, sched := k } :=
  ⟨rfl, rfl, rfl, rfl, h⟩

theorem reap_untouched (ep : OutEndpoint ε) (steps : Nat) (timeout : Duration) (s : Tx ε κ) :
    wp (onPort (reap ep steps timeout)) (fun _ u => Untouched s u)
      (fun e u => e = .reaping ∧ Untouched s u) s := by
  rw [onPort, wp_zoom]
  have hreap : wp (reap ep steps timeout)
      (fun _ q => submissions q.log = submissions s.bulkOut.log)
      (fun e q => e = .reaping ∧ submissions q.log = submissions s.bulkOut.log) s.bulkOut := by
    apply reap_inv (fun q => submissions q.log = submissions s.bulkOut.log) ?_ ?_ steps timeout rfl
    · intro q t hq _
      rw [← hq]
      simp [reaped, submissions]
    · intro q t hq _
      refine wp_mono (recoverHalt_log _ _ _ _) ?_ (fun _ _ hf => hf)
      intro _ p hres
      obtain ⟨r, hlog, hr⟩ := hres
      have hnone : submissions r = [] := by
        apply submissions_eq_nil
        intro d hd
        rcases hr.mem_cases hd with hx | ⟨x, hx⟩ | hx | ⟨x, hx⟩ <;> cases hx
      rw [hlog, submissions_append, hnone, List.append_nil, ← hq]
      simp [reaped, submissions]
  exact wp_mono hreap (fun _ _ hq => untouched_port s hq)
    (fun _ _ hq => ⟨hq.1, untouched_port s hq.2⟩)

theorem awaitRoom_untouched (ep : OutEndpoint ε) (world : Schedule κ) (steps : Nat) (s : Tx ε κ) :
    wp (awaitRoom ep world steps)
      (fun r u => Untouched s u ∧ (r = true → u.shutdown = true))
      (fun e u => e = .full ∧ Untouched s u) s := by
  refine wp_loop (fun u => Untouched s u) ?_ ?_ steps (Untouched.refl s)
  case refine_2 => exact fun _ hu => ⟨rfl, hu⟩
  intro u hu
  simp only [wp_bind, wp_state]
  apply wp_ite
  · exact fun _ => ⟨hu, fun hr => absurd hr (by decide)⟩
  · intro _
    simp only [wp_bind, onPort, wp_zoom, Port.wait, wp_apply]
    have hwait : Untouched s { u with bulkOut :=
        { dev := (ep.wait u.bulkOut.dev tick).2,
          log := u.bulkOut.log ++ [.waited .backPressure (ep.wait u.bulkOut.dev tick).1] } } :=
      hu.trans (untouched_port u (by simp [submissions]))
    generalize (ep.wait u.bulkOut.dev tick).1 = r at hwait ⊢
    cases r with
    | some _ => exact hwait
    | none =>
      rw [wp_bind]
      apply loadShutdown_wp
      intro b k hb
      have hload := hwait.trans (untouched_load k hb)
      cases b with
      | true => exact ⟨hload, fun _ => rfl⟩
      | false => exact hload

end Untouched

section Batch

variable {limits : TxLimits} {maxPacket : Nat} {s : Tx ε κ} {fs : List Bytes} {t : Nat}

theorem encode_concat (alignment : Nat) (fs : List Bytes) (f : Bytes) :
    encode alignment (fs ++ [f]) = encode alignment fs ++ Packet.message f alignment := by
  simp [encode]

theorem Packed.length_le (h : Packed limits fs) : fs.length ≤ limits.maxPackets := by
  induction h with
  | nil => exact Nat.zero_le _
  | concat _ hlt _ _ =>
    rw [List.length_append, List.length_singleton]
    exact hlt

theorem Building.fits_iff (h : Building limits maxPacket s fs t) (f : Bytes) :
    fits limits s f = true ↔ fs.length < limits.maxPackets ∧
      (encode limits.alignment fs).length + t + dataHeaderLen + f.length ≤ limits.maxTransferSize := by
  simp [fits, h.batch, h.packets]

theorem Building.push (h : Building limits maxPacket s fs 0) {f : Bytes}
    (hf : fits limits s f = true) :
    Building limits maxPacket
      { s with batch := Packet.append s.batch f limits.alignment, packets := s.packets + 1 }
      (fs ++ [f]) 0 := by
  obtain ⟨hcount, hsize⟩ := (h.fits_iff f).mp hf
  have hbatch : s.batch = encode limits.alignment fs := by simpa using h.batch
  refine ⟨?_, ?_, h.packed.concat hcount hsize, ?_, fun _ => rfl⟩
  · rw [encode_concat, ← hbatch]
    simpa using Packet.append_eq s.batch f limits.alignment
  · rw [List.length_append, List.length_singleton, h.packets]
  · exact fun _ => ⟨Nat.zero_le _, fun ht => absurd ht (by decide)⟩

theorem Building.terminate (h : Building limits maxPacket s fs t) (hne : fs ≠ []) :
    ∃ t', t' ≤ t + 1 ∧ Building limits maxPacket (terminate maxPacket s) fs t' ∧
      (2 ≤ maxPacket → ¬ maxPacket ∣ (Tx.terminate maxPacket s).batch.length) := by
  have hlen : s.batch.length = (encode limits.alignment fs).length + t := by
    rw [h.batch, List.length_append, List.length_replicate]
  unfold Tx.terminate
  split
  · rename_i hmod
    have hdvd : maxPacket ∣ (encode limits.alignment fs).length + t := by
      rw [← hlen]
      exact Nat.dvd_of_mod_eq_zero hmod
    refine ⟨t + 1, Nat.le_refl _, ⟨?_, h.packets, h.packed, ?_, fun he => absurd he hne⟩, ?_⟩
    · rw [h.batch, List.replicate_succ', List.append_assoc]
    · intro hmp
      obtain ⟨hle, hone⟩ := h.padding hmp
      have ht : t = 0 := by
        by_contra hpos
        have hn := hone (by omega)
        have hd := (Nat.dvd_add_right hn).mp hdvd
        have := Nat.le_of_dvd (by omega) hd
        omega
      subst ht
      exact ⟨Nat.le_refl _, fun _ => by simpa using hdvd⟩
    · intro hmp hd
      rw [List.length_append, List.length_singleton, hlen] at hd
      have h1 := (Nat.dvd_add_right hdvd).mp hd
      have := Nat.le_of_dvd (by omega) h1
      omega
  · rename_i hmod
    exact ⟨t, Nat.le_succ t, h, fun _ hd => hmod (Nat.mod_eq_zero_of_dvd hd)⟩

end Batch

section Flush

variable (ep : OutEndpoint ε) (world : Schedule κ) {limits : TxLimits} (maxPacket steps : Nat)

/-- After a flush the batch is submitted, or the flush gave up after shutdown. -/
def Flushed (limits : TxLimits) (maxPacket : Nat) (s : Tx ε κ) (done fs : List Bytes) (t : Nat)
    (u : Tx ε κ) : Prop :=
  u.frames = s.frames ∧ (s.shutdown = true → u.shutdown = true) ∧
    (Building limits maxPacket u [] 0 ∧ Sent limits maxPacket u (done ++ fs) ∨
      u.shutdown = true ∧ Sent limits maxPacket u done ∧
        ∃ t', t' ≤ t + 1 ∧ Building limits maxPacket u fs t')

/-- A run that stopped in the middle of something: at most `fs` was sent. -/
def Partly (limits : TxLimits) (maxPacket : Nat) (fs : List Bytes) (e : Unfinished) (u : Tx ε κ) :
    Prop :=
  e ≠ .head ∧ ∃ sent, sent <+: fs ∧ Sent limits maxPacket u sent

theorem Partly.mono {maxPacket : Nat} {fs gs : List Bytes} (h : fs <+: gs) {e : Unfinished}
    {u : Tx ε κ} (k : Partly limits maxPacket fs e u) : Partly limits maxPacket gs e u := by
  obtain ⟨he, sent, hs, hu⟩ := k
  exact ⟨he, sent, hs.trans h, hu⟩

theorem Building.start (maxPacket : Nat) {s : Tx ε κ} (hb : s.batch = []) (hp : s.packets = 0) :
    Building limits maxPacket s [] 0 :=
  ⟨hb, hp, .nil, fun _ => ⟨Nat.zero_le _, fun ht => absurd ht (by decide)⟩, fun _ => rfl⟩

theorem Sent.submit {maxPacket : Nat} {s u : Tx ε κ} {done fs : List Bytes} {b : Bytes}
    (h : Sent limits maxPacket s done) (hb : Transfer limits maxPacket b fs)
    (hu : u.submitted = s.submitted ++ [b]) : Sent limits maxPacket u (done ++ fs) := by
  obtain ⟨groups, hall, rfl⟩ := h
  refine ⟨groups ++ [fs], ?_, by simp⟩
  rw [hu]
  exact List.rel_append hall (.cons hb .nil)

theorem flush_spec {s : Tx ε κ} {done fs : List Bytes} {t : Nat} (ht : t ≤ 1)
    (hb : Building limits maxPacket s fs t) (hs : Sent limits maxPacket s done) :
    wp (flush ep world maxPacket steps) (fun _ => Flushed limits maxPacket s done fs t)
      (Partly limits maxPacket (done ++ fs)) s := by
  simp only [flush, wp_bind, wp_state]
  apply wp_ite
  · intro hz
    obtain rfl : fs = [] := List.eq_nil_of_length_eq_zero (by rw [← hb.packets, hz])
    obtain rfl := hb.empty rfl
    exact ⟨rfl, fun h => h, Or.inl ⟨hb, by simpa using hs⟩⟩
  · intro hnz
    have hne : fs ≠ [] := by
      rintro rfl
      exact hnz hb.packets
    obtain ⟨t', ht', hterm, hodd⟩ := hb.terminate hne
    have hframes : (terminate maxPacket s).frames = s.frames := by
      unfold terminate
      split <;> rfl
    have hdown : (terminate maxPacket s).shutdown = s.shutdown := by
      unfold terminate
      split <;> rfl
    have hsent : Sent limits maxPacket (terminate maxPacket s) done := by
      unfold Sent submitted terminate
      split <;> exact hs
    simp only [wp_bind, wp_update]
    refine wp_mono (awaitRoom_untouched ep world steps _) ?_ ?_
    · intro r u hres
      obtain ⟨hu, hr⟩ := hres
      have hshut : s.shutdown = true → u.shutdown = true := by
        intro h
        exact hu.shutdown (hdown ▸ h)
      cases r with
      | true =>
        exact ⟨hu.frames.trans hframes, hshut,
          Or.inr ⟨hr rfl, hsent.untouched hu, t', ht', hterm.untouched hu⟩⟩
      | false =>
        simp only [Bool.false_eq_true, if_false, wp_bind, wp_update, wp_state]
        rw [onPort, wp_zoom, Port.submit, wp_update]
        have htransfer : Transfer limits maxPacket u.batch fs := by
          have hbu := hterm.untouched hu
          refine ⟨hne, hbu.packed, t', by omega, hbu.batch, hbu.padding, ?_⟩
          rw [hu.batch]
          exact hodd
        have hnow := (hsent.untouched hu).submit htransfer
          (u := { counted u with
            bulkOut := { dev := ep.submit u.bulkOut.dev u.batch, log := u.bulkOut.log ++ [.submit u.batch] }
            batch := [], packets := 0 })
          (by simp [submitted, submissions])
        refine wp_mono (reap_untouched ep steps 0 _) ?_ ?_
        · intro _ v hv
          refine ⟨hv.frames.trans (hu.frames.trans hframes), fun h => hv.shutdown (hshut h), ?_⟩
          exact Or.inl ⟨(Building.start maxPacket rfl rfl).untouched hv, hnow.untouched hv⟩
        · intro e v hres
          obtain ⟨rfl, hv⟩ := hres
          exact ⟨by decide, _, List.prefix_refl _, hnow.untouched hv⟩
    · intro e u hres
      obtain ⟨rfl, hu⟩ := hres
      exact ⟨by decide, done, List.prefix_append _ _, hsent.untouched hu⟩

end Flush

section Run

variable (ep : OutEndpoint ε) (world : Schedule κ) (limits : TxLimits) (maxPacket steps : Nat)

def Fitting (f : Bytes) : Bool := dataHeaderLen + f.length ≤ limits.maxTransferSize

/-- Every fitting frame taken off the channel is sent or in the batch. -/
def Carried (all : List Bytes) (s : Tx ε κ) (hand : List Bytes) : Prop :=
  ∃ done fs taken, Sent limits maxPacket s done ∧ Building limits maxPacket s fs 0 ∧
    all = taken ++ (hand ++ s.frames) ∧ taken.filter (Fitting limits) = done ++ fs

def GivenUp (all : List Bytes) (s : Tx ε κ) : Prop :=
  s.shutdown = true ∧ ∃ done fs t, t ≤ 1 ∧ Sent limits maxPacket s done ∧
    Building limits maxPacket s fs t ∧ done ++ fs <+: all.filter (Fitting limits)

def Delivered (all : List Bytes) (s : Tx ε κ) : Prop :=
  (∃ taken, Building limits maxPacket s [] 0 ∧ all = taken ++ s.frames ∧
      Sent limits maxPacket s (taken.filter (Fitting limits))) ∨
    s.shutdown = true ∧ ∃ sent, sent <+: all.filter (Fitting limits) ∧ Sent limits maxPacket s sent

variable {limits maxPacket}

theorem filter_prefix {all taken rest : List Bytes} (h : all = taken ++ rest) :
    taken.filter (Fitting limits) <+: all.filter (Fitting limits) := by
  rw [h, List.filter_append]
  exact List.prefix_append _ _

theorem fits_empty_iff (hmax : 1 ≤ limits.maxPackets) {s : Tx ε κ} (hbatch : s.batch = [])
    (hpackets : s.packets = 0) (f : Bytes) : fits limits s f = true ↔ Fitting limits f = true := by
  have hpos : 0 < limits.maxPackets := hmax
  simp [fits, Fitting, hbatch, hpackets, hpos]

theorem makeRoom_spec (hmax : 1 ≤ limits.maxPackets) {all : List Bytes} {s : Tx ε κ} {f : Bytes}
    (h : Carried limits maxPacket all s [f]) :
    wp (makeRoom ep world limits maxPacket steps f)
      (fun r u => if r then fits limits u f = true ∧ Carried limits maxPacket all u [f]
        else Carried limits maxPacket all u [] ∨ GivenUp limits maxPacket all u)
      (Partly limits maxPacket (all.filter (Fitting limits))) s := by
  obtain ⟨done, fs, taken, hs, hb, hall, htaken⟩ := h
  have hpre : done ++ fs <+: all.filter (Fitting limits) := by
    rw [← htaken]
    exact filter_prefix hall
  simp only [makeRoom, wp_bind, wp_state]
  apply wp_ite
  · intro hf
    exact ⟨hf, done, fs, taken, hs, hb, hall, htaken⟩
  · intro hf
    rw [wp_bind]
    refine wp_mono (flush_spec ep world maxPacket steps (Nat.zero_le _) hb hs) ?_
      (fun _ _ he => he.mono hpre)
    intro _ u hres
    obtain ⟨hframes, _, ⟨hbu, hsu⟩ | ⟨hshut, hsu, t, ht, hbu⟩⟩ := hres
    all_goals simp only [wp_bind, wp_state, wp_pure]
    · cases hfu : fits limits u f with
      | true =>
        rw [if_pos rfl]
        refine ⟨rfl, done ++ fs, [], taken, hsu, hbu, ?_, by rw [htaken, List.append_nil]⟩
        rw [hframes]
        exact hall
      | false =>
        rw [if_neg (by decide)]
        refine Or.inl ⟨done ++ fs, [], taken ++ [f], hsu, hbu, ?_, ?_⟩
        · rw [hframes, hall]
          simp
        · have hbig : Fitting limits f = false := by
            have hno := (not_congr (hbu.fits_iff f)).mp (by simp [hfu])
            simp only [encode, List.length_nil, List.flatMap_nil, Nat.zero_add] at hno
            simp only [Fitting, decide_eq_false_iff_not]
            omega
          simp [htaken, hbig]
    · have hno : fits limits u f = false := by
        have hn := (not_congr (hb.fits_iff f)).mp hf
        rw [← Bool.not_eq_true, hbu.fits_iff f]
        omega
      rw [if_neg (by simp [hno])]
      exact Or.inr ⟨hshut, done, fs, t, by omega, hsu, hbu, hpre⟩

theorem fill_spec (hmax : 1 ≤ limits.maxPackets) {all : List Bytes} {s : Tx ε κ} {f : Bytes}
    (h : Carried limits maxPacket all s [f]) :
    wp (fill ep world limits maxPacket steps f)
      (fun _ u => Carried limits maxPacket all u [] ∨ GivenUp limits maxPacket all u)
      (Partly limits maxPacket (all.filter (Fitting limits))) s := by
  refine wp_iter (fun g t => Carried limits maxPacket all t [g]) ?_ ?_ steps f h
  case refine_2 =>
    intro g t hres
    obtain ⟨done, fs, taken, hs, _, hall, htaken⟩ := hres
    refine ⟨by decide, done, ?_, hs⟩
    exact (List.prefix_append done fs).trans (htaken ▸ filter_prefix hall)
  intro g t ht
  rw [wp_bind]
  refine wp_mono (makeRoom_spec ep world steps hmax ht) ?_ (fun _ _ he => he)
  intro r u hu
  cases r with
  | false => exact hu
  | true =>
    obtain ⟨hfit, done, fs, taken, hs, hb, hall, htaken⟩ := hu
    obtain ⟨hcount, hsize⟩ := (hb.fits_iff g).mp hfit
    have hkeep : Fitting limits g = true := by
      simp only [Fitting, decide_eq_true_eq]
      omega
    have hbp := hb.push hfit
    have hgoes : (taken ++ [g]).filter (Fitting limits) = done ++ (fs ++ [g]) := by
      rw [List.filter_append, htaken, List.append_assoc]
      simp [hkeep]
    simp only [if_true, wp_bind, push, wp_update]
    apply tryRecv_wp
    · intro next rest k hrest
      refine ⟨done, fs ++ [g], taken ++ [g], hs, hbp.congr rfl rfl, ?_, hgoes⟩
      rw [hall]
      simp only at hrest
      simp [hrest]
    · intro k
      refine Or.inl ⟨done, fs ++ [g], taken ++ [g], hs, hbp.congr rfl rfl, ?_, hgoes⟩
      rw [hall]
      simp

theorem Delivered.untouched {all : List Bytes} {s u : Tx ε κ}
    (h : Delivered limits maxPacket all s) (k : Untouched s u) :
    Delivered limits maxPacket all u := by
  rcases h with ⟨taken, hb, hall, hs⟩ | ⟨hshut, sent, hpre, hs⟩
  · exact Or.inl ⟨taken, hb.untouched k, by rw [k.frames, hall], hs.untouched k⟩
  · exact Or.inr ⟨k.shutdown hshut, sent, hpre, hs.untouched k⟩

theorem Delivered.initial {all : List Bytes} {s : Tx ε κ} (h : Delivered limits maxPacket all s) :
    ∃ sent, sent <+: all.filter (Fitting limits) ∧ Sent limits maxPacket s sent := by
  rcases h with ⟨taken, _, hall, hs⟩ | ⟨_, sent, hpre, hs⟩
  · exact ⟨_, filter_prefix hall, hs⟩
  · exact ⟨sent, hpre, hs⟩

theorem lastFlush_spec {all : List Bytes} {s : Tx ε κ}
    (h : Carried limits maxPacket all s [] ∨ GivenUp limits maxPacket all s) :
    wp (flush ep world maxPacket steps) (fun _ => Delivered limits maxPacket all)
      (Partly limits maxPacket (all.filter (Fitting limits))) s := by
  rcases h with ⟨done, fs, taken, hs, hb, hall, htaken⟩ | ⟨hshut, done, fs, t, ht, hs, hb, hpre⟩
  · have hpre : done ++ fs <+: all.filter (Fitting limits) := htaken ▸ filter_prefix hall
    refine wp_mono (flush_spec ep world maxPacket steps (Nat.zero_le _) hb hs) ?_
      (fun _ _ he => he.mono hpre)
    intro _ u hres
    obtain ⟨hframes, _, ⟨hbu, hsu⟩ | ⟨hshut, hsu, _⟩⟩ := hres
    · exact Or.inl ⟨taken, hbu, by rw [hframes]; exact hall, by rwa [htaken]⟩
    · exact Or.inr ⟨hshut, done, (List.prefix_append done fs).trans hpre, hsu⟩
  · refine wp_mono (flush_spec ep world maxPacket steps ht hb hs) ?_ (fun _ _ he => he.mono hpre)
    intro _ u hres
    obtain ⟨_, hkeep, ⟨_, hsu⟩ | ⟨_, hsu, _⟩⟩ := hres
    · exact Or.inr ⟨hkeep hshut, _, hpre, hsu⟩
    · exact Or.inr ⟨hkeep hshut, done, (List.prefix_append done fs).trans hpre, hsu⟩

theorem turn_spec (hmax : 1 ≤ limits.maxPackets) {all : List Bytes} {s : Tx ε κ}
    (h : Delivered limits maxPacket all s) :
    wp (turn ep world limits maxPacket steps) (fun _ => Delivered limits maxPacket all)
      (Partly limits maxPacket (all.filter (Fitting limits))) s := by
  have hreap : ∀ u : Tx ε κ, Delivered limits maxPacket all u →
      wp (onPort (reap ep steps 0)) (fun _ => Delivered limits maxPacket all)
        (Partly limits maxPacket (all.filter (Fitting limits))) u := by
    intro u hu
    refine wp_mono (reap_untouched ep steps 0 u) (fun _ _ hv => hu.untouched hv) ?_
    intro _ v hres
    obtain ⟨rfl, hv⟩ := hres
    exact ⟨by decide, (hu.untouched hv).initial⟩
  rw [turn, wp_bind]
  apply loadShutdown_wp
  intro b k hb
  have hload := h.untouched (untouched_load k hb)
  cases b with
  | true => exact hload
  | false =>
    simp only [Bool.false_eq_true, if_false, wp_bind]
    apply recvTimeout_wp
    · intro f rest k' hf
      rcases hload with ⟨taken, hbatch, hall, hs⟩ | ⟨hshut, _⟩
      · have hcarried : Carried limits maxPacket all
            { s with shutdown := false, frames := rest, sched := k' } [f] := by
          refine ⟨_, [], taken, hs, hbatch.congr rfl rfl, ?_, by simp⟩
          rw [hall]
          exact congrArg (taken ++ ·) hf
        simp only [wp_bind]
        refine wp_mono (fill_spec ep world steps hmax hcarried) ?_ (fun _ _ he => he)
        intro _ u hu
        exact wp_mono (lastFlush_spec ep world steps hu) (fun _ _ hv => hv) (fun _ _ he => he)
      · exact Bool.noConfusion hshut
    · intro k'
      rw [wp_bind]
      exact wp_mono (hreap _ (hload.untouched ⟨rfl, rfl, rfl, rfl, fun hs => hs⟩))
        (fun _ _ hv => hv) (fun _ _ he => he)
    · intro k' _
      exact hload.untouched ⟨rfl, rfl, rfl, rfl, fun hs => hs⟩

theorem txLoop_spec (turns : Nat) (hmax : 1 ≤ limits.maxPackets) {all : List Bytes} {s : Tx ε κ}
    (h : Delivered limits (max (ep.maxPacketSize s.bulkOut.dev) 1) all s) :
    wp (txLoop ep world limits turns steps)
      (fun _ => Delivered limits (max (ep.maxPacketSize s.bulkOut.dev) 1) all)
      (fun e u => e = .head ∧ Delivered limits (max (ep.maxPacketSize s.bulkOut.dev) 1) all u ∨
        Partly limits (max (ep.maxPacketSize s.bulkOut.dev) 1) (all.filter (Fitting limits)) e u)
      s := by
  simp only [txLoop, wp_bind, wp_state]
  generalize max (ep.maxPacketSize s.bulkOut.dev) 1 = maxPacket at h ⊢
  have hloop : wp (loop .head (turn ep world limits maxPacket steps) turns)
      (fun _ => Delivered limits maxPacket all)
      (fun e u => e = .head ∧ Delivered limits maxPacket all u ∨
        Partly limits maxPacket (all.filter (Fitting limits)) e u) s := by
    refine wp_loop (Delivered limits maxPacket all) ?_ ?_ turns h
    case refine_2 => exact fun _ hu => Or.inl ⟨rfl, hu⟩
    intro u hu
    refine wp_mono (turn_spec ep world steps hmax hu) ?_ (fun _ _ he => Or.inr he)
    intro r v hv
    cases r <;> exact hv
  refine wp_mono hloop ?_ (fun _ _ he => he)
  intro _ u hu
  refine wp_mono (reap_untouched ep steps _ u) (fun _ _ hv => hu.untouched hv) ?_
  intro _ v hres
  obtain ⟨rfl, hv⟩ := hres
  exact Or.inr ⟨by decide, (hu.untouched hv).initial⟩

end Run

/-- A transfer as the device wants it: whole aligned messages, no more of them than
it accepts, a tail too short for a header, and no zero-length packet at the end. -/
def IsTransfer (limits : TxLimits) (packetSize : Nat) (b : Bytes) : Prop :=
  ∃ ms fs tail, b = ms.flatten ++ tail ∧ List.Forall₂ Packet.IsMessage ms fs ∧
    tail.length < dataHeaderLen ∧ 1 ≤ ms.length ∧ ms.length ≤ limits.maxPackets ∧
    (∀ i, max limits.alignment 1 ∣ (ms.take i).flatten.length) ∧
    (2 ≤ packetSize → ¬ packetSize ∣ b.length)

section Device

variable {limits : TxLimits} {maxPacket : Nat} {b : Bytes} {fs : List Bytes}

theorem encode_eq_flatten (alignment : Nat) (fs : List Bytes) :
    encode alignment fs = (fs.map (Packet.message · alignment)).flatten := List.flatMap_def

theorem dvd_encode (alignment : Nat) (fs : List Bytes) :
    max alignment 1 ∣ (encode alignment fs).length := by
  induction fs with
  | nil => exact Nat.dvd_zero _
  | cons f fs ih =>
    rw [encode, List.flatMap_cons, List.length_append]
    exact Nat.dvd_add (Packet.dvd_length_message f alignment) ih

theorem forall₂_message (h : ∀ f ∈ fs, Packet.messageLen f limits.alignment < 2 ^ 32) :
    List.Forall₂ Packet.IsMessage (fs.map (Packet.message · limits.alignment)) fs := by
  induction fs with
  | nil => exact .nil
  | cons f fs ih =>
    refine .cons (Packet.isMessage_message (h f List.mem_cons_self)) (ih ?_)
    exact fun g hg => h g (List.mem_cons_of_mem f hg)

variable (hb : Transfer limits maxPacket b fs)
  (h : ∀ f ∈ fs, Packet.messageLen f limits.alignment < 2 ^ 32)
include hb h

theorem Transfer.items_eq : Packet.items b = fs.map .ok := by
  obtain ⟨_, _, t, ht, rfl, _⟩ := hb
  rw [encode_eq_flatten]
  apply Packet.items_messages (forall₂_message h)
  rw [List.length_replicate, dataHeaderLen_eq]
  omega

theorem Transfer.isTransfer {packetSize : Nat} (hmp : maxPacket = max packetSize 1) :
    IsTransfer limits packetSize b := by
  obtain ⟨hne, hpacked, t, ht, rfl, _, hodd⟩ := hb
  refine ⟨fs.map (Packet.message · limits.alignment), fs, List.replicate t 0, ?_,
    forall₂_message h, ?_, ?_, ?_, ?_, ?_⟩
  · rw [encode_eq_flatten]
  · rw [List.length_replicate, dataHeaderLen_eq]
    omega
  · rw [List.length_map]
    exact List.length_pos_iff.mpr hne
  · rw [List.length_map]
    exact hpacked.length_le
  · intro i
    rw [← List.map_take, ← encode_eq_flatten]
    exact dvd_encode _ _
  · intro hp
    rw [show packetSize = maxPacket by omega]
    exact hodd (by omega)

end Device

theorem Sent.items_eq {limits : TxLimits} {maxPacket : Nat} {s : Tx ε κ} {fs : List Bytes}
    (hs : Sent limits maxPacket s fs)
    (h : ∀ f ∈ fs, Packet.messageLen f limits.alignment < 2 ^ 32) :
    s.submitted.flatMap Packet.items = fs.map .ok := by
  obtain ⟨groups, hall, rfl⟩ := hs
  generalize s.submitted = bs at *
  induction hall with
  | nil => rfl
  | cons hb _ ih =>
    rw [List.flatten_cons] at h ⊢
    rw [List.flatMap_cons, List.map_append, hb.items_eq, ih]
    · exact fun f hf => h f (List.mem_append_right _ hf)
    · exact fun f hf => h f (List.mem_append_left _ hf)

theorem Sent.transfer {limits : TxLimits} {maxPacket : Nat} {s : Tx ε κ} {fs : List Bytes}
    (hs : Sent limits maxPacket s fs) {b : Bytes} (hb : b ∈ s.submitted) :
    ∃ gs, (∀ f ∈ gs, f ∈ fs) ∧ Transfer limits maxPacket b gs := by
  obtain ⟨groups, hall, rfl⟩ := hs
  generalize s.submitted = bs at *
  induction hall with
  | nil => cases hb
  | cons hc _ ih =>
    rw [List.flatten_cons]
    rcases List.mem_cons.mp hb with rfl | hb
    · exact ⟨_, fun f hf => List.mem_append_left _ hf, hc⟩
    · obtain ⟨gs, hgs, htransfer⟩ := ih hb
      exact ⟨gs, fun f hf => List.mem_append_right _ (hgs f hf), htransfer⟩

section Whole

variable (ep : OutEndpoint ε) (world : Schedule κ) (limits : TxLimits) (turns steps : Nat) (dev : ε)
  (sched : κ) (frames : List Bytes)

theorem delivered_or_partly (hmax : 1 ≤ limits.maxPackets) :
    let r := txLoop ep world limits turns steps (start dev sched frames)
    Delivered limits (max (ep.maxPacketSize dev) 1) frames r.2 ∨
      ∃ e, r.1 = .error e ∧
        Partly limits (max (ep.maxPacketSize dev) 1) (frames.filter (Fitting limits)) e r.2 := by
  intro r
  have hstart : Delivered limits (max (ep.maxPacketSize dev) 1) frames
      (start dev sched frames : Tx ε κ) :=
    Or.inl ⟨[], Building.start _ rfl rfl, rfl, [], .nil, rfl⟩
  have hwp := wp_iff.mp
    (txLoop_spec ep world steps turns hmax (s := start dev sched frames) hstart)
  rcases hr : r with ⟨e | u, s⟩
  · rcases hwp.2 e s hr with ⟨_, hd⟩ | hp
    · exact Or.inl hd
    · exact Or.inr ⟨e, rfl, hp⟩
  · exact Or.inl (hwp.1 u s hr)

theorem sent_of_run (hmax : 1 ≤ limits.maxPackets) :
    ∃ fs, fs <+: frames.filter (Fitting limits) ∧
      Sent limits (max (ep.maxPacketSize dev) 1)
        (txLoop ep world limits turns steps (start dev sched frames)).2 fs := by
  rcases delivered_or_partly ep world limits turns steps dev sched frames hmax with h | ⟨_, _, _, h⟩
  · exact h.initial
  · exact h

theorem sent_of_taken (hmax : 1 ≤ limits.maxPackets) :
    let r := txLoop ep world limits turns steps (start dev sched frames)
    (r.1 = .ok () ∨ r.1 = .error .head) → r.2.shutdown = false →
      ∃ taken sent, frames = taken ++ r.2.frames ∧
        Sent limits (max (ep.maxPacketSize dev) 1) r.2 sent ∧ sent.Sublist taken ∧
        ∀ f, sent.count f = if Fitting limits f then taken.count f else 0 := by
  intro r hend hdown
  rcases delivered_or_partly ep world limits turns steps dev sched frames hmax with
    (⟨taken, _, hall, hs⟩ | ⟨hshut, _⟩) | ⟨e, he, hne, _⟩
  · refine ⟨taken, taken.filter (Fitting limits), hall, hs, List.filter_sublist, ?_⟩
    intro f
    by_cases hfit : Fitting limits f
    · rw [if_pos hfit, List.count_filter hfit]
    · rw [if_neg hfit]
      apply List.count_eq_zero.mpr
      intro hmem
      exact hfit (List.mem_filter.mp hmem).2
  · cases hdown.symm.trans hshut
  · rcases hend with hend | hend
    · cases he.symm.trans hend
    · cases he.symm.trans hend
      exact absurd rfl hne

/-- Whatever the batching, the device reads the frames that fit it, in order and
unaltered, as long as their messages stay below 4 GiB. -/
theorem txLoop_delivers (hmax : 1 ≤ limits.maxPackets)
    (hlen : ∀ f ∈ frames, dataHeaderLen + f.length ≤ limits.maxTransferSize →
      Packet.messageLen f limits.alignment < 2 ^ 32) :
    let r := txLoop ep world limits turns steps (start dev sched frames)
    let fitting := frames.filter fun f => dataHeaderLen + f.length ≤ limits.maxTransferSize
    ∃ fs, r.2.submitted.flatMap Packet.items = fs.map .ok ∧ fs <+: fitting ∧
      ((r.1 = .ok () ∨ r.1 = .error .head) → r.2.frames = [] → r.2.shutdown = false →
        fs = fitting) ∧
      ∀ b ∈ r.2.submitted, IsTransfer limits (ep.maxPacketSize dev) b := by
  intro r fitting
  have hread : ∀ fs, fs <+: fitting → Sent limits (max (ep.maxPacketSize dev) 1) r.2 fs →
      r.2.submitted.flatMap Packet.items = fs.map .ok ∧
        ∀ b ∈ r.2.submitted, IsTransfer limits (ep.maxPacketSize dev) b := by
    intro fs hpre hs
    have hsmall : ∀ f ∈ fs, Packet.messageLen f limits.alignment < 2 ^ 32 := by
      intro f hf
      obtain ⟨hmem, hfit⟩ := List.mem_filter.mp (hpre.subset hf)
      exact hlen f hmem (by simpa using hfit)
    refine ⟨hs.items_eq hsmall, ?_⟩
    intro b hb
    obtain ⟨gs, hgs, htransfer⟩ := hs.transfer hb
    exact htransfer.isTransfer (fun f hf => hsmall f (hgs f hf)) rfl
  rcases delivered_or_partly ep world limits turns steps dev sched frames hmax with
    (⟨taken, _, hall, hs⟩ | ⟨hshut, fs, hpre, hs⟩) | ⟨e, he, hne, fs, hpre, hs⟩
  · have hpre : taken.filter (Fitting limits) <+: fitting := filter_prefix hall
    obtain ⟨hitems, hbuf⟩ := hread _ hpre hs
    refine ⟨_, hitems, hpre, ?_, hbuf⟩
    intro _ hnil _
    rw [hnil, List.append_nil] at hall
    rw [← hall]
    rfl
  · obtain ⟨hitems, hbuf⟩ := hread fs hpre hs
    refine ⟨fs, hitems, hpre, ?_, hbuf⟩
    intro _ _ hdown
    rw [hdown] at hshut
    cases hshut
  · obtain ⟨hitems, hbuf⟩ := hread fs hpre hs
    refine ⟨fs, hitems, hpre, ?_, hbuf⟩
    intro hr
    rcases hr with hr | hr <;> rw [he] at hr <;> cases hr
    exact absurd rfl hne

end Whole

def idlePipe (packetSize : Nat) : OutEndpoint Unit where
  pending _ := 0
  submit _ _ := ()
  wait _ _ := (none, ())
  cancelAll _ := ()
  clearHalt _ := (.ok (), ())
  maxPacketSize _ := packetSize

theorem txLoop_delivers_two :
    (txLoop (idlePipe 64) allQueued ⟨1580, 4, 4⟩ 1 3 (start () () [[1, 2, 3], [4, 5]])).2.submitted.flatMap
      Packet.items = [.ok [1, 2, 3], .ok [4, 5]] := by
  obtain ⟨fs, hitems, _, hall, _⟩ := txLoop_delivers (idlePipe 64) allQueued ⟨1580, 4, 4⟩ 1 3 () ()
    [[1, 2, 3], [4, 5]] (by decide) (by decide)
  rw [hitems, hall (by decide) (by decide) (by decide)]
  rfl

theorem submitted_lonely (packetSize : Nat) {limits : TxLimits} {f : Bytes}
    (hmax : 1 ≤ limits.maxPackets) (hf : dataHeaderLen + f.length ≤ limits.maxTransferSize) :
    (txLoop (idlePipe packetSize) allQueued limits 1 1 (start () () [f])).2.submitted =
      [if (Packet.message f limits.alignment).length % max packetSize 1 = 0 then
        Packet.message f limits.alignment ++ [0] else Packet.message f limits.alignment] := by
  have hcount : 0 < limits.maxPackets := hmax
  rw [← wp_snd (P := fun u => submitted u = _)]
  simp [txLoop, turn, loop, iter, loadShutdown, recvTimeout, fill, makeRoom, start, allQueued, fits,
    hf, hcount, push, tryRecv, flush, awaitRoom, idlePipe, onPort, wp_zoom, Port.submit, reap,
    terminate, Packet.append_eq, submitted, submissions, counted, txDepth]
  split <;> simp

theorem items_lonely (packetSize : Nat) {limits : TxLimits} {f : Bytes}
    (hmax : 1 ≤ limits.maxPackets) (hf : dataHeaderLen + f.length ≤ limits.maxTransferSize)
    (hwrap : Packet.messageLen f limits.alignment % 2 ^ 32 < dataHeaderLen) :
    (txLoop (idlePipe packetSize) allQueued limits 1 1
      (start () () [f])).2.submitted.flatMap Packet.items =
        [.error (.malformed "packet length outside transfer")] := by
  rw [submitted_lonely packetSize hmax hf, List.flatMap_singleton]
  split
  · exact Packet.items_wrapped f limits.alignment [0] hwrap
  · simpa using Packet.items_wrapped f limits.alignment [] hwrap

/-- With an alignment of 4 GiB the length field of every message is zero. -/
theorem wrapped_message_rejected : ¬ ∃ fs : List Bytes,
    (txLoop (idlePipe 512) allQueued ⟨16384, 1, 2 ^ 32⟩ 1 1
      (start () () [List.replicate 60 0])).2.submitted.flatMap Packet.items = fs.map .ok := by
  rintro ⟨fs, h⟩
  rw [items_lonely 512 (by decide) (by decide) (by decide)] at h
  cases fs <;> cases h

end Muta.Link.Tx
