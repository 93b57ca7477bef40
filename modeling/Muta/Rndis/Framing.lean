import Muta.Base.Records
import Muta.Rndis.Packet

/-!
# The grammar of a transfer

A transfer is messages and a tail too short for a header. What the iterator yields is
read off the way the transfer splits: the data of the leading messages, and one error
when what follows them is long enough for a header and is no message.
-/

namespace Muta.Packet

open Wire Records
set_option autoImplicit false

theorem isMessage_determined : Determined IsMessage := by
  intro m m' rest rest' d d' hm hm' heq
  have h := nextFrame_message hm rest
  rw [heq, nextFrame_message hm' rest'] at h
  obtain ⟨hd, hrest⟩ : d' = d ∧ rest' = rest := by simpa using h
  subst hd hrest
  exact ⟨List.append_cancel_right heq, rfl⟩

theorem no_message_of_error {buf : Bytes} {e : Error} (h : nextFrame buf = .err e) (m d r : Bytes)
    (hm : IsMessage m d) : buf ≠ m ++ r := by
  intro hb
  rw [hb, nextFrame_message hm] at h
  cases h

theorem items_splits {buf rest : Bytes} {ms ds : List Bytes} (h : Splits IsMessage buf ms ds rest) :
    items buf = ds.map .ok ++ items rest := by
  obtain ⟨hs, hw⟩ := h
  subst hw
  induction hs with
  | nil => rfl
  | cons hm _ ih =>
    rw [List.flatten_cons, List.append_assoc, items_message hm, ih]
    rfl

/-- Every transfer splits into messages and a rest, where the rest is too short for
a header or is refused. -/
theorem splits_total (k : Nat) (buf : Bytes) (hk : buf.length ≤ k) :
    ∃ ms ds rest, Splits IsMessage buf ms ds rest ∧
      (rest.length < dataHeaderLen ∨
        (dataHeaderLen ≤ rest.length ∧ ∃ e, nextFrame rest = .err e)) := by
  induction k generalizing buf with
  | zero =>
    refine ⟨[], [], buf, Splits.nil buf, Or.inl ?_⟩
    rw [dataHeaderLen_eq]
    omega
  | succ k ih =>
    rcases next_cases buf with ⟨hb, _⟩ | ⟨m, d, rest, rfl, hm, _⟩ | ⟨hb, e, he, _⟩
    · exact ⟨[], [], buf, Splits.nil buf, Or.inl hb⟩
    · have hh := hm.header
      rw [dataHeaderLen_eq] at hh
      rw [List.length_append] at hk
      obtain ⟨ms, ds, last, hs, hlast⟩ := ih rest (by omega)
      exact ⟨m :: ms, d :: ds, last, hs.cons hm, hlast⟩
    · exact ⟨[], [], buf, Splits.nil buf, Or.inr ⟨hb, e, he⟩⟩

theorem items_cases (buf : Bytes) :
    (∃ ms ds tail, Splits IsMessage buf ms ds tail ∧ tail.length < dataHeaderLen ∧
      items buf = ds.map .ok) ∨
    ∃ ms ds rest e, Splits IsMessage buf ms ds rest ∧ dataHeaderLen ≤ rest.length ∧
      nextFrame rest = .err e ∧ items buf = ds.map .ok ++ [.error e] := by
  obtain ⟨ms, ds, rest, hs, hrest⟩ := splits_total buf.length buf (Nat.le_refl _)
  cases hrest with
  | inl hshort =>
    refine Or.inl ⟨ms, ds, rest, hs, hshort, ?_⟩
    rw [items_splits hs, items_short hshort, List.append_nil]
  | inr herr =>
    obtain ⟨hlen, e, he⟩ := herr
    refine Or.inr ⟨ms, ds, rest, e, hs, hlen, he, ?_⟩
    rw [items_splits hs, items_error hlen he]

theorem items_length_le (buf : Bytes) : (items buf).length ≤ buf.length / dataHeaderLen := by
  have hheader : ∀ m d : Bytes, IsMessage m d → dataHeaderLen ≤ m.length := fun _ _ h => h.header
  have hpos : 0 < dataHeaderLen := by
    rw [dataHeaderLen_eq]
    omega
  apply (Nat.le_div_iff_mul_le hpos).mpr
  rcases items_cases buf with ⟨ms, ds, tail, hs, _, hi⟩ | ⟨ms, ds, rest, e, hs, hlen, _, hi⟩
  · have h := hs.length_le hheader
    rw [hi, List.length_map]
    omega
  · have h := hs.length_le hheader
    rw [hi, List.length_append, List.length_map, List.length_singleton, Nat.succ_mul]
    omega

theorem collect_of_items_lt {ε : Type} {n : Nat} {buf : Bytes} (h : (items buf).length < n) :
    (collect n buf : Checked ε _) = .ok (items buf) := by
  induction n generalizing buf with
  | zero => exact absurd h (Nat.not_lt_zero _)
  | succ n ih =>
    rcases next_cases buf with ⟨hb, hnext⟩ | ⟨m, d, rest, rfl, hm, hnext⟩ | ⟨hb, e, he, hnext⟩
    · rw [collect, hnext, items_short hb]
      rfl
    · rw [items_message hm] at h ⊢
      have hrest : (items rest).length < n := Nat.lt_of_succ_lt_succ h
      rw [collect, hnext, Checked.ok_bind]
      simp only [ih hrest, Checked.ok_bind, Checked.pure_eq]
    · have hnil : items [] = [] := items_short (by decide)
      rw [items_error hb he] at h ⊢
      have hn : (items []).length < n := by
        rw [hnil]
        exact Nat.lt_of_succ_lt_succ h
      rw [collect, hnext, Checked.ok_bind]
      simp only [ih hn, hnil, Checked.ok_bind, Checked.pure_eq]

/-- `spans` are the places in `buf` of the frames `ds`, each given by the offset and
length of its own message and inside it; the first message starts at `pos`. -/
inductive Placed (buf : Bytes) : Nat → List Bytes → List Bytes → List (Nat × Nat) → Prop
  | nil (pos : Nat) : Placed buf pos [] [] []
  | cons {pos : Nat} {m : Bytes} {o n : UInt32} {ms ds : List Bytes} {spans : List (Nat × Nat)}
      (offset : u32At m 8 = .ok o) (length : u32At m 12 = .ok n)
      (inside : offsetBase + o.toNat + n.toNat ≤ m.length)
      (rest : Placed buf (pos + m.length) ms ds spans) :
      Placed buf pos (m :: ms)
        (buf.sub (pos + (offsetBase + o.toNat)) (pos + (offsetBase + o.toNat + n.toNat)) :: ds)
        ((pos + (offsetBase + o.toNat), pos + (offsetBase + o.toNat + n.toNat)) :: spans)

theorem sub_offset {a b : Bytes} {i j : Nat} :
    Bytes.sub (a ++ b) (a.length + i) (a.length + j) = b.sub i j := by
  unfold Bytes.sub
  rw [List.drop_append, Nat.add_sub_cancel_left, List.drop_of_length_le (Nat.le_add_right _ _),
    List.nil_append, Nat.add_sub_add_left]

theorem placed_splits {buf rest : Bytes} {ms ds : List Bytes} (front : Bytes)
    (h : Splits IsMessage buf ms ds rest) :
    ∃ spans, Placed (front ++ buf) front.length ms ds spans := by
  obtain ⟨hs, hw⟩ := h
  subst hw
  induction hs generalizing front with
  | nil => exact ⟨[], .nil _⟩
  | @cons m d ms ds hm hs ih =>
    obtain ⟨o, n, ho, hn, hend, rfl⟩ := hm.data
    obtain ⟨spans, hspans⟩ := ih (front ++ m)
    rw [List.length_append, List.append_assoc] at hspans
    rw [List.flatten_cons, List.append_assoc]
    have hcut := Placed.cons ho hn hend hspans
    rw [sub_offset, Bytes.sub_append_left hend] at hcut
    exact ⟨_, hcut⟩

theorem Placed.start_le {buf : Bytes} {pos : Nat} {ms ds : List Bytes} {spans : List (Nat × Nat)}
    (h : Placed buf pos ms ds spans) : ∀ s ∈ spans, pos ≤ s.1 := by
  induction h with
  | nil => intro s hs; cases hs
  | cons _ _ _ _ ih =>
    intro s hs
    cases hs with
    | head => exact Nat.le_add_right _ _
    | tail _ hs => exact Nat.le_trans (Nat.le_add_right _ _) (ih s hs)

theorem Placed.disjoint {buf : Bytes} {pos : Nat} {ms ds : List Bytes} {spans : List (Nat × Nat)}
    (h : Placed buf pos ms ds spans) : spans.Pairwise (fun s t => s.2 ≤ t.1) := by
  induction h with
  | nil => exact .nil
  | cons _ _ hinside hrest ih =>
    refine .cons ?_ ih
    intro t ht
    have hle := hrest.start_le t ht
    exact Nat.le_trans (Nat.add_le_add_left hinside _) hle

/-- Frames appended one after another, each with an alignment of its own, come back as
they were, and a tail too short for a header adds nothing. -/
theorem decode_append (frames : List (Bytes × Nat)) (tail : Bytes)
    (hlen : ∀ p ∈ frames, messageLen p.1 p.2 < 2 ^ 32) (htail : tail.length < dataHeaderLen)
    {ε : Type} :
    (decode (frames.foldl (fun out p => append out p.1 p.2) [] ++ tail) : Checked ε _) =
      .ok (frames.map (fun p => .ok p.1)) := by
  have hout : ∀ (out : Bytes), frames.foldl (fun out p => append out p.1 p.2) out =
      out ++ (frames.map (fun p => message p.1 p.2)).flatten := by
    clear hlen
    induction frames with
    | nil => intro out; simp
    | cons p frames ih =>
      intro out
      rw [List.foldl_cons, ih, append_eq, List.map_cons, List.flatten_cons, List.append_assoc]
  have hms : List.Forall₂ IsMessage (frames.map (fun p => message p.1 p.2))
      (frames.map Prod.fst) := by
    clear hout
    induction frames with
    | nil => exact .nil
    | cons p frames ih =>
      refine .cons (isMessage_message (hlen p List.mem_cons_self)) (ih ?_)
      intro q hq
      exact hlen q (List.mem_cons_of_mem _ hq)
  rw [decode_eq, hout, List.nil_append, items_messages hms htail, List.map_map]
  rfl

theorem decode_append_two :
    (decode ([([1, 2, 3], 0), ([], 64)].foldl (fun out p => append out p.1 p.2) [] ++ [9, 9])
      : Checked Error _) = .ok [.ok [1, 2, 3], .ok []] :=
  decode_append [([1, 2, 3], 0), ([], 64)] [9, 9] (by decide) (by decide)

/-- The iterator accepts exactly the grammar of a transfer. -/
theorem decode_grammar (buf : Bytes) :
    ∃ out : List (Except Error Bytes),
      (∀ {ε : Type}, (decode buf : Checked ε _) = .ok out) ∧
      out.length ≤ buf.length / dataHeaderLen ∧
      (∀ {ε : Type} (n : Nat), buf.length / dataHeaderLen < n →
        (collect n buf : Checked ε _) = .ok out) ∧
      (∀ ds : List Bytes, out = ds.map .ok ↔
        ∃ ms tail, Splits IsMessage buf ms ds tail ∧ tail.length < dataHeaderLen) ∧
      ((∀ ds : List Bytes, out ≠ ds.map .ok) →
        ∃ ms ds rest e, Splits IsMessage buf ms ds rest ∧ out = ds.map .ok ++ [.error e] ∧
          ∀ ms' ds' rest', Splits IsMessage buf ms' ds' rest' → ms' <+: ms ∧ ds' <+: ds) ∧
      (∀ ms ds rest, Splits IsMessage buf ms ds rest →
        ∃ spans, Placed buf 0 ms ds spans ∧ spans.Pairwise (fun s t => s.2 ≤ t.1)) := by
  refine ⟨items buf, fun {_} => decode_eq buf, items_length_le buf, ?_, ?_, ?_, ?_⟩
  · intro ε n hn
    exact collect_of_items_lt (Nat.lt_of_le_of_lt (items_length_le buf) hn)
  · intro ds
    constructor
    · intro hds
      rcases items_cases buf with ⟨ms, ds', tail, hs, hlt, hi⟩ | ⟨ms, ds', rest, e, hs, _, _, hi⟩
      · have hinj : ds'.map (Except.ok (ε := Error)) = ds.map .ok := hi.symm.trans hds
        rw [List.map_injective_iff.mpr (fun _ _ => Except.ok.inj) hinj] at hs
        exact ⟨ms, tail, hs, hlt⟩
      · have hmem : Except.error e ∈ ds.map (Except.ok (ε := Error)) := by
          rw [← hds, hi]
          exact List.mem_append_right _ List.mem_cons_self
        obtain ⟨d, _, hd⟩ := List.mem_map.mp hmem
        cases hd
    · intro h
      obtain ⟨ms, tail, hs, htail⟩ := h
      rw [items_splits hs, items_short htail, List.append_nil]
  · intro hbad
    rcases items_cases buf with ⟨_, ds, _, _, _, hi⟩ | ⟨ms, ds, rest, e, hs, _, he, hi⟩
    · exact absurd hi (hbad ds)
    · refine ⟨ms, ds, rest, e, hs, hi, ?_⟩
      intro ms' ds' rest' hs'
      exact hs.longest isMessage_determined (no_message_of_error he) hs'
  · intro ms ds rest hs
    obtain ⟨spans, hspans⟩ := placed_splits [] hs
    exact ⟨spans, hspans, hspans.disjoint⟩

end Muta.Packet
