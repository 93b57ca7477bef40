import Muta.Rndis.Wire

/-!
# PACKET_MSG framing

`append` writes one Ethernet frame behind a bulk transfer under construction;
`next` and `decode` walk a received transfer. A received header is read with every
range checked, so the first result is that the walk cannot fault. After that
the walk is described by the messages it splits off (`IsMessage`).
-/

namespace Muta.Packet

open Wire
set_option autoImplicit false

def messageLen (frame : Bytes) (alignment : Nat) : Nat :=
  nextMultipleOf (dataHeaderLen + frame.length) (max alignment 1)

def append (out frame : Bytes) (alignment : Nat) : Bytes :=
  let body := dataHeaderLen + frame.length
  let msgLen := messageLen frame alignment
  let fields := [msgPacket, UInt32.ofNat msgLen, UInt32.ofNat (dataHeaderLen - offsetBase),
    UInt32.ofNat frame.length, 0, 0, 0, 0, 0, 0, 0]
  out ++ words fields ++ frame ++ List.replicate (msgLen - body) 0

/-- One frame and what is left of the transfer behind its message. -/
def nextFrame (buf : Bytes) : Checked Error (Bytes × Bytes) := do
  if (← u32AtChecked buf 0) ≠ msgPacket then
    let found ← u32AtChecked buf 0
    .err (.unexpectedMessage found)
  let msgLen := (← u32AtChecked buf 4).toNat
  let dataOffset := (← u32AtChecked buf 8).toNat
  let dataLen := (← u32AtChecked buf 12).toNat
  if msgLen < dataHeaderLen ∨ msgLen > buf.length then
    .err (.malformed "packet length outside transfer")
  let some stop := (checkedAdd offsetBase dataOffset).bind (checkedAdd · dataLen)
    | .err (.malformed "packet data offset overflow")
  if stop > msgLen then
    .err (.malformed "packet data outside message")
  let start ← inWord 64 (offsetBase + dataOffset)
  let frame ← buf.slice start stop
  let rest ← buf.slice msgLen buf.length
  return (frame, rest)

/-- The iterator's `next`: an item and the buffer it goes on with. After an error
the buffer is emptied, which ends the iteration. -/
def next {ε : Type} (buf : Bytes) : Checked ε (Option (Except Error Bytes × Bytes)) :=
  if buf.length < dataHeaderLen then
    .ok none
  else
    match nextFrame buf with
    | .ok (frame, rest) => .ok (some (.ok frame, rest))
    | .err e => .ok (some (.error e, []))
    | .fault f => .fault f

def collect {ε : Type} : Nat → Bytes → Checked ε (List (Except Error Bytes))
  | 0, _ => .ok []
  | n + 1, buf => do
    match ← next buf with
    | none => return []
    | some (item, rest) => return item :: (← collect n rest)

/-- All items of a transfer. Every item takes at least one byte, or is the last. -/
def decode {ε : Type} (buf : Bytes) : Checked ε (List (Except Error Bytes)) :=
  collect (buf.length + 1) buf

section Header

variable {buf : Bytes} {t l o n : UInt32}
variable (ht : u32At buf 0 = .ok t) (hl : u32At buf 4 = .ok l)
variable (ho : u32At buf 8 = .ok o) (hn : u32At buf 12 = .ok n)
include ht hl ho hn

theorem nextFrame_eq :
    nextFrame buf =
      if t ≠ msgPacket then .err (.unexpectedMessage t)
      else if l.toNat < dataHeaderLen ∨ l.toNat > buf.length then
        .err (.malformed "packet length outside transfer")
      else if offsetBase + o.toNat + n.toNat > l.toNat then
        .err (.malformed "packet data outside message")
      else
        .ok (buf.sub (offsetBase + o.toNat) (offsetBase + o.toNat + n.toNat), buf.drop l.toNat) := by
  have hol := o.toNat_lt
  have hnl := n.toNat_lt
  have hb := offsetBase_eq
  have hadd : (checkedAdd offsetBase o.toNat).bind (checkedAdd · n.toNat) =
      some (offsetBase + o.toNat + n.toNat) := by
    rw [checkedAdd_eq (by omega), Option.bind_some, checkedAdd_eq (by omega)]
  unfold nextFrame
  simp only [u32AtChecked_eq buf (show 0 + 4 < 2 ^ 64 by omega),
    u32AtChecked_eq buf (show 4 + 4 < 2 ^ 64 by omega),
    u32AtChecked_eq buf (show 8 + 4 < 2 ^ 64 by omega),
    u32AtChecked_eq buf (show 12 + 4 < 2 ^ 64 by omega), ht, hl, ho, hn, hadd,
    Checked.ofExcept_ok, Checked.ok_bind]
  split
  · rfl
  split
  · rfl
  · rename_i hlen
    split
    · rfl
    · have hlt : offsetBase + o.toNat < 2 ^ 64 := by omega
      simp only [Checked.pure_eq, Checked.ok_bind, inWord_ok hlt]
      rw [Bytes.slice_ok (by omega) (by omega), Bytes.slice_ok (by omega) (by omega),
        Bytes.sub_length]
      rfl

end Header

theorem header_words {buf : Bytes} (h : dataHeaderLen ≤ buf.length) :
    ∃ t l o n, u32At buf 0 = .ok t ∧ u32At buf 4 = .ok l ∧ u32At buf 8 = .ok o ∧
      u32At buf 12 = .ok n := by
  rw [dataHeaderLen_eq] at h
  obtain ⟨t, ht⟩ := u32At_ok buf 0 (by omega)
  obtain ⟨l, hl⟩ := u32At_ok buf 4 (by omega)
  obtain ⟨o, ho⟩ := u32At_ok buf 8 (by omega)
  obtain ⟨n, hn⟩ := u32At_ok buf 12 (by omega)
  exact ⟨t, l, o, n, ht, hl, ho, hn⟩

/-- `m` is one whole PACKET_MSG carrying the frame `d`. -/
structure IsMessage (m d : Bytes) : Prop where
  header : dataHeaderLen ≤ m.length
  type : u32At m 0 = .ok msgPacket
  len : ∃ l, u32At m 4 = .ok l ∧ l.toNat = m.length
  data : ∃ o n, u32At m 8 = .ok o ∧ u32At m 12 = .ok n ∧
    offsetBase + o.toNat + n.toNat ≤ m.length ∧
    d = m.sub (offsetBase + o.toNat) (offsetBase + o.toNat + n.toNat)

theorem u32At_append {m : Bytes} (rest : Bytes) {offset : Nat} (h : offset + 4 ≤ m.length) :
    u32At (m ++ rest) offset = u32At m offset := by
  have hlen : offset + 4 ≤ (m ++ rest).length := by
    rw [List.length_append]
    omega
  unfold u32At
  rw [Bytes.range?_eq (by omega) hlen, Bytes.range?_eq (by omega) h, Bytes.sub_append_left h]

theorem nextFrame_message {m d : Bytes} (h : IsMessage m d) (rest : Bytes) :
    nextFrame (m ++ rest) = .ok (d, rest) := by
  have hh := dataHeaderLen_eq ▸ h.header
  obtain ⟨l, hl, hlen⟩ := h.len
  obtain ⟨o, n, ho, hn, hend, rfl⟩ := h.data
  have htot : (m ++ rest).length = m.length + rest.length := List.length_append
  rw [nextFrame_eq (by rw [u32At_append rest (by omega)]; exact h.type)
    (by rw [u32At_append rest (by omega)]; exact hl)
    (by rw [u32At_append rest (by omega)]; exact ho)
    (by rw [u32At_append rest (by omega)]; exact hn)]
  rw [if_neg (by simp), if_neg (by rw [dataHeaderLen_eq]; omega), if_neg (by omega),
    Bytes.sub_append_left hend, hlen, List.drop_append_length]

theorem message_of_nextFrame {buf d rest : Bytes} (hb : dataHeaderLen ≤ buf.length)
    (h : nextFrame buf = .ok (d, rest)) : ∃ m, buf = m ++ rest ∧ IsMessage m d := by
  obtain ⟨t, l, o, n, ht, hl, ho, hn⟩ := header_words hb
  rw [nextFrame_eq ht hl ho hn] at h
  split at h
  · cases h
  rename_i htype
  split at h
  · cases h
  rename_i hlen
  split at h
  · cases h
  rename_i hend
  obtain ⟨rfl, rfl⟩ : buf.sub _ _ = d ∧ buf.drop l.toNat = rest := by simpa using h
  rw [dataHeaderLen_eq] at hlen hb
  -- The message is what the transfer holds up to `msg_len`.
  have htake : (buf.take l.toNat).length = l.toNat := by
    rw [List.length_take]
    omega
  have hword : ∀ {offset : Nat}, offset + 4 ≤ l.toNat →
      u32At (buf.take l.toNat) offset = u32At buf offset := by
    intro offset hoff
    conv_rhs => rw [← List.take_append_drop l.toNat buf]
    rw [u32At_append _ (by omega)]
  refine ⟨buf.take l.toNat, (List.take_append_drop _ _).symm, ?_, ?_, ?_, ?_⟩
  · rw [dataHeaderLen_eq]
    omega
  · rw [hword (by omega), ht]
    exact congrArg Except.ok (not_ne_iff.mp htype)
  · exact ⟨l, by rw [hword (by omega), hl], htake.symm⟩
  · refine ⟨o, n, by rw [hword (by omega), ho], by rw [hword (by omega), hn], by omega, ?_⟩
    conv_lhs => rw [← List.take_append_drop l.toNat buf]
    rw [Bytes.sub_append_left (by omega)]

theorem nextFrame_total {buf : Bytes} (hb : dataHeaderLen ≤ buf.length) :
    (∃ d rest, nextFrame buf = .ok (d, rest)) ∨ ∃ e, nextFrame buf = .err e := by
  obtain ⟨t, l, o, n, ht, hl, ho, hn⟩ := header_words hb
  rw [nextFrame_eq ht hl ho hn]
  split
  · exact Or.inr ⟨_, rfl⟩
  split
  · exact Or.inr ⟨_, rfl⟩
  split
  · exact Or.inr ⟨_, rfl⟩
  · exact Or.inl ⟨_, _, rfl⟩

theorem next_cases (buf : Bytes) :
    (buf.length < dataHeaderLen ∧ ∀ {ε : Type}, (next buf : Checked ε _) = .ok none) ∨
    (∃ m d rest, buf = m ++ rest ∧ IsMessage m d ∧
      ∀ {ε : Type}, (next buf : Checked ε _) = .ok (some (.ok d, rest))) ∨
    (dataHeaderLen ≤ buf.length ∧ ∃ e, nextFrame buf = .err e ∧
      ∀ {ε : Type}, (next buf : Checked ε _) = .ok (some (.error e, []))) := by
  by_cases hb : buf.length < dataHeaderLen
  · exact Or.inl ⟨hb, fun {_} => if_pos hb⟩
  · rcases nextFrame_total (Nat.le_of_not_lt hb) with ⟨d, rest, h⟩ | ⟨e, h⟩
    · obtain ⟨m, hm, hd⟩ := message_of_nextFrame (Nat.le_of_not_lt hb) h
      refine Or.inr (Or.inl ⟨m, d, rest, hm, hd, ?_⟩)
      intro ε
      rw [next, if_neg hb, h]
    · refine Or.inr (Or.inr ⟨Nat.le_of_not_lt hb, e, h, ?_⟩)
      intro ε
      rw [next, if_neg hb, h]

theorem collect_stable (k : Nat) (buf : Bytes) (hk : buf.length ≤ k) :
    ∃ l, ∀ {ε : Type} n, buf.length < n → (collect n buf : Checked ε _) = .ok l := by
  induction k generalizing buf with
  | zero =>
    refine ⟨[], ?_⟩
    intro ε n hn
    obtain ⟨n, rfl⟩ : ∃ p, n = p + 1 := ⟨n - 1, by omega⟩
    have hnext : (next buf : Checked ε _) = .ok none := if_pos (by rw [dataHeaderLen_eq]; omega)
    rw [collect, hnext]
    rfl
  | succ k ih =>
    rcases next_cases buf with ⟨_, hnext⟩ | ⟨m, d, rest, rfl, hm, hnext⟩ | ⟨hb, e, _, hnext⟩
    · refine ⟨[], ?_⟩
      intro ε n hn
      obtain ⟨n, rfl⟩ : ∃ p, n = p + 1 := ⟨n - 1, by omega⟩
      rw [collect, hnext]
      rfl
    · have hh := hm.header
      rw [dataHeaderLen_eq] at hh
      rw [List.length_append] at hk
      obtain ⟨l, hl⟩ := ih rest (by omega)
      refine ⟨.ok d :: l, ?_⟩
      intro ε n hn
      rw [List.length_append] at hn
      obtain ⟨n, rfl⟩ : ∃ p, n = p + 1 := ⟨n - 1, by omega⟩
      rw [collect, hnext, Checked.ok_bind]
      simp only [hl n (by omega), Checked.ok_bind, Checked.pure_eq]
    · refine ⟨[.error e], ?_⟩
      intro ε n hn
      rw [dataHeaderLen_eq] at hb
      obtain ⟨n, rfl⟩ : ∃ p, n = p + 1 + 1 := ⟨n - 2, by omega⟩
      rw [collect, hnext, Checked.ok_bind]
      rfl

def items (buf : Bytes) : List (Except Error Bytes) :=
  match (decode buf : Checked Error _) with
  | .ok l => l
  | _ => []

theorem collect_eq_items {ε : Type} {buf : Bytes} {n : Nat} (h : buf.length < n) :
    (collect n buf : Checked ε _) = .ok (items buf) := by
  obtain ⟨l, hl⟩ := collect_stable buf.length buf (Nat.le_refl _)
  rw [items, decode, hl _ (Nat.lt_succ_self _), hl n h]

theorem decode_eq {ε : Type} (buf : Bytes) : (decode buf : Checked ε _) = .ok (items buf) :=
  collect_eq_items (Nat.lt_succ_self _)

theorem items_short {buf : Bytes} (h : buf.length < dataHeaderLen) : items buf = [] := by
  have hd := decode_eq (ε := Error) buf
  rw [decode, collect, show (next buf : Checked Error _) = .ok none from if_pos h] at hd
  exact (Checked.ok.inj hd).symm

theorem items_error {buf : Bytes} {e : Error} (hb : dataHeaderLen ≤ buf.length)
    (h : nextFrame buf = .err e) : items buf = [.error e] := by
  have hnext : (next buf : Checked Error _) = .ok (some (.error e, [])) := by
    rw [next, if_neg (Nat.not_lt.mpr hb), h]
  have hd := decode_eq (ε := Error) buf
  rw [decode, collect, hnext, Checked.ok_bind] at hd
  have hpos : ([] : Bytes).length < buf.length := Nat.lt_of_lt_of_le (by decide) hb
  have hnil : items [] = [] := items_short (by decide)
  simp only [collect_eq_items hpos, hnil, Checked.ok_bind, Checked.pure_eq] at hd
  exact (Checked.ok.inj hd).symm

theorem items_message {m d : Bytes} (h : IsMessage m d) (rest : Bytes) :
    items (m ++ rest) = .ok d :: items rest := by
  have hh := h.header
  have hlen : (m ++ rest).length = m.length + rest.length := List.length_append
  have hnext : (next (m ++ rest) : Checked Error _) = .ok (some (.ok d, rest)) := by
    rw [next, if_neg (by omega), nextFrame_message h]
  have hd := decode_eq (ε := Error) (m ++ rest)
  rw [dataHeaderLen_eq] at hh
  rw [decode, collect, hnext, Checked.ok_bind] at hd
  simp only [collect_eq_items (show rest.length < (m ++ rest).length by omega), Checked.ok_bind,
    Checked.pure_eq] at hd
  exact (Checked.ok.inj hd).symm

theorem items_messages {ms fs : List Bytes} (h : List.Forall₂ IsMessage ms fs) {tail : Bytes}
    (ht : tail.length < dataHeaderLen) : items (ms.flatten ++ tail) = fs.map .ok := by
  induction h with
  | nil => simpa using items_short ht
  | cons hm _ ih =>
    rw [List.flatten_cons, List.append_assoc, items_message hm, ih]
    rfl

def message (frame : Bytes) (alignment : Nat) : Bytes := append [] frame alignment

theorem append_eq (out frame : Bytes) (alignment : Nat) :
    append out frame alignment = out ++ message frame alignment := by
  simp [message, append]

theorem length_message (frame : Bytes) (alignment : Nat) :
    (message frame alignment).length = messageLen frame alignment := by
  have hle := le_nextMultipleOf (dataHeaderLen + frame.length) (max alignment 1)
  rw [dataHeaderLen_eq] at hle
  simp only [message, append, messageLen, dataHeaderLen_eq, List.nil_append, List.length_append,
    length_words, List.length_replicate, List.length_cons, List.length_nil]
  omega

theorem dvd_length_message (frame : Bytes) (alignment : Nat) :
    max alignment 1 ∣ (message frame alignment).length := by
  rw [length_message]
  exact dvd_nextMultipleOf (by omega) _

theorem message_word (frame : Bytes) (alignment : Nat) :
    u32At (message frame alignment) 0 = .ok msgPacket ∧
    u32At (message frame alignment) 4 = .ok (UInt32.ofNat (messageLen frame alignment)) ∧
    u32At (message frame alignment) 8 = .ok (UInt32.ofNat (dataHeaderLen - offsetBase)) ∧
    u32At (message frame alignment) 12 = .ok (UInt32.ofNat frame.length) := by
  simp only [message, append, List.nil_append, List.append_assoc]
  exact ⟨u32At_words _ _ 0 (by simp), u32At_words _ _ 1 (by simp), u32At_words _ _ 2 (by simp),
    u32At_words _ _ 3 (by simp)⟩

/-- Below 4 GiB the length fields hold and the message reads back. -/
theorem isMessage_message {frame : Bytes} {alignment : Nat}
    (h : messageLen frame alignment < 2 ^ 32) : IsMessage (message frame alignment) frame := by
  obtain ⟨htype, hlen, hoff, hdata⟩ := message_word frame alignment
  have hle : 44 + frame.length ≤ messageLen frame alignment :=
    le_nextMultipleOf (dataHeaderLen + frame.length) (max alignment 1)
  have hb := offsetBase_eq
  have hd := dataHeaderLen_eq
  refine ⟨?_, htype, ⟨_, hlen, ?_⟩, ⟨_, _, hoff, hdata, ?_, ?_⟩⟩
  · rw [length_message]
    omega
  · rw [UInt32.toNat_ofNat', length_message]
    omega
  · simp only [UInt32.toNat_ofNat', length_message, hb, hd]
    omega
  · have hframe : offsetBase + (UInt32.ofNat (dataHeaderLen - offsetBase)).toNat = 44 := by
      rw [hb, hd]
      rfl
    have hn : (UInt32.ofNat frame.length).toNat = frame.length := by
      rw [UInt32.toNat_ofNat']
      omega
    rw [hframe, hn]
    have hhdr : (words [msgPacket, UInt32.ofNat (messageLen frame alignment),
        UInt32.ofNat (dataHeaderLen - offsetBase), UInt32.ofNat frame.length, 0, 0, 0, 0, 0, 0,
        0]).length = 44 := by
      rw [length_words]
      rfl
    simp only [message, append, List.nil_append, List.append_assoc, Bytes.sub]
    rw [List.drop_append_of_le_length (by omega), List.drop_of_length_le (by omega),
      List.nil_append, Nat.add_sub_cancel_left, List.take_left]

/-- From 4 GiB on the length field wraps, and the receiver rejects the message when
what is left of it is shorter than a header. -/
theorem items_wrapped (frame : Bytes) (alignment : Nat) (rest : Bytes)
    (h : messageLen frame alignment % 2 ^ 32 < dataHeaderLen) :
    items (message frame alignment ++ rest) =
      [.error (.malformed "packet length outside transfer")] := by
  obtain ⟨htype, hlen, hoff, hdata⟩ := message_word frame alignment
  have hle : 44 + frame.length ≤ messageLen frame alignment :=
    le_nextMultipleOf (dataHeaderLen + frame.length) (max alignment 1)
  have hm := length_message frame alignment
  apply items_error
  · rw [List.length_append, hm, dataHeaderLen_eq]
    omega
  · rw [nextFrame_eq (by rw [u32At_append rest (by omega)]; exact htype)
      (by rw [u32At_append rest (by omega)]; exact hlen)
      (by rw [u32At_append rest (by omega)]; exact hoff)
      (by rw [u32At_append rest (by omega)]; exact hdata)]
    rw [if_neg (by simp), if_pos (Or.inl (by rw [UInt32.toNat_ofNat']; exact h))]

end Muta.Packet
