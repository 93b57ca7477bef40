import Muta.Base.Bytes

/-!
# RNDIS messages

The constants, encoders and decoders of the control channel. Every field is a
little-endian 32-bit word, so a message is a list of words followed by data.
-/

namespace Muta.Wire

set_option autoImplicit false

inductive Error where
  | truncated
  | malformed (what : String)
  | unexpectedMessage (msgType : UInt32)
  | status (code : UInt32)
  | noResponse
  | transport (what : String)
deriving DecidableEq, Repr

def msgCompletion : UInt32 := 0x80000000
def msgPacket : UInt32 := 0x00000001
def msgInit : UInt32 := 0x00000002
def msgInitC : UInt32 := msgInit ||| msgCompletion
def msgHalt : UInt32 := 0x00000003
def msgQuery : UInt32 := 0x00000004
def msgQueryC : UInt32 := msgQuery ||| msgCompletion
def msgSet : UInt32 := 0x00000005
def msgSetC : UInt32 := msgSet ||| msgCompletion
def msgIndicate : UInt32 := 0x00000007
def msgKeepalive : UInt32 := 0x00000008
def msgKeepaliveC : UInt32 := msgKeepalive ||| msgCompletion

def statusSuccess : UInt32 := 0x00000000
def statusMediaConnect : UInt32 := 0x4001000B
def statusMediaDisconnect : UInt32 := 0x4001000C

def oidGenCurrentPacketFilter : UInt32 := 0x0001010E
def oid8023PermanentAddress : UInt32 := 0x01010101
def oid8023CurrentAddress : UInt32 := 0x01010102

def packetTypeDirected : UInt32 := 0x00000001
def packetTypeMulticast : UInt32 := 0x00000002
def packetTypeAllMulticast : UInt32 := 0x00000004
def packetTypeBroadcast : UInt32 := 0x00000008
def packetTypePromiscuous : UInt32 := 0x00000020

def defaultPacketFilter : UInt32 :=
  packetTypeDirected ||| packetTypeMulticast ||| packetTypeAllMulticast ||| packetTypeBroadcast |||
    packetTypePromiscuous

def dataHeaderLen : Nat := 44

/-- Offsets inside control messages are relative to the end of `msg_len`. -/
def offsetBase : Nat := 8

def maxControlMsg : Nat := 1024

def reqSendEncapsulated : UInt8 := 0x00
def reqGetEncapsulated : UInt8 := 0x01

theorem dataHeaderLen_eq : dataHeaderLen = 44 := rfl

theorem offsetBase_eq : offsetBase = 8 := rfl

def u32At (buf : Bytes) (offset : Nat) : Except Error UInt32 :=
  match buf.range? offset (offset + 4) with
  | some [a, b, c, d] => .ok (u32le a b c d)
  | _ => .error .truncated

/-- `u32At` with the bound of the range and the four indices checked one by one. -/
def u32AtChecked (buf : Bytes) (offset : Nat) : Checked Error UInt32 := do
  let stop ← inWord 64 (offset + 4)
  match buf.range? offset stop with
  | none => .err .truncated
  | some b => return u32le (← b.index 0) (← b.index 1) (← b.index 2) (← b.index 3)

theorem length_sub_word {buf : Bytes} {offset : Nat} (h : offset + 4 ≤ buf.length) :
    ∃ a b c d, buf.sub offset (offset + 4) = [a, b, c, d] := by
  have hlen := Bytes.length_sub offset h
  rw [Nat.add_sub_cancel_left] at hlen
  match hs : buf.sub offset (offset + 4), hlen with
  | [a, b, c, d], _ => exact ⟨a, b, c, d, rfl⟩

/-- Reading a word at an offset within `usize` never faults. -/
theorem u32AtChecked_eq (buf : Bytes) {offset : Nat} (h : offset + 4 < 2 ^ 64) :
    u32AtChecked buf offset = .ofExcept (u32At buf offset) := by
  unfold u32AtChecked u32At
  rw [inWord_ok h, Checked.ok_bind]
  by_cases hr : offset + 4 ≤ buf.length
  · obtain ⟨a, b, c, d, hs⟩ := length_sub_word hr
    rw [Bytes.range?_eq (by omega) hr, hs]
    rfl
  · have hnone : buf.range? offset (offset + 4) = none := if_neg (by omega)
    rw [hnone]
    rfl

theorem u32At_ok (buf : Bytes) (offset : Nat) (h : offset + 4 ≤ buf.length) :
    ∃ v, u32At buf offset = .ok v := by
  obtain ⟨a, b, c, d, hs⟩ := length_sub_word h
  exact ⟨u32le a b c d, by rw [u32At, Bytes.range?_eq (by omega) h, hs]⟩

theorem u32At_short {buf : Bytes} {offset : Nat} (h : buf.length < offset + 4) :
    u32At buf offset = .error .truncated := by
  have hnone : buf.range? offset (offset + 4) = none := if_neg (by omega)
  rw [u32At, hnone]

theorem length_of_u32At {buf : Bytes} {offset : Nat} {v : UInt32} (h : u32At buf offset = .ok v) :
    offset + 4 ≤ buf.length := by
  by_contra hlt
  rw [u32At_short (by omega)] at h
  cases h

/-- Words one after the other, as successive `put_u32` calls lay them out. -/
def words (ws : List UInt32) : Bytes := ws.flatMap u32leBytes

theorem length_words (ws : List UInt32) : (words ws).length = 4 * ws.length := by
  induction ws with
  | nil => rfl
  | cons w ws ih =>
    simp only [words, List.flatMap_cons, List.length_append, length_u32leBytes,
      List.length_cons] at ih ⊢
    omega

theorem sub_words (ws : List UInt32) (tail : Bytes) (i : Nat) (h : i < ws.length) :
    Bytes.sub (words ws ++ tail) (4 * i) (4 * i + 4) = u32leBytes ws[i] := by
  induction ws generalizing i with
  | nil => simp at h
  | cons w ws ih =>
    cases i with
    | zero => simp [words, Bytes.sub, u32leBytes]
    | succ i =>
      have hcons : words (w :: ws) ++ tail = u32leBytes w ++ (words ws ++ tail) := by
        simp [words]
      have ht := ih i (by simpa using h)
      simp only [Bytes.sub, Nat.add_sub_cancel_left] at ht ⊢
      have hdrop : ((u32leBytes w) ++ (words ws ++ tail)).drop (4 * (i + 1)) =
          (words ws ++ tail).drop (4 * i) := by
        rw [show 4 * (i + 1) = (u32leBytes w).length + 4 * i by simp; omega]
        exact List.drop_length_add_append _
      rw [hcons, hdrop]
      exact ht

theorem u32At_words (ws : List UInt32) (tail : Bytes) (i : Nat) (h : i < ws.length) :
    u32At (words ws ++ tail) (4 * i) = .ok ws[i] := by
  have hle : 4 * i + 4 ≤ (words ws ++ tail).length := by
    rw [List.length_append, length_words]
    omega
  rw [u32At, Bytes.range?_eq (by omega) hle, sub_words ws tail i h]
  exact congrArg Except.ok (u32le_bytes _)

def encodeInit (requestId maxTransferSize : UInt32) : Bytes :=
  words [msgInit, 24, requestId, 1, 0, maxTransferSize]

def encodeQuery (requestId oid : UInt32) : Bytes :=
  words [msgQuery, 28, requestId, oid, 0, 0, 0]

def encodeSet (requestId oid : UInt32) (data : Bytes) : Bytes :=
  words [msgSet, UInt32.ofNat (28 + data.length), requestId, oid, UInt32.ofNat data.length,
    UInt32.ofNat (28 - offsetBase), 0] ++ data

def encodeKeepalive (requestId : UInt32) : Bytes := words [msgKeepalive, 12, requestId]

def encodeHalt (requestId : UInt32) : Bytes := words [msgHalt, 12, requestId]

def encodeKeepaliveComplete (requestId : UInt32) : Bytes :=
  words [msgKeepaliveC, 16, requestId, statusSuccess]

structure InitComplete where
  requestId : UInt32
  status : UInt32
  majorVersion : UInt32
  minorVersion : UInt32
  medium : UInt32
  maxPacketsPerTransfer : UInt32
  maxTransferSize : UInt32
  /-- Already expanded from the exponent the device sends. -/
  packetAlignment : UInt32
deriving DecidableEq, Repr

def decodeInitComplete (buf : Bytes) : Except Error InitComplete := do
  if (← u32At buf 0) ≠ msgInitC then
    throw (.unexpectedMessage (← u32At buf 0))
  let alignmentExponent ← u32At buf 40
  return {
    requestId := ← u32At buf 8
    status := ← u32At buf 12
    majorVersion := ← u32At buf 16
    minorVersion := ← u32At buf 20
    medium := ← u32At buf 28
    maxPacketsPerTransfer := ← u32At buf 32
    maxTransferSize := ← u32At buf 36
    packetAlignment := if alignmentExponent < 8 then 1 <<< alignmentExponent else 1 }

theorem bind_eq_ok {ε α β : Type} {x : Except ε α} {f : α → Except ε β} {b : β} :
    x >>= f = .ok b ↔ ∃ a, x = .ok a ∧ f a = .ok b := by
  cases x with
  | error e => simp [bind, Except.bind]
  | ok a => simp [bind, Except.bind]

theorem toNat_one_shiftLeft {e : UInt32} (h : e < 8) : ((1 : UInt32) <<< e).toNat = 2 ^ e.toNat := by
  have he : e.toNat < 8 := UInt32.lt_iff_toNat_lt.mp h
  have hpow : 2 ^ e.toNat < 2 ^ 32 := Nat.pow_lt_pow_right (by decide) (by omega)
  rw [UInt32.toNat_shiftLeft, Nat.mod_eq_of_lt (show e.toNat < 32 by omega), UInt32.toNat_one,
    Nat.one_shiftLeft, Nat.mod_eq_of_lt hpow]

theorem packetAlignment_of_decode {buf : Bytes} {init : InitComplete}
    (h : decodeInitComplete buf = .ok init) : ∃ e, e ≤ 7 ∧ init.packetAlignment.toNat = 2 ^ e := by
  unfold decodeInitComplete at h
  obtain ⟨msgType, htype, h⟩ := bind_eq_ok.mp h
  by_cases hne : msgType ≠ msgInitC
  · rw [if_pos hne, htype] at h
    cases h
  rw [if_neg hne] at h
  obtain ⟨exponent, _, h⟩ := bind_eq_ok.mp h
  obtain ⟨_, _, h⟩ := bind_eq_ok.mp h
  obtain ⟨_, _, h⟩ := bind_eq_ok.mp h
  obtain ⟨_, _, h⟩ := bind_eq_ok.mp h
  obtain ⟨_, _, h⟩ := bind_eq_ok.mp h
  obtain ⟨_, _, h⟩ := bind_eq_ok.mp h
  obtain ⟨_, _, h⟩ := bind_eq_ok.mp h
  obtain ⟨_, _, h⟩ := bind_eq_ok.mp h
  cases h
  dsimp only
  split
  · rename_i hlt
    have hnat : exponent.toNat < 8 := UInt32.lt_iff_toNat_lt.mp hlt
    exact ⟨exponent.toNat, by omega, toNat_one_shiftLeft hlt⟩
  · exact ⟨0, by omega, rfl⟩

/-- `usize` addition that reports overflow. -/
def checkedAdd (a b : Nat) : Option Nat := if a + b < 2 ^ 64 then some (a + b) else none

theorem checkedAdd_eq {a b : Nat} (h : a + b < 2 ^ 64) : checkedAdd a b = some (a + b) := if_pos h

def decodeQueryComplete (buf : Bytes) : Except Error (UInt32 × UInt32 × Bytes) := do
  if (← u32At buf 0) ≠ msgQueryC then
    throw (.unexpectedMessage (← u32At buf 0))
  let requestId ← u32At buf 8
  let status ← u32At buf 12
  let len := (← u32At buf 16).toNat
  let offset := (← u32At buf 20).toNat
  if status ≠ statusSuccess then
    return (requestId, status, [])
  let some start := checkedAdd offsetBase offset | throw .truncated
  let some stop := checkedAdd start len | throw .truncated
  let some info := buf.range? start stop | throw .truncated
  return (requestId, status, info)

/-- The information buffer that a message's length and offset fields select. -/
def Selects (msg info : Bytes) : Prop := ∃ len offset, u32At msg 16 = .ok len ∧
  u32At msg 20 = .ok offset ∧
  msg.range? (offsetBase + offset.toNat) (offsetBase + offset.toNat + len.toNat) = some info

theorem Selects.inj {msg a b : Bytes} (ha : Selects msg a) (hb : Selects msg b) : a = b := by
  obtain ⟨len, offset, hlen, hoffset, hinfo⟩ := ha
  obtain ⟨len', offset', hlen', hoffset', hinfo'⟩ := hb
  rw [hlen] at hlen'
  rw [hoffset] at hoffset'
  cases hlen'
  cases hoffset'
  rw [hinfo] at hinfo'
  exact Option.some.inj hinfo'

theorem decodeQueryComplete_success {buf info : Bytes} {requestId : UInt32} :
    decodeQueryComplete buf = .ok (requestId, statusSuccess, info) ↔
      u32At buf 0 = .ok msgQueryC ∧ u32At buf 8 = .ok requestId ∧ u32At buf 12 = .ok statusSuccess ∧
        Selects buf info := by
  have hadd : ∀ len offset : UInt32, checkedAdd offsetBase offset.toNat = some (offsetBase + offset.toNat) ∧
      checkedAdd (offsetBase + offset.toNat) len.toNat = some (offsetBase + offset.toNat + len.toNat) := by
    intro len offset
    have hoff := offset.toNat_lt
    have hlen := len.toNat_lt
    have hbase := offsetBase_eq
    exact ⟨checkedAdd_eq (by omega), checkedAdd_eq (by omega)⟩
  constructor
  · intro h
    unfold decodeQueryComplete at h
    obtain ⟨msgType, htype, h⟩ := bind_eq_ok.mp h
    by_cases hne : msgType ≠ msgQueryC
    · rw [if_pos hne, htype] at h
      cases h
    rw [if_neg hne] at h
    obtain ⟨id, hid, h⟩ := bind_eq_ok.mp h
    obtain ⟨status, hstatus, h⟩ := bind_eq_ok.mp h
    obtain ⟨len, hlen, h⟩ := bind_eq_ok.mp h
    obtain ⟨offset, hoffset, h⟩ := bind_eq_ok.mp h
    by_cases hsne : status ≠ statusSuccess
    · rw [if_pos hsne] at h
      cases h
      exact absurd rfl hsne
    rw [if_neg hsne, (hadd len offset).1] at h
    dsimp only at h
    rw [(hadd len offset).2] at h
    dsimp only at h
    split at h
    · rename_i r hr
      cases h
      refine ⟨?_, hid, hstatus, len, offset, hlen, hoffset, hr⟩
      rw [htype, Decidable.not_not.mp hne]
    · cases h
  · intro h
    obtain ⟨htype, hid, hstatus, len, offset, hlen, hoffset, hr⟩ := h
    obtain ⟨hstart, hstop⟩ := hadd len offset
    simp only [decodeQueryComplete, htype, hid, hstatus, hlen, hoffset, bind, Except.bind, ne_eq,
      not_true_eq_false, if_false, hstart, hstop, hr]
    rfl

def decodeCompletion (buf : Bytes) : Except Error (UInt32 × UInt32) := do
  return (← u32At buf 8, ← u32At buf 12)

theorem decodeCompletion_eq_ok {buf : Bytes} {requestId status : UInt32} :
    decodeCompletion buf = .ok (requestId, status) ↔
      u32At buf 8 = .ok requestId ∧ u32At buf 12 = .ok status := by
  unfold decodeCompletion
  constructor
  · intro h
    obtain ⟨id, hid, h⟩ := bind_eq_ok.mp h
    obtain ⟨code, hcode, h⟩ := bind_eq_ok.mp h
    cases h
    exact ⟨hid, hcode⟩
  · intro h
    rw [h.1, h.2]
    rfl

def decodeIndicateStatus (buf : Bytes) : Except Error UInt32 := u32At buf 8

end Muta.Wire
