import Muta.Link.TxDelivery

/-!
# The size of a transfer

`fits` adds up the header and the frame, while `append` rounds the message up to the
alignment and `flush` may put one more byte behind it. The three agree on a device's
limit exactly when the limit is itself aligned and not a multiple of the packet size.
-/

namespace Muta.Link.Tx

open Usb Act Wire
set_option autoImplicit false

variable {ε κ : Type}

section Size

variable {limits : TxLimits} {packetSize : Nat}

theorem Packed.header_le {fs : List Bytes} (h : Packed limits fs) (hne : fs ≠ []) :
    dataHeaderLen ≤ limits.maxTransferSize := by
  cases h with
  | nil => exact absurd rfl hne
  | concat _ _ hsize => omega

theorem Packed.length_encode_le {fs : List Bytes} (h : Packed limits fs)
    (hdvd : max limits.alignment 1 ∣ limits.maxTransferSize) :
    (encode limits.alignment fs).length ≤ limits.maxTransferSize := by
  cases h with
  | nil => exact Nat.zero_le _
  | @concat fs f _ _ hsize =>
    rw [encode_concat, List.length_append, Packet.length_message]
    have hrest := Nat.dvd_sub hdvd (dvd_encode limits.alignment fs)
    have hle := nextMultipleOf_le hrest (n := dataHeaderLen + f.length) (by omega)
    rw [Packet.messageLen]
    omega

theorem Transfer.length_le {b : Bytes} {fs : List Bytes}
    (h : Transfer limits (max packetSize 1) b fs)
    (hlimit : limits.maxTransferSize < dataHeaderLen ∨
      max limits.alignment 1 ∣ limits.maxTransferSize ∧
        ¬ max packetSize 1 ∣ limits.maxTransferSize) :
    b.length ≤ limits.maxTransferSize := by
  obtain ⟨hne, hpacked, t, _, rfl, hpad, _⟩ := h
  rcases hlimit with hsmall | ⟨hdvd, hodd⟩
  · exact absurd (hpacked.header_le hne) (Nat.not_le.mpr hsmall)
  · have hle := hpacked.length_encode_le hdvd
    have htwo : 2 ≤ max packetSize 1 := by
      by_contra hlt
      rw [show max packetSize 1 = 1 by omega] at hodd
      exact hodd (Nat.one_dvd _)
    obtain ⟨ht, hone⟩ := hpad htwo
    rw [List.length_append, List.length_replicate]
    -- A terminator follows only a multiple of the packet size, and the limit is none.
    rcases Nat.eq_or_lt_of_le hle with heq | hlt
    · have hzero : t = 0 := by
        by_contra hpos
        exact hodd (heq ▸ hone (by omega))
      omega
    · omega

end Size

/-- Whether every transfer stays within the device's limit is decided by the limit,
the alignment and the packet size alone. -/
theorem transfers_within_limit_iff (limits : TxLimits) (packetSize : Nat)
    (hmax : 1 ≤ limits.maxPackets) :
    (∀ (ε κ : Type) (ep : OutEndpoint ε) (world : Schedule κ) (turns steps : Nat) (dev : ε)
        (sched : κ) (frames : List Bytes), ep.maxPacketSize dev = packetSize →
      ∀ b ∈ (txLoop ep world limits turns steps (start dev sched frames)).2.submitted,
        b.length ≤ limits.maxTransferSize) ↔
    limits.maxTransferSize < dataHeaderLen ∨
      max limits.alignment 1 ∣ limits.maxTransferSize ∧
        ¬ max packetSize 1 ∣ limits.maxTransferSize := by
  constructor
  · intro h
    by_cases hsmall : limits.maxTransferSize < dataHeaderLen
    · exact Or.inl hsmall
    -- The largest frame that fits, alone in its transfer.
    let f : Bytes := List.replicate (limits.maxTransferSize - dataHeaderLen) 0
    have hf : dataHeaderLen + f.length = limits.maxTransferSize := by
      rw [List.length_replicate]
      omega
    have hrun := h Unit Unit (idlePipe packetSize) allQueued 1 1 () () [f] rfl
    rw [submitted_lonely packetSize hmax (Nat.le_of_eq hf)] at hrun
    have hlen := hrun _ List.mem_cons_self
    have hmsg : (Packet.message f limits.alignment).length =
        nextMultipleOf limits.maxTransferSize (max limits.alignment 1) := by
      rw [Packet.length_message, Packet.messageLen, hf]
    have hge := le_nextMultipleOf limits.maxTransferSize (max limits.alignment 1)
    have hdvd := dvd_nextMultipleOf (show 0 < max limits.alignment 1 by omega) limits.maxTransferSize
    split at hlen
    · rw [List.length_append, List.length_singleton] at hlen
      omega
    · rename_i hodd
      have heq : nextMultipleOf limits.maxTransferSize (max limits.alignment 1) =
          limits.maxTransferSize := by omega
      rw [heq] at hdvd hmsg
      rw [hmsg] at hodd
      exact Or.inr ⟨hdvd, fun hd => hodd (Nat.mod_eq_zero_of_dvd hd)⟩
  · intro hlimit ε κ ep world turns steps dev sched frames hsize b hb
    obtain ⟨fs, _, hs⟩ := sent_of_run ep world limits turns steps dev sched frames hmax
    obtain ⟨gs, _, hgs⟩ := hs.transfer hb
    rw [hsize] at hgs
    exact hgs.length_le hlimit

theorem transfers_within_1580 :
    (4 ∣ 1580 ∧ ¬ 512 ∣ 1580) ∧
    ∀ b ∈ (txLoop (idlePipe 512) allQueued ⟨1580, 2, 4⟩ 1 3
      (start () () [List.replicate 700 0, List.replicate 61 0])).2.submitted, b.length ≤ 1580 := by
  have hlimit : 4 ∣ 1580 ∧ ¬ 512 ∣ 1580 := by decide
  refine ⟨hlimit, ?_⟩
  exact (transfers_within_limit_iff ⟨1580, 2, 4⟩ 512 (by decide)).mpr (Or.inr hlimit) Unit Unit
    (idlePipe 512) allQueued 1 3 () () _ rfl

/-- One frame, padded past the limit that `fits` checked it against. -/
theorem padded_past_limit :
    ¬ ∀ b ∈ (txLoop (idlePipe 512) allQueued ⟨105, 1, 128⟩ 1 1
      (start () () [List.replicate 60 0])).2.submitted, b.length ≤ 105 := by
  decide +kernel

end Muta.Link.Tx
