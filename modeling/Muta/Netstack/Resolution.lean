import Muta.Netstack.Arp

/-!
# Resolving an address

Two hosts on one link, each with its own table. The one that asks for the other's address
gets an answer to its own, and both know each other afterwards; nothing else in the two
tables changes. The packets pass through Ethernet frames, with the padding these add and
any further padding of the link.
-/

namespace Muta.Netstack.Arp

open Act
set_option autoImplicit false

theorem lookup_insert {a : Arp} {ip : Ipv4Addr} {mac : MacAddr} {learned now : Instant}
    (h : now - learned < entryTtl) : (a.insert ip mac learned).lookup ip now = some mac := by
  rw [lookup_eq_some]
  exact ⟨_, if_pos rfl, h, rfl⟩

theorem cache_insert_of_ne {a : Arp} {ip i : Ipv4Addr} (h : i ≠ ip) (mac : MacAddr) (now : Instant) :
    (a.insert ip mac now).cache i = a.cache i := if_neg h

/-- A host that is sent the request of another one answers it, with further bytes behind
the request or without, and enters its sender. -/
theorem handle_question {a b : Arp} (hmac : a.hostMac.isMulticast = false)
    (hip : a.hostIp ≠ .unspecified) (hown : b.hostIp ≠ .unspecified) (pad : Bytes) (now : Instant) :
    ∃ zeros, handle (build (a.question b.hostIp) ++ pad) now b =
      (.ok (some (Ethernet.fields a.hostMac b.hostMac Ethernet.ethertypeArp
        (build (b.reply (a.question b.hostIp)) ++ List.replicate zeros 0))),
        b.insert a.hostIp a.hostMac now) := by
  have hasked : b.Asked (a.question b.hostIp) := ⟨rfl, rfl, hown⟩
  have husable : Usable (a.question b.hostIp) := ⟨hip, hmac⟩
  obtain ⟨zeros, _, hhandle⟩ := handle_asked (parse_build (a.question b.hostIp) pad) hasked now
  rw [learned_eq, if_pos husable] at hhandle
  exact ⟨zeros, hhandle⟩

/-- The host that asked keeps silent on the answer and enters its sender. -/
theorem handle_reply {a b : Arp} (hmac : b.hostMac.isMulticast = false)
    (hip : b.hostIp ≠ .unspecified) (p : ArpPacket) (pad : Bytes) (now : Instant) :
    handle (build (b.reply p) ++ pad) now a = (.ok none, a.insert b.hostIp b.hostMac now) := by
  have hsilent : ¬ a.Asked (b.reply p) := by
    intro hasked
    exact absurd hasked.1 (show opReply ≠ opRequest by decide)
  have husable : Usable (b.reply p) := ⟨hip, hmac⟩
  rw [handle_silent (parse_build (b.reply p) pad) hsilent, learned_eq, if_pos husable]
  rfl

/-- A request that is sent is answered by the host it is for. That host then knows the one
that asked, the one that asked knows it, and neither forgets or learns anything else. -/
theorem resolution_completes {a a₁ b : Arp} {frame : Bytes} {t₀ : Instant}
    (hmacA : a.hostMac.isMulticast = false) (hmacB : b.hostMac.isMulticast = false)
    (hipA : a.hostIp ≠ .unspecified) (hipB : b.hostIp ≠ .unspecified)
    (hrequest : request b.hostIp t₀ a = (.ok (some frame), a₁)) :
    ∃ f, Ethernet.parse frame = .ok f ∧ ∀ pad t₁, ∃ answer r b₁,
      handle (f.payload ++ pad) t₁ b = (.ok (some answer), b₁) ∧
      Ethernet.parse answer = .ok r ∧ r.src = b.hostMac ∧ r.dst = a.hostMac ∧
      r.ethertype = Ethernet.ethertypeArp ∧
      (∀ now, now - t₁ < entryTtl → b₁.lookup a.hostIp now = some a.hostMac) ∧
      (∀ ip, ip ≠ a.hostIp → b₁.cache ip = b.cache ip) ∧
      ∀ pad' t₂, ∃ a₂, handle (r.payload ++ pad') t₂ a₁ = (.ok none, a₂) ∧
        (∀ now, now - t₂ < entryTtl → a₂.lookup b.hostIp now = some b.hostMac) ∧
        ∀ ip, ip ≠ b.hostIp → a₂.cache ip = a.cache ip := by
  have hfree : ¬ a.Limited b.hostIp t₀ := by
    intro hlimited
    rw [request_limited hlimited] at hrequest
    cases hrequest
  obtain ⟨zeros, _, hsends⟩ := request_sends hfree
  rw [hsends] at hrequest
  cases hrequest
  refine ⟨_, Ethernet.parse_fields _ _ _ _, ?_⟩
  intro pad t₁
  obtain ⟨more, hanswer⟩ := handle_question hmacA hipA hipB (List.replicate zeros 0 ++ pad) t₁
  rw [← List.append_assoc] at hanswer
  refine ⟨_, _, _, hanswer, Ethernet.parse_fields _ _ _ _, rfl, rfl, rfl, ?_, ?_, ?_⟩
  · intro now hnow
    exact lookup_insert hnow
  · intro ip hne
    exact cache_insert_of_ne hne a.hostMac t₁
  · intro pad' t₂
    have hlearn := handle_reply (a := a.noted b.hostIp t₀) hmacB hipB (a.question b.hostIp)
      (List.replicate more 0 ++ pad') t₂
    rw [← List.append_assoc] at hlearn
    refine ⟨_, hlearn, ?_, ?_⟩
    · intro now hnow
      exact lookup_insert hnow
    · intro ip hne
      exact cache_insert_of_ne hne b.hostMac t₂

theorem resolution_completes_phone :
    ∃ frame f answer r, (request ⟨192, 168, 42, 129⟩ 0
        (.new ⟨2, 0, 0, 0, 0, 1⟩ ⟨192, 168, 42, 130⟩)).1 = .ok (some frame) ∧
      Ethernet.parse frame = .ok f ∧
      (handle (f.payload ++ [7, 7]) 1 (.new ⟨2, 0, 0, 0, 0, 9⟩ ⟨192, 168, 42, 129⟩)).1 =
        .ok (some answer) ∧
      Ethernet.parse answer = .ok r ∧ r.src = ⟨2, 0, 0, 0, 0, 9⟩ ∧ r.dst = ⟨2, 0, 0, 0, 0, 1⟩ := by
  obtain ⟨frame, a₁, hrequest⟩ : ∃ frame a₁, request ⟨192, 168, 42, 129⟩ 0
      (.new ⟨2, 0, 0, 0, 0, 1⟩ ⟨192, 168, 42, 130⟩) = (.ok (some frame), a₁) := ⟨_, _, rfl⟩
  obtain ⟨f, hf, hanswers⟩ := resolution_completes (b := .new ⟨2, 0, 0, 0, 0, 9⟩ ⟨192, 168, 42, 129⟩)
    (by decide) (by decide) (by decide) (by decide) hrequest
  obtain ⟨answer, r, b₁, hanswer, hr, hsrc, hdst, _⟩ := hanswers [7, 7] 1
  exact ⟨frame, f, answer, r, by rw [hrequest], hf, by rw [hanswer], hr, hsrc, hdst⟩

end Muta.Netstack.Arp
