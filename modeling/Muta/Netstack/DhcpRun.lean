import Mathlib.Data.Fintype.EquivFin
import Muta.Base.Lcg
import Muta.Base.Machine
import Muta.Netstack.DhcpWire

/-!
# The client over a run of calls

A client is a machine whose inputs are the calls of its four operations, in any order
and with any bytes. Along its runs two histories matter: the transaction ids, which only
`discover` renews, and the messages made up so far, the last of which is what the client
waits on.
-/

namespace Muta.Netstack.DhcpClient

open Act Dhcp
set_option autoImplicit false

inductive Call where
  | discover
  | retransmit
  | renew
  | handle (msg : Bytes)
deriving DecidableEq

def call (c : DhcpClient) : Call → DhcpClient
  | .discover => (discover c).2
  | .retransmit => (retransmit c).2
  | .renew => (renew c).2
  | .handle msg => (handle msg c).2

def client (mac : MacAddr) (xid : UInt32) : Machine DhcpClient Call :=
  { start := .new mac xid, step := call }

/-- The message a call makes up; a retransmission makes up none. -/
def produced (c : DhcpClient) : Call → Option Bytes
  | .discover =>
    match (discover c).1 with
    | .ok msg => some msg
    | .error _ => none
  | .retransmit => none
  | .renew =>
    match (renew c).1 with
    | .ok msg => msg
    | .error _ => none
  | .handle msg =>
    match (handle msg c).1 with
    | .ok (.send request) => some request
    | _ => none

/-- All that a call can do to the client, with the message it makes up. -/
inductive Called (c : DhcpClient) : Call → Option Bytes → DhcpClient → Prop where
  | discover (msg : Bytes) : msg = message c.fresh discoverType .unspecified none none →
      Called c .discover (some msg) c.fresh
  | retransmit : Called c .retransmit none c
  | renew (lease : Lease) (msg : Bytes) : c.lease = some lease →
      msg = message { c with state := .renewing } requestType lease.ip none none →
      Called c .renew (some msg) { c with state := .renewing }
  | noLease : c.lease = none → Called c .renew none c
  | unused (msg : Bytes) : Called c (.handle msg) none c
  | offer (msg : Bytes) (p : Parsed) (request : Bytes) : parse msg = .ok p → p.xid = c.xid →
      p.chaddr = c.mac → p.messageType = offerType → c.state = .selecting →
      request = message { c with
          offered := some p.yiaddr, serverId := p.serverId, state := .requesting }
        requestType .unspecified (some p.yiaddr) p.serverId →
      Called c (.handle msg) (some request)
        { c with offered := some p.yiaddr, serverId := p.serverId, state := .requesting }
  | ack (msg : Bytes) (p : Parsed) (lease : Lease) : Answered c ackType msg p →
      leaseFrom c p = .ok lease →
      Called c (.handle msg) none { c with state := .bound, lease := some lease }
  | nak (msg : Bytes) (p : Parsed) : Answered c nakType msg p →
      Called c (.handle msg) none { c with state := .init, lease := none, offered := none }

theorem call_called (c : DhcpClient) (k : Call) : Called c k (produced c k) (call c k) := by
  cases k with
  | discover =>
    rw [produced, call, discover_eq]
    exact .discover _ rfl
  | retransmit =>
    rw [produced, call, retransmit_eq]
    exact .retransmit
  | renew =>
    rw [produced, call]
    cases hl : c.lease with
    | none =>
      rw [renew_none hl]
      exact .noLease hl
    | some lease =>
      rw [renew_eq hl]
      exact .renew lease _ hl rfl
  | handle msg =>
    rw [produced, call]
    have hout := handle_outcome c msg
    generalize handle msg c = r at hout
    cases hout with
    | rejected e => exact .unused msg
    | ignored => exact .unused msg
    | offer p request hp hx hm ht hs hreq => exact .offer msg p request hp hx hm ht hs hreq
    | ack p lease hp hx hm ht hs hl => exact .ack msg p lease ⟨hp, hx, hm, ht, hs⟩ hl
    | nak p hp hx hm ht hs => exact .nak msg p ⟨hp, hx, hm, ht, hs⟩

def discovers (past : List (DhcpClient × Call)) : Nat := past.countP fun x => x.2 = .discover

theorem toNat_nextXid (x : UInt32) :
    (nextXid x).toNat = Lcg.step 1664525 1013904223 (2 ^ 32) x.toNat := by
  simp only [nextXid, Lcg.step, UInt32.toNat_add, UInt32.toNat_mul, UInt32.reduceToNat]
  omega

theorem toNat_iterate_nextXid (k : Nat) (x : UInt32) :
    (nextXid^[k] x).toNat = (Lcg.step 1664525 1013904223 (2 ^ 32))^[k] x.toNat := by
  induction k with
  | zero => rfl
  | succ k ih => rw [Function.iterate_succ_apply', toNat_nextXid, ih, Function.iterate_succ_apply']

theorem iterate_nextXid_ne {i j : Nat} (x : UInt32) (hij : i < j) (hlt : j - i < 2 ^ 32) :
    nextXid^[i] x ≠ nextXid^[j] x := by
  intro heq
  refine @Lcg.iterate_ne 1664525 1013904223 32 rfl rfl i j x.toNat hij hlt ?_
  rw [← toNat_iterate_nextXid, ← toNat_iterate_nextXid, heq]

/-- The ids form a single cycle. -/
theorem exists_iterate_nextXid (x y : UInt32) : ∃ k, k < 2 ^ 32 ∧ nextXid^[k] x = y := by
  let value : Fin (2 ^ 32) → Fin (2 ^ 32) := fun k => ⟨(nextXid^[k] x).toNat, UInt32.toNat_lt _⟩
  have hinj : Function.Injective value := by
    intro i j heq
    have hids : nextXid^[i] x = nextXid^[j] x := UInt32.toNat_inj.mp (congrArg Fin.val heq)
    by_contra hne
    have hi := i.isLt
    have hj := j.isLt
    rcases Nat.lt_or_gt_of_ne (Fin.val_ne_of_ne hne) with hij | hij
    · exact iterate_nextXid_ne x hij (by omega) hids
    · exact iterate_nextXid_ne x hij (by omega) hids.symm
  obtain ⟨k, hk⟩ := (Finite.injective_iff_surjective.mp hinj) ⟨y.toNat, y.toNat_lt⟩
  exact ⟨k, k.isLt, UInt32.toNat_inj.mp (congrArg Fin.val hk)⟩

theorem Called.xid {c c' : DhcpClient} {k : Call} {r : Option Bytes} (h : Called c k r c') :
    c'.xid = if k = .discover then nextXid c.xid else c.xid := by
  cases h <;> rfl

theorem handle_stale {c : DhcpClient} {msg : Bytes} {p : Parsed} (hp : parse msg = .ok p)
    (hxid : p.xid ≠ c.xid) : handle msg c = (.ok .ignored, c) := by
  simp only [handle, hp, checked, bind_apply, pure_apply, state_apply, if_pos (Or.inl hxid)]

section Ids

variable {mac : MacAddr} {xid : UInt32} {past : List (DhcpClient × Call)} {c : DhcpClient}

theorem xid_eq_iterate (run : Machine.Run (client mac xid) Machine.any past c) :
    c.xid = nextXid^[discovers past] xid := by
  refine run.invariant (P := fun past c => c.xid = nextXid^[discovers past] xid) rfl ?_
  intro past c k hxid _
  have hcalled := (call_called c k).xid
  have hstep : (client mac xid).step c k = call c k := rfl
  rw [hstep, hcalled]
  by_cases hk : k = .discover
  · simp only [hk, if_true, discovers, List.countP_append, List.countP_singleton, decide_true]
    rw [Function.iterate_succ_apply', ← discovers, hxid]
  · simp only [hk, if_false, discovers, List.countP_append, List.countP_singleton, decide_false]
    exact hxid

theorem discover_xid {rest : List (DhcpClient × Call)} {c₀ : DhcpClient} {m : Bytes}
    (run : Machine.Run (client mac xid) Machine.any (past ++ (c₀, .discover) :: rest) c)
    (hm : (discover c₀).1 = .ok m) : xidOf m = nextXid^[discovers past + 1] xid := by
  rw [discover_eq] at hm
  rw [← Except.ok.inj hm, xidOf_message, Function.iterate_succ_apply', ← xid_eq_iterate run.before.1]
  rfl

theorem discovers_append_cons (pre post : List (DhcpClient × Call)) (c : DhcpClient) :
    discovers (pre ++ (c, .discover) :: post) = discovers pre + 1 + discovers post := by
  simp only [discovers, List.countP_append, List.countP_cons, decide_true, if_true]
  omega

theorem exists_parsed {m : Bytes} {x : UInt32}
    (h : (match parse m with | .ok p => some p.xid | _ => none) = some x) :
    ∃ p, parse m = .ok p ∧ p.xid = x := by
  cases hp : parse m with
  | fault f =>
    rw [hp] at h
    cases h
  | err e =>
    rw [hp] at h
    cases h
  | ok p =>
    rw [hp] at h
    exact ⟨p, rfl, Option.some.inj h⟩

/-- Calls of `discover` less than `2 ^ 32` apart use different ids, since the ids form a
single cycle; a reply to an earlier one is therefore ignored. -/
theorem stale_replies_ignored (run : Machine.Run (client mac xid) Machine.any past c) :
    (∀ x y : UInt32, ∃ k, k < 2 ^ 32 ∧ nextXid^[k] x = y) ∧
    (∀ pre mid post c₀ c₁ m₀ m₁,
      past = pre ++ (c₀, .discover) :: (mid ++ (c₁, .discover) :: post) →
      discovers mid + 1 < 2 ^ 32 → (discover c₀).1 = .ok m₀ → (discover c₁).1 = .ok m₁ →
      xidOf m₀ ≠ xidOf m₁) ∧
    (discovers past ≤ 2 ^ 32 → ∀ pre mid post c₀ c₁ m₀ reply p,
      past = pre ++ (c₀, .discover) :: (mid ++ (c₁, .discover) :: post) →
      (discover c₀).1 = .ok m₀ → parse reply = .ok p → p.xid = xidOf m₀ →
      handle reply c = (.ok .ignored, c)) := by
  refine ⟨exists_iterate_nextXid, ?_, ?_⟩
  · intro pre mid post c₀ c₁ m₀ m₁ hpast hcount hm₀ hm₁
    subst hpast
    have hfirst := discover_xid run hm₀
    have hsplit : pre ++ (c₀, Call.discover) :: (mid ++ (c₁, .discover) :: post) =
        (pre ++ (c₀, .discover) :: mid) ++ (c₁, .discover) :: post := by simp
    rw [hsplit] at run
    have hsecond := discover_xid run hm₁
    rw [discovers_append_cons] at hsecond
    rw [hfirst, hsecond]
    exact iterate_nextXid_ne xid (by omega) (by omega)
  · intro hcount pre mid post c₀ c₁ m₀ reply p hpast hm₀ hp hxid
    subst hpast
    refine handle_stale hp ?_
    rw [hxid, discover_xid run hm₀, xid_eq_iterate run]
    rw [discovers_append_cons, discovers_append_cons] at hcount ⊢
    exact iterate_nextXid_ne xid (by omega) (by omega)

/-- A late OFFER to the first of two transactions. -/
theorem stale_replies_ignored_twice :
    ∃ past c reply, Machine.Run (client ⟨2, 0, 0, 0, 0, 1⟩ 1) Machine.any past c ∧
      discovers past = 2 ∧ handle reply c = (.ok .ignored, c) := by
  have run := (Machine.Run.start (m := client ⟨2, 0, 0, 0, 0, 1⟩ 1)).takeAll [.discover, .discover]
  obtain ⟨reply, p, hp, hxid⟩ : ∃ reply p, parse reply = .ok p ∧ p.xid = nextXid 1 :=
    ⟨_, exists_parsed (m := serverReply ⟨2, 0, 0, 0, 0, 1⟩ ⟨192, 168, 42, 129⟩ 1015568748 offerType
      ⟨192, 168, 42, 130⟩ []) (by decide +kernel)⟩
  refine ⟨_, _, reply, run, rfl, (stale_replies_ignored run).2.2 (by decide) [] [] [] _ _ _ reply p rfl
    (congrArg Prod.fst (discover_eq _)) hp ?_⟩
  rw [hxid, xidOf_message]
  rfl

end Ids

def messages (past : List (DhcpClient × Call)) : List (Call × Bytes) :=
  past.filterMap fun x => (produced x.1 x.2).map fun msg => (x.2, msg)

/-- The state of the exchange a client is in agrees with the last message it made up. -/
inductive Waiting (c : DhcpClient) : Option (Call × Bytes) → Prop where
  | idle (last : Option (Call × Bytes)) : c.state = .init ∨ c.state = .bound → Waiting c last
  | selecting : c.state = .selecting →
      Waiting c (some (.discover, message c discoverType .unspecified none none))
  | requesting (msg : Bytes) (p : Parsed) : c.state = .requesting → parse msg = .ok p →
      p.messageType = offerType → c.offered = some p.yiaddr → c.serverId = p.serverId →
      Waiting c (some (.handle msg,
        message c requestType .unspecified (some p.yiaddr) p.serverId))
  | renewing (lease : Lease) : c.state = .renewing → c.lease = some lease →
      Waiting c (some (.renew, message c requestType lease.ip none none))

theorem messages_append (past : List (DhcpClient × Call)) (c : DhcpClient) (k : Call) :
    (messages (past ++ [(c, k)])).getLast? =
      ((produced c k).map fun msg => (k, msg)).or (messages past).getLast? := by
  rw [messages, List.filterMap_append]
  cases hp : produced c k with
  | none => simp [hp, messages]
  | some msg => simp [hp]

theorem Called.waiting {c c' : DhcpClient} {k : Call} {r : Option Bytes}
    {last : Option (Call × Bytes)} (hw : Waiting c last) (h : Called c k r c') :
    Waiting c' ((r.map fun msg => (k, msg)).or last) := by
  cases h with
  | discover msg hmsg =>
    rw [hmsg]
    exact .selecting rfl
  | retransmit => exact hw
  | renew lease msg hl hmsg =>
    rw [hmsg]
    exact .renewing lease rfl hl
  | noLease _ => exact hw
  | unused msg => exact hw
  | offer msg p request hp _ _ ht _ hreq =>
    rw [hreq]
    exact .requesting msg p rfl hp ht rfl rfl
  | ack msg p lease _ _ => exact .idle _ (Or.inr rfl)
  | nak msg p _ => exact .idle _ (Or.inl rfl)

theorem run_waiting {mac : MacAddr} {xid : UInt32} {past : List (DhcpClient × Call)} {c : DhcpClient}
    (run : Machine.Run (client mac xid) Machine.any past c) : Waiting c (messages past).getLast? := by
  refine run.invariant (P := fun past c => Waiting c (messages past).getLast?) ?_ ?_
  · exact .idle _ (Or.inl rfl)
  · intro past c k hw _
    rw [messages_append]
    exact (call_called c k).waiting hw

theorem Called.pending {c c' : DhcpClient} {k : Call} {msg : Bytes} (h : Called c k (some msg) c') :
    c'.pending = some msg := by
  cases h with
  | discover _ hmsg =>
    rw [hmsg]
    rfl
  | renew lease _ hl hmsg => simp [DhcpClient.pending, hl, hmsg]
  | offer _ p _ _ _ _ _ _ hreq =>
    rw [hreq]
    rfl

/-- The client keeps its address, and every lease it holds is for a proper one. -/
structure Settled (mac : MacAddr) (c : DhcpClient) : Prop where
  mac : c.mac = mac
  lease : ∀ lease, c.lease = some lease → lease.ip ≠ .unspecified

theorem Called.settled {mac : MacAddr} {c c' : DhcpClient} {k : Call} {r : Option Bytes}
    (h : Settled mac c) (hcall : Called c k r c') : Settled mac c' := by
  cases hcall with
  | discover _ _ => exact ⟨h.mac, h.lease⟩
  | retransmit => exact h
  | renew _ _ _ _ => exact ⟨h.mac, h.lease⟩
  | noLease _ => exact h
  | unused _ => exact h
  | offer _ _ _ _ _ _ _ _ _ => exact ⟨h.mac, h.lease⟩
  | ack msg p lease _ hl =>
    refine ⟨h.mac, ?_⟩
    intro lease' heq
    cases heq
    obtain ⟨hip, heq, _⟩ := leaseFrom_eq_ok hl
    rw [heq]
    exact hip
  | nak _ _ _ => exact ⟨h.mac, by intro _ heq; cases heq⟩

theorem run_settled {mac : MacAddr} {xid : UInt32} {past : List (DhcpClient × Call)} {c : DhcpClient}
    (run : Machine.Run (client mac xid) Machine.any past c) : Settled mac c := by
  refine run.invariant (P := fun _ c => Settled mac c) ?_ ?_
  · exact ⟨rfl, by intro _ heq; cases heq⟩
  · intro past c k h _
    exact (call_called c k).settled h

end Muta.Netstack.DhcpClient
