import Muta.Rndis.Kept

/-!
# What a transaction puts on the channel

While `transact` waits, each message received from the device is serviced on its
own: a ping is answered, an indication moves the link, everything else leaves no
trace. `Chats` says so for the traffic between two states, and composes; a whole
command (`Exchanged`) is its own message, such traffic, and perhaps a completion.
-/

namespace Muta.Rndis

open Act Wire
set_option autoImplicit false

def sent (l : List Traffic) : List Bytes := l.filterMap fun e =>
  match e with
  | .sent msg => some msg
  | _ => none

def received (l : List Traffic) : List Bytes := l.filterMap fun e =>
  match e with
  | .received msg => some msg
  | _ => none

@[simp] theorem sent_append (l m : List Traffic) : sent (l ++ m) = sent l ++ sent m :=
  List.filterMap_append

@[simp] theorem received_append (l m : List Traffic) :
    received (l ++ m) = received l ++ received m := List.filterMap_append

theorem mem_sent {l : List Traffic} {msg : Bytes} : msg ∈ sent l ↔ .sent msg ∈ l := by
  unfold sent
  rw [List.mem_filterMap]
  constructor
  · rintro ⟨e, he, hmsg⟩
    cases e with
    | sent m =>
      cases hmsg
      exact he
    | received m => cases hmsg
    | completed m r => cases hmsg
  · exact fun h => ⟨_, h, rfl⟩

theorem mem_received {l : List Traffic} {msg : Bytes} : msg ∈ received l ↔ .received msg ∈ l := by
  unfold received
  rw [List.mem_filterMap]
  constructor
  · rintro ⟨e, he, hmsg⟩
    cases e with
    | received m =>
      cases hmsg
      exact he
    | sent m => cases hmsg
    | completed m r => cases hmsg
  · exact fun h => ⟨_, h, rfl⟩

def answer (msg : Bytes) : Option Bytes :=
  match u32At msg 0, u32At msg 8 with
  | .ok msgType, .ok id =>
    if 12 ≤ msg.length ∧ msgType = msgKeepalive then some (encodeKeepaliveComplete id) else none
  | _, _ => none

def indication (msg : Bytes) : Option LinkState :=
  match u32At msg 0, u32At msg 8 with
  | .ok msgType, .ok status =>
    if 12 ≤ msg.length ∧ msgType = msgIndicate then
      if status = statusMediaConnect then some .up
      else if status = statusMediaDisconnect then some .down
      else none
    else none
  | _, _ => none

def applied (link : LinkState) (msg : Bytes) : LinkState := (indication msg).getD link

theorem answer_short {msg : Bytes} (h : msg.length < 12) : answer msg = none := by
  unfold answer
  rw [@u32At_short msg 8 h]
  split <;> simp_all

theorem indication_short {msg : Bytes} (h : msg.length < 12) : indication msg = none := by
  unfold indication
  rw [@u32At_short msg 8 h]
  split <;> simp_all

section Reading

variable {msg : Bytes} {msgType word : UInt32} (htype : u32At msg 0 = .ok msgType)
  (hword : u32At msg 8 = .ok word)
include htype hword

theorem answer_eq :
    answer msg = if msgType = msgKeepalive then some (encodeKeepaliveComplete word) else none := by
  have hlen : 12 ≤ msg.length := length_of_u32At hword
  simp [answer, htype, hword, hlen]

theorem indication_eq :
    indication msg =
      if msgType = msgIndicate then
        if word = statusMediaConnect then some .up
        else if word = statusMediaDisconnect then some .down
        else none
      else none := by
  have hlen : 12 ≤ msg.length := length_of_u32At hword
  simp [indication, htype, hword, hlen]

end Reading

variable {τ : Type}

/-- Everything received in `mid` was serviced, once and in order, and nothing else was
sent; this moved the link from `before` to `after`. -/
structure Serviced (before : LinkState) (mid : List Traffic) (after : LinkState) : Prop where
  answers : sent mid = (received mid).filterMap answer
  link : after = (received mid).foldl applied before
  uncompleted : ∀ msg reply, .completed msg reply ∉ mid

/-- From `s` to `t` the device was serviced and nothing else was done. -/
structure Chats (s : Rndis τ) (mid : List Traffic) (t : Rndis τ) : Prop where
  next : t.nextRequestId = s.nextRequestId
  log : t.log = s.log ++ mid
  serviced : Serviced s.link mid t.link

theorem Serviced.append {l₀ l₁ l₂ : LinkState} {mid rest : List Traffic}
    (h₁ : Serviced l₀ mid l₁) (h₂ : Serviced l₁ rest l₂) : Serviced l₀ (mid ++ rest) l₂ where
  answers := by rw [sent_append, received_append, List.filterMap_append, h₁.answers, h₂.answers]
  link := by rw [received_append, List.foldl_append, ← h₁.link, h₂.link]
  uncompleted := by
    intro msg reply hmem
    rcases List.mem_append.mp hmem with hmem | hmem
    · exact h₁.uncompleted msg reply hmem
    · exact h₂.uncompleted msg reply hmem

namespace Chats

variable {s t u : Rndis τ} {mid rest : List Traffic}

theorem silent (next : t.nextRequestId = s.nextRequestId) (log : t.log = s.log)
    (link : t.link = s.link) : Chats s [] t where
  next := next
  log := by rw [log, List.append_nil]
  serviced := ⟨rfl, link, by simp⟩

theorem trans (h₁ : Chats s mid t) (h₂ : Chats t rest u) : Chats s (mid ++ rest) u where
  next := h₂.next.trans h₁.next
  log := by rw [h₂.log, h₁.log, List.append_assoc]
  serviced := h₁.serviced.append h₂.serviced

theorem skip {msg : Bytes} (hanswer : answer msg = none) (hlink : indication msg = none)
    (next : t.nextRequestId = s.nextRequestId) (log : t.log = s.log ++ [.received msg])
    (link : t.link = s.link) : Chats s [.received msg] t where
  next := next
  log := log
  serviced := by
    refine ⟨?_, ?_, by simp⟩
    · simp [sent, received, hanswer]
    · simp [received, applied, hlink, link]

end Chats

section Calls

variable {α : Type} {s : Rndis τ} {E : Wire.Error → Rndis τ → Prop}

theorem onTransport_wp {call : τ → Except Wire.Error α × τ} {Q : α → Rndis τ → Prop}
    (hok : ∀ a u, Q a { s with transport := u }) (herr : ∀ e u, E e { s with transport := u }) :
    wp (onTransport call) Q E s := by
  unfold wp onTransport
  generalize (call s.transport).1 = r
  cases r with
  | ok a => exact hok a _
  | error e => exact herr e _

end Calls

theorem handleUnsolicited_spec (c : ControlTransport τ) {s : Rndis τ} {reply : Bytes}
    {msgType word : UInt32} (htype : u32At reply 0 = .ok msgType) (hword : u32At reply 8 = .ok word)
    {b : Rndis τ} (hb : b.nextRequestId = s.nextRequestId ∧ b.log = s.log ++ [.received reply] ∧
      b.link = s.link) :
    wp (handleUnsolicited c msgType reply) (fun _ t => ∃ mid, Chats s mid t)
      (fun _ t => ∃ mid, Chats s mid t) b := by
  obtain ⟨hnext, hlog, hlink⟩ := hb
  have hanswer := answer_eq htype hword
  have hind := indication_eq htype hword
  unfold handleUnsolicited decodeIndicateStatus
  rw [hword]
  by_cases hi : msgType = msgIndicate
  · subst hi
    have hne : msgIndicate ≠ msgKeepalive := by decide
    rw [if_neg hne] at hanswer
    rw [if_pos rfl] at hind ⊢
    refine ⟨[.received reply], hnext, hlog, ?_, ?_, by simp⟩
    · simp [sent, received, hanswer]
    · dsimp only
      simp only [received, List.filterMap_cons, List.filterMap_nil, List.foldl_cons, List.foldl_nil,
        applied, hind, hlink]
      split
      · rfl
      split <;> rfl
  · rw [if_neg hi] at hind ⊢
    by_cases hk : msgType = msgKeepalive
    · rw [if_pos hk] at hanswer ⊢
      simp only [wp_bind, wp_ofExcept, send, record, wp_update]
      refine ⟨?_, fun _ he => by cases he⟩
      rintro id hid
      cases hid
      have hdone : ∀ u, Chats s [.received reply, .sent (encodeKeepaliveComplete word)]
          { b with log := b.log ++ [.sent (encodeKeepaliveComplete word)], transport := u } := by
        intro u
        refine ⟨hnext, by simp [hlog], ?_, ?_, by simp⟩
        · simp [sent, received, hanswer]
        · simp [received, applied, hind, hlink]
      exact onTransport_wp (fun _ u => ⟨_, hdone u⟩) (fun _ u => ⟨_, hdone u⟩)
    · rw [if_neg hk] at hanswer ⊢
      exact ⟨_, .skip hanswer hind hnext hlog hlink⟩

/-- A type that the device never sends on its own. -/
structure Solicited (expect : UInt32) : Prop where
  notKeepalive : expect ≠ msgKeepalive
  notIndicate : expect ≠ msgIndicate

/-- The reply answers the request with this id. -/
structure Answers (expect id : UInt32) (reply : Bytes) : Prop where
  type : u32At reply 0 = .ok expect
  id : u32At reply 8 = .ok id

theorem poll_spec (c : ControlTransport τ) {expect : UInt32} (hexpect : Solicited expect)
    (requestId : UInt32) (s : Rndis τ) :
    wp (poll c expect requestId)
      (fun r t => ∃ mid, Chats s mid t ∧
        ∀ reply, r = .inr reply → reply ∈ received mid ∧ Answers expect requestId reply)
      (fun _ t => ∃ mid, Chats s mid t) s := by
  have hsilent : ∀ u, Chats s [] { s with transport := u } := fun u => .silent rfl rfl rfl
  simp only [poll, wp_bind]
  refine onTransport_wp (fun _ u => ?_) (fun _ u => ⟨_, hsilent u⟩)
  simp only [receive, wp_bind]
  refine onTransport_wp (fun reply v => ?_) (fun _ v => ⟨_, hsilent v⟩)
  simp only [record, wp_update, wp_pure]
  apply wp_ite
  · intro hshort
    exact ⟨_, .skip (answer_short hshort) (indication_short hshort) rfl rfl rfl, by simp⟩
  · intro hlong
    obtain ⟨msgType, htype⟩ := u32At_ok reply 0 (by omega)
    obtain ⟨id, hid⟩ := u32At_ok reply 8 (by omega)
    rw [wp_bind, htype]
    apply wp_ite
    · intro hmatch
      rw [hmatch] at htype
      -- A completion is neither a ping nor an indication, so it calls for nothing.
      have hskip : Chats s [.received reply]
          { s with transport := v, log := s.log ++ [.received reply] } := by
        refine .skip ?_ ?_ rfl rfl rfl
        · rw [answer_eq htype hid, if_neg hexpect.notKeepalive]
        · rw [indication_eq htype hid, if_neg hexpect.notIndicate]
      rw [wp_bind, wp_ofExcept]
      refine ⟨?_, fun _ _ => ⟨_, hskip⟩⟩
      rintro ⟨rid, status⟩ hdecode
      apply wp_ite
      · intro heq
        refine ⟨_, hskip, ?_⟩
        intro r hr
        cases hr
        refine ⟨by simp [received], htype, ?_⟩
        rw [← heq]
        exact (decodeCompletion_eq_ok.mp hdecode).1
      · intro _
        exact ⟨_, hskip, by simp⟩
    · intro _
      rw [wp_bind]
      refine wp_mono (@handleUnsolicited_spec τ c s reply msgType id htype hid _ ⟨rfl, rfl, rfl⟩) ?_
        (fun _ _ he => he)
      intro _ t hres
      obtain ⟨mid, hmid⟩ := hres
      exact ⟨mid, hmid, by simp⟩

/-- The traffic of one command: its message, what is serviced while waiting, and the
completion if one came. -/
structure Exchanged (msg : Bytes) (expect id : UInt32) (s : Rndis τ) (new : List Traffic)
    (reply : Option Bytes) (t : Rndis τ) : Prop where
  log : t.log = s.log ++ new
  trace : ∃ mid, new = .sent msg :: (mid ++ (reply.map (Traffic.completed msg)).toList) ∧
    Serviced s.link mid t.link ∧
    ∀ r, reply = some r → r ∈ received mid ∧ Answers expect id r

theorem transact_spec (c : ControlTransport τ) (msg : Bytes) {expect : UInt32}
    (hexpect : Solicited expect) (id : UInt32) (s : Rndis τ) :
    wp (transact c msg expect id)
      (fun reply t => t.nextRequestId = s.nextRequestId ∧
        ∃ new, Exchanged msg expect id s new (some reply) t)
      (fun _ t => t.nextRequestId = s.nextRequestId ∧
        ∃ new, Exchanged msg expect id s new none t) s := by
  simp only [transact, send, record, wp_bind, wp_update]
  have hnone : ∀ mid t, Chats { s with log := s.log ++ [.sent msg] } mid t →
      Exchanged msg expect id s (.sent msg :: mid) none t := by
    intro mid t hmid
    refine ⟨by simp [hmid.log], mid, by simp, hmid.serviced, by simp⟩
  refine onTransport_wp (fun _ u => ?_) (fun _ u => ⟨rfl, _, hnone [] _ (.silent rfl rfl rfl)⟩)
  simp only [wp_state]
  -- The loop only chats with the device until it has the completion.
  have hloop : wp (iter .noResponse (fun _ => poll c expect id) (c.polls u) ())
      (fun reply t => ∃ mid, Chats { s with log := s.log ++ [.sent msg] } mid t ∧
        reply ∈ received mid ∧ Answers expect id reply)
      (fun _ t => ∃ mid, Chats { s with log := s.log ++ [.sent msg] } mid t)
      { s with log := s.log ++ [.sent msg], transport := u } := by
    refine wp_iter (fun _ t => ∃ mid, Chats { s with log := s.log ++ [.sent msg] } mid t) ?_ ?_ _ _ ?_
    · intro _ t hres
      obtain ⟨mid, hmid⟩ := hres
      refine wp_mono (poll_spec c hexpect id t) ?_ ?_
      · intro r v hres
        obtain ⟨rest, hrest, hreply⟩ := hres
        cases r with
        | inl _ => exact ⟨_, hmid.trans hrest⟩
        | inr reply =>
          obtain ⟨hmem, hans⟩ := hreply reply rfl
          refine ⟨_, hmid.trans hrest, ?_, hans⟩
          rw [received_append]
          exact List.mem_append_right _ hmem
      · intro _ v hres
        obtain ⟨rest, hrest⟩ := hres
        exact ⟨_, hmid.trans hrest⟩
    · exact fun _ t ht => ht
    · exact ⟨[], .silent rfl rfl rfl⟩
  refine wp_mono hloop ?_ ?_
  · intro reply t hres
    obtain ⟨mid, hmid, hmem, hans⟩ := hres
    refine ⟨hmid.next, .sent msg :: (mid ++ [.completed msg reply]), by simp [hmid.log], mid, by simp,
      hmid.serviced, ?_⟩
    intro r hr
    cases hr
    exact ⟨hmem, hans⟩
  · intro _ t hres
    obtain ⟨mid, hmid⟩ := hres
    exact ⟨hmid.next, _, hnone mid t hmid⟩

theorem transact_exchanged (c : ControlTransport τ) (msg : Bytes) {expect : UInt32}
    (hexpect : Solicited expect) (id : UInt32) (s : Rndis τ) :
    ∃ new, Exchanged msg expect id s new (transact c msg expect id s).1.toOption
      (transact c msg expect id s).2 := by
  obtain ⟨hok, herror⟩ := wp_iff.mp (transact_spec c msg hexpect id s)
  rcases hrun : transact c msg expect id s with ⟨_ | reply, t⟩
  · exact (herror _ t hrun).2
  · exact (hok reply t hrun).2

theorem exchange_spec (c : ControlTransport τ) (encode : UInt32 → Bytes) {expect : UInt32}
    (hexpect : Solicited expect) (s : Rndis τ) :
    wp (exchange c encode expect)
      (fun reply t => t.nextRequestId = nextId s.nextRequestId ∧
        ∃ new, Exchanged (encode s.nextRequestId) expect s.nextRequestId s new (some reply) t)
      (fun _ t => t.nextRequestId = nextId s.nextRequestId ∧
        ∃ new, Exchanged (encode s.nextRequestId) expect s.nextRequestId s new none t) s := by
  simp only [exchange, takeRequestId, wp_bind, wp_apply]
  refine wp_mono (transact_spec c _ hexpect _ _) ?_ ?_
  · intro reply t hres
    obtain ⟨hnext, new, hnew⟩ := hres
    exact ⟨hnext, new, hnew.log, hnew.trace⟩
  · intro _ t hres
    obtain ⟨hnext, new, hnew⟩ := hres
    exact ⟨hnext, new, hnew.log, hnew.trace⟩

namespace Exchanged

variable {msg : Bytes} {expect id : UInt32} {s t : Rndis τ} {new : List Traffic}
  {reply : Option Bytes}

theorem sent_eq (h : Exchanged msg expect id s new reply t) :
    sent new = msg :: (received new).filterMap answer := by
  obtain ⟨mid, rfl, hmid, _⟩ := h.trace
  have hmidSent := hmid.answers
  unfold sent received at hmidSent ⊢
  cases reply <;> simp [hmidSent]

theorem link_eq (h : Exchanged msg expect id s new reply t) :
    t.link = (received new).foldl applied s.link := by
  obtain ⟨mid, rfl, hmid, _⟩ := h.trace
  have hlink := hmid.link
  unfold received at hlink ⊢
  cases reply <;> simp [hlink]

/-- The only reply taken is one that was received and answers the command. -/
theorem completed (h : Exchanged msg expect id s new reply t) {m r : Bytes}
    (hmem : .completed m r ∈ new) :
    m = msg ∧ reply = some r ∧ .received r ∈ new ∧ Answers expect id r := by
  obtain ⟨mid, rfl, hmid, hreply⟩ := h.trace
  rcases List.mem_cons.mp hmem with hm | hm
  · cases hm
  rcases List.mem_append.mp hm with hm | hm
  · exact absurd hm (hmid.uncompleted m r)
  cases reply with
  | none => cases hm
  | some r' =>
    cases List.mem_singleton.mp hm
    obtain ⟨hrec, hans⟩ := hreply r rfl
    refine ⟨rfl, rfl, ?_, hans⟩
    exact List.mem_cons_of_mem _ (List.mem_append_left _ (mem_received.mp hrec))

theorem completed_mem {r : Bytes} (h : Exchanged msg expect id s new (some r) t) :
    .completed msg r ∈ new := by
  obtain ⟨mid, rfl, _, _⟩ := h.trace
  exact List.mem_cons_of_mem _ (List.mem_append_right _ List.mem_cons_self)

end Exchanged

theorem solicited_init : Solicited msgInitC := ⟨by decide, by decide⟩

theorem solicited_query : Solicited msgQueryC := ⟨by decide, by decide⟩

theorem solicited_set : Solicited msgSetC := ⟨by decide, by decide⟩

theorem solicited_keepalive : Solicited msgKeepaliveC := ⟨by decide, by decide⟩

theorem Request.solicited (r : Request) : Solicited r.expect := by
  cases r with
  | initialise => exact solicited_init
  | query oid => exact solicited_query
  | set oid data => exact solicited_set
  | keepalive => exact solicited_keepalive

section Commands

variable (c : ControlTransport τ)

theorem exchange_bind_spec {α : Type} (encode : UInt32 → Bytes) {expect : UInt32}
    (hexpect : Solicited expect) {k : Bytes → RndisM τ α} (Q : Bytes → α → Prop) (N : Bytes → Prop)
    (hk : ∀ reply t, wp (k reply) (fun a u => u = t ∧ Q reply a) (fun _ u => u = t ∧ N reply) t)
    (s : Rndis τ) :
    wp (exchange c encode expect >>= k)
      (fun a t => t.nextRequestId = nextId s.nextRequestId ∧ ∃ new reply,
        Exchanged (encode s.nextRequestId) expect s.nextRequestId s new (some reply) t ∧ Q reply a)
      (fun _ t => t.nextRequestId = nextId s.nextRequestId ∧ ∃ new reply,
        Exchanged (encode s.nextRequestId) expect s.nextRequestId s new reply t ∧
          ∀ r, reply = some r → N r) s := by
  rw [wp_bind]
  refine wp_mono (exchange_spec c encode hexpect s) ?_ ?_
  · intro reply t hres
    obtain ⟨hnext, new, hnew⟩ := hres
    refine wp_mono (hk reply t) ?_ ?_
    · intro a u hres
      obtain ⟨rfl, hq⟩ := hres
      exact ⟨hnext, new, reply, hnew, hq⟩
    · intro e u hres
      obtain ⟨rfl, hn⟩ := hres
      refine ⟨hnext, new, some reply, hnew, ?_⟩
      intro r hr
      cases hr
      exact hn
  · intro e t hres
    obtain ⟨hnext, new, hnew⟩ := hres
    exact ⟨hnext, new, none, hnew, by simp⟩

theorem initialise_spec (s : Rndis τ) :
    wp (initialise c)
      (fun init t => t.nextRequestId = nextId s.nextRequestId ∧ ∃ new reply,
        Exchanged (encodeInit s.nextRequestId hostMaxTransferSize) msgInitC s.nextRequestId s new
          (some reply) t ∧
        decodeInitComplete reply = .ok init ∧ init.status = statusSuccess ∧
          init.maxTransferSize ≠ 0)
      (fun _ t => t.nextRequestId = nextId s.nextRequestId ∧ ∃ new reply,
        Exchanged (encodeInit s.nextRequestId hostMaxTransferSize) msgInitC s.nextRequestId s new
          reply t) s := by
  unfold initialise
  refine wp_mono (exchange_bind_spec c _ solicited_init
    (fun reply init => decodeInitComplete reply = .ok init ∧ init.status = statusSuccess ∧
      init.maxTransferSize ≠ 0) (fun _ => True) ?_ s) (fun _ _ h => h) ?_
  case refine_2 =>
    intro _ t hres
    obtain ⟨hnext, new, reply, hnew, _⟩ := hres
    exact ⟨hnext, new, reply, hnew⟩
  intro reply t
  rw [wp_bind, wp_ofExcept]
  refine ⟨?_, fun _ _ => ⟨rfl, trivial⟩⟩
  intro init hinit
  apply wp_ite
  · exact fun _ => ⟨rfl, trivial⟩
  · intro hstatus
    apply wp_ite
    · exact fun _ => ⟨rfl, trivial⟩
    · exact fun hsize => ⟨rfl, hinit, Decidable.not_not.mp hstatus, hsize⟩

theorem query_spec (oid : UInt32) (s : Rndis τ) :
    wp (query c oid)
      (fun info t => t.nextRequestId = nextId s.nextRequestId ∧ ∃ new reply,
        Exchanged (encodeQuery s.nextRequestId oid) msgQueryC s.nextRequestId s new (some reply) t ∧
        ∃ id, decodeQueryComplete reply = .ok (id, statusSuccess, info))
      (fun _ t => t.nextRequestId = nextId s.nextRequestId ∧ ∃ new reply,
        Exchanged (encodeQuery s.nextRequestId oid) msgQueryC s.nextRequestId s new reply t ∧
        ∀ r, reply = some r → ∀ id info, decodeQueryComplete r ≠ .ok (id, statusSuccess, info)) s := by
  refine exchange_bind_spec c _ solicited_query
    (fun reply info => ∃ id, decodeQueryComplete reply = .ok (id, statusSuccess, info))
    (fun reply => ∀ id info, decodeQueryComplete reply ≠ .ok (id, statusSuccess, info)) ?_ s
  intro reply t
  rw [wp_bind, wp_ofExcept]
  constructor
  · rintro ⟨id, status, info⟩ hdecode
    apply wp_ite
    · intro hstatus
      refine ⟨rfl, ?_⟩
      intro id' info' hother
      rw [hdecode] at hother
      cases hother
      exact hstatus rfl
    · intro hstatus
      refine ⟨rfl, id, ?_⟩
      rw [hdecode]
      simpa using hstatus
  · intro e he
    refine ⟨rfl, ?_⟩
    intro id info hother
    rw [he] at hother
    cases hother

theorem exchange_succeeded_spec (encode : UInt32 → Bytes) {expect : UInt32}
    (hexpect : Solicited expect) (s : Rndis τ) :
    wp (exchange c encode expect >>= succeeded)
      (fun _ t => t.nextRequestId = nextId s.nextRequestId ∧ ∃ new reply,
        Exchanged (encode s.nextRequestId) expect s.nextRequestId s new reply t)
      (fun _ t => t.nextRequestId = nextId s.nextRequestId ∧ ∃ new reply,
        Exchanged (encode s.nextRequestId) expect s.nextRequestId s new reply t) s := by
  have hspec := exchange_bind_spec c encode hexpect (k := succeeded) (fun _ _ => True)
    (fun _ => True) ?_ s
  · refine wp_mono hspec ?_ ?_
    · intro _ t hres
      obtain ⟨hnext, new, reply, hnew, _⟩ := hres
      exact ⟨hnext, new, some reply, hnew⟩
    · intro _ t hres
      obtain ⟨hnext, new, reply, hnew, _⟩ := hres
      exact ⟨hnext, new, reply, hnew⟩
  · intro reply t
    unfold succeeded
    rw [wp_bind, wp_ofExcept]
    refine ⟨?_, fun _ _ => ⟨rfl, trivial⟩⟩
    rintro ⟨id, status⟩ _
    apply wp_ite
    · exact fun _ => ⟨rfl, trivial⟩
    · exact fun _ => ⟨rfl, trivial⟩

theorem Request.issue_spec (r : Request) (s : Rndis τ) :
    wp (r.issue c)
      (fun _ t => t.nextRequestId = nextId s.nextRequestId ∧ ∃ new reply,
        Exchanged (r.encode s.nextRequestId) r.expect s.nextRequestId s new reply t)
      (fun _ _ => False) s := by
  cases r with
  | initialise =>
    simp only [Request.issue, wp_bind, wp_attempt, wp_pure]
    refine wp_mono (initialise_spec c s) ?_ ?_
    · intro init t hres
      obtain ⟨hnext, new, reply, hnew, _⟩ := hres
      exact ⟨hnext, new, some reply, hnew⟩
    · exact fun _ t h => h
  | query oid =>
    simp only [Request.issue, wp_bind, wp_attempt, wp_pure]
    refine wp_mono (query_spec c oid s) ?_ ?_
    · intro info t hres
      obtain ⟨hnext, new, reply, hnew, _⟩ := hres
      exact ⟨hnext, new, some reply, hnew⟩
    · intro _ t hres
      obtain ⟨hnext, new, reply, hnew, _⟩ := hres
      exact ⟨hnext, new, reply, hnew⟩
  | set oid data =>
    simp only [Request.issue, wp_bind, wp_attempt, wp_pure]
    exact exchange_succeeded_spec c _ solicited_set s
  | keepalive =>
    simp only [Request.issue, wp_bind, wp_attempt, wp_pure]
    exact exchange_succeeded_spec c _ solicited_keepalive s

end Commands

/-- A transport that keeps account of what it was given to send and of what it handed out. -/
structure Accounts (c : ControlTransport τ) (given handed : τ → List Bytes) : Prop where
  send : ∀ t msg, given (c.send t msg).2 = given t ++ [msg] ∧ handed (c.send t msg).2 = handed t
  receive : ∀ t, given (c.receive t).2 = given t ∧
    handed (c.receive t).2 = handed t ++ (c.receive t).1.toOption.toList
  await : ∀ t timeout, given (c.awaitResponse t timeout).2 = given t ∧
    handed (c.awaitResponse t timeout).2 = handed t

theorem sent_wired (l : List Traffic) : sent (wired l) = sent l := by
  rw [sent, wired, List.filterMap_filter, sent]
  congr 1
  funext e
  cases e <;> rfl

theorem received_wired (l : List Traffic) : received (wired l) = received l := by
  rw [received, wired, List.filterMap_filter, received]
  congr 1
  funext e
  cases e <;> rfl

/-- From `s` on, the log has grown by what went through the transport. -/
def Accounted (given handed : τ → List Bytes) (s t : Rndis τ) : Prop :=
  (∃ gs, given t.transport = given s.transport ++ gs ∧ sent t.log = sent s.log ++ gs) ∧
    ∃ hs, handed t.transport = handed s.transport ++ hs ∧ received t.log = received s.log ++ hs

theorem Accounts.kept {c : ControlTransport τ} {given handed : τ → List Bytes}
    (h : Accounts c given handed) (s : Rndis τ) : Kept c (Accounted given handed s) where
  send := by
    intro msg t ht
    obtain ⟨⟨gs, hgiven, hsent⟩, hs, hhanded, hreceived⟩ := ht
    obtain ⟨hgiven', hhanded'⟩ := h.send t.transport msg
    refine ⟨⟨gs ++ [msg], ?_, ?_⟩, hs, hhanded'.trans hhanded, ?_⟩
    · rw [← List.append_assoc, ← hgiven]
      exact hgiven'
    · rw [← List.append_assoc, ← hsent]
      exact sent_append t.log [.sent msg]
    · rw [← hreceived]
      exact (received_append t.log [.sent msg]).trans (List.append_nil _)
  receive := by
    intro t ht
    obtain ⟨⟨gs, hgiven, hsent⟩, hs, hhanded, hreceived⟩ := ht
    obtain ⟨hgiven', hhanded'⟩ := h.receive t.transport
    have hcall : onTransport c.receive t =
        ((c.receive t.transport).1, { t with transport := (c.receive t.transport).2 }) := rfl
    rw [Rndis.receive]
    cases hresult : (c.receive t.transport).1 with
    | error e =>
      rw [hresult] at hhanded' hcall
      rw [bind_apply_error _ _ hcall]
      refine ⟨⟨gs, hgiven'.trans hgiven, hsent⟩, hs, ?_, hreceived⟩
      rw [← hhanded]
      exact hhanded'.trans (List.append_nil _)
    | ok msg =>
      rw [hresult] at hhanded' hcall
      rw [bind_apply_ok _ _ hcall]
      refine ⟨⟨gs, hgiven'.trans hgiven, ?_⟩, hs ++ [msg], ?_, ?_⟩
      · rw [← hsent]
        exact (sent_append t.log [.received msg]).trans (List.append_nil _)
      · rw [← List.append_assoc, ← hhanded]
        exact hhanded'
      · rw [← List.append_assoc, ← hreceived]
        exact received_append t.log [.received msg]
  await := by
    intro timeout t ht
    obtain ⟨⟨gs, hgiven, hsent⟩, hs, hhanded, hreceived⟩ := ht
    obtain ⟨hgiven', hhanded'⟩ := h.await t.transport timeout
    exact ⟨⟨gs, hgiven'.trans hgiven, hsent⟩, hs, hhanded'.trans hhanded, hreceived⟩
  aside := by
    intro t u htransport hwired ht
    rw [Accounted, htransport, ← sent_wired u.log, ← received_wired u.log, hwired, sent_wired,
      received_wired]
    exact ht

theorem Accounted.refl (given handed : τ → List Bytes) (s : Rndis τ) : Accounted given handed s s :=
  ⟨⟨[], (List.append_nil _).symm, (List.append_nil _).symm⟩, [], (List.append_nil _).symm,
    (List.append_nil _).symm⟩

theorem Accounted.eq {given handed : τ → List Bytes} {s t : Rndis τ} {new : List Traffic}
    (h : Accounted given handed s t) (hlog : t.log = s.log ++ new) :
    given t.transport = given s.transport ++ sent new ∧
      handed t.transport = handed s.transport ++ received new := by
  obtain ⟨⟨gs, hgiven, hsent⟩, hs, hhanded, hreceived⟩ := h
  rw [hlog, sent_append] at hsent
  rw [hlog, received_append] at hreceived
  rw [List.append_cancel_left hsent, List.append_cancel_left hreceived]
  exact ⟨hgiven, hhanded⟩

/-- Whatever the device sends during a transaction is serviced exactly once, and the reply that
is returned, if any, is one of the messages the transport handed out. -/
theorem transact_services (c : ControlTransport τ) (r : Request) (id : UInt32) (s : Rndis τ) :
    ∃ new, (transact c (r.encode id) r.expect id s).2.log = s.log ++ new ∧
      sent new = r.encode id :: (received new).filterMap answer ∧
      (transact c (r.encode id) r.expect id s).2.linkState =
        (received new).foldl applied s.linkState ∧
      (∀ reply, (transact c (r.encode id) r.expect id s).1 = .ok reply →
        reply ∈ received new ∧ Answers r.expect id reply) ∧
      ∀ given handed, Accounts c given handed →
        given (transact c (r.encode id) r.expect id s).2.transport = given s.transport ++ sent new ∧
        handed (transact c (r.encode id) r.expect id s).2.transport =
          handed s.transport ++ received new := by
  obtain ⟨new, hnew⟩ := transact_exchanged c (r.encode id) r.solicited id s
  refine ⟨new, hnew.log, hnew.sent_eq, hnew.link_eq, ?_, ?_⟩
  · intro reply hreply
    obtain ⟨mid, rfl, _, hmem⟩ := hnew.trace
    rw [hreply] at hmem ⊢
    obtain ⟨hreceived, hanswers⟩ := hmem reply rfl
    refine ⟨?_, hanswers⟩
    rw [mem_received] at hreceived ⊢
    exact List.mem_cons_of_mem _ (List.mem_append_left _ hreceived)
  · intro given handed haccounts
    have hkept := (haccounts.kept s).transact (r.encode id) r.expect id s (.refl given handed s)
    exact hkept.eq hnew.log

end Muta.Rndis
