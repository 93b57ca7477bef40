import Muta.Rndis.RequestIds

/-!
# The bring-up contract

Bring-up is four commands that depend on each other, any of which the device may
refuse, ignore or answer with nonsense while it sends whatever else it likes. What a
successful bring-up promises is read off the traffic: which commands were sent, which
reply the host address came from, and which indication the link state follows.
-/

namespace Muta.Rndis

open Act Wire
set_option autoImplicit false

variable {τ : Type}

def indications (l : List Traffic) : List LinkState := (received l).filterMap indication

theorem indications_append (l m : List Traffic) :
    indications (l ++ m) = indications l ++ indications m := by
  rw [indications, received_append, List.filterMap_append]
  rfl

theorem foldl_applied (msgs : List Bytes) (link : LinkState) :
    msgs.foldl applied link = ((msgs.filterMap indication).getLast?).getD link := by
  induction msgs generalizing link with
  | nil => rfl
  | cons msg msgs ih =>
    rw [List.foldl_cons, ih, applied]
    cases hi : indication msg with
    | none => simp [hi]
    | some l => simp [hi, List.getLast?_cons]

theorem indication_up_or_down {msg : Bytes} {l : LinkState} (h : indication msg = some l) :
    l = .up ∨ l = .down := by
  unfold indication at h
  split at h
  · split at h
    · split at h
      · cases h
        exact Or.inl rfl
      split at h
      · cases h
        exact Or.inr rfl
      · cases h
    · cases h
  · cases h

/-- From `s` to `t` the link has followed the traffic. -/
def Follows (s t : Rndis τ) : Prop := ∃ new, t.log = s.log ++ new ∧
  t.link = ((indications new).getLast?).getD s.link

/-- The link is the last one announced, if any was. -/
def Linked (s : Rndis τ) : Prop := ∃ l, (l = .unknown ∨ l = .up) ∧
  s.link = ((indications s.log).getLast?).getD l

theorem Exchanged.follows {msg : Bytes} {expect id : UInt32} {s t : Rndis τ} {new : List Traffic}
    {reply : Option Bytes} (h : Exchanged msg expect id s new reply t) : Follows s t := by
  refine ⟨new, h.log, ?_⟩
  rw [h.link_eq, foldl_applied]
  rfl

theorem Follows.linked {s t : Rndis τ} (h : Follows s t) (hs : Linked s) : Linked t := by
  obtain ⟨new, hlog, hlink⟩ := h
  obtain ⟨l, hl, hbefore⟩ := hs
  refine ⟨l, hl, ?_⟩
  rw [hlink, hlog, indications_append, List.getLast?_append, hbefore]
  cases (indications new).getLast? <;> rfl

/-- The reply is a successful completion of the query `id`, and the buffer it selects
starts with the address `mac`, which is not all zero. -/
structure GivesMac (id : UInt32) (reply : Bytes) (mac : Mac) : Prop where
  type : u32At reply 0 = .ok msgQueryC
  id : u32At reply 8 = .ok id
  status : u32At reply 12 = .ok statusSuccess
  info : ∃ info, Selects reply info ∧ 6 ≤ info.length ∧ mac.val = info.take 6
  nonzero : mac.val ≠ List.replicate 6 0

theorem macFrom_eq_some {info : Bytes} {mac : Mac} :
    macFrom info = some mac ↔
      6 ≤ info.length ∧ mac.val = info.take 6 ∧ mac.val ≠ List.replicate 6 0 := by
  unfold macFrom
  by_cases hlen : 6 ≤ info.length
  · rw [dif_pos hlen]
    split
    · rename_i hne
      constructor
      · intro h
        cases h
        exact ⟨hlen, rfl, hne⟩
      · intro h
        exact congrArg some (Subtype.ext h.2.1.symm)
    · rename_i hzero
      constructor
      · intro h
        cases h
      · intro h
        refine absurd ?_ h.2.2
        rw [h.2.1]
        exact Decidable.not_not.mp hzero
  · rw [dif_neg hlen]
    constructor
    · intro h
      cases h
    · exact fun h => absurd h.1 hlen

variable (c : ControlTransport τ)

theorem tryMac_spec (oid : UInt32) (s : Rndis τ) :
    wp (tryMac c oid)
      (fun found t => t.nextRequestId = nextId s.nextRequestId ∧ ∃ new reply,
        Exchanged (encodeQuery s.nextRequestId oid) msgQueryC s.nextRequestId s new reply t ∧
        ∀ mac, found = some mac ↔ ∃ r, reply = some r ∧ GivesMac s.nextRequestId r mac)
      (fun _ _ => False) s := by
  simp only [tryMac, wp_bind, wp_attempt]
  refine wp_mono (query_spec c oid s) ?_ ?_
  · intro info t h
    obtain ⟨hnext, new, reply, hnew, id, hdecode⟩ := h
    refine ⟨hnext, new, some reply, hnew, ?_⟩
    obtain ⟨htype, hid, hstatus, hinfo⟩ := decodeQueryComplete_success.mp hdecode
    have hown : u32At reply 8 = .ok s.nextRequestId := by
      obtain ⟨_, _, _, hans⟩ := hnew.completed hnew.completed_mem
      exact hans.id
    intro mac
    rw [macFrom_eq_some]
    constructor
    · intro hmac
      exact ⟨reply, rfl, htype, hown, hstatus, ⟨info, hinfo, hmac.1, hmac.2.1⟩, hmac.2.2⟩
    · intro hgives
      obtain ⟨r, hr, hmac⟩ := hgives
      cases hr
      obtain ⟨info', hinfo', hlen, htake⟩ := hmac.info
      rw [hinfo.inj hinfo']
      exact ⟨hlen, htake, hmac.nonzero⟩
  · intro e t h
    obtain ⟨hnext, new, reply, hnew, hno⟩ := h
    refine ⟨hnext, new, reply, hnew, ?_⟩
    intro mac
    constructor
    · intro hfound
      cases hfound
    · intro hgives
      obtain ⟨r, hr, hmac⟩ := hgives
      obtain ⟨info, hinfo, _, _⟩ := hmac.info
      exact absurd (decodeQueryComplete_success.mpr ⟨hmac.type, hmac.id, hmac.status, hinfo⟩)
        (hno r hr s.nextRequestId info)

/-- The queries for the address, from `s` to `t`: the second one is sent exactly when
the first gave none. -/
inductive Queried (s : Rndis τ) : List Traffic → Option Mac → Rndis τ → Prop where
  | permanent {new : List Traffic} {t : Rndis τ} (mac : Mac) (reply : Bytes) :
      Exchanged (encodeQuery s.nextRequestId oid8023PermanentAddress) msgQueryC s.nextRequestId s new
        (some reply) t →
      GivesMac s.nextRequestId reply mac → Queried s new (some mac) t
  | current {first second : List Traffic} {t u : Rndis τ} (found : Option Mac)
      (reply reply' : Option Bytes) :
      Exchanged (encodeQuery s.nextRequestId oid8023PermanentAddress) msgQueryC s.nextRequestId s first
        reply t →
      (∀ r mac, reply = some r → ¬ GivesMac s.nextRequestId r mac) →
      Exchanged (encodeQuery t.nextRequestId oid8023CurrentAddress) msgQueryC t.nextRequestId t second
        reply' u →
      (∀ mac, found = some mac → ∃ r, reply' = some r ∧ GivesMac t.nextRequestId r mac) →
      Queried s (first ++ second) found u

theorem queryMac_spec (s : Rndis τ) :
    wp (queryMac c) (fun mac t => ∃ new, Queried s new (some mac) t)
      (fun _ t => ∃ new, Queried s new none t) s := by
  simp only [queryMac, wp_bind]
  refine wp_mono (tryMac_spec c _ s) ?_ (fun _ _ hf => hf.elim)
  intro found t h
  obtain ⟨_, first, reply, hfirst, hfound⟩ := h
  cases found with
  | some mac =>
    obtain ⟨r, rfl, hmac⟩ := (hfound mac).mp rfl
    exact ⟨first, .permanent mac r hfirst hmac⟩
  | none =>
    have hnone : ∀ r mac, reply = some r → ¬ GivesMac s.nextRequestId r mac := by
      intro r mac hr hmac
      cases (hfound mac).mpr ⟨r, hr, hmac⟩
    rw [wp_bind]
    refine wp_mono (tryMac_spec c _ t) ?_ (fun _ _ hf => hf.elim)
    intro found' u h'
    obtain ⟨_, second, reply', hsecond, hfound'⟩ := h'
    have hqueried := Queried.current found' reply reply' hfirst hnone hsecond
      (fun mac hm => (hfound' mac).mp hm)
    cases found' with
    | some mac => exact ⟨_, hqueried⟩
    | none => exact ⟨_, hqueried⟩

def filterCommand (id : UInt32) : Bytes :=
  encodeSet id oidGenCurrentPacketFilter (u32leBytes defaultPacketFilter)

theorem selects_filterCommand (id : UInt32) :
    Selects (filterCommand id) (u32leBytes defaultPacketFilter) := by
  refine ⟨4, 20, ?_, ?_, ?_⟩
  · exact u32At_words _ (u32leBytes defaultPacketFilter) 4 (by simp)
  · exact u32At_words _ (u32leBytes defaultPacketFilter) 5 (by simp)
  · rfl

/-- INIT has succeeded and a usable address has been obtained. -/
def Earned (l : List Traffic) : Prop :=
  (∃ id reply init, .completed (encodeInit id hostMaxTransferSize) reply ∈ l ∧
    decodeInitComplete reply = .ok init ∧ init.status = statusSuccess) ∧
  ∃ id oid reply mac, .completed (encodeQuery id oid) reply ∈ l ∧ GivesMac id reply mac

/-- Before the packet filter is set, it has been earned. -/
def FilterEarned (l : List Traffic) : Prop :=
  ∀ a id b, l = a ++ .sent (filterCommand id) :: b → Earned a

theorem encode_ne (cmd cmd' : Command) (h : cmd.msgType ≠ cmd'.msgType) (i j : UInt32) :
    cmd.encode i ≠ cmd'.encode j := by
  intro heq
  have htype := (cmd.encode_fields i).1
  rw [heq, (cmd'.encode_fields j).1] at htype
  exact h (Except.ok.inj htype).symm

theorem encodeInit_ne_filterCommand (i j : UInt32) :
    encodeInit i hostMaxTransferSize ≠ filterCommand j :=
  encode_ne (.request .initialise) (.request (.set _ _))
    (by decide : msgInit ≠ msgSet) i j

theorem encodeQuery_ne_filterCommand (i oid j : UInt32) : encodeQuery i oid ≠ filterCommand j :=
  encode_ne (.request (.query oid)) (.request (.set _ _))
    (by decide : msgQuery ≠ msgSet) i j

theorem encodeQuery_ne_encodeInit (i oid j : UInt32) :
    encodeQuery i oid ≠ encodeInit j hostMaxTransferSize :=
  encode_ne (.request (.query oid)) (.request .initialise)
    (by decide : msgQuery ≠ msgInit) i j

theorem encodeQuery_oid_ne {oid oid' : UInt32} (h : oid ≠ oid') (i j : UInt32) :
    encodeQuery i oid ≠ encodeQuery j oid' := by
  intro heq
  have hoid : u32At (encodeQuery i oid) 12 = .ok oid :=
    u32At_words_alone [msgQuery, 28, i, oid, 0, 0, 0] 3 (by simp)
  have hoid' : u32At (encodeQuery j oid') 12 = .ok oid' :=
    u32At_words_alone [msgQuery, 28, j, oid', 0, 0, 0] 3 (by simp)
  rw [heq, hoid'] at hoid
  exact h (Except.ok.inj hoid).symm

theorem isAnswer_init (id : UInt32) : isAnswer (encodeInit id hostMaxTransferSize) = false :=
  Command.isAnswer_encode (.request .initialise) id

theorem isAnswer_query (id oid : UInt32) : isAnswer (encodeQuery id oid) = false :=
  Command.isAnswer_encode (.request (.query oid)) id

theorem isAnswer_filter (id : UInt32) : isAnswer (filterCommand id) = false :=
  Command.isAnswer_encode (.request (.set _ _)) id

theorem mem_commands_filter {l : List Traffic} {id : UInt32} (h : .sent (filterCommand id) ∈ l) :
    filterCommand id ∈ commands l := by
  refine List.mem_filter.mpr ⟨mem_sent.mpr h, ?_⟩
  rw [isAnswer_filter]
  rfl

theorem filterEarned_of_not_mem {l : List Traffic} (h : ∀ id, filterCommand id ∉ commands l) :
    FilterEarned l := by
  intro a id b heq
  refine absurd (mem_commands_filter ?_) (h id)
  rw [heq]
  exact List.mem_append_right a List.mem_cons_self

theorem Earned.filterEarned {l : List Traffic} (he : Earned l)
    (h : ∀ id, filterCommand id ∉ commands l) (m : List Traffic) : FilterEarned (l ++ m) := by
  intro a id b heq
  rcases List.append_eq_append_iff.mp heq with ⟨c, ha, _⟩ | ⟨c, hl, hc⟩
  · obtain ⟨⟨i, reply, init, hinit, hok⟩, j, oid, reply', mac, hquery, hmac⟩ := he
    rw [ha]
    exact ⟨⟨i, reply, init, List.mem_append_left c hinit, hok⟩, j, oid, reply', mac,
      List.mem_append_left c hquery, hmac⟩
  · cases c with
    | nil =>
      rw [List.append_nil] at hl
      rw [← hl]
      exact he
    | cons x c =>
      refine absurd (mem_commands_filter ?_) (h id)
      rw [hl, ← (List.cons.inj hc).1]
      exact List.mem_append_right a List.mem_cons_self

theorem Follows.trans {s t u : Rndis τ} (h₁ : Follows s t) (h₂ : Follows t u) : Follows s u := by
  obtain ⟨new, hlog, hlink⟩ := h₁
  obtain ⟨new', hlog', hlink'⟩ := h₂
  refine ⟨new ++ new', by rw [hlog', hlog, List.append_assoc], ?_⟩
  rw [hlink', hlink, indications_append, List.getLast?_append]
  cases (indications new').getLast? <;> rfl

/-- The commands of a successful bring-up, and the reply its address comes from. -/
inductive Sequence (l : List Traffic) (mac : Mac) : Prop where
  | permanent (i j k : UInt32) (reply : Bytes) :
      commands l = [encodeInit i hostMaxTransferSize, encodeQuery j oid8023PermanentAddress,
        filterCommand k] →
      .completed (encodeQuery j oid8023PermanentAddress) reply ∈ l → .received reply ∈ l →
      GivesMac j reply mac → Sequence l mac
  | current (i j j' k : UInt32) (reply : Bytes) :
      commands l = [encodeInit i hostMaxTransferSize, encodeQuery j oid8023PermanentAddress,
        encodeQuery j' oid8023CurrentAddress, filterCommand k] →
      (∀ r m, .completed (encodeQuery j oid8023PermanentAddress) r ∈ l → ¬ GivesMac j r m) →
      .completed (encodeQuery j' oid8023CurrentAddress) reply ∈ l → .received reply ∈ l →
      GivesMac j' reply mac → Sequence l mac

namespace Queried

variable {s t : Rndis τ} {new : List Traffic} {found : Option Mac}

theorem no_filter (h : Queried s new found t) (id : UInt32) : filterCommand id ∉ commands new := by
  intro hmem
  cases h with
  | permanent mac reply hx _ =>
    rw [hx.commands_eq (isAnswer_query _ _)] at hmem
    exact encodeQuery_ne_filterCommand _ _ _ (List.mem_singleton.mp hmem).symm
  | current found reply reply' hx _ hy _ =>
    rw [commands_append, hx.commands_eq (isAnswer_query _ _),
      hy.commands_eq (isAnswer_query _ _)] at hmem
    rcases List.mem_append.mp hmem with hmem | hmem
    · exact encodeQuery_ne_filterCommand _ _ _ (List.mem_singleton.mp hmem).symm
    · exact encodeQuery_ne_filterCommand _ _ _ (List.mem_singleton.mp hmem).symm

theorem log (h : Queried s new found t) : t.log = s.log ++ new := by
  cases h with
  | permanent mac reply hx _ => exact hx.log
  | current found reply reply' hx _ hy _ => rw [hy.log, hx.log, List.append_assoc]

theorem follows (h : Queried s new found t) : Follows s t := by
  cases h with
  | permanent mac reply hx _ => exact hx.follows
  | current found reply reply' hx _ hy _ => exact hx.follows.trans hy.follows

theorem gives {mac : Mac} (h : Queried s new (some mac) t) :
    ∃ id oid reply, .completed (encodeQuery id oid) reply ∈ new ∧ GivesMac id reply mac := by
  cases h with
  | permanent mac reply hx hmac => exact ⟨_, _, reply, hx.completed_mem, hmac⟩
  | current found reply reply' hx _ hy hfound =>
    obtain ⟨r, hr, hmac⟩ := hfound mac rfl
    subst hr
    exact ⟨_, _, r, List.mem_append_right _ hy.completed_mem, hmac⟩

end Queried

theorem Queried.sequence {s₀ s₁ s₂ s₃ : Rndis τ} {first new last : List Traffic} {mac : Mac}
    {r r' : Option Bytes}
    (hinit : Exchanged (encodeInit s₀.nextRequestId hostMaxTransferSize) msgInitC s₀.nextRequestId s₀
      first r s₁)
    (h : Queried s₁ new (some mac) s₂)
    (hset : Exchanged (filterCommand s₂.nextRequestId) msgSetC s₂.nextRequestId s₂ last r' s₃) :
    Sequence (first ++ new ++ last) mac := by
  have hfirst := hinit.commands_eq (isAnswer_init _)
  have hlast := hset.commands_eq (isAnswer_filter _)
  cases h with
  | permanent mac reply hx hmac =>
    have hquery := hx.commands_eq (isAnswer_query _ _)
    obtain ⟨_, _, hrec, _⟩ := hx.completed hx.completed_mem
    refine .permanent s₀.nextRequestId s₁.nextRequestId s₂.nextRequestId reply ?_ ?_ ?_ hmac
    · rw [commands_append, commands_append, hfirst, hquery, hlast]
      rfl
    · exact List.mem_append_left _ (List.mem_append_right _ hx.completed_mem)
    · exact List.mem_append_left _ (List.mem_append_right _ hrec)
  | @current second third t _ found reply reply' hx hno hy hfound =>
    have hquery := hx.commands_eq (isAnswer_query _ _)
    have hquery' := hy.commands_eq (isAnswer_query _ _)
    obtain ⟨rep, hrep, hmac⟩ := hfound mac rfl
    subst hrep
    obtain ⟨_, _, hrec, _⟩ := hy.completed hy.completed_mem
    refine .current s₀.nextRequestId s₁.nextRequestId t.nextRequestId s₂.nextRequestId rep ?_ ?_ ?_ ?_
      hmac
    · rw [commands_append, commands_append, commands_append, hfirst, hquery, hquery', hlast]
      rfl
    · -- A completion of the first query is found in that query's traffic only.
      intro x m hmem
      rcases List.mem_append.mp hmem with hmem | hmem
      · rcases List.mem_append.mp hmem with hmem | hmem
        · exact absurd (hinit.completed hmem).1 (encodeQuery_ne_encodeInit _ _ _)
        rcases List.mem_append.mp hmem with hmem | hmem
        · exact hno x m (hx.completed hmem).2.1
        · exact absurd (hy.completed hmem).1
            (encodeQuery_oid_ne (by decide : oid8023PermanentAddress ≠ oid8023CurrentAddress) _ _)
      · exact absurd (hset.completed hmem).1 (encodeQuery_ne_filterCommand _ _ _)
    · exact List.mem_append_left _ (List.mem_append_right _ (List.mem_append_right _ hy.completed_mem))
    · exact List.mem_append_left _ (List.mem_append_right _ (List.mem_append_right _ hrec))

/-- What a successful bring-up promises. -/
structure BroughtUp (t : Rndis τ) (new : List Traffic) (session : Session) : Prop where
  sequence : Sequence new session.hostMac
  transferSize : 1 ≤ session.deviceMaxTransferSize.toNat
  packets : 1 ≤ session.maxPacketsPerTransfer.toNat
  alignment : ∃ e, e ≤ 7 ∧ session.packetAlignment.toNat = 2 ^ e
  link : t.linkState = ((indications t.log).getLast?).getD .up
  upOrDown : t.linkState = .up ∨ t.linkState = .down

theorem Linked.settle {s t : Rndis τ} (h : Linked s) (hlog : t.log = s.log)
    (hlink : t.link = if s.link = .unknown then .up else s.link) :
    t.link = ((indications t.log).getLast?).getD .up ∧ (t.link = .up ∨ t.link = .down) := by
  obtain ⟨l, hl, hs⟩ := h
  rw [hlog]
  cases hlast : (indications s.log).getLast? with
  | none =>
    rw [hlast] at hs
    have hup : t.link = .up := by
      rw [hlink, hs]
      rcases hl with rfl | rfl <;> rfl
    exact ⟨hup, Or.inl hup⟩
  | some m =>
    rw [hlast] at hs
    obtain ⟨msg, _, hmsg⟩ := List.mem_filterMap.mp (List.mem_of_getLast? hlast)
    have hm := indication_up_or_down hmsg
    have hkept : t.link = m := by
      rw [hlink, hs]
      rcases hm with rfl | rfl <;> rfl
    rw [hkept]
    exact ⟨rfl, hm⟩

theorem Exchanged.init_no_filter {s t : Rndis τ} {id : UInt32} {new : List Traffic}
    {reply : Option Bytes}
    (h : Exchanged (encodeInit id hostMaxTransferSize) msgInitC id s new reply t) (i : UInt32) :
    filterCommand i ∉ commands new := by
  intro hmem
  rw [h.commands_eq (isAnswer_init _)] at hmem
  exact encodeInit_ne_filterCommand _ _ (List.mem_singleton.mp hmem).symm

theorem not_mem_commands_append {l m : List Traffic} {msg : Bytes} (hl : msg ∉ commands l)
    (hm : msg ∉ commands m) : msg ∉ commands (l ++ m) := by
  intro hmem
  rw [commands_append] at hmem
  rcases List.mem_append.mp hmem with hmem | hmem
  · exact hl hmem
  · exact hm hmem

theorem earned_of_queried {s₀ s₁ s₂ : Rndis τ} {first new : List Traffic} {reply : Bytes}
    {init : InitComplete} {mac : Mac}
    (hinit : Exchanged (encodeInit s₀.nextRequestId hostMaxTransferSize) msgInitC s₀.nextRequestId s₀
      first (some reply) s₁)
    (hdecode : decodeInitComplete reply = .ok init) (hstatus : init.status = statusSuccess)
    (hqueried : Queried s₁ new (some mac) s₂) : Earned (first ++ new) := by
  obtain ⟨id, oid, reply', hcomp, hmac⟩ := hqueried.gives
  constructor
  · exact ⟨_, reply, init, List.mem_append_left _ hinit.completed_mem, hdecode, hstatus⟩
  · exact ⟨id, oid, reply', mac, List.mem_append_right _ hcomp, hmac⟩

theorem bringUp_spec {s : Rndis τ} (hs : Linked s) :
    wp (bringUp c)
      (fun session t => ∃ new, t.log = s.log ++ new ∧ FilterEarned new ∧ BroughtUp t new session ∧
        Linked t)
      (fun _ t => ∃ new, t.log = s.log ++ new ∧ FilterEarned new ∧ Linked t) s := by
  simp only [bringUp, wp_bind]
  refine wp_mono (initialise_spec c s) ?_ ?_
  case refine_2 =>
    intro e t hres
    obtain ⟨_, new, reply, hnew⟩ := hres
    exact ⟨new, hnew.log, filterEarned_of_not_mem hnew.init_no_filter, hnew.follows.linked hs⟩
  intro init s₁ hres
  obtain ⟨_, first, reply, hinit, hdecode, hstatus, hsize⟩ := hres
  refine wp_mono (queryMac_spec c s₁) ?_ ?_
  case refine_2 =>
    intro e t hres
    obtain ⟨new, hnew⟩ := hres
    refine ⟨first ++ new, ?_, ?_, hnew.follows.linked (hinit.follows.linked hs)⟩
    · rw [hnew.log, hinit.log, List.append_assoc]
    · exact filterEarned_of_not_mem fun id =>
        not_mem_commands_append (hinit.init_no_filter id) (hnew.no_filter id)
  intro mac s₂ hres
  obtain ⟨new, hqueried⟩ := hres
  have hlinked : Linked s₂ := hqueried.follows.linked (hinit.follows.linked hs)
  -- The filter is sent only now, after both have been answered.
  have hearned : ∀ last, FilterEarned (first ++ new ++ last) :=
    (earned_of_queried hinit hdecode hstatus hqueried).filterEarned fun id =>
      not_mem_commands_append (hinit.init_no_filter id) (hqueried.no_filter id)
  have hlog : ∀ {last : List Traffic} {t : Rndis τ}, t.log = s₂.log ++ last →
      t.log = s.log ++ (first ++ new ++ last) := by
    intro last t ht
    rw [ht, hqueried.log, hinit.log]
    simp
  refine wp_mono (exchange_succeeded_spec c
    (fun id => encodeSet id oidGenCurrentPacketFilter (u32leBytes defaultPacketFilter))
    solicited_set s₂) ?_ ?_
  case refine_2 =>
    intro e t hres
    obtain ⟨_, last, reply', hset⟩ := hres
    exact ⟨_, hlog hset.log, hearned last, hset.follows.linked hlinked⟩
  intro _ s₃ hres
  obtain ⟨_, last, reply', hset⟩ := hres
  simp only [wp_update, wp_pure]
  obtain ⟨hlast, hupdown⟩ := @Linked.settle τ s₃
    { s₃ with link := if s₃.link = .unknown then .up else s₃.link } (hset.follows.linked hlinked) rfl rfl
  refine ⟨_, hlog hset.log, hearned last, ?_, ⟨.up, Or.inr rfl, hlast⟩⟩
  obtain ⟨e, he, halign⟩ := packetAlignment_of_decode hdecode
  refine ⟨hqueried.sequence hinit hset, ?_, ?_, ⟨e, he, ?_⟩, hlast, hupdown⟩
  · exact Nat.one_le_iff_ne_zero.mpr fun hz => hsize (UInt32.toNat_inj.mp hz)
  · rw [UInt32.toNat_max]
    exact Nat.le_max_right _ _
  · rw [UInt32.toNat_max, halign]
    exact Nat.max_eq_left Nat.one_le_two_pow

/-- The channels a program can have in hand: a new one, and what becomes of one by
issuing commands and by bringing the device up. -/
inductive Reachable : Rndis τ → Prop where
  | new (transport : τ) : Reachable (new transport)
  | command {s : Rndis τ} (cmd : Command) : Reachable s → Reachable (cmd.issue c s).2
  | bringUp {s : Rndis τ} : Reachable s → Reachable (bringUp c s).2

theorem Command.follows (cmd : Command) (s : Rndis τ) : Follows s (cmd.issue c s).2 := by
  apply wp_total
  cases cmd with
  | request r =>
    refine wp_mono (r.issue_spec c s) ?_ (fun _ _ hf => hf)
    intro _ t h
    obtain ⟨_, new, reply, hnew⟩ := h
    exact hnew.follows
  | halt =>
    simp only [Command.issue, wp_bind, wp_attempt, Rndis.halt, takeRequestId, wp_apply, send, record,
      wp_update, wp_pure]
    refine onTransport_wp (fun _ u => ?_) (fun _ u => ?_)
    · exact ⟨_, rfl, rfl⟩
    · exact ⟨_, rfl, rfl⟩

theorem Reachable.linked {s : Rndis τ} (h : Reachable c s) : Linked s := by
  induction h with
  | new transport => exact ⟨.unknown, Or.inl rfl, rfl⟩
  | command cmd _ ih => exact (cmd.follows c _).linked ih
  | @bringUp s _ ih =>
    refine wp_snd.mp (wp_mono (bringUp_spec c ih) ?_ ?_)
    · intro session t ht
      obtain ⟨_, _, _, _, hlinked⟩ := ht
      exact hlinked
    · intro e t ht
      obtain ⟨_, _, _, hlinked⟩ := ht
      exact hlinked

/-- The contract of bring-up. In every run the packet filter is set only when INIT has
succeeded and an address is known; a run that succeeds has sent the whole sequence,
and what it returns can be relied on. -/
theorem bringUp_contract {s : Rndis τ} (h : Reachable c s) :
    ∃ new, (bringUp c s).2.log = s.log ++ new ∧ FilterEarned new ∧
      (∀ id, Selects (filterCommand id) (u32leBytes defaultPacketFilter)) ∧
      ∀ session, (bringUp c s).1 = .ok session → BroughtUp (bringUp c s).2 new session := by
  have hspec := bringUp_spec c h.linked
  unfold wp at hspec
  generalize bringUp c s = r at hspec ⊢
  rcases r with ⟨e | session, t⟩
  · obtain ⟨new, hlog, hearned, _⟩ := hspec
    refine ⟨new, hlog, hearned, selects_filterCommand, ?_⟩
    intro session hsession
    cases hsession
  · obtain ⟨new, hlog, hearned, hup, _⟩ := hspec
    refine ⟨new, hlog, hearned, selects_filterCommand, ?_⟩
    intro session' hsession
    cases hsession
    exact hup

/-- A device that announces a lost link, refuses to tell its permanent address and
gives its current one. -/
def reluctant : Rndis (List Bytes) := new
  [words [msgIndicate, 20, statusMediaDisconnect, 0, 0],
    words [msgInitC, 52, 1, statusSuccess, 1, 0, 0, 0, 8, 16384, 2, 0, 0],
    words [msgQueryC, 24, 2, 0xC0000001, 0, 0],
    words [msgQueryC, 30, 3, statusSuccess, 6, 16] ++ [2, 0, 0, 0, 0, 1],
    words [msgSetC, 16, 4, statusSuccess]]

def reluctantSession : Session :=
  { hostMac := ⟨[2, 0, 0, 0, 0, 1], rfl⟩, deviceMaxTransferSize := 16384, maxPacketsPerTransfer := 8,
    packetAlignment := 4 }

theorem bringUp_contract_reluctant :
    (bringUp scripted reluctant).1 = .ok reluctantSession ∧
    ∃ new, BroughtUp (bringUp scripted reluctant).2 new reluctantSession := by
  have hrun : (bringUp scripted reluctant).1 = .ok reluctantSession := by decide +kernel
  have hnew : Reachable scripted reluctant := .new _
  obtain ⟨new, _, _, _, hup⟩ := bringUp_contract scripted hnew
  exact ⟨hrun, new, hup _ hrun⟩

end Muta.Rndis
