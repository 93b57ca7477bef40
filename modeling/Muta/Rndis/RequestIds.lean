import Mathlib.Data.List.Nodup
import Mathlib.Data.Nat.ModEq
import Muta.Rndis.Exchange

/-!
# Request ids

The counter runs through all non-zero words before it repeats one, so no two of up
to `2 ^ 32 - 1` commands carry the same id. Since a reply is only taken for the id of
the command just sent, it cannot belong to any other command of the sequence.
-/

namespace Muta.Rndis

open Act Wire
set_option autoImplicit false

/-- The ids of the next commands, from the counter's value on. -/
def requestIds (first : UInt32) : Nat → List UInt32
  | 0 => []
  | n + 1 => first :: requestIds (nextId first) n

@[simp] theorem length_requestIds (first : UInt32) (n : Nat) : (requestIds first n).length = n := by
  induction n generalizing first with
  | zero => rfl
  | succ n ih => rw [requestIds, List.length_cons, ih]

theorem getElem?_requestIds (first : UInt32) {n k : Nat} (h : k < n) :
    (requestIds first n)[k]? = some (nextId^[k] first) := by
  induction n generalizing first k with
  | zero => cases h
  | succ n ih =>
    cases k with
    | zero => rfl
    | succ k => exact ih (nextId first) (Nat.lt_of_succ_lt_succ h)

def idAfter (first : UInt32) (k : Nat) : Nat := (first.toNat - 1 + k) % (2 ^ 32 - 1) + 1

theorem idAfter_zero {first : UInt32} (h : first ≠ 0) : idAfter first 0 = first.toNat := by
  have hlt := first.toNat_lt
  have hpos : first.toNat ≠ 0 := fun hz => h (UInt32.toNat_inj.mp hz)
  unfold idAfter
  omega

theorem idAfter_succ {first : UInt32} (h : first ≠ 0) (k : Nat) :
    idAfter (nextId first) k = idAfter first (k + 1) := by
  have hlt := first.toNat_lt
  have hpos : first.toNat ≠ 0 := fun hz => h (UInt32.toNat_inj.mp hz)
  unfold idAfter
  rw [toNat_nextId]
  omega

theorem toNat_requestIds {first : UInt32} (h : first ≠ 0) (n : Nat) :
    (requestIds first n).map UInt32.toNat = (List.range n).map (idAfter first) := by
  induction n generalizing first with
  | zero => rfl
  | succ n ih =>
    rw [requestIds, List.map_cons, ih (nextId_ne_zero first), List.range_succ_eq_map, List.map_cons,
      idAfter_zero h, List.map_map]
    congr 1
    refine List.map_congr_left fun k _ => ?_
    exact idAfter_succ h k

theorem idAfter_inj {first : UInt32} {i j : Nat} (hi : i < 2 ^ 32 - 1) (hj : j < 2 ^ 32 - 1)
    (h : idAfter first i = idAfter first j) : i = j := by
  have hmod : first.toNat - 1 + i ≡ first.toNat - 1 + j [MOD 2 ^ 32 - 1] := Nat.succ_injective h
  exact (hmod.add_left_cancel' _).eq_of_lt_of_lt hi hj

theorem nodup_requestIds {first : UInt32} (h : first ≠ 0) {n : Nat} (hn : n ≤ 2 ^ 32 - 1) :
    (requestIds first n).Nodup := by
  apply List.Nodup.of_map UInt32.toNat
  rw [toNat_requestIds h n]
  refine List.Nodup.map_on ?_ List.nodup_range
  intro i hi j hj hij
  rw [List.mem_range] at hi hj
  exact idAfter_inj (by omega) (by omega) hij

theorem zero_not_mem_requestIds {first : UInt32} (h : first ≠ 0) (n : Nat) :
    0 ∉ requestIds first n := by
  induction n generalizing first with
  | zero => exact List.not_mem_nil
  | succ n ih =>
    intro hmem
    rcases List.mem_cons.mp hmem with hz | hmem
    · exact h hz.symm
    · exact ih (nextId_ne_zero first) hmem

def isAnswer (msg : Bytes) : Bool :=
  match u32At msg 0 with
  | .ok msgType => msgType == msgKeepaliveC
  | .error _ => false

/-- What was sent, answers to the device's pings aside. -/
def commands (l : List Traffic) : List Bytes := (sent l).filter fun msg => !isAnswer msg

@[simp] theorem commands_append (l m : List Traffic) :
    commands (l ++ m) = commands l ++ commands m := by
  rw [commands, sent_append, List.filter_append]
  rfl

theorem u32At_words_alone (ws : List UInt32) (i : Nat) (h : i < ws.length) :
    u32At (words ws) (4 * i) = .ok ws[i] := by
  have hw := u32At_words ws [] i h
  rwa [List.append_nil] at hw

theorem isAnswer_answer {msg reply : Bytes} (h : answer msg = some reply) : isAnswer reply = true := by
  unfold answer at h
  split at h
  · split at h
    · rename_i id _ _ _
      cases h
      have htype : u32At (encodeKeepaliveComplete id) 0 = .ok msgKeepaliveC :=
        u32At_words_alone [msgKeepaliveC, 16, id, statusSuccess] 0 (by simp)
      simp [isAnswer, htype]
    · cases h
  · cases h

theorem Exchanged.commands_eq {τ : Type} {msg : Bytes} {expect id : UInt32} {s t : Rndis τ}
    {new : List Traffic} {reply : Option Bytes} (h : Exchanged msg expect id s new reply t)
    (hmsg : isAnswer msg = false) : commands new = [msg] := by
  unfold commands
  rw [h.sent_eq, List.filter_cons_of_pos (by simp [hmsg]), List.cons_inj_right,
    List.filter_eq_nil_iff]
  intro m hm
  obtain ⟨_, _, hans⟩ := List.mem_filterMap.mp hm
  simp [isAnswer_answer hans]

namespace Command

def msgType : Command → UInt32
  | .request .initialise => msgInit
  | .request (.query _) => msgQuery
  | .request (.set _ _) => msgSet
  | .request .keepalive => msgKeepalive
  | .halt => msgHalt

theorem encode_fields (cmd : Command) (id : UInt32) :
    u32At (cmd.encode id) 0 = .ok cmd.msgType ∧ u32At (cmd.encode id) 8 = .ok id := by
  cases cmd with
  | halt =>
    exact ⟨u32At_words_alone [msgHalt, 12, id] 0 (by simp),
      u32At_words_alone [msgHalt, 12, id] 2 (by simp)⟩
  | request r =>
    cases r with
    | initialise =>
      exact ⟨u32At_words_alone [msgInit, 24, id, 1, 0, hostMaxTransferSize] 0 (by simp),
        u32At_words_alone [msgInit, 24, id, 1, 0, hostMaxTransferSize] 2 (by simp)⟩
    | query oid =>
      exact ⟨u32At_words_alone [msgQuery, 28, id, oid, 0, 0, 0] 0 (by simp),
        u32At_words_alone [msgQuery, 28, id, oid, 0, 0, 0] 2 (by simp)⟩
    | set oid data =>
      exact ⟨u32At_words _ data 0 (by simp), u32At_words _ data 2 (by simp)⟩
    | keepalive =>
      exact ⟨u32At_words_alone [msgKeepalive, 12, id] 0 (by simp),
        u32At_words_alone [msgKeepalive, 12, id] 2 (by simp)⟩

theorem isAnswer_encode (cmd : Command) (id : UInt32) : isAnswer (cmd.encode id) = false := by
  unfold isAnswer
  rw [(cmd.encode_fields id).1]
  cases cmd with
  | halt => exact beq_false_of_ne (by decide : msgHalt ≠ msgKeepaliveC)
  | request r =>
    cases r with
    | initialise => exact beq_false_of_ne (by decide : msgInit ≠ msgKeepaliveC)
    | query oid => exact beq_false_of_ne (by decide : msgQuery ≠ msgKeepaliveC)
    | set oid data => exact beq_false_of_ne (by decide : msgSet ≠ msgKeepaliveC)
    | keepalive => exact beq_false_of_ne (by decide : msgKeepalive ≠ msgKeepaliveC)

end Command

theorem Request.expect_eq (r : Request) :
    r.expect = (Command.request r).msgType ||| msgCompletion := by
  cases r <;> rfl

def Completes (msg reply : Bytes) : Prop := ∃ msgType id, u32At msg 0 = .ok msgType ∧
  u32At msg 8 = .ok id ∧ u32At reply 0 = .ok (msgType ||| msgCompletion) ∧ u32At reply 8 = .ok id

variable {τ : Type} (c : ControlTransport τ)

theorem Command.issue_spec (cmd : Command) (s : Rndis τ) :
    wp (cmd.issue c)
      (fun _ t => t.nextRequestId = nextId s.nextRequestId ∧ ∃ new, t.log = s.log ++ new ∧
        commands new = [cmd.encode s.nextRequestId] ∧
        ∀ msg reply, .completed msg reply ∈ new →
          msg = cmd.encode s.nextRequestId ∧ Completes msg reply ∧ reply ∈ received new)
      (fun _ _ => False) s := by
  cases cmd with
  | halt =>
    have hone : commands [.sent (encodeHalt s.nextRequestId)] = [encodeHalt s.nextRequestId] := by
      have hans := Command.isAnswer_encode .halt s.nextRequestId
      simp only [Command.encode] at hans
      simp [commands, sent, hans]
    simp only [Command.issue, wp_bind, wp_attempt, Rndis.halt, takeRequestId, wp_apply, send, record,
      wp_update, wp_pure]
    refine onTransport_wp (fun _ u => ?_) (fun _ u => ?_)
    · exact ⟨rfl, _, rfl, hone, by simp⟩
    · exact ⟨rfl, _, rfl, hone, by simp⟩
  | request r =>
    refine wp_mono (r.issue_spec c s) ?_ (fun _ _ hf => hf)
    intro _ t hres
    obtain ⟨hnext, new, reply, hnew⟩ := hres
    refine ⟨hnext, new, hnew.log,
      hnew.commands_eq (Command.isAnswer_encode (.request r) s.nextRequestId), ?_⟩
    intro m rep hmem
    obtain ⟨rfl, _, hreceived, hans⟩ := hnew.completed hmem
    obtain ⟨htype, hid⟩ := Command.encode_fields (.request r) s.nextRequestId
    refine ⟨rfl, ⟨_, _, htype, hid, ?_, hans.id⟩, mem_received.mpr hreceived⟩
    rw [← r.expect_eq]
    exact hans.type

theorem issueAll_spec (cmds : List Command) (s : Rndis τ) :
    wp (issueAll c cmds)
      (fun _ t => t.nextRequestId = nextId^[cmds.length] s.nextRequestId ∧ ∃ new,
        t.log = s.log ++ new ∧
        commands new = List.zipWith (fun cmd id => cmd.encode id) cmds
          (requestIds s.nextRequestId cmds.length) ∧
        ∀ msg reply, .completed msg reply ∈ new →
          msg ∈ commands new ∧ Completes msg reply ∧ reply ∈ received new)
      (fun _ _ => False) s := by
  induction cmds generalizing s with
  | nil => exact ⟨rfl, [], by simp, rfl, by simp⟩
  | cons cmd cmds ih =>
    rw [issueAll, wp_bind]
    refine wp_mono (cmd.issue_spec c s) ?_ (fun _ _ hf => hf)
    intro _ t hres
    obtain ⟨hnext, new, hlog, hcmd, hcomp⟩ := hres
    refine wp_mono (ih t) ?_ (fun _ _ hf => hf)
    intro _ u hres
    obtain ⟨hlast, rest, hrest, hcmds, hcomps⟩ := hres
    refine ⟨by rw [hlast, hnext]; rfl, new ++ rest, by rw [hrest, hlog, List.append_assoc], ?_, ?_⟩
    · rw [commands_append, hcmd, hcmds, hnext]
      rfl
    · intro msg reply hmem
      rw [commands_append, received_append]
      rcases List.mem_append.mp hmem with hmem | hmem
      · obtain ⟨rfl, hdone, hreceived⟩ := hcomp msg reply hmem
        refine ⟨List.mem_append_left _ ?_, hdone, List.mem_append_left _ hreceived⟩
        rw [hcmd]
        exact List.mem_singleton_self _
      · obtain ⟨hsent, hdone, hreceived⟩ := hcomps msg reply hmem
        exact ⟨List.mem_append_right _ hsent, hdone, List.mem_append_right _ hreceived⟩

theorem map_id_zipWith {cmds : List Command} {ids : List UInt32} (h : ids.length = cmds.length) :
    (List.zipWith (fun cmd id => cmd.encode id) cmds ids).map (fun msg => u32At msg 8) =
      ids.map .ok := by
  induction cmds generalizing ids with
  | nil => simp [List.length_eq_zero_iff.mp h]
  | cons cmd cmds ih =>
    cases ids with
    | nil => cases h
    | cons id ids =>
      rw [List.zipWith_cons_cons, List.map_cons, (cmd.encode_fields id).2, ih (by simpa using h),
        List.map_cons]

theorem id_unique {ids : List UInt32} {sentCmds : List Bytes}
    (hmap : sentCmds.map (fun msg => u32At msg 8) = ids.map .ok) (hids : ids.Nodup) {msg other : Bytes}
    (hmsg : msg ∈ sentCmds) (hother : other ∈ sentCmds) (h : u32At msg 8 = u32At other 8) :
    other = msg := by
  have hnodup : (sentCmds.map fun m => u32At m 8).Nodup := by
    rw [hmap]
    exact hids.map fun _ _ => Except.ok.inj
  exact List.inj_on_of_nodup_map hnodup hother hmsg h.symm

theorem exchange_answers (r : Request) (s : Rndis τ) {reply : Bytes}
    (h : (exchange c (fun id => r.encode id) r.expect s).1 = .ok reply) :
    Answers r.expect s.nextRequestId reply := by
  have hspec := (wp_iff.mp (exchange_spec c (fun id => r.encode id) r.solicited s)).1 reply _
    (Prod.ext h rfl)
  obtain ⟨_, new, hnew⟩ := hspec
  obtain ⟨mid, _, _, hreply⟩ := hnew.trace
  exact (hreply reply rfl).2

/-- Up to `2 ^ 32 - 1` commands carry distinct non-zero ids, and no reply is taken but
the completion of the command just sent. -/
theorem no_cross_talk (cmds : List Command) (h : cmds.length ≤ 2 ^ 32 - 1) (s : Rndis τ) :
    ∃ new ids, (issueAll c cmds s).2.log = s.log ++ new ∧ ids.length = cmds.length ∧
      commands new = List.zipWith (fun cmd id => cmd.encode id) cmds ids ∧
      (commands new).map (fun msg => u32At msg 8) = ids.map .ok ∧
      0 ∉ ids ∧ ids.Nodup ∧
      (∀ msg reply, .completed msg reply ∈ new → msg ∈ commands new ∧ Completes msg reply ∧
        reply ∈ received new ∧ ∀ other ∈ commands new, other ≠ msg → u32At reply 8 ≠ u32At other 8) ∧
      (∀ before r after, cmds = before ++ .request r :: after → ∀ reply,
        (exchange c (fun id => r.encode id) r.expect (issueAll c before s).2).1 = .ok reply →
        ∃ id, ids[before.length]? = some id ∧ Answers r.expect id reply ∧
          ∀ other ∈ commands new, other ≠ r.encode id → u32At reply 8 ≠ u32At other 8) ∧
      ∀ given handed, Accounts c given handed →
        given (issueAll c cmds s).2.transport = given s.transport ++ sent new ∧
        handed (issueAll c cmds s).2.transport = handed s.transport ++ received new := by
  obtain ⟨_, new, hlog, hcmds, hcomp⟩ := wp_total (issueAll_spec c cmds s)
  have hids := nodup_requestIds s.nonzero h
  have hmap := map_id_zipWith (length_requestIds s.nextRequestId cmds.length)
  rw [← hcmds] at hmap
  refine ⟨new, requestIds s.nextRequestId cmds.length, hlog, length_requestIds _ _, hcmds, hmap,
    zero_not_mem_requestIds s.nonzero _, hids, ?_, ?_, ?_⟩
  · intro msg reply hmem
    obtain ⟨hsent, hdone, hreceived⟩ := hcomp msg reply hmem
    refine ⟨hsent, hdone, hreceived, ?_⟩
    intro other hother hne heq
    obtain ⟨_, id, _, hmsg, _, hreply⟩ := hdone
    refine hne (id_unique hmap hids hsent hother ?_)
    rw [← heq, hreply, hmsg]
  · intro before r after hsplit reply hreply
    obtain ⟨hnext, _⟩ := wp_total (issueAll_spec c before s)
    have hanswers := exchange_answers c r _ hreply
    rw [hnext] at hanswers
    have hlt : before.length < cmds.length := by
      rw [hsplit, List.length_append, List.length_cons]
      omega
    have hid := getElem?_requestIds s.nextRequestId hlt
    refine ⟨_, hid, hanswers, ?_⟩
    intro other hother hne heq
    have hsent : r.encode (nextId^[before.length] s.nextRequestId) ∈ commands new := by
      rw [hcmds]
      apply List.mem_of_getElem? (i := before.length)
      rw [List.getElem?_zipWith, hid, hsplit, List.getElem?_append_right (Nat.le_refl _), Nat.sub_self]
      rfl
    refine hne (id_unique hmap hids hsent hother ?_)
    rw [← heq, hanswers.id]
    exact (Command.encode_fields (.request r) _).2
  · intro given handed haccounts
    exact ((haccounts.kept s).issueAll cmds s (.refl given handed s)).eq hlog

/-- A device that sends the given messages one after the other; each transaction
polls twice. -/
def scripted : ControlTransport (List Bytes) where
  send script _ := (.ok (), script)
  receive script := (.ok (script.headD []), script.tail)
  awaitResponse script _ := (.ok (), script)
  polls _ := 2

/-- The completion of a first ping comes too late, during the second one. -/
theorem no_cross_talk_late :
    .completed (encodeKeepalive 2) (encodeKeepaliveComplete 2) ∈
      (issueAll scripted [.request .keepalive, .request .keepalive]
        (new [[], [], encodeKeepaliveComplete 1, encodeKeepaliveComplete 2])).2.log ∧
    ∀ msg reply, .completed msg reply ∈
      (issueAll scripted [.request .keepalive, .request .keepalive]
        (new [[], [], encodeKeepaliveComplete 1, encodeKeepaliveComplete 2])).2.log →
      Completes msg reply := by
  refine ⟨by decide +kernel, ?_⟩
  obtain ⟨traffic, _, hlog, _, _, _, _, _, hcomp, _⟩ := no_cross_talk scripted
    [.request .keepalive, .request .keepalive] (by decide)
    (new [[], [], encodeKeepaliveComplete 1, encodeKeepaliveComplete 2])
  intro msg reply hmem
  rw [hlog] at hmem
  exact (hcomp msg reply hmem).2.1

end Muta.Rndis
