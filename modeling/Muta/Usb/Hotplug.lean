import Muta.Base.Machine
import Muta.Base.Replay
import Muta.Usb.Bus

/-!
# Watching for devices

`watch` registers for the system's reports and lists what is attached; a thread of its own
then turns reports into events and sends them to whoever watches. A report of a device that
goes away names it by the system's handle only, so the thread remembers the stable id of
every device it has seen. Devices come and go while all this happens, between the
registration and the listing too, and a client lists the devices itself at some moment of
its own. What it knows from then on is nevertheless right, if what the library reports and lists
is what its documentation says.
-/

namespace Muta.Usb.Hotplug

set_option autoImplicit false

/-- A device as the system describes it; `id` is the system's handle. -/
structure RawDevice (ρ : Type) where
  id : ρ
  registryEntryId : UInt64
  vendorId : UInt16
  productId : UInt16
  manufacturerString : Option Text
  productString : Option Text

variable {ρ : Type}

def stableId (raw : RawDevice ρ) : DeviceId := raw.registryEntryId

def deviceInfo (raw : RawDevice ρ) : Attached where
  id := stableId raw
  info :=
    { vendorId := raw.vendorId, productId := raw.productId, manufacturer := raw.manufacturerString,
      product := raw.productString }

/-- What the system reports. -/
inductive Report (ρ : Type) where
  | connected (raw : RawDevice ρ)
  | disconnected (id : ρ)

inductive HotplugEvent where
  | connected (info : Attached)
  | disconnected (id : DeviceId)
deriving DecidableEq, Repr

/-- The library: what it reports of devices that come and go, and what it lists. -/
structure Nusb (ρ : Type) where
  plugged : RawDevice ρ → List (Report ρ)
  unplugged : ρ → List (Report ρ)
  listed : (ρ → Option (RawDevice ρ)) → ρ → Option (RawDevice ρ)

/-- Each change is reported once and as it is, and all that is attached is listed. -/
structure Nusb.Documented (nusb : Nusb ρ) : Prop where
  plugged : ∀ raw, nusb.plugged raw = [.connected raw]
  unplugged : ∀ id, nusb.unplugged id = [.disconnected id]
  listed : ∀ attached, nusb.listed attached = attached

variable [DecidableEq ρ]

/-- The body of the thread's loop: the event to send, if any, and the ids it then has. -/
def translated (ids : ρ → Option DeviceId) :
    Report ρ → Option HotplugEvent × (ρ → Option DeviceId)
  | .connected raw =>
    let info := deviceInfo raw
    (some (.connected info), Function.update ids raw.id (some info.id))
  | .disconnected raw =>
    match ids raw with
    | some id => (some (.disconnected id), Function.update ids raw none)
    -- A device we never saw connect; nothing to tear down.
    | none => (none, ids)

structure Watch (ρ : Type) where
  attached : ρ → Option (RawDevice ρ)
  /-- Reports the thread has not taken. -/
  queue : List (Report ρ)
  /-- The thread's ids, once the devices have been listed. -/
  ids : Option (ρ → Option DeviceId)
  sent : List HotplugEvent
  /-- The number of events received. -/
  taken : Nat
  /-- The receiver has been dropped. -/
  closed : Bool
  ended : Bool

inductive Input (ρ : Type) where
  | plug (raw : RawDevice ρ)
  | unplug (id : ρ)
  /-- The listing in `watch`, after which the thread runs. -/
  | list
  | translate
  | nextEvent
  | close

namespace Watch

def translate (s : Watch ρ) : Watch ρ :=
  match s.ended, s.ids, s.queue with
  | false, some ids, report :: rest =>
    match translated ids report with
    | (some event, ids) =>
      if s.closed then
        { s with queue := rest, ids := some ids, ended := true }
      else
        { s with queue := rest, ids := some ids, sent := s.sent ++ [event] }
    | (none, ids) => { s with queue := rest, ids := some ids }
  | _, _, _ => s

/-- `next_event`: the next event sent, or none if the wait times out. -/
def nextEvent (s : Watch ρ) : Option HotplugEvent × Watch ρ :=
  (s.sent[s.taken]?, { s with taken := min (s.taken + 1) s.sent.length })

def step (nusb : Nusb ρ) (s : Watch ρ) : Input ρ → Watch ρ
  | .plug raw =>
    if s.attached raw.id = none then
      { s with
        attached := Function.update s.attached raw.id (some raw)
        queue := s.queue ++ nusb.plugged raw }
    else
      s
  | .unplug id =>
    if s.attached id = none then
      s
    else
      { s with attached := Function.update s.attached id none, queue := s.queue ++ nusb.unplugged id }
  | .list =>
    if s.ids.isSome then
      s
    else
      { s with ids := some fun id => (nusb.listed s.attached id).map fun raw => (deviceInfo raw).id }
  | .translate => s.translate
  | .nextEvent => s.nextEvent.2
  | .close => if s.ids.isSome then { s with closed := true } else s

end Watch

/-- From the registration on, with some devices attached. -/
def hotplug (nusb : Nusb ρ) (attached : ρ → Option (RawDevice ρ)) : Machine (Watch ρ) (Input ρ) where
  start := ⟨attached, [], none, [], 0, false, false⟩
  step := Watch.step nusb

def HotplugEvent.change : HotplugEvent → Change DeviceId DeviceInfo
  | .connected a => ⟨a.id, some a.info⟩
  | .disconnected id => ⟨id, none⟩

def learn (known : DeviceId → Option DeviceInfo) (events : List HotplugEvent) :
    DeviceId → Option DeviceInfo :=
  Change.replay known (events.map HotplugEvent.change)

section Client

variable (entry : ρ → UInt64)

/-- Under the id of each device stands what `devices` has for it. -/
def Lists (devices : ρ → Option (RawDevice ρ)) (known : DeviceId → Option DeviceInfo) : Prop :=
  ∀ id, known (entry id) = (devices id).map fun raw => (deviceInfo raw).info

/-- The registry's entry of a device goes with its handle. -/
def Registered (raw : RawDevice ρ) : Prop := raw.registryEntryId = entry raw.id

def Filed (attached : ρ → Option (RawDevice ρ)) : Prop :=
  ∀ id raw, attached id = some raw → raw.id = id ∧ Registered entry raw

def Sane (_ : List (Watch ρ × Input ρ)) (_ : Watch ρ) : Input ρ → Prop
  | .plug raw => Registered entry raw
  | _ => True

def Report.Formed : Report ρ → Prop
  | .connected raw => Registered entry raw
  | .disconnected _ => True

/-- Whatever the library reports and lists, the devices are registered. -/
structure Nusb.Registers (nusb : Nusb ρ) : Prop where
  plugged : ∀ raw, Registered entry raw → ∀ r ∈ nusb.plugged raw, r.Formed entry
  unplugged : ∀ id, ∀ r ∈ nusb.unplugged id, r.Formed entry
  listed : ∀ attached, Filed entry attached → Filed entry (nusb.listed attached)

def Report.change : Report ρ → Change DeviceId DeviceInfo
  | .connected raw => ⟨entry raw.id, some (deviceInfo raw).info⟩
  | .disconnected id => ⟨entry id, none⟩

/-- The thread knows the ids of what a client knows. -/
def Matches (ids : ρ → Option DeviceId) (known : DeviceId → Option DeviceInfo) : Prop :=
  ∀ id, ids id = (known (entry id)).map fun _ => entry id

end Client

def upcoming (ids : ρ → Option DeviceId) : List (Report ρ) → List HotplugEvent
  | [] => []
  | r :: rest => (translated ids r).1.toList ++ upcoming (translated ids r).2 rest

theorem upcoming_append (ids : ρ → Option DeviceId) (q rs : List (Report ρ)) :
    ∃ more, upcoming ids (q ++ rs) = upcoming ids q ++ more := by
  induction q generalizing ids with
  | nil => exact ⟨_, rfl⟩
  | cons r' q ih =>
    obtain ⟨more, hmore⟩ := ih (translated ids r').2
    refine ⟨more, ?_⟩
    rw [List.cons_append, upcoming, hmore, upcoming, List.append_assoc]

theorem learn_append (known : DeviceId → Option DeviceInfo) (as bs : List HotplugEvent) :
    learn known (as ++ bs) = learn (learn known as) bs := by
  rw [learn, List.map_append, Change.replay_append]
  rfl

/-- All that an iteration of the thread can do. -/
inductive Translates (s : Watch ρ) : Watch ρ → Prop where
  | idle : Translates s s
  | sends {ids ids' : ρ → Option DeviceId} {r : Report ρ} {rest : List (Report ρ)}
      {event : HotplugEvent} :
      s.ids = some ids → s.queue = r :: rest → translated ids r = (some event, ids') →
      s.closed = false →
      Translates s { s with queue := rest, ids := some ids', sent := s.sent ++ [event] }
  | skips {ids ids' : ρ → Option DeviceId} {r : Report ρ} {rest : List (Report ρ)} :
      s.ids = some ids → s.queue = r :: rest → translated ids r = (none, ids') →
      Translates s { s with queue := rest, ids := some ids' }
  | breaks (rest : List (Report ρ)) (ids : ρ → Option DeviceId) : s.closed = true →
      Translates s { s with queue := rest, ids := some ids, ended := true }

theorem Watch.translate_translates (s : Watch ρ) : Translates s s.translate := by
  rw [Watch.translate]
  split
  · rename_i ids r rest _ hids hqueue
    cases htranslated : translated ids r with
    | mk event ids' =>
      cases event with
      | none => exact .skips hids hqueue htranslated
      | some event =>
        dsimp only
        split
        · exact .breaks rest ids' ‹_›
        · exact .sends hids hqueue htranslated (Bool.eq_false_iff.mpr ‹_›)
  · exact .idle

theorem closed_step (nusb : Nusb ρ) (s : Watch ρ) (i : Input ρ) (h : (s.step nusb i).closed = false) :
    s.closed = false := by
  cases i with
  | plug raw =>
    rw [Watch.step] at h
    split at h <;> exact h
  | unplug id =>
    rw [Watch.step] at h
    split at h <;> exact h
  | list =>
    rw [Watch.step] at h
    split at h <;> exact h
  | translate =>
    rw [Watch.step] at h
    have htranslates := s.translate_translates
    generalize s.translate = t at htranslates h
    cases htranslates <;> exact h
  | nextEvent => exact h
  | close =>
    rw [Watch.step] at h
    split at h
    · cases h
    · exact h

theorem listed_step (nusb : Nusb ρ) (s : Watch ρ) (i : Input ρ) (h : s.ids.isSome) :
    (s.step nusb i).ids.isSome := by
  cases i with
  | plug raw =>
    rw [Watch.step]
    split <;> exact h
  | unplug id =>
    rw [Watch.step]
    split <;> exact h
  | list =>
    rw [Watch.step, if_pos h]
    exact h
  | translate =>
    rw [Watch.step]
    have htranslates := s.translate_translates
    generalize s.translate = t at htranslates
    cases htranslates with
    | idle => exact h
    | _ => rfl
  | nextEvent => exact h
  | close =>
    rw [Watch.step, if_pos h]
    exact h

theorem sent_step (nusb : Nusb ρ) (s : Watch ρ) (i : Input ρ) : (s.step nusb i).sent = s.sent ∨
    ∃ ids r event ids', s.ids = some ids ∧ translated ids r = (some event, ids') ∧ s.closed = false ∧
      (s.step nusb i).sent = s.sent ++ [event] := by
  cases i with
  | plug raw =>
    rw [Watch.step]
    split <;> exact Or.inl rfl
  | unplug id =>
    rw [Watch.step]
    split <;> exact Or.inl rfl
  | list =>
    rw [Watch.step]
    split <;> exact Or.inl rfl
  | translate =>
    rw [Watch.step]
    have htranslates := s.translate_translates
    generalize s.translate = t at htranslates
    cases htranslates with
    | sends hids _ htranslated hopen => exact Or.inr ⟨_, _, _, _, hids, htranslated, hopen, rfl⟩
    | _ => exact Or.inl rfl
  | nextEvent => exact Or.inl rfl
  | close =>
    rw [Watch.step]
    split <;> exact Or.inl rfl

/-- Everything sent, and what the thread will send for the reports that are queued. -/
def Watch.all (s : Watch ρ) : List HotplugEvent :=
  s.sent ++ (s.ids.map fun ids => upcoming ids s.queue).getD []

theorem Watch.all_step (nusb : Nusb ρ) (s : Watch ρ) (i : Input ρ) (hlisted : s.ids.isSome)
    (hopen : (s.step nusb i).closed = false) : s.all <+: (s.step nusb i).all := by
  obtain ⟨ids, hids⟩ := Option.isSome_iff_exists.mp hlisted
  have hqueue : ∀ (t : Watch ρ) (rs : List (Report ρ)), t.sent = s.sent → t.ids = s.ids →
      t.queue = s.queue ++ rs → s.all <+: t.all := by
    intro t rs hsent hsame hqueue
    obtain ⟨more, hmore⟩ := upcoming_append ids s.queue rs
    rw [Watch.all, Watch.all, hsent, hsame, hqueue, hids, Option.map_some, Option.map_some,
      Option.getD_some, Option.getD_some, hmore, ← List.append_assoc]
    exact List.prefix_append _ _
  cases i with
  | plug raw =>
    rw [Watch.step]
    split
    · exact hqueue _ _ rfl rfl rfl
    · exact List.prefix_refl _
  | unplug id =>
    rw [Watch.step]
    split
    · exact List.prefix_refl _
    · exact hqueue _ _ rfl rfl rfl
  | list =>
    have hsame : (s.step nusb .list).all = s.all := congrArg Watch.all (if_pos hlisted)
    exact ⟨[], by rw [List.append_nil, hsame]⟩
  | translate =>
    rw [Watch.step] at hopen ⊢
    have htranslates := s.translate_translates
    generalize s.translate = t at htranslates hopen
    cases htranslates with
    | idle => exact List.prefix_refl _
    | @sends ids ids' r rest event hids hqueue htranslated _ =>
      rw [Watch.all, Watch.all, hids, hqueue, Option.map_some, Option.getD_some, upcoming, htranslated,
        List.append_assoc]
      exact List.prefix_refl _
    | @skips ids ids' r rest hids hqueue htranslated =>
      rw [Watch.all, Watch.all, hids, hqueue, Option.map_some, Option.getD_some, upcoming, htranslated]
      exact List.prefix_refl _
    | breaks rest ids hclosed =>
      rw [hclosed] at hopen
      cases hopen
  | nextEvent => exact List.prefix_refl _
  | close =>
    rw [Watch.step, if_pos hlisted] at hopen
    cases hopen

/-- The thread's ids are those of what was known when the devices were listed, brought up to
date by all that was sent. -/
structure Tracks (entry : ρ → UInt64) (known : DeviceId → Option DeviceInfo) (s : Watch ρ) : Prop where
  ids : ∃ ids, s.ids = some ids ∧ Matches entry ids (learn known s.sent)
  formed : ∀ r ∈ s.queue, r.Formed entry

/-- With the reports that are queued it is what is attached. -/
structure Follows (entry : ρ → UInt64) (known : DeviceId → Option DeviceInfo) (s : Watch ρ) : Prop
    extends Tracks entry known s where
  lists : Lists entry s.attached (Change.replay (learn known s.sent) (s.queue.map (Report.change entry)))
  taken : s.taken ≤ s.sent.length

structure Early (entry : ρ → UInt64) (s : Watch ρ) : Prop where
  ids : s.ids = none
  sent : s.sent = []
  taken : s.taken = 0
  formed : ∀ r ∈ s.queue, r.Formed entry
  filed : Filed entry s.attached

structure Fresh (entry : ρ → UInt64) (known : DeviceId → Option DeviceInfo) (s : Watch ρ) : Prop
    extends Early entry s where
  lists : Lists entry s.attached (Change.replay known (s.queue.map (Report.change entry)))

variable {nusb : Nusb ρ} {entry : ρ → UInt64} {known : DeviceId → Option DeviceInfo} {s u : Watch ρ}
  {attached : ρ → Option (RawDevice ρ)} {past more : List (Watch ρ × Input ρ)}

omit [DecidableEq ρ] in
theorem Nusb.Documented.registers (h : nusb.Documented) : nusb.Registers entry where
  plugged := by
    intro raw hraw r hr
    rw [h.plugged, List.mem_singleton] at hr
    rwa [hr]
  unplugged := by
    intro id r hr
    rw [h.unplugged, List.mem_singleton] at hr
    rw [hr]
    trivial
  listed := by
    intro attached hfiled
    rwa [h.listed]

omit [DecidableEq ρ] in
theorem formed_append {q rs : List (Report ρ)} (hq : ∀ r ∈ q, r.Formed entry)
    (hrs : ∀ r ∈ rs, r.Formed entry) : ∀ r ∈ q ++ rs, r.Formed entry := by
  intro r hr
  exact (List.mem_append.mp hr).elim (hq r) (hrs r)

/-- Whoever knows what was listed may follow from there on. -/
theorem Early.list (hn : nusb.Registers entry) (h : Early entry s)
    (hknown : Lists entry (nusb.listed s.attached) known) : Tracks entry known (s.step nusb .list) := by
  have hnone : ¬ s.ids.isSome := by simp [h.ids]
  have hlearn : learn known s.sent = known := by
    rw [h.sent]
    rfl
  rw [Watch.step, if_neg hnone]
  refine ⟨⟨_, rfl, ?_⟩, h.formed⟩
  intro id
  dsimp only
  rw [hlearn, hknown id]
  cases hraw : nusb.listed s.attached id with
  | none => rfl
  | some raw =>
    obtain ⟨hid, hregistered⟩ := hn.listed _ h.filed id raw hraw
    rw [Option.map_some, Option.map_some, Option.map_some, ← hid]
    exact congrArg some hregistered

theorem Fresh.list {since : DeviceId → Option DeviceInfo} (hn : nusb.Documented) (h : Fresh entry since s)
    (hknown : Lists entry s.attached known) : Follows entry known (s.step nusb .list) := by
  have hnone : ¬ s.ids.isSome := by simp [h.ids]
  refine ⟨h.toEarly.list hn.registers ((hn.listed s.attached).symm ▸ hknown), ?_, ?_⟩
  · rw [Watch.step, if_neg hnone]
    intro id
    dsimp only
    have hlearn : learn known s.sent = known := by
      rw [h.sent]
      rfl
    rw [hlearn]
    -- The reports queued so far are already in the listing.
    have hsame : known (entry id) =
        Change.replay since (s.queue.map (Report.change entry)) (entry id) := by
      rw [hknown id, h.lists id]
    rw [Change.replay_congr _ hsame, Change.replay_again]
    exact h.lists id
  · rw [Watch.step, if_neg hnone]
    exact h.taken ▸ Nat.zero_le _

/-- Every device reported gone was known at that point. -/
def Sound (known : DeviceId → Option DeviceInfo) (sent : List HotplugEvent) : Prop :=
  ∀ front id back, sent = front ++ .disconnected id :: back → (learn known front id).isSome

theorem Sound.step {i : Input ρ} (h : Sound known s.sent)
    (htracks : s.closed = false → Tracks entry known s) :
    Sound known (s.step nusb i).sent := by
  rcases sent_step nusb s i with hsame | ⟨ids, r, event, ids', hids, htranslated, hopen, hsent⟩
  · rwa [hsame]
  · intro front id back heq
    rw [hsent] at heq
    rcases Machine.concat_eq heq with ⟨_, rfl, rfl⟩ | ⟨rest, _, hearlier⟩
    · obtain ⟨ids₁, hids₁, hmatches⟩ := (htracks hopen).ids
      rw [hids] at hids₁
      cases hids₁
      cases r with
      | connected raw => cases htranslated
      | disconnected raw =>
        rw [translated] at htranslated
        have hid := hmatches raw
        split at htranslated
        · rename_i id' hsome
          cases htranslated
          rw [hsome] at hid
          obtain ⟨info, hinfo, rfl⟩ := Option.map_eq_some_iff.mp hid.symm
          rw [hinfo]
          rfl
        · cases htranslated
    · exact h front id rest hearlier

theorem closed_since (hu : Machine.Run (hotplug nusb attached) (Sane entry) past u)
    (hs : Machine.Run (hotplug nusb attached) (Sane entry) (past ++ more) s) (h : s.closed = false) :
    u.closed = false := by
  refine hu.since (P := fun _ s => s.closed = false → u.closed = false) (fun h => h) ?_ hs h
  intro more s i ih _ hopen
  exact ih (closed_step nusb s i hopen)

section Correctness

variable (hinj : Function.Injective entry)
include hinj

theorem Lists.update {devices : ρ → Option (RawDevice ρ)} {known : DeviceId → Option DeviceInfo} {id : ρ}
    {v : Option (RawDevice ρ)} (h : Lists entry devices known) :
    Lists entry (Function.update devices id v)
      (Change.apply known ⟨entry id, v.map fun raw => (deviceInfo raw).info⟩) := by
  intro other
  rw [Change.apply]
  by_cases heq : other = id
  · rw [heq, Function.update_self, Function.update_self]
  · rw [Function.update_of_ne heq, Function.update_of_ne (fun h => heq (hinj h)), h other]

theorem Matches.update {ids : ρ → Option DeviceId} {known : DeviceId → Option DeviceInfo}
    (h : Matches entry ids known) (id : ρ) (v : Option DeviceInfo) :
    Matches entry (Function.update ids id (v.map fun _ => entry id))
      (Change.apply known ⟨entry id, v⟩) := by
  intro other
  rw [Change.apply]
  by_cases heq : other = id
  · rw [heq, Function.update_self, Function.update_self]
  · rw [Function.update_of_ne heq, Function.update_of_ne (fun h => heq (hinj h)), h other]

/-- What is sent for a report, or not sent, does what the report says. -/
theorem translated_spec {ids : ρ → Option DeviceId} {known : DeviceId → Option DeviceInfo}
    {r : Report ρ} (h : Matches entry ids known) (hr : r.Formed entry) :
    learn known (translated ids r).1.toList = Change.apply known (r.change entry) ∧
      Matches entry (translated ids r).2 (Change.apply known (r.change entry)) := by
  cases r with
  | connected raw =>
    have hid : (deviceInfo raw).id = entry raw.id := hr
    have hmatches := Matches.update hinj h raw.id (some (deviceInfo raw).info)
    refine ⟨?_, ?_⟩
    · simp only [learn, translated, Option.toList_some, List.map_singleton, HotplugEvent.change, hid]
      rfl
    · simp only [translated, hid]
      exact hmatches
  | disconnected id =>
    have hmatches := Matches.update hinj h id none
    have hid := h id
    cases hknown : known (entry id) with
    | none =>
      have hnone : ids id = none := by rw [hid, hknown, Option.map_none]
      have hsame : Change.apply known ⟨entry id, none⟩ = known := by
        rw [Change.apply, ← hknown, Function.update_eq_self]
      simp only [translated, hnone, Report.change, hsame]
      exact ⟨rfl, h⟩
    | some info =>
      have hsome : ids id = some (entry id) := by rw [hid, hknown, Option.map_some]
      simp only [translated, hsome]
      exact ⟨rfl, hmatches⟩

theorem upcoming_spec {ids : ρ → Option DeviceId} {known : DeviceId → Option DeviceInfo}
    {q : List (Report ρ)} (h : Matches entry ids known) (hq : ∀ r ∈ q, r.Formed entry) :
    learn known (upcoming ids q) = Change.replay known (q.map (Report.change entry)) := by
  induction q generalizing ids known with
  | nil => rfl
  | cons r q ih =>
    obtain ⟨hlearn, hnext⟩ := translated_spec hinj h (hq r List.mem_cons_self)
    rw [upcoming, learn_append, hlearn, ih hnext (fun x hx => hq x (List.mem_cons_of_mem r hx))]
    rfl

theorem queued {devices : ρ → Option (RawDevice ρ)} {q : List (Report ρ)} {id : ρ}
    {v : Option (RawDevice ρ)}
    {r : Report ρ} {store : DeviceId → Option DeviceInfo}
    (h : Lists entry devices (Change.replay store (q.map (Report.change entry))))
    (hr : r.change entry = ⟨entry id, v.map fun raw => (deviceInfo raw).info⟩) :
    Lists entry (Function.update devices id v)
      (Change.replay store ((q ++ [r]).map (Report.change entry))) := by
  rw [List.map_append, Change.replay_append, List.map_singleton, hr]
  exact Lists.update hinj h

theorem Tracks.taken {ids ids' : ρ → Option DeviceId} {r : Report ρ} {rest : List (Report ρ)}
    {event : Option HotplugEvent} (h : Tracks entry known s) (hids : s.ids = some ids)
    (hqueue : s.queue = r :: rest) (htranslated : translated ids r = (event, ids')) :
    learn known (s.sent ++ event.toList) = Change.apply (learn known s.sent) (r.change entry) ∧
      Matches entry ids' (learn known (s.sent ++ event.toList)) ∧ ∀ x ∈ rest, x.Formed entry := by
  obtain ⟨ids₁, hids₁, hmatches⟩ := h.ids
  rw [hids] at hids₁
  cases hids₁
  have hformed := h.formed
  rw [hqueue] at hformed
  obtain ⟨hlearn, hnext⟩ := translated_spec hinj hmatches (hformed r List.mem_cons_self)
  rw [htranslated] at hlearn hnext
  rw [learn_append]
  refine ⟨hlearn, ?_, fun x hx => hformed x (List.mem_cons_of_mem r hx)⟩
  rw [hlearn]
  exact hnext

theorem Tracks.step {past : List (Watch ρ × Input ρ)} {i : Input ρ} (hn : nusb.Registers entry)
    (h : Tracks entry known s) (hi : Sane entry past s i) (hopen : (s.step nusb i).closed = false) :
    Tracks entry known (s.step nusb i) := by
  obtain ⟨ids, hids, hmatches⟩ := h.ids
  cases i with
  | plug raw =>
    rw [Watch.step]
    split
    · exact ⟨h.ids, formed_append h.formed (hn.plugged raw hi)⟩
    · exact h
  | unplug id =>
    rw [Watch.step]
    split
    · exact h
    · exact ⟨h.ids, formed_append h.formed (hn.unplugged id)⟩
  | list =>
    rw [Watch.step, if_pos (by rw [hids]; rfl)]
    exact h
  | translate =>
    rw [Watch.step] at hopen ⊢
    have htranslates := s.translate_translates
    generalize s.translate = t at htranslates hopen
    cases htranslates with
    | idle => exact h
    | @sends ids₁ ids' r rest event hids₁ hqueue htranslated _ =>
      obtain ⟨_, hnext, hformed⟩ := h.taken hinj hids₁ hqueue htranslated
      exact ⟨⟨ids', rfl, hnext⟩, hformed⟩
    | @skips ids₁ ids' r rest hids₁ hqueue htranslated =>
      obtain ⟨_, hnext, hformed⟩ := h.taken hinj hids₁ hqueue htranslated
      rw [Option.toList_none, List.append_nil] at hnext
      exact ⟨⟨ids', rfl, hnext⟩, hformed⟩
    | breaks rest ids hclosed =>
      rw [hclosed] at hopen
      cases hopen
  | nextEvent => exact ⟨h.ids, h.formed⟩
  | close =>
    rw [Watch.step, if_pos (by rw [hids]; rfl)] at hopen
    cases hopen

theorem Follows.step {past : List (Watch ρ × Input ρ)} {i : Input ρ} (hn : nusb.Documented)
    (h : Follows entry known s) (hi : Sane entry past s i) (hopen : (s.step nusb i).closed = false) :
    Follows entry known (s.step nusb i) := by
  have htracks := h.toTracks.step hinj hn.registers hi hopen
  obtain ⟨ids, hids, _⟩ := h.ids
  suffices hmore : Lists entry (s.step nusb i).attached
      (Change.replay (learn known (s.step nusb i).sent)
        ((s.step nusb i).queue.map (Report.change entry))) ∧
      (s.step nusb i).taken ≤ (s.step nusb i).sent.length from ⟨htracks, hmore.1, hmore.2⟩
  clear htracks
  have hsame := And.intro h.lists h.taken
  cases i with
  | plug raw =>
    rw [Watch.step, hn.plugged]
    split
    · exact ⟨queued hinj h.lists rfl, h.taken⟩
    · exact hsame
  | unplug id =>
    rw [Watch.step, hn.unplugged]
    split
    · exact hsame
    · exact ⟨queued hinj h.lists rfl, h.taken⟩
  | list =>
    rw [Watch.step, if_pos (by rw [hids]; rfl)]
    exact hsame
  | translate =>
    rw [Watch.step] at hopen ⊢
    have htranslates := s.translate_translates
    generalize s.translate = t at htranslates hopen
    have hlists := h.lists
    cases htranslates with
    | idle => exact hsame
    | @sends ids₁ ids' r rest event hids₁ hqueue htranslated _ =>
      obtain ⟨hlearn, _, _⟩ := h.toTracks.taken hinj hids₁ hqueue htranslated
      rw [Option.toList_some] at hlearn
      rw [hqueue] at hlists
      refine ⟨?_, ?_⟩
      · dsimp only
        rw [hlearn]
        exact hlists
      · dsimp only
        rw [List.length_append]
        exact Nat.le_add_right_of_le h.taken
    | @skips ids₁ ids' r rest hids₁ hqueue htranslated =>
      obtain ⟨hlearn, _, _⟩ := h.toTracks.taken hinj hids₁ hqueue htranslated
      rw [Option.toList_none, List.append_nil] at hlearn
      rw [hqueue] at hlists
      refine ⟨?_, h.taken⟩
      dsimp only
      rw [hlearn]
      exact hlists
    | breaks rest ids hclosed =>
      rw [hclosed] at hopen
      cases hopen
  | nextEvent => exact ⟨h.lists, Nat.min_le_right _ _⟩
  | close =>
    rw [Watch.step, if_pos (by rw [hids]; rfl)] at hopen
    cases hopen

omit hinj in
theorem Early.step {past : List (Watch ρ × Input ρ)} {i : Input ρ} (hn : nusb.Registers entry)
    (h : Early entry s) (hi : Sane entry past s i) (hne : i ≠ .list) : Early entry (s.step nusb i) := by
  have hnone : ¬ s.ids.isSome := by simp [h.ids]
  cases i with
  | plug raw =>
    rw [Watch.step]
    split
    · refine ⟨h.ids, h.sent, h.taken, formed_append h.formed (hn.plugged raw hi), ?_⟩
      intro id raw' hraw
      dsimp only at hraw
      by_cases heq : id = raw.id
      · rw [heq, Function.update_self] at hraw
        cases hraw
        exact ⟨heq.symm, hi⟩
      · rw [Function.update_of_ne heq] at hraw
        exact h.filed id raw' hraw
    · exact h
  | unplug id =>
    rw [Watch.step]
    split
    · exact h
    · refine ⟨h.ids, h.sent, h.taken, formed_append h.formed (hn.unplugged id), ?_⟩
      intro other raw hraw
      dsimp only at hraw
      by_cases heq : other = id
      · rw [heq, Function.update_self] at hraw
        cases hraw
      · rw [Function.update_of_ne heq] at hraw
        exact h.filed other raw hraw
  | list => exact absurd rfl hne
  | translate =>
    rw [Watch.step, Watch.translate, h.ids]
    cases s.ended <;> exact h
  | nextEvent =>
    refine ⟨h.ids, h.sent, ?_, h.formed, h.filed⟩
    rw [Watch.step, Watch.nextEvent, h.sent]
    rfl
  | close =>
    rw [Watch.step, if_neg hnone]
    exact h

theorem Fresh.step {since : DeviceId → Option DeviceInfo} {past : List (Watch ρ × Input ρ)}
    {i : Input ρ}
    (hn : nusb.Documented) (h : Fresh entry since s) (hi : Sane entry past s i) :
    Fresh entry since (s.step nusb i) ∨
      Follows entry (Change.replay since (s.queue.map (Report.change entry))) (s.step nusb i) := by
  have hnone : ¬ s.ids.isSome := by simp [h.ids]
  have hearly : i ≠ .list → Early entry (s.step nusb i) := h.toEarly.step hn.registers hi
  cases i with
  | plug raw =>
    refine Or.inl ⟨hearly (by simp), ?_⟩
    rw [Watch.step, hn.plugged]
    split
    · exact queued hinj h.lists rfl
    · exact h.lists
  | unplug id =>
    refine Or.inl ⟨hearly (by simp), ?_⟩
    rw [Watch.step, hn.unplugged]
    split
    · exact h.lists
    · exact queued hinj h.lists rfl
  | list => exact Or.inr (h.list hn h.lists)
  | translate =>
    refine Or.inl ⟨hearly (by simp), ?_⟩
    rw [Watch.step, Watch.translate, h.ids]
    cases s.ended <;> exact h.lists
  | nextEvent => exact Or.inl ⟨hearly (by simp), h.lists⟩
  | close =>
    refine Or.inl ⟨hearly (by simp), ?_⟩
    rw [Watch.step, if_neg hnone]
    exact h.lists

theorem run_follows (hn : nusb.Documented) (hfiled : Filed entry attached)
    (run : Machine.Run (hotplug nusb attached) (Sane entry) past s) :
    (∃ since, Fresh entry since s) ∨
      s.ids.isSome ∧ (s.closed = false → ∃ known, Follows entry known s) := by
  refine run.invariant (P := fun _ s => (∃ since, Fresh entry since s) ∨
    s.ids.isSome ∧ (s.closed = false → ∃ known, Follows entry known s)) ?_ ?_
  · have hlists : Lists entry (hotplug nusb attached).start.attached (Function.extend entry
        (fun id => (attached id).map fun raw => (deviceInfo raw).info) fun _ => none) :=
      hinj.extend_apply _ _
    exact Or.inl ⟨_, ⟨rfl, rfl, rfl, (fun r hr => by cases hr), hfiled⟩, hlists⟩
  · intro past s i ih hi
    rcases ih with ⟨since, hfresh⟩ | ⟨hlisted, hfollows⟩
    · rcases hfresh.step hinj hn hi with hfresh | hfollows
      · exact Or.inl ⟨since, hfresh⟩
      · obtain ⟨ids, hids, _⟩ := hfollows.ids
        exact Or.inr ⟨Option.isSome_iff_exists.mpr ⟨ids, hids⟩, fun _ => ⟨_, hfollows⟩⟩
    · refine Or.inr ⟨listed_step nusb s i hlisted, fun hopen => ?_⟩
      obtain ⟨known, hknown⟩ := hfollows (closed_step nusb s i hopen)
      exact ⟨known, hknown.step hinj hn hi hopen⟩

theorem since_follows (hn : nusb.Documented)
    (hu : Machine.Run (hotplug nusb attached) (Sane entry) past u) (hfollows : Follows entry known u)
    (hs : Machine.Run (hotplug nusb attached) (Sane entry) (past ++ more) s) :
    s.closed = false → Follows entry known s ∧ u.all <+: s.all := by
  refine hu.since (P := fun _ s => s.closed = false → Follows entry known s ∧ u.all <+: s.all) ?_ ?_ hs
  · intro _
    exact ⟨hfollows, List.prefix_refl _⟩
  · intro more s i ih hi hopen
    obtain ⟨hfollows, hall⟩ := ih (closed_step nusb s i hopen)
    have hlisted : s.ids.isSome := by
      obtain ⟨ids, hids, _⟩ := hfollows.ids
      rw [hids]
      rfl
    exact ⟨hfollows.step hinj hn hi hopen, hall.trans (s.all_step nusb i hlisted hopen)⟩

theorem Follows.learn_all (h : Follows entry known s) : Lists entry s.attached (learn known s.all) := by
  obtain ⟨ids, hids, hmatches⟩ := h.ids
  rw [Watch.all, hids, Option.map_some, Option.getD_some, learn_append,
    upcoming_spec hinj hmatches h.formed]
  exact h.lists

/-- Nothing is missed. A client of the watch may list the devices at any moment: once the
thread has caught up, what it listed and the events it had not yet received then are what
is attached, whatever came and went before, meanwhile and since. -/
theorem hotplug_lossless (hn : nusb.Documented) (hfiled : Filed entry attached)
    (hu : Machine.Run (hotplug nusb attached) (Sane entry) past u)
    (hs : Machine.Run (hotplug nusb attached) (Sane entry) (past ++ more) s) (hlisted : u.ids.isSome)
    (hknown : Lists entry u.attached known) (hopen : s.closed = false) (hcaught : s.queue = []) :
    Lists entry s.attached (learn known (s.sent.drop u.taken)) := by
  obtain ⟨since, hfollows⟩ : ∃ since, Follows entry since u := by
    rcases run_follows hinj hn hfiled hu with ⟨since, hfresh⟩ | ⟨_, hfollows⟩
    · rw [hfresh.ids] at hlisted
      cases hlisted
    · exact hfollows (closed_since hu hs hopen)
  obtain ⟨hlater, new, hnew⟩ := since_follows hinj hn hu hfollows hs hopen
  have hsent : s.all = s.sent := by
    obtain ⟨ids, hids, _⟩ := hlater.ids
    rw [Watch.all, hids, hcaught]
    exact List.append_nil _
  have htaken : u.taken ≤ u.all.length := by
    rw [Watch.all, List.length_append]
    exact Nat.le_add_right_of_le hfollows.taken
  have hunseen : s.sent.drop u.taken = u.all.drop u.taken ++ new := by
    rw [← hsent, ← hnew, List.drop_append_of_le_length htaken]
  intro id
  -- The listing shows all events up to `u`, also those that are still to be received.
  have hsame : known (entry id) = learn since u.all (entry id) := by
    rw [hknown id, hfollows.learn_all hinj id]
  have hover := Change.replay_over since ((u.all.take u.taken).map HotplugEvent.change)
    ((u.all.drop u.taken).map HotplugEvent.change) (new.map HotplugEvent.change)
  rw [← List.map_append, ← List.map_append, List.take_append_drop, ← List.map_append, hnew] at hover
  calc learn known (s.sent.drop u.taken) (entry id)
      = learn (learn since u.all) (u.all.drop u.taken ++ new) (entry id) := by
        rw [hunseen]
        exact Change.replay_congr _ hsame
    _ = learn since s.all (entry id) := congrFun hover _
    _ = (s.attached id).map fun raw => (deviceInfo raw).info := hlater.learn_all hinj id

omit hinj in
theorem run_early (hn : nusb.Registers entry) (hfiled : Filed entry attached)
    (run : Machine.Run (hotplug nusb attached) (Sane entry) past s) (hfirst : s.ids = none) :
    Early entry s := by
  refine run.invariant (P := fun _ s => s.ids = none → Early entry s) ?_ ?_ hfirst
  · intro _
    exact ⟨rfl, rfl, rfl, (fun r hr => by cases hr), hfiled⟩
  · intro past s i ih hi hnone
    have hbefore : s.ids = none := by
      cases hids : s.ids with
      | none => rfl
      | some ids =>
        have hlisted : (s.step nusb i).ids.isSome := listed_step nusb s i (by rw [hids]; rfl)
        have hsome : (s.step nusb i).ids = none := hnone
        rw [hsome] at hlisted
        cases hlisted
    apply (ih hbefore).step hn hi
    rintro rfl
    have hsome : (s.step nusb .list).ids = none := hnone
    rw [Watch.step, if_neg (by simp [hbefore])] at hsome
    cases hsome

/-- Nothing is made up, whatever the library reports. From the listing in `watch` on, a device is
reported gone only while it is known: it was listed or reported before, and not reported gone
since. -/
theorem hotplug_sound (hn : nusb.Registers entry) (hfiled : Filed entry attached)
    (hu : Machine.Run (hotplug nusb attached) (Sane entry) past u) (hfirst : u.ids = none)
    (hknown : Lists entry (nusb.listed u.attached) known)
    (hs : Machine.Run (hotplug nusb attached) (Sane entry) (past ++ (u, .list) :: more) s)
    {front back : List HotplugEvent} {id : DeviceId}
    (hsent : s.sent = front ++ .disconnected id :: back) : (learn known front id).isSome := by
  have hearly := run_early hn hfiled hu hfirst
  have hstart : Sound known (u.step nusb .list).sent := by
    have hnil : u.sent = [] := hearly.sent
    have hsame : (u.step nusb .list).sent = u.sent := by
      rw [Watch.step]
      split <;> rfl
    intro front id back heq
    rw [hsame, hnil] at heq
    simp at heq
  have hsane : Sane entry past u .list := trivial
  have hlisting := hu.take .list hsane
  rw [← List.singleton_append, ← List.append_assoc] at hs
  have hboth := hlisting.since
    (P := fun _ t => (t.closed = false → Tracks entry known t) ∧ Sound known t.sent)
    ⟨fun _ => hearly.list hn hknown, hstart⟩ ?_ hs
  · exact hboth.2 front id back hsent
  · intro more t i ih hi
    exact ⟨fun hopen => (ih.1 (closed_step nusb t i hopen)).step hinj hn hi hopen, ih.2.step ih.1⟩

end Correctness

def phone : RawDevice UInt64 := ⟨7, 7, 0x2717, 0xff80, none, some "phone".toList⟩

def honest : Nusb UInt64 := ⟨fun raw => [.connected raw], fun id => [.disconnected id], id⟩

theorem honest_documented : honest.Documented := ⟨fun _ => rfl, fun _ => rfl, fun _ => rfl⟩

/-- The phone is plugged in while `watch` is at work. -/
def registered : Watch UInt64 := (hotplug honest fun _ => none).start.step honest (.plug phone)

def plugged : Watch UInt64 := registered.step honest .list

/-- It is reported, unplugged, and reported gone. -/
def unplugged : Watch UInt64 :=
  ((plugged.step honest .translate).step honest (.unplug 7)).step honest .translate

def onlyPhone : DeviceId → Option DeviceInfo :=
  Function.update (fun _ => none) 7 (some (deviceInfo phone).info)

theorem onlyPhone_listed : Lists id (Function.update (fun _ => none) 7 (some phone)) onlyPhone := by
  intro d
  rw [onlyPhone]
  by_cases hd : d = 7
  · rw [hd]
    rfl
  · simp [Function.update_of_ne hd]

theorem nothing_filed : Filed id (fun _ => none : UInt64 → Option (RawDevice UInt64)) := by
  intro d raw hraw
  cases hraw

theorem registered_run : Machine.Run (hotplug honest fun _ => none) (Sane id)
    [((hotplug honest fun _ => none).start, .plug phone)] registered := by
  have hplug : Sane id [] (hotplug honest fun _ => none).start (.plug phone) := rfl
  exact Machine.Run.start.take _ hplug

theorem unplugged_run : Machine.Run (hotplug honest fun _ => none) (Sane id)
    [((hotplug honest fun _ => none).start, .plug phone), (registered, .list), (plugged, .translate),
      (plugged.step honest .translate, .unplug 7),
      ((plugged.step honest .translate).step honest (.unplug 7), .translate)]
    unplugged :=
  (((registered_run.take Input.list trivial).take Input.translate trivial).take
    (Input.unplug 7) trivial).take Input.translate trivial

theorem hotplug_lossless_phone : unplugged.sent = [.connected (deviceInfo phone), .disconnected 7] ∧
    Lists id unplugged.attached (learn onlyPhone unplugged.sent) :=
  ⟨rfl, hotplug_lossless Function.injective_id honest_documented nothing_filed
    (registered_run.take Input.list trivial) unplugged_run rfl onlyPhone_listed rfl rfl⟩

theorem hotplug_sound_phone : (learn onlyPhone [.connected (deviceInfo phone)] 7).isSome :=
  hotplug_sound Function.injective_id honest_documented.registers nothing_filed registered_run rfl
    onlyPhone_listed unplugged_run rfl

end Muta.Usb.Hotplug
