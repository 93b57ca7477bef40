import Muta.Device.Open

/-!
# Looking for a phone

Every attached device is opened and its descriptors read; devices that others have claimed
are passed over. The daemon stops at the first device with an RNDIS function and remembers
the ones without; the probe goes on and prints. Devices may answer differently each time
they are asked, so what was seen is kept, and the result is compared with that.
-/

namespace Muta.Device

open Act Usb
set_option autoImplicit false

inductive Seen where
  | closed (e : UsbError)
  | unread (e : UsbError)
  | read (configs : List ConfigDescriptor)
deriving DecidableEq

structure Look where
  device : Attached
  seen : Seen
deriving DecidableEq

/-- What one scan for a phone turned up. -/
structure Scan where
  rndis : Option (Attached × RndisFunction)
  idle : List Text
deriving DecidableEq

/-- A scan gives up when the devices cannot be listed. The search through the descriptors
may break down. -/
inductive Halt where
  | listing (e : UsbError)
  | fault (w : Fault)
deriving DecidableEq

/-- What the probe prints, with the data its lines are made of. -/
inductive Line where
  | listFailed (e : UsbError)
  | cannotOpen (label : Text) (e : UsbError)
  | cannotRead (label : Text) (e : UsbError)
  | dump (device : Attached) (configs : List ConfigDescriptor) (function : RndisFunction)
  | noneFound
deriving DecidableEq

structure Desk (δ : Type) where
  dev : δ
  looks : List Look
  lines : List Line

variable {δ ι ο : Type} (b : UsbBackend δ ι ο)

def list : Act Halt (Desk δ) (Except UsbError (List Attached)) := .apply fun s =>
  let r := b.list s.dev
  (r.1, { s with dev := r.2 })

def visit (a : Attached) (d : δ) : Seen × δ :=
  match b.openDevice d a.id with
  | (.error e, d) => (.closed e, d)
  | (.ok (), d) =>
    match b.configurations d a.id with
    | (.error e, d) => (.unread e, d)
    | (.ok configs, d) => (.read configs, d)

def inspect (a : Attached) : Act Halt (Desk δ) Seen := .apply fun s =>
  let r := visit b a s.dev
  (r.1, { s with dev := r.2, looks := s.looks ++ [⟨a, r.1⟩] })

def matchRndis (configs : List ConfigDescriptor) : Act Halt (Desk δ) (Option RndisFunction) :=
  match (findRndis configs : Checked Empty _) with
  | .ok r => pure r
  | .err e => e.elim
  | .fault w => stop (.fault w)

def print (line : Line) : Act Halt (Desk δ) Unit := .update fun s =>
  { s with lines := s.lines ++ [line] }

/-- The loop of `find`. -/
def findFrom (idle : List Text) : List Attached → Act Halt (Desk δ) Scan
  | [] => return ⟨none, idle⟩
  | a :: rest => do
    match ← inspect b a with
    | .closed _ => findFrom idle rest
    | .unread _ => findFrom idle rest
    | .read configs =>
      match ← matchRndis configs with
      | some f => return ⟨some (a, f), idle⟩
      | none => findFrom (idle ++ [a.info.label]) rest

/-- Look for an attached device exposing an RNDIS function. -/
def find : Act Halt (Desk δ) Scan := do
  match ← list b with
  | .error e => stop (.listing e)
  | .ok devices => findFrom b [] devices

/-- The loop of the probe's `scan`; the value is whether anything was found. -/
def scanFrom (found : Bool) : List Attached → Act Halt (Desk δ) Bool
  | [] => return found
  | a :: rest => do
    match ← inspect b a with
    | .closed e => do
      print (.cannotOpen a.info.label e)
      scanFrom found rest
    | .unread e => do
      print (.cannotRead a.info.label e)
      scanFrom found rest
    | .read configs =>
      match ← matchRndis configs with
      | none => scanFrom found rest
      | some f => do
        print (.dump a configs f)
        scanFrom true rest

def scan : Act Halt (Desk δ) Unit := do
  match ← list b with
  | .error e => print (.listFailed e)
  | .ok devices =>
    if ← scanFrom b false devices then
      pure ()
    else
      print .noneFound

namespace Look

def Passes (l : Look) : Prop := ∀ configs, l.seen = .read configs →
  (findRndis configs : Checked Empty _) = .ok none

def idle (l : Look) : Option Text :=
  match l.seen with
  | .read _ => some l.device.info.label
  | _ => none

end Look

/-- How a search through `listed` ends that has looked at `looks`: with the first device
that offers a function, or after all of them with none; or the search through a device's
descriptors breaks down. -/
inductive Searched (listed : List Attached) (looks : List Look) : Except Halt Scan → Prop where
  | found {before : List Look} {a : Attached} {after : List Attached}
      {configs : List ConfigDescriptor} {f : RndisFunction} :
      listed = before.map Look.device ++ a :: after → looks = before ++ [⟨a, .read configs⟩] →
      (∀ l ∈ before, l.Passes) → (findRndis configs : Checked Empty _) = .ok (some f) →
      Searched listed looks (.ok ⟨some (a, f), before.filterMap Look.idle⟩)
  | none : listed = looks.map Look.device → (∀ l ∈ looks, l.Passes) →
      Searched listed looks (.ok ⟨none, looks.filterMap Look.idle⟩)
  | fault {before : List Look} {a : Attached} {after : List Attached}
      {configs : List ConfigDescriptor} {w : Fault} :
      listed = before.map Look.device ++ a :: after → looks = before ++ [⟨a, .read configs⟩] →
      (∀ l ∈ before, l.Passes) → (findRndis configs : Checked Empty _) = .fault w →
      Searched listed looks (.error (.fault w))

/-- The scan of a search that had passed over the devices `idle` before. -/
def Scan.since (idle : List Text) (r : Scan) : Scan := { r with idle := idle ++ r.idle }

theorem Look.passes_closed (a : Attached) (e : UsbError) : Passes ⟨a, .closed e⟩ := by
  intro configs h
  cases h

theorem Look.passes_unread (a : Attached) (e : UsbError) : Passes ⟨a, .unread e⟩ := by
  intro configs h
  cases h

theorem Searched.cons {listed : List Attached} {looks : List Look} {r : Except Halt Scan} (l : Look)
    (hl : l.Passes) (h : Searched listed looks r) :
    Searched (l.device :: listed) (l :: looks) (r.map (Scan.since l.idle.toList)) := by
  have hidle : ∀ before : List Look, l.idle.toList ++ before.filterMap Look.idle =
      (l :: before).filterMap Look.idle := by
    intro before
    rw [List.filterMap_cons]
    cases l.idle <;> rfl
  have hpasses : ∀ before : List Look, (∀ x ∈ before, x.Passes) → ∀ x ∈ l :: before, x.Passes := by
    intro before hbefore x hx
    rcases List.mem_cons.mp hx with rfl | hx
    · exact hl
    · exact hbefore x hx
  cases h with
  | @found before a after configs f hlisted hlooks hbefore hf =>
    have hfound := @Searched.found (l.device :: listed) (l :: looks) (l :: before) a after configs f
      (by rw [hlisted]; rfl) (by rw [hlooks]; rfl) (hpasses before hbefore) hf
    rwa [← hidle] at hfound
  | none hlisted hbefore =>
    have hnone := @Searched.none (l.device :: listed) (l :: looks) (by rw [hlisted]; rfl)
      (hpasses looks hbefore)
    rwa [← hidle] at hnone
  | @fault before a after configs w hlisted hlooks hbefore hw =>
    exact @Searched.fault _ _ (l :: before) a after configs w (by rw [hlisted]; rfl)
      (by rw [hlooks]; rfl) (hpasses before hbefore) hw

theorem inspect_bind {α : Type} (a : Attached) (k : Seen → Act Halt (Desk δ) α) (s : Desk δ) :
    (inspect b a >>= k) s = k (visit b a s.dev).1
      { s with dev := (visit b a s.dev).2, looks := s.looks ++ [⟨a, (visit b a s.dev).1⟩] } := rfl

theorem matchRndis_apply (δ : Type) (configs : List ConfigDescriptor) :
    (∃ r, (findRndis configs : Checked Empty _) = .ok r ∧
      ∀ s : Desk δ, matchRndis configs s = (.ok r, s)) ∨
    ∃ w, (findRndis configs : Checked Empty _) = .fault w ∧
      ∀ s : Desk δ, matchRndis configs s = (.error (.fault w), s) := by
  unfold matchRndis
  generalize (findRndis configs : Checked Empty _) = r
  cases r with
  | ok r => exact Or.inl ⟨r, rfl, fun _ => rfl⟩
  | err e => exact e.elim
  | fault w => exact Or.inr ⟨w, rfl, fun _ => rfl⟩

theorem findFrom_spec (listed : List Attached) (idle : List Text) (s : Desk δ) :
    ∃ looks r, Searched listed looks r ∧ (findFrom b idle listed s).1 = r.map (Scan.since idle) ∧
      (findFrom b idle listed s).2.looks = s.looks ++ looks := by
  induction listed generalizing idle s with
  | nil =>
    refine ⟨[], _, .none rfl (fun l hl => by cases hl), ?_, (List.append_nil _).symm⟩
    simp [findFrom, Except.map, Scan.since]
  | cons a rest ih =>
    rw [findFrom, inspect_bind]
    generalize (visit b a s.dev).1 = seen, (visit b a s.dev).2 = d
    -- The devices before this one are passed over by the induction hypothesis.
    have hon : ∀ (l : Look) (t : Desk δ), l.device = a → l.Passes → t.looks = s.looks ++ [l] →
        ∃ looks r, Searched (a :: rest) looks r ∧
          (findFrom b (idle ++ l.idle.toList) rest t).1 = r.map (Scan.since idle) ∧
          (findFrom b (idle ++ l.idle.toList) rest t).2.looks = s.looks ++ looks := by
      intro l t hdevice hl ht
      obtain ⟨looks, r, hsearched, hresult, hlooks⟩ := ih (idle ++ l.idle.toList) t
      refine ⟨l :: looks, r.map (Scan.since l.idle.toList), ?_, ?_, ?_⟩
      · rw [← hdevice]
        exact hsearched.cons l hl
      · rw [hresult]
        cases r with
        | ok scan => simp [Except.map, Scan.since]
        | error e => rfl
      · rw [hlooks, ht, List.append_assoc]
        rfl
    cases seen with
    | closed e =>
      have hclosed := hon ⟨a, .closed e⟩ { s with dev := d, looks := s.looks ++ [⟨a, .closed e⟩] } rfl
        (Look.passes_closed a e) rfl
      simpa [Look.idle] using hclosed
    | unread e =>
      have hunread := hon ⟨a, .unread e⟩ { s with dev := d, looks := s.looks ++ [⟨a, .unread e⟩] } rfl
        (Look.passes_unread a e) rfl
      simpa [Look.idle] using hunread
    | read configs =>
      simp only
      rcases matchRndis_apply δ configs with ⟨found, hfind, hmatch⟩ | ⟨w, hfind, hmatch⟩
      · rw [bind_apply_ok _ _ (hmatch _)]
        cases found with
        | some f =>
          refine ⟨_, _, @Searched.found _ _ [] a rest configs f rfl rfl ?_ hfind, ?_, rfl⟩
          · intro l hl
            cases hl
          · simp [Except.map, Scan.since]
        | none =>
          apply hon ⟨a, .read configs⟩ _ rfl _ rfl
          intro configs' h
          cases h
          exact hfind
      · rw [bind_apply_error _ _ (hmatch _)]
        refine ⟨_, _, @Searched.fault _ _ [] a rest configs w rfl rfl ?_ hfind, rfl, rfl⟩
        intro l hl
        cases hl

/-- A scan is exact. Whatever the devices answer, it stops at the first one that shows an
RNDIS function, names the inspected ones before it as idle, and gives up only if the
devices cannot be listed or a search through descriptors breaks down. -/
theorem find_exact (s : Desk δ) :
    (∃ e, (b.list s.dev).1 = .error e ∧ (find b s).1 = .error (.listing e) ∧
      (find b s).2.looks = s.looks) ∨
    ∃ listed looks, (b.list s.dev).1 = .ok listed ∧ (find b s).2.looks = s.looks ++ looks ∧
      Searched listed looks (find b s).1 := by
  simp only [find, list, bind_apply, apply_apply]
  generalize (b.list s.dev).1 = r, (b.list s.dev).2 = d
  cases r with
  | error e => exact Or.inl ⟨e, rfl, rfl, rfl⟩
  | ok listed =>
    obtain ⟨looks, r, hsearched, hresult, hlooks⟩ := findFrom_spec b listed [] { s with dev := d }
    refine Or.inr ⟨listed, looks, rfl, hlooks, ?_⟩
    simp only
    rw [hresult]
    cases r with
    | ok scan => exact hsearched
    | error e => exact hsearched

def Line.Plain : Line → Prop
  | .cannotOpen _ _ => True
  | .cannotRead _ _ => True
  | _ => False

/-- What the probe prints where a search from the same devices ends so: the device found is
the first it dumps, though it goes on after that and may break down later. -/
inductive Reports : Except Halt Scan → List Line → Except Halt Bool → Prop where
  | none {idle : List Text} {lines : List Line} : (∀ l ∈ lines, l.Plain) →
      Reports (.ok ⟨none, idle⟩) lines (.ok false)
  | found {a : Attached} {f : RndisFunction} {idle : List Text} {front rest : List Line}
      {configs : List ConfigDescriptor} {r : Except Halt Bool} : (∀ l ∈ front, l.Plain) →
      .noneFound ∉ rest → (∀ found, r = .ok found → found = true) →
      Reports (.ok ⟨some (a, f), idle⟩) (front ++ .dump a configs f :: rest) r
  | fault {w : Fault} {lines : List Line} : (∀ l ∈ lines, l.Plain) →
      Reports (.error (.fault w)) lines (.error (.fault w))

theorem Reports.cons {r : Except Halt Scan} {lines : List Line} {q : Except Halt Bool} {l : Line}
    (hl : l.Plain) (h : Reports r lines q) : Reports r (l :: lines) q := by
  have hplain : ∀ front : List Line, (∀ x ∈ front, x.Plain) → ∀ x ∈ l :: front, x.Plain := by
    intro front hfront x hx
    rcases List.mem_cons.mp hx with rfl | hx
    · exact hl
    · exact hfront x hx
  cases h with
  | none hlines => exact .none (hplain _ hlines)
  | @found a f idle front rest configs _ hfront hrest hr =>
    exact @Reports.found a f idle (l :: front) rest configs q (hplain _ hfront) hrest hr
  | fault hlines => exact .fault (hplain _ hlines)

theorem print_bind {α : Type} (l : Line) (k : Unit → Act Halt (Desk δ) α) (s : Desk δ) :
    (print l >>= k) s = k () { s with lines := s.lines ++ [l] } := rfl

theorem scanFrom_found (listed : List Attached) (s : Desk δ) :
    ∃ lines, (scanFrom b true listed s).2.lines = s.lines ++ lines ∧ .noneFound ∉ lines ∧
      ∀ found, (scanFrom b true listed s).1 = .ok found → found = true := by
  induction listed generalizing s with
  | nil =>
    refine ⟨[], (List.append_nil _).symm, List.not_mem_nil, ?_⟩
    intro found h
    cases h
    rfl
  | cons a rest ih =>
    have hon : ∀ (l : Line) (t : Desk δ), l ≠ .noneFound → t.lines = s.lines ++ [l] →
        ∃ lines, (scanFrom b true rest t).2.lines = s.lines ++ lines ∧ .noneFound ∉ lines ∧
          ∀ found, (scanFrom b true rest t).1 = .ok found → found = true := by
      intro l t hl ht
      obtain ⟨lines, hlines, hnone, hfound⟩ := ih t
      refine ⟨l :: lines, ?_, ?_, hfound⟩
      · rw [hlines, ht, List.append_assoc]
        rfl
      · rw [List.mem_cons, not_or]
        exact ⟨Ne.symm hl, hnone⟩
    rw [scanFrom, inspect_bind]
    generalize (visit b a s.dev).1 = seen, (visit b a s.dev).2 = d
    cases seen with
    | closed e =>
      simp only [print_bind]
      exact hon (.cannotOpen a.info.label e) _ (fun h => by cases h) rfl
    | unread e =>
      simp only [print_bind]
      exact hon (.cannotRead a.info.label e) _ (fun h => by cases h) rfl
    | read configs =>
      simp only
      rcases matchRndis_apply δ configs with ⟨found, hfind, hmatch⟩ | ⟨w, hfind, hmatch⟩
      · rw [bind_apply_ok _ _ (hmatch _)]
        cases found with
        | none => exact ih _
        | some f =>
          simp only [print_bind]
          exact hon (.dump a configs f) _ (fun h => by cases h) rfl
      · rw [bind_apply_error _ _ (hmatch _)]
        refine ⟨[], (List.append_nil _).symm, List.not_mem_nil, ?_⟩
        intro found h
        cases h

theorem scanFrom_reports (listed : List Attached) (idle : List Text) {s t : Desk δ} (h : s.dev = t.dev) :
    ∃ lines, (scanFrom b false listed t).2.lines = t.lines ++ lines ∧
      Reports (findFrom b idle listed s).1 lines (scanFrom b false listed t).1 := by
  induction listed generalizing idle s t with
  | nil => exact ⟨[], (List.append_nil _).symm, .none fun l hl => by cases hl⟩
  | cons a rest ih =>
    have hon : ∀ (l : Line) {u v : Desk δ}, l.Plain → u.dev = v.dev → v.lines = t.lines ++ [l] →
        ∃ lines, (scanFrom b false rest v).2.lines = t.lines ++ lines ∧
          Reports (findFrom b idle rest u).1 lines (scanFrom b false rest v).1 := by
      intro l u v hl huv hv
      obtain ⟨lines, hlines, hreports⟩ := ih idle huv
      refine ⟨l :: lines, ?_, hreports.cons hl⟩
      rw [hlines, hv, List.append_assoc]
      rfl
    rw [scanFrom, findFrom, inspect_bind, inspect_bind, h]
    generalize (visit b a t.dev).1 = seen, (visit b a t.dev).2 = d
    cases seen with
    | closed e =>
      simp only [print_bind]
      exact hon (.cannotOpen a.info.label e) trivial rfl rfl
    | unread e =>
      simp only [print_bind]
      exact hon (.cannotRead a.info.label e) trivial rfl rfl
    | read configs =>
      simp only
      rcases matchRndis_apply δ configs with ⟨found, hfind, hmatch⟩ | ⟨w, hfind, hmatch⟩
      · rw [bind_apply_ok _ _ (hmatch _), bind_apply_ok _ _ (hmatch _)]
        cases found with
        | none => exact ih _ rfl
        | some f =>
          simp only [print_bind]
          obtain ⟨lines, hlines, hnone, hfound⟩ := scanFrom_found b rest
            { t with dev := d, looks := t.looks ++ [⟨a, .read configs⟩],
                     lines := t.lines ++ [.dump a configs f] }
          refine ⟨.dump a configs f :: lines, ?_, ?_⟩
          · rw [hlines, List.append_assoc]
            rfl
          · exact @Reports.found a f idle [] lines configs _ (fun l hl => by cases hl) hnone hfound
      · rw [bind_apply_error _ _ (hmatch _), bind_apply_error _ _ (hmatch _)]
        exact ⟨[], (List.append_nil _).symm, .fault fun l hl => by cases hl⟩

/-- What the probe's lines say of a search through the same devices. -/
structure Agrees (r : Except Halt Scan) (lines : List Line) : Prop where
  none : .noneFound ∈ lines ↔ ∃ idle, r = .ok ⟨none, idle⟩
  first : ∀ a f idle, r = .ok ⟨some (a, f), idle⟩ →
    ∃ front configs rest, lines = front ++ .dump a configs f :: rest ∧ ∀ l ∈ front, l.Plain
  dumped : ∀ a configs f, .dump a configs f ∈ lines → ∃ a f idle, r = .ok ⟨some (a, f), idle⟩

def closing : Except Halt Bool → List Line
  | .ok false => [.noneFound]
  | _ => []

theorem Reports.agrees {r : Except Halt Scan} {lines : List Line} {q : Except Halt Bool}
    (h : Reports r lines q) : Agrees r (lines ++ closing q) := by
  cases h with
  | @none idle lines hlines =>
    refine ⟨⟨fun _ => ⟨idle, rfl⟩, fun _ => List.mem_append_right _ List.mem_cons_self⟩, ?_, ?_⟩
    · intro a f idle' h
      cases h
    · intro a configs f hmem
      rcases List.mem_append.mp hmem with hmem | hmem
      · exact (hlines _ hmem).elim
      · cases List.mem_singleton.mp hmem
  | @found a f idle front rest configs _ hfront hrest hq =>
    have hclosing : closing q = [] := by
      cases q with
      | error e => rfl
      | ok found =>
        rw [hq found rfl]
        rfl
    rw [hclosing, List.append_nil]
    refine ⟨⟨?_, ?_⟩, ?_, fun _ _ _ _ => ⟨a, f, idle, rfl⟩⟩
    · intro hmem
      rcases List.mem_append.mp hmem with hmem | hmem
      · exact (hfront _ hmem).elim
      · rcases List.mem_cons.mp hmem with hmem | hmem
        · cases hmem
        · exact absurd hmem hrest
    · intro h
      obtain ⟨idle', h⟩ := h
      cases h
    · intro a' f' idle' h
      cases h
      exact ⟨front, configs, rest, rfl, hfront⟩
  | @fault w lines hlines =>
    have hplain : ∀ l ∈ lines ++ closing (.error (.fault w)), l.Plain := by
      intro l hl
      exact hlines l (by simpa [closing] using hl)
    refine ⟨⟨fun hmem => (hplain _ hmem).elim, ?_⟩, ?_, ?_⟩
    · intro h
      obtain ⟨idle, h⟩ := h
      cases h
    · intro a f idle h
      cases h
    · intro a configs f hmem
      exact (hplain _ hmem).elim

/-- The probe says of the devices what the daemon would do with them: it reports that there
is no RNDIS device exactly where a scan of the same devices finds none, and where one is
found that device is the first it dumps. -/
theorem probe_agrees (s : Desk δ) :
    ∃ lines, (scan b s).2.lines = s.lines ++ lines ∧ Agrees (find b s).1 lines := by
  simp only [scan, find, list, bind_apply, apply_apply]
  generalize (b.list s.dev).1 = r, (b.list s.dev).2 = d
  cases r with
  | error e =>
    refine ⟨[.listFailed e], rfl, ⟨?_, ?_⟩, ?_, ?_⟩
    · intro hmem
      cases List.mem_singleton.mp hmem
    · intro hnone
      obtain ⟨idle, hnone⟩ := hnone
      cases hnone
    · intro a f idle hfound
      cases hfound
    · intro a configs f hmem
      cases List.mem_singleton.mp hmem
  | ok listed =>
    obtain ⟨lines, hlines, hreports⟩ := @scanFrom_reports δ ι ο b listed [] { s with dev := d }
      { s with dev := d } rfl
    have hagrees := hreports.agrees
    simp only [bind_apply]
    generalize scanFrom b false listed { s with dev := d } = q at hlines hagrees
    obtain ⟨q, u⟩ := q
    refine ⟨_, ?_, hagrees⟩
    rw [← List.append_assoc, ← hlines]
    rcases q with e | found
    · exact (List.append_nil _).symm
    · cases found with
      | true => exact (List.append_nil _).symm
      | false => rfl

end Muta.Device
