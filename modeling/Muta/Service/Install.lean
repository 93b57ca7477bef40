import Muta.Service.System

/-!
# Installing the service

The daemon runs as root, so its binary is put where only root can write, and it is put
there whole: it is copied beside its place and renamed. The directory is looked at again
after its permissions have been set; the files are not. What stands beside the binary's place
before is not looked at either: a link there is written through and becomes the binary, and
an executable that runs from there is truncated.
-/

namespace Muta.Service

open Act Links
set_option autoImplicit false

def ascii (s : String) : Bytes := s.toList.map fun c => UInt8.ofNat c.toNat

def label : String := "com.github.jost-s.muta"
def installDir : Path := "/usr/local/libexec/muta".toList
def installedBinary : Path := "/usr/local/libexec/muta/muta".toList
/-- `installedBinary` with the extension `new`. -/
def staged : Path := "/usr/local/libexec/muta/muta.new".toList
def plistPath : Path := "/Library/LaunchDaemons/com.github.jost-s.muta.plist".toList
def newsyslogPath : Path := "/etc/newsyslog.d/muta.conf".toList
def logPath : Path := "/var/log/muta.log".toList
def pidPath : Path := "/var/run/muta.pid".toList
def socketPath : Path := "/var/run/muta.sock".toList

def element (tag text : String) : String := "<" ++ tag ++ ">" ++ text ++ "</" ++ tag ++ ">\n"

def plist (binary : String) : Bytes := ascii <|
  "<?xml version=\"1.0\" encoding=\"UTF-8\"?>\n" ++
  "<!DOCTYPE plist PUBLIC \"-//Apple//DTD PLIST 1.0//EN\" " ++
  "\"http://www.apple.com/DTDs/PropertyList-1.0.dtd\">\n<plist version=\"1.0\">\n<dict>\n    " ++
  element "key" "Label" ++ "    " ++ element "string" label ++ "\n    " ++
  element "key" "ProgramArguments" ++ "    <array>\n        " ++ element "string" binary ++
  "        " ++ element "string" "run" ++ "    </array>\n\n" ++
  "    <!-- Resident: the daemon watches for hotplug itself. -->\n    " ++
  element "key" "RunAtLoad" ++ "    <true/>\n    " ++ element "key" "KeepAlive" ++
  "    <true/>\n\n    " ++ element "key" "StandardOutPath" ++ "    " ++
  element "string" "/var/log/muta.log" ++ "    " ++ element "key" "StandardErrorPath" ++ "    " ++
  element "string" "/var/log/muta.log" ++
  "\n    <!-- On the packet path: Background throttling stalls the link while the Mac is busy, " ++
  "e.g. after boot. -->\n    " ++ element "key" "ProcessType" ++ "    " ++
  element "string" "Standard" ++ "</dict>\n</plist>\n"

def newsyslogConf : Bytes := ascii <|
  "# logfilename          [owner:group]  mode count size  when flags [/pid_file]\n" ++
  "/var/log/muta.log      root:wheel     644   5     1000  *    JB    /var/run/muta.pid\n"

variable (env : Env)

def Command.args : Command → Text
  | .bootout => "bootout system/com.github.jost-s.muta".toList
  | .bootstrap => "bootstrap system ".toList ++ plistPath
  | .enable => "enable system/com.github.jost-s.muta".toList

/-- What it wrote to its error output is not kept. -/
def launchctl (c : Command) : ServiceM Unit := fun w =>
  let ran (ok : Bool) : World := { tick w with commands := w.commands ++ [(c, ok)] }
  match env.verdict w.calls with
  | .done => (.ok (), ran true)
  | .noEffect => (.ok (), ran true)
  | .failed _ =>
    (.error (.error ("launchctl ".toList ++ c.args ++ " failed".toList)), ran false)
  | .killed _ => (.error .killed, ran false)

/-- Create `dir` and verify it ends up owned by root and writable only by root. -/
def rootOwnedDir (dir : Path) : ServiceM Unit := do
  createDirAll env ("creating ".toList ++ dir) dir
  changeAttr env [] (onDir dir fun d => { d with mode := 0o755 })
  changeAttr env ("setting root ownership on ".toList ++ dir) (onDir dir fun d => { d with uid := 0 })
  match (← state).dirs.lookup dir with
  | none => stop (.error [])
  | some d =>
    if d.uid ≠ 0 ∨ d.mode &&& 0o022 ≠ 0 then
      stop (.error (dir ++ " is not root-owned and root-writable-only (uid ".toList ++
        Text.decimal d.uid ++ ", mode ".toList ++ Nat.toDigits 8 (d.mode &&& 0o777) ++
        "); refusing to install".toList))
    else
      pure ()

/-- Write beside the target and rename, so that a failed copy cannot leave a half-written
binary. -/
def replaceBinary (source : Path) : ServiceM Unit := do
  copy env source staged
  setPermissions env staged 0o755
  chownRoot env staged
  rename env staged installedBinary

def writeRootFile (path parent : Path) (contents : Bytes) (mode : Nat) : ServiceM Unit := do
  createDirAll env [] parent
  write env ("writing ".toList ++ path) path contents
  setPermissions env path mode
  chownRoot env path

/-- One attempt, with a pause after a failure; the value is the error. -/
def tryBootstrap (attempt : Nat) : ServiceM (Option Text) := fun w =>
  match launchctl env .bootstrap w with
  | (.ok (), w) => (.ok none, w)
  | (.error .killed, w) => (.error .killed, w)
  | (.error (.error e), w) =>
    (.ok (some e), { w with slept := w.slept ++ [ofMillis (200 * (attempt + 1))] })

/-- The loop of `bootstrap`, with the attempts that are left. -/
def bootstrapFrom (attempt : Nat) (last : Text) : Nat → ServiceM Unit
  | 0 => stop (.error last)
  | left + 1 => do
    match ← tryBootstrap env attempt with
    | none => pure ()
    | some e => bootstrapFrom (attempt + 1) e left

def bootstrap : ServiceM Unit := bootstrapFrom env 0 [] 10

def canonicalize (w : World) (path : Path) : Option Path := (w.located path).map Prod.fst

def stopRunning : ServiceM Unit := do
  if ((← state).located plistPath).isSome then
    ignoring (launchctl env .bootout)
  else
    pure ()

/-- A binary that runs from its place stays there. -/
def placeBinary (source : Path) : ServiceM Unit := do
  let w ← state
  if canonicalize w source ≠ canonicalize w installedBinary then
    replaceBinary env source
  else
    pure ()

def install (currentExe : Option Path) : ServiceM Unit := do
  match currentExe with
  | none => stop (.error "locating the running executable".toList)
  | some source =>
    stopRunning env
    rootOwnedDir env installDir
    placeBinary env source
    writeRootFile env plistPath "/Library/LaunchDaemons".toList (plist (String.ofList installedBinary)) 0o644
    writeRootFile env newsyslogPath "/etc/newsyslog.d".toList newsyslogConf 0o644
    bootstrap env
    ignoring (launchctl env .enable)

/-- The directory is root's, and only root can write to it. -/
def Secure (w : World) : Prop :=
  ∃ d, w.dirs.lookup installDir = some d ∧ d.uid = 0 ∧ d.mode &&& 0o022 = 0

section Programs

variable {env : Env} {w : World} {S : Path → Prop} {source : Path}

theorem Secure.onDir {f : Dir → Dir} (h : Secure w)
    (hf : ∀ d, d.uid = 0 → d.mode &&& 0o022 = 0 → (f d).uid = 0 ∧ (f d).mode &&& 0o022 = 0) :
    Secure (onDir installDir f w) := by
  obtain ⟨d, hlookup, huid, hmode⟩ := h
  rw [Service.onDir, hlookup]
  exact ⟨f d, Finmap.lookup_insert w.dirs, hf d huid hmode⟩

/-- Directories were created or changed, but a secure one is still secure. -/
structure KeptSecure (w u : World) : Prop where
  nodes : u.nodes = w.nodes
  commands : u.commands = w.commands
  secure : Secure w → Secure u

theorem createDirAll_spec {context : Text} {dir : Path} :
    wp (createDirAll env context dir) (fun _ u => KeptSecure w u) (fun _ u => KeptSecure w u) w := by
  apply wp_sys
  · split
    · exact ⟨rfl, rfl, fun h => h⟩
    · rename_i hdir
      refine ⟨rfl, rfl, fun h => ?_⟩
      obtain ⟨d, hlookup, hsecure⟩ := h
      refine ⟨d, ?_, hsecure⟩
      have hne : installDir ≠ dir := by
        rintro rfl
        exact hdir (Finmap.mem_of_lookup_eq_some hlookup)
      exact (Finmap.lookup_insert_of_ne _ hne).trans hlookup
  · intro e
    exact ⟨rfl, rfl, fun h => h⟩
  · intro e n
    exact ⟨rfl, rfl, fun h => h⟩

theorem changeDir_spec {context : Text} {f : Dir → Dir} {v : World}
    (hf : ∀ d, d.uid = 0 → d.mode &&& 0o022 = 0 → (f d).uid = 0 ∧ (f d).mode &&& 0o022 = 0)
    (hv : KeptSecure w v) : wp (changeAttr env context (onDir installDir f))
      (fun _ u => KeptSecure w u) (fun _ u => KeptSecure w u) v := by
  apply wp_changeAttr
  · have hsame : (onDir installDir f (tick v)).nodes = v.nodes ∧
        (onDir installDir f (tick v)).commands = v.commands := by
      unfold onDir
      split <;> exact ⟨rfl, rfl⟩
    refine ⟨hsame.1.trans hv.nodes, hsame.2.trans hv.commands, fun h => ?_⟩
    exact Secure.onDir (w := tick v) (hv.secure h) hf
  · intro _
    exact ⟨hv.nodes, hv.commands, hv.secure⟩
  · intro e
    exact ⟨hv.nodes, hv.commands, hv.secure⟩

theorem rootOwnedDir_spec :
    wp (rootOwnedDir env installDir) (fun _ u => KeptSecure w u ∧ Secure u)
      (fun _ u => KeptSecure w u) w := by
  simp only [rootOwnedDir, wp_bind, wp_state]
  refine wp_mono createDirAll_spec ?_ (fun _ _ h => h)
  intro _ t ht
  refine wp_mono (changeDir_spec (fun _ huid _ => ⟨huid, by simp⟩) ht) ?_ (fun _ _ h => h)
  intro _ u hu
  refine wp_mono (changeDir_spec (fun _ _ hmode => ⟨rfl, hmode⟩) hu) ?_ (fun _ _ h => h)
  intro _ v hv
  cases hlookup : v.dirs.lookup installDir with
  | none => exact hv
  | some d =>
    apply wp_ite
    · intro _
      exact hv
    · intro hsecure
      rw [not_or, not_not, not_not] at hsecure
      exact ⟨hv, d, hlookup, hsecure⟩

theorem KeptSecure.place {u : World} (h : KeptSecure w u) (path : Path) :
    u.place path = w.place path := by
  rw [World.place, h.nodes, World.place]

theorem writeRootFile_spec (path parent : Path) (contents : Bytes) (mode : Nat) :
    wp (writeRootFile env path parent contents mode)
      (fun _ u => (Secure w → Secure u) ∧ u.commands = w.commands ∧
        ∃ q g, w.place path = some q ∧ u.nodes = w.nodes.insert q (.file g) ∧ Whole env contents mode g)
      (fun _ u => (Secure w → Secure u) ∧
        (u.nodes = w.nodes ∨ ∃ q g, w.place path = some q ∧ u.nodes = w.nodes.insert q (.file g))) w := by
  simp only [writeRootFile, wp_bind]
  refine wp_mono createDirAll_spec ?_ (fun _ _ h => ⟨h.secure, Or.inl h.nodes⟩)
  intro _ v hv
  have hput : ∀ {q : Path} {g : File} {u : World}, Put q g v u →
      (Secure w → Secure u) ∧ u.nodes = w.nodes.insert q (.file g) := by
    intro q g u hg
    refine ⟨fun h => ?_, by rw [hg.nodes, hv.nodes]⟩
    have hdir := hv.secure h
    rwa [Secure, ← hg.dirs] at hdir
  refine wp_mono (write_spec path contents) ?_ ?_
  · intro _ t ht
    obtain ⟨q, f, hplace, hwritten, hf⟩ := ht
    have hplace' : w.place path = some q := (hv.place path).symm.trans hplace
    apply attributes_spec mode hplace hwritten
    · intro g u hg hwhole
      rw [hf] at hwhole
      exact ⟨(hput hg).1, hg.commands.trans hv.commands, q, g, hplace', (hput hg).2, hwhole⟩
    · intro e g u hg
      exact ⟨(hput hg).1, Or.inr ⟨q, g, hplace', (hput hg).2⟩⟩
  · intro e u hu
    rcases hu with hsame | ⟨q, f, hplace, hf⟩
    · refine ⟨fun h => ?_, Or.inl (hsame.nodes.trans hv.nodes)⟩
      have hdir := hv.secure h
      rwa [Secure, ← hsame.dirs] at hdir
    · exact ⟨(hput hf).1, Or.inr ⟨q, f, (hv.place path).symm.trans hplace, (hput hf).2⟩⟩

/-- The entry at `staged` after the copy is what the binary's place gets. -/
theorem replaceBinary_spec (source : Path) :
    wp (replaceBinary env source)
      (fun _ u => ∃ p exe q g node, w.located source = some (p, exe) ∧ w.place staged = some q ∧
        Whole env (if p = q then [] else exe.contents) 0o755 g ∧
        (w.nodes.insert q (.file g)).lookup staged = some node ∧
        u.nodes = ((w.nodes.insert q (.file g)).erase staged).insert installedBinary node ∧
        u.dirs = w.dirs ∧ u.commands = w.commands)
      (fun _ u => Same w u ∨ ∃ q f, w.place staged = some q ∧ Put q f w u) w := by
  simp only [replaceBinary, wp_bind]
  refine wp_mono (copy_spec source staged) ?_ (fun _ _ h => h)
  intro _ v hv
  obtain ⟨p, exe, q, f, hexe, hplace, hput, hcontents⟩ := hv
  apply attributes_spec 0o755 hplace hput
  · intro g u hg hwhole
    rw [hcontents] at hwhole
    simp only [rename, wp_bind, wp_state]
    cases hnode : u.nodes.lookup staged with
    | none => exact Or.inr ⟨q, g, hplace, hg.same (.tick u)⟩
    | some node =>
      apply wp_sys
      · refine ⟨p, exe, q, g, node, hexe, hplace, hwhole, ?_, ?_, hg.dirs, hg.commands⟩
        · rw [← hg.nodes]
          exact hnode
        · rw [← hg.nodes]
          rfl
      · intro e
        exact Or.inr ⟨q, g, hplace, hg.same (.tick u)⟩
      · intro e n
        exact Or.inr ⟨q, g, hplace, hg.same (.tick u)⟩
  · intro e g u hg
    exact Or.inr ⟨q, g, hplace, hg⟩

/-- From `w` to `u` only runs of `launchctl` were made, and pauses. -/
structure Ran (runs : List (Command × Bool)) (w u : World) : Prop where
  nodes : u.nodes = w.nodes
  dirs : u.dirs = w.dirs
  commands : u.commands = w.commands ++ runs

theorem launchctl_spec (c : Command) :
    wp (launchctl env c) (fun _ u => Ran [(c, true)] w u ∧ u.slept = w.slept)
      (fun _ u => Ran [(c, false)] w u ∧ u.slept = w.slept) w := by
  unfold wp launchctl
  cases env.verdict w.calls <;> exact ⟨⟨rfl, rfl, rfl⟩, rfl⟩

theorem ignoring_spec (c : Command) :
    wp (ignoring (launchctl env c)) (fun _ u => ∃ ok, Ran [(c, ok)] w u)
      (fun e u => e = .killed ∧ ∃ ok, Ran [(c, ok)] w u) w := by
  have hrun : wp (launchctl env c) (fun _ u => ∃ ok, Ran [(c, ok)] w u)
      (fun _ u => ∃ ok, Ran [(c, ok)] w u) w :=
    wp_mono (launchctl_spec c) (fun _ _ h => ⟨true, h.1⟩) fun _ _ h => ⟨false, h.1⟩
  exact wp_ignoring hrun (fun _ _ h => h) fun _ h => ⟨rfl, h⟩

def pauses (first n : Nat) : List Duration :=
  (List.range' first n).map fun attempt => ofMillis (200 * (attempt + 1))

theorem Ran.trans {runs more : List (Command × Bool)} {u v : World} (h : Ran runs w u)
    (hmore : Ran more u v) : Ran (runs ++ more) w v where
  nodes := hmore.nodes.trans h.nodes
  dirs := hmore.dirs.trans h.dirs
  commands := by rw [hmore.commands, h.commands, List.append_assoc]

theorem tryBootstrap_spec (attempt : Nat) :
    wp (tryBootstrap env attempt)
      (fun r u => (r = none ∧ Ran [(.bootstrap, true)] w u ∧ u.slept = w.slept) ∨
        ∃ e, r = some e ∧ Ran [(.bootstrap, false)] w u ∧
          u.slept = w.slept ++ [ofMillis (200 * (attempt + 1))])
      (fun e u => e = .killed ∧ Ran [(.bootstrap, false)] w u) w := by
  have hrun := @launchctl_spec env w .bootstrap
  unfold wp at hrun ⊢
  rw [tryBootstrap]
  generalize launchctl env .bootstrap w = r at hrun
  obtain ⟨r, u⟩ := r
  rcases r with (e | _) | _
  · exact Or.inr ⟨e, rfl, ⟨hrun.1.nodes, hrun.1.dirs, hrun.1.commands⟩, by rw [hrun.2]⟩
  · exact ⟨rfl, hrun.1⟩
  · exact Or.inl ⟨rfl, hrun.1, hrun.2⟩

theorem bootstrapFrom_spec (attempt : Nat) (last : Text) (left : Nat) (w : World) :
    wp (bootstrapFrom env attempt last left)
      (fun _ u => ∃ k < left, Ran (List.replicate k (.bootstrap, false) ++ [(.bootstrap, true)]) w u ∧
        u.slept = w.slept ++ pauses attempt k)
      (fun e u => ∃ runs, Ran runs w u ∧ (e ≠ .killed → runs = List.replicate left (.bootstrap, false) ∧
        u.slept = w.slept ++ pauses attempt left)) w := by
  induction left generalizing attempt last w with
  | zero =>
    refine ⟨[], ⟨rfl, rfl, (List.append_nil _).symm⟩, fun _ => ⟨rfl, (List.append_nil _).symm⟩⟩
  | succ left ih =>
    simp only [bootstrapFrom, wp_bind]
    refine wp_mono (tryBootstrap_spec attempt) ?_ ?_
    · intro r v hv
      rcases hv with ⟨rfl, hran, hslept⟩ | ⟨e, rfl, hran, hslept⟩
      · exact ⟨0, Nat.succ_pos left, hran, hslept.trans (List.append_nil _).symm⟩
      -- The pauses go on where the last one was.
      have hpauses : ∀ k, v.slept ++ pauses (attempt + 1) k = w.slept ++ pauses attempt (k + 1) := by
        intro k
        rw [hslept, List.append_assoc]
        rfl
      refine wp_mono (ih (attempt + 1) e v) ?_ ?_
      · intro _ u hu
        obtain ⟨k, hk, hmore, hslept'⟩ := hu
        exact ⟨k + 1, Nat.succ_lt_succ hk, hran.trans hmore, hslept'.trans (hpauses k)⟩
      · intro e' u hu
        obtain ⟨runs, hmore, hfailed⟩ := hu
        refine ⟨_, hran.trans hmore, fun hne => ?_⟩
        obtain ⟨rfl, hslept'⟩ := hfailed hne
        exact ⟨rfl, hslept'.trans (hpauses left)⟩
    · intro e u hu
      exact ⟨_, hu.2, fun hne => absurd hu.1 hne⟩

/-- The files that are written, wherever links lead from there. -/
def written : List Path := [staged, plistPath, newsyslogPath]

theorem staged_written : staged ∈ written := by decide

theorem plistPath_written : plistPath ∈ written := by decide

theorem newsyslogPath_written : newsyslogPath ∈ written := by decide

theorem binary_not_written : installedBinary ∉ written := by decide

/-- What is in the binary's place now was put there whole, in a directory of root's: a copy of
the executable, or the link that stood beside it. -/
def Replaced (env : Env) (source : Path) (w u : World) : Prop :=
  Secure u ∧ ∃ p exe, w.located source = some (p, exe) ∧
    ((∃ t, IsLink w.nodes staged t ∧ IsLink u.nodes installedBinary t) ∨
      (∀ t, ¬ IsLink w.nodes staged t) ∧ ∃ f, u.nodes.lookup installedBinary = some (.file f) ∧
        Whole env (if p = staged then [] else exe.contents) 0o755 f)

/-- Whatever happens, nothing outside `S` changes but the binary, and the binary only as a
whole, if it is not in `S` itself. -/
structure Safe (S : Path → Prop) (env : Env) (source : Path) (w u : World) : Prop where
  binary : ¬ S installedBinary →
    u.nodes.lookup installedBinary = w.nodes.lookup installedBinary ∨ Replaced env source w u
  others : ∀ k, ¬ S k → k ≠ installedBinary → u.nodes.lookup k = w.nodes.lookup k
  closed : Closed S u.nodes
  secure : Secure w → Secure u

namespace Safe

variable {v u : World} {q : Path}

theorem untouched (hclosed : Closed S w.nodes) (h : u.nodes = w.nodes) (hsecure : Secure w → Secure u) :
    Safe S env source w u where
  binary := fun _ => Or.inl (by rw [h])
  others := fun k _ _ => by rw [h]
  closed := h ▸ hclosed
  secure := hsecure

theorem congr (h : Safe S env source w v) (hnodes : u.nodes = v.nodes) (hsecure : Secure v → Secure u) :
    Safe S env source w u where
  binary := by
    intro hbinary
    simp only [Replaced, IsLink, hnodes]
    exact (h.binary hbinary).imp_right fun hv => ⟨hsecure hv.1, hv.2⟩
  others := hnodes ▸ h.others
  closed := hnodes ▸ h.closed
  secure := fun hw => hsecure (h.secure hw)

theorem put (h : Safe S env source w v) {g : File} (hnodes : u.nodes = v.nodes.insert q (.file g))
    (hq : S q) (hsecure : Secure v → Secure u) : Safe S env source w u where
  binary := by
    intro hbinary
    have hne : installedBinary ≠ q := by
      rintro rfl
      exact hbinary hq
    have hkept : u.nodes.lookup installedBinary = v.nodes.lookup installedBinary := by
      rw [hnodes]
      exact Finmap.lookup_insert_of_ne v.nodes hne
    simp only [Replaced, IsLink, hkept]
    exact (h.binary hbinary).imp_right fun hv => ⟨hsecure hv.1, hv.2⟩
  others := by
    intro k hk hkbinary
    have hne : k ≠ q := by
      rintro rfl
      exact hk hq
    rw [hnodes, Finmap.lookup_insert_of_ne v.nodes hne]
    exact h.others k hk hkbinary
  closed := hnodes ▸ h.closed.insert_file q g
  secure := fun hw => hsecure (h.secure hw)

theorem ran {runs : List (Command × Bool)} (h : Safe S env source w v) (hran : Ran runs v u) :
    Safe S env source w u := by
  refine h.congr hran.nodes fun hv => ?_
  rwa [Secure, ← hran.dirs] at hv

end Safe

/-- None of the files that are written is a link. -/
def Plain (w : World) : Prop := ∀ path ∈ written, ∀ t, ¬ IsLink w.nodes path t

theorem Plain.place {path : Path} (h : Plain w) (hpath : path ∈ written) : w.place path = some path :=
  follow_of_plain 32 (h path hpath)

theorem Plain.put {u : World} {q : Path} {g : File} (h : Plain w)
    (hnodes : u.nodes = w.nodes.insert q (.file g)) : Plain u := by
  intro path hpath t hlink
  by_cases hq : path = q
  · rw [hq, IsLink, hnodes, Finmap.lookup_insert] at hlink
    cases hlink
  · rw [IsLink, hnodes, Finmap.lookup_insert_of_ne _ hq] at hlink
    exact h path hpath t hlink

/-- A service that was loaded is stopped first. -/
def BootedOut (w : World) (runs : List (Command × Bool)) : Prop :=
  ((w.located plistPath).isSome ∧ ∃ ok, runs = [(.bootout, ok)]) ∨
    ((w.located plistPath).isNone ∧ runs = [])

/-- What a successful installation leaves. The binary was replaced, or left alone because the
executable's path and its own lead to the same file, or neither to any. -/
structure Installed (env : Env) (source : Path) (w u : World) : Prop where
  secure : Secure u
  plist : ∃ f, u.nodes.lookup plistPath = some (.file f) ∧
    Whole env (Service.plist (String.ofList installedBinary)) 0o644 f
  newsyslog : ∃ f, u.nodes.lookup newsyslogPath = some (.file f) ∧ Whole env newsyslogConf 0o644 f
  binary : Replaced env source w u ∧ u.nodes.lookup staged = none ∨
    canonicalize w source = canonicalize w installedBinary ∧
      u.nodes.lookup installedBinary = w.nodes.lookup installedBinary ∧
      u.nodes.lookup staged = w.nodes.lookup staged
  commands : ∃ runs k ok, BootedOut w runs ∧ k < 10 ∧ u.commands = w.commands ++ runs ++
    List.replicate k (.bootstrap, false) ++ [(.bootstrap, true), (.enable, ok)]

/-- The binary in its place, before the service is configured. -/
structure Placed (S : Path → Prop) (env : Env) (source : Path) (w u : World) : Prop where
  safe : Safe S env source w u
  secure : Secure u
  plain : Plain w → Plain u
  binary : Replaced env source w u ∧ u.nodes.lookup staged = none ∨
    canonicalize w source = canonicalize w installedBinary ∧ u.nodes = w.nodes

theorem located_congr {v : World} (h : v.nodes = w.nodes) (path : Path) :
    v.located path = w.located path := by
  rw [World.located, World.located, World.place, World.place, h]

theorem placed {u : World} {p q : Path} {exe g : File} {node : Node Path File}
    (hclosed : Closed S w.nodes) (hstaged : S staged) (hexe : w.located source = some (p, exe))
    (hplace : w.place staged = some q)
    (hwhole : Whole env (if p = q then [] else exe.contents) 0o755 g)
    (hnode : (w.nodes.insert q (.file g)).lookup staged = some node)
    (hnodes : u.nodes = ((w.nodes.insert q (.file g)).erase staged).insert installedBinary node)
    (hsecure : Secure u) : Placed S env source w u := by
  have hq : S q := hclosed.follow hstaged hplace
  have hfile : ∀ t, node = .link t → IsLink w.nodes staged t := by
    intro t ht
    have hne : staged ≠ q := by
      rintro rfl
      rw [Finmap.lookup_insert, ht] at hnode
      cases hnode
    rwa [Finmap.lookup_insert_of_ne _ hne, ht] at hnode
  have hbinary : u.nodes.lookup installedBinary = some node := by
    rw [hnodes]
    exact Finmap.lookup_insert _
  have hreplaced : Replaced env source w u := by
    refine ⟨hsecure, p, exe, hexe, ?_⟩
    by_cases hlink : ∃ t, IsLink w.nodes staged t
    · obtain ⟨t, ht⟩ := hlink
      have hne : staged ≠ q := by
        rintro rfl
        exact not_isLink_of_follow hplace ht
      rw [Finmap.lookup_insert_of_ne _ hne, ht] at hnode
      refine Or.inl ⟨t, ht, ?_⟩
      rw [IsLink, hbinary, ← hnode]
    · rw [not_exists] at hlink
      have hsame : staged = q := Option.some.inj ((follow_of_plain 32 hlink).symm.trans hplace)
      rw [← hsame, Finmap.lookup_insert] at hnode
      refine Or.inr ⟨hlink, g, hbinary.trans hnode.symm, ?_⟩
      rwa [hsame]
  refine ⟨⟨fun _ => Or.inr hreplaced, ?_, ?_, fun _ => hsecure⟩, hsecure, ?_, Or.inl ⟨hreplaced, ?_⟩⟩
  · intro k hk hkbinary
    have hkq : k ≠ q := by
      rintro rfl
      exact hk hq
    have hkstaged : k ≠ staged := by
      rintro rfl
      exact hk hstaged
    rw [hnodes, Finmap.lookup_insert_of_ne _ hkbinary, Finmap.lookup_erase_ne hkstaged,
      Finmap.lookup_insert_of_ne _ hkq]
  · rw [hnodes]
    apply ((hclosed.insert_file q g).erase staged).insert
    intro t ht
    exact hclosed staged t hstaged (hfile t ht)
  · intro hplain path hpath t hlink
    have hpathbinary : path ≠ installedBinary := by
      rintro rfl
      exact binary_not_written hpath
    rw [IsLink, hnodes, Finmap.lookup_insert_of_ne _ hpathbinary] at hlink
    by_cases hpathstaged : path = staged
    · rw [hpathstaged, Finmap.lookup_erase] at hlink
      cases hlink
    · rw [Finmap.lookup_erase_ne hpathstaged] at hlink
      exact hplain.put (u := { w with nodes := w.nodes.insert q (.file g) }) rfl path hpath t hlink
  · rw [hnodes, Finmap.lookup_insert_of_ne _ (by decide)]
    exact Finmap.lookup_erase staged _

theorem placeBinary_spec {v : World} {Q : Unit → World → Prop} {E : Stop → World → Prop}
    (hclosed : Closed S w.nodes) (hstaged : S staged) (hnodes : v.nodes = w.nodes) (hsecure : Secure v)
    (hQ : ∀ u, Placed S env source w u → u.commands = v.commands → Q () u)
    (hE : ∀ e u, Safe S env source w u → E e u) :
    wp (placeBinary env source) Q E v := by
  have hplace : v.place staged = w.place staged := by rw [World.place, hnodes, World.place]
  have hstart : Safe S env source w v := Safe.untouched hclosed hnodes fun _ => hsecure
  simp only [placeBinary, wp_bind, wp_state]
  apply wp_ite
  · intro _
    refine wp_mono (replaceBinary_spec source) ?_ ?_
    · intro _ u hu
      obtain ⟨p, exe, q, g, node, hexe, hq, hwhole, hnode, hu, hdirs, hcommands⟩ := hu
      have hsecure' : Secure u := by rwa [Secure, hdirs]
      rw [located_congr hnodes] at hexe
      rw [hplace] at hq
      rw [hnodes] at hnode hu
      exact hQ u (placed hclosed hstaged hexe hq hwhole hnode hu hsecure') hcommands
    · intro e u hu
      apply hE
      rcases hu with hsame | ⟨q, f, hq, hput⟩
      · refine hstart.congr hsame.nodes fun hv => ?_
        rwa [Secure, hsame.dirs]
      · rw [hplace] at hq
        refine hstart.put hput.nodes (hclosed.follow hstaged hq) fun hv => ?_
        rwa [Secure, hput.dirs]
  · intro heq
    rw [ne_eq, not_not, canonicalize, canonicalize, located_congr hnodes, located_congr hnodes] at heq
    exact hQ v ⟨hstart, hsecure, fun h => by rwa [Plain, hnodes], Or.inr ⟨heq, hnodes⟩⟩ rfl

theorem wp_writeRootFile {v : World} {path parent : Path} {contents : Bytes} {mode : Nat}
    {Q : Unit → World → Prop} {E : Stop → World → Prop} (hsafe : Safe S env source w v) (hpath : S path)
    (hQ : ∀ u q g, Safe S env source w u → (Secure v → Secure u) → u.commands = v.commands →
      v.place path = some q → u.nodes = v.nodes.insert q (.file g) → Whole env contents mode g → Q () u)
    (hE : ∀ e u, Safe S env source w u → E e u) :
    wp (writeRootFile env path parent contents mode) Q E v := by
  refine wp_mono (writeRootFile_spec path parent contents mode) ?_ ?_
  · intro _ u hu
    obtain ⟨hsecure, hcommands, q, g, hplace, hnodes, hwhole⟩ := hu
    exact hQ u q g (hsafe.put hnodes (hsafe.closed.follow hpath hplace) hsecure) hsecure hcommands
      hplace hnodes hwhole
  · intro e u hu
    apply hE
    obtain ⟨hsecure, hnodes | ⟨q, g, hplace, hnodes⟩⟩ := hu
    · exact hsafe.congr hnodes hsecure
    · exact hsafe.put hnodes (hsafe.closed.follow hpath hplace) hsecure

theorem stopRunning_spec {Q : Unit → World → Prop} {E : Stop → World → Prop}
    (hQ : ∀ u runs, BootedOut w runs → Ran runs w u → Q () u)
    (hE : ∀ u runs, Ran runs w u → E .killed u) :
    wp (stopRunning env) Q E w := by
  simp only [stopRunning, wp_bind, wp_state]
  apply wp_ite
  · intro hplist
    refine wp_mono (ignoring_spec .bootout) ?_ ?_
    · intro _ u hu
      obtain ⟨ok, hran⟩ := hu
      exact hQ u _ (Or.inl ⟨hplist, ok, rfl⟩) hran
    · intro e u hu
      obtain ⟨rfl, ok, hran⟩ := hu
      exact hE u _ hran
  · intro hplist
    rw [Bool.not_eq_true, Option.isSome_eq_false_iff] at hplist
    exact hQ w [] (Or.inr ⟨hplist, rfl⟩) ⟨rfl, rfl, (List.append_nil _).symm⟩

theorem load_spec {v : World} (hsafe : Safe S env source w v) :
    wp (do bootstrap env; ignoring (launchctl env .enable))
      (fun _ u => Safe S env source w u ∧ u.nodes = v.nodes ∧ u.dirs = v.dirs ∧ ∃ k ok, k < 10 ∧
        u.commands = v.commands ++ List.replicate k (.bootstrap, false) ++
          [(.bootstrap, true), (.enable, ok)])
      (fun _ u => Safe S env source w u) v := by
  rw [wp_bind]
  refine wp_mono (bootstrapFrom_spec 0 [] 10 v) ?_ ?_
  · intro _ t ht
    obtain ⟨k, hk, hran, _⟩ := ht
    refine wp_mono (ignoring_spec .enable) ?_ ?_
    · intro _ u hu
      obtain ⟨ok, henable⟩ := hu
      have hboth := hran.trans henable
      refine ⟨hsafe.ran hboth, hboth.nodes, hboth.dirs, k, ok, hk, ?_⟩
      rw [hboth.commands]
      simp
    · intro e u hu
      obtain ⟨_, ok, henable⟩ := hu
      exact hsafe.ran (hran.trans henable)
  · intro e u hu
    obtain ⟨runs, hran, _⟩ := hu
    exact hsafe.ran hran

theorem install_spec (hclosed : Closed S w.nodes) (hwritten : ∀ path ∈ written, S path) :
    wp (install env (some source))
      (fun _ u => Safe S env source w u ∧ (Plain w → Installed env source w u))
      (fun _ u => Safe S env source w u) w := by
  have hstart : Safe S env source w w := Safe.untouched hclosed rfl fun h => h
  rw [install, wp_bind]
  apply stopRunning_spec
  case hE =>
    intro u runs hran
    exact hstart.ran hran
  intro v₁ runs hruns hran
  rw [wp_bind]
  refine wp_mono rootOwnedDir_spec ?_ ?_
  case refine_2 =>
    intro e u hu
    exact (hstart.ran hran).congr hu.nodes hu.secure
  intro _ v₂ hv₂
  obtain ⟨⟨hnodes₂, hcommands₂, _⟩, hsecure₂⟩ := hv₂
  rw [wp_bind]
  apply placeBinary_spec hclosed (hwritten _ staged_written) (hnodes₂.trans hran.nodes) hsecure₂
  case hE => exact fun _ _ h => h
  intro v₃ hplaced hcommands₃
  rw [wp_bind]
  apply wp_writeRootFile hplaced.safe (hwritten _ plistPath_written)
  case hE => exact fun _ _ h => h
  intro v₄ q₄ f hsafe₄ hsecure₄ hcommands₄ hplace₄ hnodes₄ hplist
  rw [wp_bind]
  apply wp_writeRootFile hsafe₄ (hwritten _ newsyslogPath_written)
  case hE => exact fun _ _ h => h
  intro v₅ q₅ g hsafe₅ hsecure₅ hcommands₅ hplace₅ hnodes₅ hnewsyslog
  refine wp_mono (load_spec hsafe₅) ?_ (fun _ _ h => h)
  intro _ u hu
  obtain ⟨hsafe, hnodes, hdirs, k, ok, hk, hcommands⟩ := hu
  refine ⟨hsafe, fun hplain => ?_⟩
  have hplain₃ := hplaced.plain hplain
  have hq₄ : q₄ = plistPath :=
    Option.some.inj (hplace₄.symm.trans (hplain₃.place plistPath_written))
  have hq₅ : q₅ = newsyslogPath :=
    Option.some.inj (hplace₅.symm.trans ((hplain₃.put hnodes₄).place newsyslogPath_written))
  rw [hq₄] at hnodes₄
  rw [hq₅] at hnodes₅
  have hsecure : Secure u := by
    have h := hsecure₅ (hsecure₄ hplaced.secure)
    rwa [Secure, ← hdirs] at h
  have hsame : ∀ path, path ≠ plistPath → path ≠ newsyslogPath →
      u.nodes.lookup path = v₃.nodes.lookup path := by
    intro path hplistPath hnewsyslogPath
    rw [hnodes, hnodes₅, Finmap.lookup_insert_of_ne _ hnewsyslogPath, hnodes₄,
      Finmap.lookup_insert_of_ne _ hplistPath]
  have hbinary := hsame installedBinary (by decide) (by decide)
  have hstaged := hsame staged (by decide) (by decide)
  refine ⟨hsecure, ⟨f, ?_, hplist⟩, ⟨g, ?_, hnewsyslog⟩, ?_, ⟨runs, k, ok, hruns, hk, ?_⟩⟩
  · rw [hnodes, hnodes₅, Finmap.lookup_insert_of_ne _ (by decide), hnodes₄]
    exact Finmap.lookup_insert _
  · rw [hnodes, hnodes₅]
    exact Finmap.lookup_insert _
  · simp only [Replaced, IsLink, hbinary, hstaged]
    rcases hplaced.binary with ⟨hreplaced, hgone⟩ | ⟨hleft, hnodes₃⟩
    · exact Or.inl ⟨⟨hsecure, hreplaced.2⟩, hgone⟩
    · rw [hnodes₃]
      exact Or.inr ⟨hleft, rfl, rfl⟩
  · rw [hcommands, hcommands₅, hcommands₄, hcommands₃, hcommands₂, hran.commands]

theorem safe_of_closed (env : Env) (source : Path) (hclosed : Closed S w.nodes)
    (hwritten : ∀ path ∈ written, S path) : Safe S env source w (install env (some source) w).2 :=
  wp_snd.mp (wp_mono (install_spec hclosed hwritten) (fun _ _ h => h.1) fun _ _ h => h)

end Programs

/-- Wherever an installation ends, and the process may be killed in any of its calls; one that
cannot locate its executable has done nothing. -/
theorem install_safe (env : Env) (source : Path) (w : World) :
    Safe (Reached w.nodes written) env source w (install env (some source) w).2 ∧
      (install env none w).2 = w :=
  ⟨safe_of_closed env source (Reached.closed w.nodes written) fun _ h => .of_mem h, rfl⟩

theorem install_complete (env : Env) (source : Path) (w : World) (hplain : Plain w)
    (hok : (install env (some source) w).1 = .ok ()) :
    Installed env source w (install env (some source) w).2 := by
  have hspec := @install_spec env w _ source (Reached.closed w.nodes written) fun _ h => .of_mem h
  exact ((wp_iff.mp hspec).1 () _ (Prod.ext hok rfl)).2 hplain

def download : Path := "/tmp/muta".toList

def machO : File := ⟨[0xCF, 0xFA, 0xED, 0xFE], 0o755, 501⟩

def fresh : World where
  nodes := Finmap.singleton download (.file machO)
  dirs := ∅
  calls := 0
  commands := []
  slept := []

def slowExit : Env := ⟨fun n => if n = 15 then .failed none else .done, 501⟩

theorem fresh_plain : Plain fresh := by
  have habsent : ∀ path ∈ written, fresh.nodes.lookup path = none := by decide
  intro path hpath t hlink
  cases (habsent path hpath).symm.trans hlink

theorem install_complete_slow : (install slowExit (some download) fresh).1 = .ok () ∧
    Installed slowExit download fresh (install slowExit (some download) fresh).2 :=
  ⟨by decide +kernel, install_complete slowExit download fresh fresh_plain (by decide +kernel)⟩

end Muta.Service
