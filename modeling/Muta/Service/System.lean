import Muta.Base.Act
import Muta.Base.Bytes
import Muta.Base.Links
import Muta.Base.Text

/-!
# Files, and calls that may fail

A path holds a file or a symbolic link to another path; no file has two names, and every
directory is where its path says. Calls that read or write a file, or change its mode or its
owner, follow links; renaming and removing do not. Every call may fail before it does anything
or with part of a file written, and the process may be killed in it. A volume may also report
a change of permissions as done and not make it.
-/

namespace Muta.Service

open Act Links
set_option autoImplicit false

abbrev Path := Text

structure File where
  contents : Bytes
  mode : Nat
  uid : Nat
deriving DecidableEq, Repr

structure Dir where
  mode : Nat
  uid : Nat
deriving DecidableEq, Repr

/-- A run of `launchctl`. -/
inductive Command where
  | bootout
  | bootstrap
  | enable
deriving DecidableEq, Repr

structure World where
  nodes : Table Path (Node Path File)
  dirs : Table Path Dir
  calls : Nat
  -- With whether they succeeded.
  commands : List (Command × Bool)
  slept : List Duration

/-- What becomes of a call. One that fails has written some bytes before, or has not touched
the file. -/
inductive Verdict where
  | done
  | noEffect
  | failed (written : Option Nat)
  | killed (written : Option Nat)
deriving DecidableEq, Repr

structure Env where
  verdict : Nat → Verdict
  -- Whose a copy is before it is given to root.
  owner : Nat

inductive Stop where
  | error (context : Text)
  | killed
deriving DecidableEq, Repr

abbrev ServiceM (α : Type) := Act Stop World α

/-- Where a call that follows links ends up; the system gives up after 32 of them. -/
def World.place (w : World) (path : Path) : Option Path := follow w.nodes 33 path

def World.located (w : World) (path : Path) : Option (Path × File) :=
  match w.place path with
  | none => none
  | some q =>
    match w.nodes.lookup q with
    | some (.file f) => some (q, f)
    | _ => none

def tick (w : World) : World := { w with calls := w.calls + 1 }

variable (env : Env)

/-- A call with a whole effect, and one for as much as was written before it failed. -/
def sys (context : Text) (effect : World → World) (partway : Nat → World → World) : ServiceM Unit :=
  fun w =>
    let stopped (written : Option Nat) : World :=
      match written with
      | none => tick w
      | some n => partway n (tick w)
    match env.verdict w.calls with
    | .done => (.ok (), effect (tick w))
    | .noEffect => (.ok (), effect (tick w))
    | .failed written => (.error (.error context), stopped written)
    | .killed written => (.error .killed, stopped written)

def changeAttr (context : Text) (effect : World → World) : ServiceM Unit := fun w =>
  match env.verdict w.calls with
  | .done => (.ok (), effect (tick w))
  | .noEffect => (.ok (), tick w)
  | .failed _ => (.error (.error context), tick w)
  | .killed _ => (.error .killed, tick w)

/-- A call that cannot succeed as the files are. -/
def refuse {α : Type} (context : Text) : ServiceM α := fun w => (.error (.error context), tick w)

def setFile (path : Path) (f : File) (w : World) : World :=
  { w with nodes := w.nodes.insert path (.file f) }

/-- A file written anew keeps the attributes of the one that was there. -/
def overwrite (path : Path) (contents : Bytes) (w : World) : World :=
  match w.nodes.lookup path with
  | some (.file f) => setFile path { f with contents } w
  | _ => setFile path ⟨contents, 0o644, 0⟩ w

def write (context : Text) (path : Path) (contents : Bytes) : ServiceM Unit := do
  match (← state).place path with
  | none => refuse context
  | some q => sys env context (overwrite q contents) fun n => overwrite q (contents.take n)

/-- A file copied onto itself is truncated; the permissions come with the contents. -/
def copy (source target : Path) : ServiceM Unit := do
  let context := "copying ".toList ++ source ++ " to ".toList ++ target
  match (← state).located source with
  | none => refuse context
  | some (p, f) =>
    match (← state).place target with
    | none => refuse context
    | some q =>
      let contents := if p = q then [] else f.contents
      sys env context (setFile q ⟨contents, f.mode, env.owner⟩)
        fun n => setFile q ⟨contents.take n, f.mode, env.owner⟩

def changeFile (context : Text) (path : Path) (f : File → File) : ServiceM Unit := do
  match (← state).located path with
  | none => refuse context
  | some (q, file) => changeAttr env context (setFile q (f file))

def setPermissions (path : Path) (mode : Nat) : ServiceM Unit :=
  changeFile env [] path fun f => { f with mode }

def chownRoot (path : Path) : ServiceM Unit :=
  changeFile env ("setting root ownership on ".toList ++ path) path fun f => { f with uid := 0 }

/-- The entry itself moves, a link too. -/
def rename (old target : Path) : ServiceM Unit := do
  match (← state).nodes.lookup old with
  | none => refuse []
  | some node =>
    sys env [] (fun w => { w with nodes := (w.nodes.erase old).insert target node }) fun _ w => w

/-- A file that is not there is as good as removed. -/
def removeFile (path : Path) : ServiceM Unit :=
  sys env ("removing ".toList ++ path) (fun w => { w with nodes := w.nodes.erase path })
    fun _ w => w

def createDirAll (context : Text) (dir : Path) : ServiceM Unit :=
  sys env context
    (fun w => if dir ∈ w.dirs then w else { w with dirs := w.dirs.insert dir ⟨0o755, 0⟩ })
    fun _ w => w

def onDir (path : Path) (f : Dir → Dir) (w : World) : World :=
  match w.dirs.lookup path with
  | some dir => { w with dirs := w.dirs.insert path (f dir) }
  | none => w

/-- An error that is let go; a killed process does not go on. -/
def ignoring (p : ServiceM Unit) : ServiceM Unit := fun w =>
  match p w with
  | (.error (.error _), w) => (.ok (), w)
  | r => r

/-- Every change of permissions has its effect. -/
def Honoured (env : Env) : Prop := ∀ n, env.verdict n ≠ .noEffect

section Calls

variable {env} {w : World} {E : Stop → World → Prop}

theorem wp_sys {context : Text} {effect : World → World} {partway : Nat → World → World}
    {Q : Unit → World → Prop} (hdone : Q () (effect (tick w))) (hnothing : ∀ e, E e (tick w))
    (hpart : ∀ e n, E e (partway n (tick w))) : wp (sys env context effect partway) Q E w := by
  unfold wp sys
  cases env.verdict w.calls with
  | done => exact hdone
  | noEffect => exact hdone
  | failed written =>
    cases written with
    | none => exact hnothing _
    | some n => exact hpart _ n
  | killed written =>
    cases written with
    | none => exact hnothing _
    | some n => exact hpart _ n

theorem wp_changeAttr {context : Text} {effect : World → World} {Q : Unit → World → Prop}
    (hdone : Q () (effect (tick w))) (hnone : ¬ Honoured env → Q () (tick w))
    (hstop : ∀ e, E e (tick w)) : wp (changeAttr env context effect) Q E w := by
  unfold wp changeAttr
  cases hverdict : env.verdict w.calls with
  | done => exact hdone
  | noEffect => exact hnone fun h => h _ hverdict
  | failed written => exact hstop _
  | killed written => exact hstop _

theorem wp_ignoring {p : ServiceM Unit} {Q : Unit → World → Prop} {E' : Stop → World → Prop}
    (h : wp p Q E' w) (hgo : ∀ context u, E' (.error context) u → Q () u)
    (hkilled : ∀ u, E' .killed u → E .killed u) : wp (ignoring p) Q E w := by
  unfold wp at h ⊢
  rw [ignoring]
  generalize p w = r at h
  obtain ⟨r, u⟩ := r
  rcases r with (context | _) | _
  · exact hgo context u h
  · exact hkilled u h
  · exact h

theorem located_eq_some {path q : Path} {f : File} :
    w.located path = some (q, f) ↔ w.place path = some q ∧ w.nodes.lookup q = some (.file f) := by
  rw [World.located]
  cases w.place path with
  | none => simp
  | some q' =>
    dsimp only
    split
    · rename_i f' hfile
      rw [Option.some.injEq, Prod.mk.injEq, Option.some.injEq]
      constructor
      · rintro ⟨rfl, rfl⟩
        exact ⟨rfl, hfile⟩
      · rintro ⟨rfl, hlookup⟩
        cases hfile.symm.trans hlookup
        exact ⟨rfl, rfl⟩
    · rename_i hno
      constructor
      · intro h
        cases h
      · rintro ⟨hq, hlookup⟩
        cases hq
        exact absurd hlookup (hno f)

/-- From `w` to `u` only the entry at `path` has changed, which is the file `f` now. -/
structure Put (path : Path) (f : File) (w u : World) : Prop where
  nodes : u.nodes = w.nodes.insert path (.file f)
  dirs : u.dirs = w.dirs
  commands : u.commands = w.commands

structure Same (w u : World) : Prop where
  nodes : u.nodes = w.nodes
  dirs : u.dirs = w.dirs
  commands : u.commands = w.commands

theorem Same.tick (w : World) : Same w (tick w) := ⟨rfl, rfl, rfl⟩

namespace Put

variable {path q : Path} {f : File} {u v : World}

theorem lookup (h : Put path f w u) : u.nodes.lookup path = some (.file f) := by
  rw [h.nodes]
  exact Finmap.lookup_insert w.nodes

theorem of_same (hsame : Same w v) (h : Put path f v u) : Put path f w u :=
  ⟨by rw [h.nodes, hsame.nodes], h.dirs.trans hsame.dirs, h.commands.trans hsame.commands⟩

theorem same (h : Put path f w v) (hsame : Same v u) : Put path f w u :=
  ⟨hsame.nodes.trans h.nodes, hsame.dirs.trans h.dirs, hsame.commands.trans h.commands⟩

theorem setFile (w : World) (path : Path) (f : File) : Put path f w (setFile path f w) :=
  ⟨rfl, rfl, rfl⟩

theorem again {g : File} (h : Put path f w v) (hagain : Put path g v u) : Put path g w u where
  nodes := by rw [hagain.nodes, h.nodes, Finmap.insert_insert]
  dirs := hagain.dirs.trans h.dirs
  commands := hagain.commands.trans h.commands

theorem overwrite (path : Path) (contents : Bytes) (w : World) :
    ∃ f, f.contents = contents ∧ Put path f w (overwrite path contents w) := by
  rw [Service.overwrite]
  split
  · exact ⟨_, rfl, Put.setFile w path _⟩
  · exact ⟨_, rfl, Put.setFile w path _⟩

theorem located (h : Put q f w u) (hplace : w.place path = some q) : u.located path = some (q, f) := by
  rw [located_eq_some]
  refine ⟨?_, h.lookup⟩
  rw [World.place, h.nodes, follow_insert_file (fun t => not_isLink_of_follow hplace)]
  exact hplace

end Put

theorem write_spec {context : Text} (path : Path) (contents : Bytes) :
    wp (write env context path contents)
      (fun _ u => ∃ q f, w.place path = some q ∧ Put q f w u ∧ f.contents = contents)
      (fun _ u => Same w u ∨ ∃ q f, w.place path = some q ∧ Put q f w u) w := by
  simp only [write, wp_bind, wp_state]
  cases hplace : w.place path with
  | none => exact Or.inl (Same.tick w)
  | some q =>
    apply wp_sys
    · obtain ⟨f, hf, hput⟩ := Put.overwrite q contents (tick w)
      exact ⟨q, f, rfl, .of_same (.tick w) hput, hf⟩
    · intro e
      exact Or.inl (Same.tick w)
    · intro e n
      obtain ⟨f, _, hput⟩ := Put.overwrite q (contents.take n) (tick w)
      exact Or.inr ⟨q, f, rfl, .of_same (.tick w) hput⟩

theorem copy_spec (source target : Path) :
    wp (copy env source target)
      (fun _ u => ∃ p exe q f, w.located source = some (p, exe) ∧ w.place target = some q ∧
        Put q f w u ∧ f.contents = if p = q then [] else exe.contents)
      (fun _ u => Same w u ∨ ∃ q f, w.place target = some q ∧ Put q f w u) w := by
  simp only [copy, wp_bind, wp_state]
  cases hsource : w.located source with
  | none => exact Or.inl (Same.tick w)
  | some located =>
    obtain ⟨p, exe⟩ := located
    simp only [wp_bind, wp_state]
    cases hplace : w.place target with
    | none => exact Or.inl (Same.tick w)
    | some q =>
      apply wp_sys
      · exact ⟨p, exe, q, _, rfl, rfl, .of_same (.tick w) (.setFile _ q _), rfl⟩
      · intro e
        exact Or.inl (Same.tick w)
      · intro e n
        exact Or.inr ⟨q, _, rfl, .of_same (.tick w) (.setFile _ q _)⟩

theorem wp_changeFile {context : Text} {path q : Path} {f : File} {g : File → File}
    {Q : Unit → World → Prop} (hlocated : w.located path = some (q, f))
    (hdone : ∀ u, Put q (g f) w u → Q () u) (hnone : ∀ u, ¬ Honoured env → Same w u → Q () u)
    (hstop : ∀ e u, Same w u → E e u) : wp (changeFile env context path g) Q E w := by
  simp only [changeFile, wp_bind, wp_state, hlocated]
  apply wp_changeAttr
  · exact hdone _ (.of_same (.tick w) (.setFile _ q _))
  · intro hnot
    exact hnone _ hnot (.tick w)
  · intro e
    exact hstop e _ (.tick w)

/-- The file is the wanted one; its attributes are if the volume honours them. -/
structure Whole (env : Env) (contents : Bytes) (mode : Nat) (f : File) : Prop where
  contents : f.contents = contents
  mode : Honoured env → f.mode = mode
  uid : Honoured env → f.uid = 0

theorem attributes_spec {path q : Path} {f : File} {v : World} (mode : Nat)
    (hplace : w.place path = some q) (h : Put q f w v) {Q : Unit → World → Prop}
    (hQ : ∀ g u, Put q g w u → Whole env f.contents mode g → Q () u)
    (hE : ∀ e g u, Put q g w u → E e u) :
    wp (setPermissions env path mode) (fun _ t => wp (chownRoot env path) Q E t) E v := by
  have howned : ∀ {g : File} {t : World}, Put q g w t → g.contents = f.contents →
      (Honoured env → g.mode = mode) → wp (chownRoot env path) Q E t := by
    intro g t hg hcontents hmode
    apply wp_changeFile (hg.located hplace)
    · intro u hu
      exact hQ _ u (hg.again hu) ⟨hcontents, hmode, fun _ => rfl⟩
    · intro u hnot hu
      exact hQ g u (hg.same hu) ⟨hcontents, fun hh => absurd hh hnot, fun hh => absurd hh hnot⟩
    · intro e u hu
      exact hE e g u (hg.same hu)
  apply wp_changeFile (h.located hplace)
  · intro u hu
    exact howned (h.again hu) rfl fun _ => rfl
  · intro u hnot hu
    exact howned (h.same hu) rfl fun hh => absurd hh hnot
  · intro e u hu
    exact hE e f u (h.same hu)

end Calls

end Muta.Service
