import Mathlib.Logic.Relation
import Muta.Service.Install

/-!
# Removing the service

The files are removed one by one, and a file that cannot be removed ends the removal. It
can then be started again, and so can an installation that was broken off: whatever was
begun before, a removal that succeeds removes the six files, also those that were there at
first, and leaves nothing new but perhaps the staged binary. All the while, nothing but a
whole binary is put in the place of the binary.
-/

namespace Muta.Service

open Act Links
set_option autoImplicit false

def removed : List Path :=
  [plistPath, newsyslogPath, logPath, pidPath, socketPath, installedBinary]

def Empty (dir : Path) (w : World) : Prop :=
  (∀ path ∈ w.nodes.keys, ¬ dir ++ ['/'] <+: path) ∧
    ∀ path ∈ w.dirs.keys, ¬ dir ++ ['/'] <+: path

instance (dir : Path) (w : World) : Decidable (Empty dir w) :=
  inferInstanceAs (Decidable (_ ∧ _))

variable (env : Env)

/-- The loop of `uninstall`. -/
def removeFiles : List Path → ServiceM Unit
  | [] => pure ()
  | path :: rest => do
    removeFile env path
    removeFiles rest

/-- Only an empty directory can be removed. -/
def removeDir (dir : Path) : ServiceM Unit := do
  if Empty dir (← state) then
    sys env [] (fun w => { w with dirs := w.dirs.erase dir }) fun _ w => w
  else
    sys env [] id fun _ w => w
    stop (.error [])

def uninstall : ServiceM Unit := do
  stopRunning env
  removeFiles env removed
  ignoring (removeDir env installDir)

/-- The first of the files are gone, and nothing else has changed. -/
structure Cleared (done : List Path) (w u : World) : Prop where
  nodes : u.nodes = Table.eraseAll done w.nodes
  dirs : u.dirs = w.dirs

section Removal

variable {env : Env}

theorem removeFiles_spec (paths : List Path) (w : World) :
    wp (removeFiles env paths) (fun _ u => Cleared paths w u)
      (fun e u => ∃ done path rest, paths = done ++ path :: rest ∧ Cleared done w u ∧
        (e = .killed ∨ e = .error ("removing ".toList ++ path))) w := by
  induction paths generalizing w with
  | nil => exact ⟨rfl, rfl⟩
  | cons path paths ih =>
    rw [removeFiles, wp_bind]
    unfold wp removeFile sys
    cases env.verdict w.calls with
    | failed n => exact ⟨[], path, paths, rfl, by cases n <;> exact ⟨rfl, rfl⟩, Or.inr rfl⟩
    | killed n => exact ⟨[], path, paths, rfl, by cases n <;> exact ⟨rfl, rfl⟩, Or.inl rfl⟩
    | _ =>
      refine wp_mono (ih _) ?_ ?_
      · intro _ u hu
        exact ⟨hu.nodes, hu.dirs⟩
      · intro e u hu
        obtain ⟨done, next, rest, hpaths, hcleared, he⟩ := hu
        refine ⟨path :: done, next, rest, ?_, ⟨hcleared.nodes, hcleared.dirs⟩, he⟩
        rw [hpaths, List.cons_append]

theorem removeDir_spec (dir : Path) (w : World) :
    wp (ignoring (removeDir env dir))
      (fun _ u => u.nodes = w.nodes ∧ (u.dirs = w.dirs ∨ Empty dir w ∧ u.dirs = w.dirs.erase dir))
      (fun e u => e = .killed ∧ u.nodes = w.nodes ∧ u.dirs = w.dirs) w := by
  have hkept : wp (removeDir env dir)
      (fun _ u => u.nodes = w.nodes ∧ Empty dir w ∧ u.dirs = w.dirs.erase dir)
      (fun _ u => u.nodes = w.nodes ∧ u.dirs = w.dirs) w := by
    simp only [removeDir, wp_bind, wp_state]
    apply wp_ite
    · intro hempty
      exact wp_sys ⟨rfl, hempty, rfl⟩ (fun _ => ⟨rfl, rfl⟩) fun _ _ => ⟨rfl, rfl⟩
    · intro _
      rw [wp_bind]
      exact wp_sys ⟨rfl, rfl⟩ (fun _ => ⟨rfl, rfl⟩) fun _ _ => ⟨rfl, rfl⟩
  apply wp_ignoring (wp_mono hkept (fun _ _ h => ⟨h.1, Or.inr h.2⟩) fun _ _ h => h)
  · intro _ u hu
    exact ⟨hu.1, Or.inl hu.2⟩
  · intro u hu
    exact ⟨rfl, hu⟩

end Removal

/-- How a removal may end. -/
inductive Removal (w : World) : Except Stop Unit × World → Prop where
  | kept {u : World} : Cleared removed w u → Removal w (.ok (), u)
  | emptied {u : World} : u.nodes = Table.eraseAll removed w.nodes → Empty installDir u →
      u.dirs = w.dirs.erase installDir → Removal w (.ok (), u)
  | refused {done rest : List Path} {path : Path} {u : World} : removed = done ++ path :: rest →
      Cleared done w u → Removal w (.error (.error ("removing ".toList ++ path)), u)
  | killed {done rest : List Path} {u : World} : removed = done ++ rest → Cleared done w u →
      Removal w (.error .killed, u)

theorem uninstall_spec (env : Env) (w : World) : Removal w (uninstall env w) := by
  suffices h : wp (uninstall env) (fun a u => Removal w (.ok a, u))
      (fun e u => Removal w (.error e, u)) w by
    obtain ⟨hok, herror⟩ := wp_iff.mp h
    rcases hrun : uninstall env w with ⟨_ | _, u⟩
    · exact herror _ u hrun
    · exact hok _ u hrun
  rw [uninstall, wp_bind]
  apply stopRunning_spec
  case hE =>
    intro u runs hran
    exact .killed (List.nil_append removed).symm ⟨hran.nodes, hran.dirs⟩
  intro v runs _ hran
  -- The service is stopped and no file is touched yet.
  have hcleared : ∀ {done : List Path} {u : World}, Cleared done v u → Cleared done w u := by
    intro done u h
    exact ⟨by rw [h.nodes, hran.nodes], h.dirs.trans hran.dirs⟩
  rw [wp_bind]
  refine wp_mono (removeFiles_spec removed v) ?_ ?_
  · intro _ t ht
    refine wp_mono (removeDir_spec installDir t) ?_ ?_
    · intro _ u hu
      obtain ⟨hnodes, hdirs | ⟨hempty, hdirs⟩⟩ := hu
      · exact .kept (hcleared ⟨hnodes.trans ht.nodes, hdirs.trans ht.dirs⟩)
      · refine .emptied (hnodes.trans (hcleared ht).nodes) ⟨?_, ?_⟩ ?_
        · rw [hnodes]
          exact hempty.1
        · intro path hpath
          rw [hdirs] at hpath
          exact hempty.2 path (Finmap.mem_keys.mpr (Finmap.mem_erase.mp (Finmap.mem_keys.mp hpath)).2)
        · rw [hdirs, (hcleared ht).dirs]
    · intro e u hu
      obtain ⟨rfl, hnodes, hdirs⟩ := hu
      exact .killed (List.append_nil removed).symm
        (hcleared ⟨hnodes.trans ht.nodes, hdirs.trans ht.dirs⟩)
  · intro e u hu
    obtain ⟨done, path, rest, hremoved, hdone, rfl | rfl⟩ := hu
    · exact .killed hremoved (hcleared hdone)
    · exact .refused hremoved (hcleared hdone)

/-- What the daemon writes while it runs. -/
def ofDaemon : List Path := [logPath, pidPath, socketPath]

theorem written_covered : ∀ k ∈ written, k ∈ staged :: removed := by decide

theorem ofDaemon_covered : ∀ k ∈ ofDaemon, k ∈ staged :: removed := by decide

theorem installedBinary_removed : installedBinary ∈ removed := by decide

/-- An installation or a removal, however it ends, or a daemon that runs between them. -/
inductive Attempt (w : World) : World → Prop where
  | installed (env : Env) (currentExe : Option Path) : Attempt w (install env currentExe w).2
  | uninstalled (env : Env) : Attempt w (uninstall env w).2
  | ran {u : World} : (∀ k, ¬ Reached w.nodes ofDaemon k → u.nodes.lookup k = w.nodes.lookup k) →
      (∀ k t, IsLink u.nodes k t → IsLink w.nodes k t) → u.dirs = w.dirs → Attempt w u

abbrev Attempts : World → World → Prop := Relation.ReflTransGen Attempt

theorem Removal.beginning {w : World} {r : Except Stop Unit × World} (h : Removal w r) :
    ∃ done rest, removed = done ++ rest ∧ r.2.nodes = Table.eraseAll done w.nodes ∧
      (r.2.dirs = w.dirs ∨ rest = []) := by
  cases h with
  | kept h => exact ⟨removed, [], (List.append_nil removed).symm, h.nodes, Or.inl h.dirs⟩
  | emptied hnodes => exact ⟨removed, [], (List.append_nil removed).symm, hnodes, Or.inr rfl⟩
  | refused hremoved h => exact ⟨_, _, hremoved, h.nodes, Or.inl h.dirs⟩
  | killed hremoved h => exact ⟨_, _, hremoved, h.nodes, Or.inl h.dirs⟩

theorem Removal.nodes_of_ok {w u : World} (h : Removal w (.ok (), u)) :
    u.nodes = Table.eraseAll removed w.nodes := by
  cases h with
  | kept h => exact h.nodes
  | emptied hnodes => exact hnodes

section Attempts

variable {S : Path → Prop} {w u v : World}

theorem Attempt.closed (h : Attempt w u) (hclosed : Closed S w.nodes) (hwritten : ∀ k ∈ written, S k) :
    Closed S u.nodes := by
  cases h with
  | installed env currentExe =>
    cases currentExe with
    | none => exact hclosed
    | some source => exact (safe_of_closed env source hclosed hwritten).closed
  | uninstalled env =>
    obtain ⟨done, _, _, hnodes, _⟩ := (uninstall_spec env w).beginning
    rw [hnodes]
    exact hclosed.eraseAll done
  | ran _ hlinks _ => exact hclosed.of_links hlinks

theorem Attempt.others (h : Attempt w u) (hclosed : Closed S w.nodes)
    (hall : ∀ k ∈ staged :: removed, S k) {k : Path} (hk : ¬ S k) :
    u.nodes.lookup k = w.nodes.lookup k := by
  have hwritten : ∀ k ∈ written, S k := fun k hmem => hall k (written_covered k hmem)
  cases h with
  | installed env currentExe =>
    cases currentExe with
    | none => rfl
    | some source =>
      apply (safe_of_closed env source hclosed hwritten).others k hk
      rintro rfl
      exact hk (hall _ (List.mem_cons_of_mem _ installedBinary_removed))
  | uninstalled env =>
    obtain ⟨done, rest, hremoved, hnodes, _⟩ := (uninstall_spec env w).beginning
    rw [hnodes]
    apply Table.lookup_eraseAll_of_notMem
    intro hmem
    apply hk
    apply hall
    rw [hremoved]
    exact List.mem_cons_of_mem _ (List.mem_append_left rest hmem)
  | ran hothers _ _ =>
    apply hothers
    intro hreached
    exact hk (hreached.le hclosed fun k hmem => hall k (ofDaemon_covered k hmem))

theorem Attempts.others (h : Attempts w v) {k : Path} (hk : ¬ Reached w.nodes (staged :: removed) k) :
    v.nodes.lookup k = w.nodes.lookup k := by
  suffices hboth : Closed (Reached w.nodes (staged :: removed)) v.nodes ∧
      v.nodes.lookup k = w.nodes.lookup k from hboth.2
  have hall : ∀ k ∈ staged :: removed, Reached w.nodes (staged :: removed) k := fun k h => .of_mem h
  induction h with
  | refl => exact ⟨Reached.closed _ _, rfl⟩
  | tail _ hlast ih =>
    have hwritten : ∀ k ∈ written, Reached w.nodes (staged :: removed) k := fun k hmem =>
      hall k (written_covered k hmem)
    exact ⟨hlast.closed ih.1 hwritten, (hlast.others ih.1 hall hk).trans ih.2⟩

/-- Whatever was begun before, a removal that succeeds removes the six files, whosever they were,
and has changed nothing else but the staged binary and what links lead to from there. -/
theorem uninstall_undoes (h : Attempts w v) (env : Env) (hok : (uninstall env v).1 = .ok ()) :
    (∀ k ∈ removed, (uninstall env v).2.nodes.lookup k = none) ∧
      ∀ k, ¬ Reached w.nodes (staged :: removed) k →
        (uninstall env v).2.nodes.lookup k = w.nodes.lookup k := by
  have hremoval := uninstall_spec env v
  rw [← Prod.mk.eta (p := uninstall env v), hok] at hremoval
  rw [hremoval.nodes_of_ok]
  constructor
  · intro k hk
    exact Table.lookup_eraseAll_of_mem hk
  · intro k hk
    have hmem : k ∉ removed := fun hmem => hk (.of_mem (List.mem_cons_of_mem _ hmem))
    rw [Table.lookup_eraseAll_of_notMem hmem]
    exact h.others hk

/-- What stands in the binary's place: what always stood there, nothing, or what an installation
put there as a whole, where only root can write. -/
inductive InPlace (w v : World) : Prop where
  | kept : v.nodes.lookup installedBinary = w.nodes.lookup installedBinary → InPlace w v
  | gone : v.nodes.lookup installedBinary = none → InPlace w v
  | copied {t : World} {env : Env} {source : Path} : Attempts w t → Replaced env source t v →
      InPlace w v

/-- No step tears the binary, and none opens its directory while it is there. -/
theorem Attempt.binary (h : Attempt w u) (hclosed : Closed S w.nodes)
    (hall : ∀ k ∈ written ++ ofDaemon, S k) (hbinary : ¬ S installedBinary) :
    u.nodes.lookup installedBinary = none ∨
      u.nodes.lookup installedBinary = w.nodes.lookup installedBinary ∧ (Secure w → Secure u) ∨
      ∃ env source, Replaced env source w u := by
  cases h with
  | installed env currentExe =>
    cases currentExe with
    | none => exact Or.inr (Or.inl ⟨rfl, id⟩)
    | some source =>
      have hwritten : ∀ k ∈ written, S k := fun k hk => hall k (List.mem_append_left _ hk)
      have hsafe := safe_of_closed env source hclosed hwritten
      rcases hsafe.binary hbinary with hkept | hreplaced
      · exact Or.inr (Or.inl ⟨hkept, hsafe.secure⟩)
      · exact Or.inr (Or.inr ⟨env, source, hreplaced⟩)
  | uninstalled env =>
    obtain ⟨done, rest, hremoved, hnodes, hdirs⟩ := (uninstall_spec env w).beginning
    rw [hnodes]
    by_cases hmem : installedBinary ∈ done
    · exact Or.inl (Table.lookup_eraseAll_of_mem hmem)
    · rcases hdirs with hdirs | rfl
      · refine Or.inr (Or.inl ⟨Table.lookup_eraseAll_of_notMem hmem, fun h => ?_⟩)
        rwa [Secure, hdirs]
      · rw [List.append_nil] at hremoved
        rw [← hremoved] at hmem
        exact absurd installedBinary_removed hmem
  | ran hothers _ hdirs =>
    refine Or.inr (Or.inl ⟨hothers _ fun hreached => hbinary ?_, fun h => ?_⟩)
    · exact hreached.le hclosed fun k hk => hall k (List.mem_append_right _ hk)
    · rwa [Secure, hdirs]

end Attempts

/-- The process is killed in its fourth call, two bytes into the copy. -/
def killedInCopy : Env := ⟨fun n => if n = 3 then .killed (some 2) else .done, 501⟩

def smooth : Env := ⟨fun _ => .done, 501⟩

/-- The files an installation that is killed and another one leave. -/
def broken : World :=
  (install slowExit (some download) (install killedInCopy (some download) fresh).2).2

theorem fresh_broken : Attempts fresh broken :=
  (Relation.ReflTransGen.single (.installed killedInCopy (some download))).tail
    (.installed slowExit (some download))

theorem fresh_unreached {ks : List Path} {k : Path} (habsent : ∀ path ∈ ks, fresh.nodes.lookup path = none)
    (hk : k ∉ ks) : ¬ Reached fresh.nodes ks k := by
  intro hreached
  apply hk
  apply hreached.mem_of_plain
  intro path hpath t hlink
  cases (habsent path hpath).symm.trans hlink

theorem uninstall_undoes_broken : (uninstall smooth broken).2.nodes.lookup installedBinary = none ∧
    (uninstall smooth broken).2.nodes.lookup download = fresh.nodes.lookup download := by
  have hundoes := uninstall_undoes fresh_broken smooth (by decide +kernel)
  exact ⟨hundoes.1 installedBinary installedBinary_removed,
    hundoes.2 download (fresh_unreached (by decide) (by decide))⟩

end Muta.Service
