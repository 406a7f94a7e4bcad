import Telemetry.Program
import Telemetry.Proofs.Files.Place

/-!
# What calls do to a tree

Directories are made where there was nothing (`Files.Grows`), and any other call changes what stands
at one location (`Files.Changes`). Both compose, so that a program can be followed call by call. A
call that succeeds is known by the targets of its paths and what stands there (`Files.create_eq_ok`
and its like).
-/

namespace Telemetry

namespace Files

variable {f g h : Files} {p : Path} {l : Location} {places : List Location}

/-- Directories may have been made at some places where there was nothing; all else is as before. -/
structure Grows (f g : Files) (places : List Location) : Prop where
  here : g.here = f.here
  get? : ∀ l, g.get? l = f.get? l ∨
    (f.get? l = none ∧ g.get? l = some .directory ∧ l ∈ places)

/-- Something stands at a location afterwards, or nothing; all else is as before. -/
structure Changes (f g : Files) (l : Location) (node : Option Node) : Prop where
  here : g.here = f.here
  self : g.get? l = node
  others : ∀ l' ≠ l, g.get? l' = f.get? l'

/-! ### Making directories -/

theorem Grows.refl (f : Files) (places : List Location) : f.Grows f places :=
  ⟨rfl, fun _ => .inl rfl⟩

theorem Grows.trans (hfg : f.Grows g places) (hgh : g.Grows h places) : f.Grows h places where
  here := hgh.here.trans hfg.here
  get? := by
    intro l
    rcases hgh.get? l with hl | ⟨hnone, hdir, hmem⟩
    · rw [hl]
      exact hfg.get? l
    · rcases hfg.get? l with hl | ⟨-, hdir', -⟩
      · exact .inr ⟨hl ▸ hnone, hdir, hmem⟩
      · rw [hdir'] at hnone
        cases hnone

theorem Grows.mono {places' : List Location} (hfg : f.Grows g places) (h : places ⊆ places') :
    f.Grows g places' where
  here := hfg.here
  get? := fun l => (hfg.get? l).imp_right fun ⟨hnone, hdir, hmem⟩ => ⟨hnone, hdir, h hmem⟩

/-- The files are the same. -/
theorem Grows.file_iff (hfg : f.Grows g places) (l : Location) (c : Bytes) :
    g.get? l = some (.file c) ↔ f.get? l = some (.file c) := by
  rcases hfg.get? l with hl | ⟨hnone, hdir, -⟩
  · rw [hl]
  · simp [hnone, hdir]

/-- A directory is still there. -/
theorem Grows.directory (hfg : f.Grows g places) (h : f.get? l = some .directory) :
    g.get? l = some .directory := by
  rcases hfg.get? l with hl | ⟨hnone, -, -⟩
  · rw [hl, h]
  · rw [h] at hnone
    cases hnone

theorem Grows.keepsDirectories (hfg : f.Grows g places) : f.KeepsDirectories g :=
  ⟨hfg.here, fun _ => hfg.directory⟩

/-- A directory was there before or is at one of the places, where there was nothing. -/
theorem Grows.of_directory (hfg : f.Grows g places) (h : g.get? l = some .directory) :
    f.get? l = some .directory ∨ (f.get? l = none ∧ l ∈ places) := by
  rcases hfg.get? l with hl | ⟨hnone, -, hmem⟩
  · exact .inl (hl ▸ h)
  · exact .inr ⟨hnone, hmem⟩

/-! ### Changing what stands at one location -/

theorem ne_root_of_get?_ne (h : f.get? l ≠ some .directory) : l ≠ [] := by
  rintro rfl
  exact h rfl

theorem changes_set (hdir : f.get? l ≠ some .directory) (node : Node) :
    f.Changes (f.set l node) l (some node) :=
  ⟨rfl, get?_set_self f (ne_root_of_get?_ne hdir) node, fun _ hl' => get?_set_of_ne f hl' node⟩

theorem changes_erase (hdir : f.get? l ≠ some .directory) : f.Changes (f.erase l) l none :=
  ⟨rfl, get?_erase_self f (ne_root_of_get?_ne hdir), fun _ hl' => get?_erase_of_ne f hl'⟩

/-- Of two changes at one location the later one counts. -/
theorem Changes.trans {node node' : Option Node} (hfg : f.Changes g l node)
    (hgh : g.Changes h l node') : f.Changes h l node' where
  here := hgh.here.trans hfg.here
  self := hgh.self
  others := fun l' hl' => (hgh.others l' hl').trans (hfg.others l' hl')

/-- A change where there is no directory keeps all directories. -/
theorem Changes.keepsDirectories {node : Option Node} (hfg : f.Changes g l node)
    (hdir : f.get? l ≠ some .directory) : f.KeepsDirectories g where
  here := hfg.here
  get? := fun l' hl' => (hfg.others l' fun heq => hdir (heq ▸ hl')).trans hl'

/-- A change to what was there is none. -/
theorem Changes.get?_eq (hfg : f.Changes g l (f.get? l)) (l' : Location) :
    g.get? l' = f.get? l' := by
  by_cases hl : l' = l
  · rw [hl]
    exact hfg.self
  · exact hfg.others l' hl

/-! ### Calls that succeed -/

/-- A directory that is made was not there. -/
theorem makeDirectory_eq_ok (h : f.makeDirectory p = .ok g) :
    f.get? (f.place p) = none ∧ g = f.set (f.place p) .directory := by
  rw [makeDirectory, bind_eq_ok_iff] at h
  obtain ⟨x, htarget, h⟩ := h
  cases x with
  | directory l => cases h
  | entry l slash =>
    rw [← (eq_place_of_target htarget).1]
    dsimp only at h
    split at h
    · cases h
    · next hget =>
      cases h
      exact ⟨hget, rfl⟩

/-- Making a directory makes that one. -/
theorem grows_of_makeDirectory (h : f.makeDirectory p = .ok g) : f.Grows g [f.place p] := by
  obtain ⟨hnone, rfl⟩ := makeDirectory_eq_ok h
  have hset := changes_set (f := f) (l := f.place p) (by simp [hnone]) .directory
  refine ⟨hset.here, fun l => ?_⟩
  by_cases hl : l = f.place p
  · subst hl
    exact .inr ⟨hnone, hset.self, List.mem_singleton_self _⟩
  · exact .inl (hset.others l hl)

/-- A file that is made has no slash behind its name and is no directory. -/
theorem create_eq_ok (h : f.create p = .ok g) :
    f.target p = .ok (.entry (f.place p) false) ∧ f.get? (f.place p) ≠ some .directory ∧
      g = f.set (f.place p) (.file []) := by
  rw [create, bind_eq_ok_iff] at h
  obtain ⟨x, htarget, h⟩ := h
  cases x with
  | directory l => cases h
  | entry l slash =>
    rw [← (eq_place_of_target htarget).1]
    dsimp only at h
    split at h
    · cases h
    · next hnot =>
      simp only [Bool.or_eq_true, decide_eq_true_eq, not_or, Bool.not_eq_true] at hnot
      cases h
      exact ⟨hnot.1 ▸ htarget, hnot.2, rfl⟩

/-- A file is made where a path without a slash at its end leads, unless there is a directory. -/
theorem create_of_target (htarget : f.target p = .ok (.entry l false))
    (hdir : f.get? l ≠ some .directory) : f.create p = .ok (f.set l (.file [])) := by
  rw [create, bind_eq_ok_iff]
  exact ⟨_, htarget, by simp [hdir]⟩

/-- Bytes are added at the end of the file that a path leads to. -/
theorem append_eq_ok {slash : Bool} {contents : Bytes}
    (htarget : f.target p = .ok (.entry l slash)) (hget : f.get? l = some (.file contents))
    (bytes : Bytes) : f.append p bytes = .ok (f.set l (.file (contents ++ bytes))) := by
  rw [append, bind_eq_ok_iff]
  exact ⟨_, htarget, by simp only [hget]⟩

/-- A file is moved from the place of one path to that of another, which is no directory. -/
theorem rename_eq_ok {source destination : Path} (h : f.rename source destination = .ok g) :
    ∃ contents, f.target source = .ok (.entry (f.place source) false) ∧
      f.target destination = .ok (.entry (f.place destination) false) ∧
      f.get? (f.place source) = some (.file contents) ∧
      f.get? (f.place destination) ≠ some .directory ∧
      g = (f.erase (f.place source)).set (f.place destination) (.file contents) := by
  rw [rename, bind_eq_ok_iff] at h
  obtain ⟨x, hsource, h⟩ := h
  obtain ⟨y, hdestination, h⟩ := bind_eq_ok_iff.mp h
  cases x with
  | directory a => cases h
  | entry a slash =>
    cases y with
    | directory b => cases h
    | entry b slash' =>
      rw [← (eq_place_of_target hsource).1, ← (eq_place_of_target hdestination).1]
      dsimp only at h
      split at h
      · cases h
      · cases h
      · next contents hget =>
        split at h
        · cases h
        · next hslash =>
          simp only [Bool.or_eq_true, not_or, Bool.not_eq_true] at hslash
          split at h
          · cases h
          · next hdir =>
            cases h
            exact ⟨contents, hslash.1 ▸ hsource, hslash.2 ▸ hdestination, hget, hdir, rfl⟩

/-- A file is moved if neither path ends in a slash and it does not take the place of a directory.
-/
theorem rename_of_target {source destination : Path} {l' : Location} {contents : Bytes}
    (hsource : f.target source = .ok (.entry l' false))
    (hdestination : f.target destination = .ok (.entry l false))
    (hget : f.get? l' = some (.file contents)) (hdir : f.get? l ≠ some .directory) :
    f.rename source destination = .ok ((f.erase l').set l (.file contents)) := by
  rw [rename, bind_eq_ok_iff]
  refine ⟨_, hsource, bind_eq_ok_iff.mpr ⟨_, hdestination, ?_⟩⟩
  simp [hget, hdir]

/-- Only a file is removed. -/
theorem remove_eq_ok (h : f.remove p = .ok g) :
    ∃ contents, f.get? (f.place p) = some (.file contents) ∧ g = f.erase (f.place p) := by
  rw [remove, bind_eq_ok_iff] at h
  obtain ⟨x, htarget, h⟩ := h
  cases x with
  | directory l => cases h
  | entry l slash =>
    rw [← (eq_place_of_target htarget).1]
    dsimp only at h
    split at h
    · cases h
    · cases h
    · next contents hget =>
      split at h
      · cases h
      · cases h
        exact ⟨contents, hget, rfl⟩

/-- The file that a path without a slash at its end leads to is removed. -/
theorem remove_of_target {contents : Bytes} (htarget : f.target p = .ok (.entry l false))
    (hget : f.get? l = some (.file contents)) : f.remove p = .ok (f.erase l) := by
  rw [remove, bind_eq_ok_iff]
  exact ⟨_, htarget, by simp only [hget]; rfl⟩

/-- The file that a path without a slash at its end leads to is read. -/
theorem read_of_target {contents : Bytes} (htarget : f.target p = .ok (.entry l false))
    (hget : f.get? l = some (.file contents)) : f.read p = .ok contents := by
  rw [read, bind_eq_ok_iff]
  exact ⟨_, htarget, by simp only [hget]; rfl⟩

/-- A file is read if a path without a slash at its end leads there. -/
theorem read_eq_ok_iff {contents : Bytes} :
    f.read p = .ok contents ↔
      f.target p = .ok (.entry (f.place p) false) ∧ f.get? (f.place p) = some (.file contents) := by
  constructor
  · intro h
    rw [read, bind_eq_ok_iff] at h
    obtain ⟨x, htarget, h⟩ := h
    cases x with
    | directory l => cases h
    | entry l slash =>
      rw [← (eq_place_of_target htarget).1]
      dsimp only at h
      split at h
      · cases h
      · cases h
      · next hget =>
        split at h
        · cases h
        · next hslash =>
          cases h
          rw [Bool.not_eq_true] at hslash
          exact ⟨hslash ▸ htarget, hget⟩
  · rintro ⟨htarget, hget⟩
    exact read_of_target htarget hget

/-- A path that could be read can be read if all directories are kept and a file is still there. -/
theorem KeepsDirectories.read {contents contents' : Bytes} (h : f.KeepsDirectories g)
    (hread : f.read p = .ok contents) (hget : g.get? (f.place p) = some (.file contents')) :
    g.read p = .ok contents' :=
  read_of_target (h.target (read_eq_ok_iff.mp hread).1) hget

/-- A file that is moved goes away in one place and then comes to another, which is no directory.
All directories are kept, and the other path leads to the file. -/
theorem changes_rename {source : Path} {contents : Bytes} (h : f.rename source p = .ok g)
    (hget : f.get? (f.place source) = some (.file contents)) :
    ∃ m, f.Changes m (f.place source) none ∧ m.Changes g (f.place p) (some (.file contents)) ∧
      f.get? (f.place p) ≠ some .directory ∧ f.KeepsDirectories g ∧ g.read p = .ok contents := by
  obtain ⟨contents, -, htarget, hcontents, hdir, rfl⟩ := rename_eq_ok h
  rw [hget] at hcontents
  cases hcontents
  have hfile : f.get? (f.place source) ≠ some .directory := by simp [hget]
  have herase := changes_erase hfile
  have hdir' : (f.erase (f.place source)).get? (f.place p) ≠ some .directory := fun heq => by
    by_cases hplace : f.place p = f.place source
    · rw [hplace, herase.self] at heq
      cases heq
    · exact hdir (herase.others _ hplace ▸ heq)
  have hset := changes_set hdir' (.file contents)
  have hkeeps := (herase.keepsDirectories hfile).trans (hset.keepsDirectories hdir')
  exact ⟨_, herase, hset, hdir, hkeeps, read_of_target (hkeeps.target htarget) hset.self⟩

/-! ### The working directory -/

theorem here_changed {r : Except FileError Files} (h : ∀ g, r = .ok g → g.here = f.here) :
    (f.changed r).2.here = f.here := by
  cases r with
  | ok g => exact h g rfl
  | error e => rfl

/-- No call changes the working directory. -/
theorem here_perform (f : Files) (c : Call) : (f.perform c).2.here = f.here := by
  cases c with
  | read p => rfl
  | isDirectory p => rfl
  | makeDirectory p => exact here_changed fun g hg => by rw [(makeDirectory_eq_ok hg).2, here_set]
  | create p => exact here_changed fun g hg => by rw [(create_eq_ok hg).2.2, here_set]
  | append p bytes =>
    cases happend : f.append p bytes with
    | error e => simp only [perform, happend]
    | ok g =>
      simp only [perform, happend]
      rw [append, bind_eq_ok_iff] at happend
      obtain ⟨x, -, h⟩ := happend
      cases x with
      | directory l => cases h
      | entry l slash =>
        dsimp only at h
        split at h
        · cases h
        · cases h
        · cases h
          exact here_set f l _
  | rename source destination =>
    refine here_changed fun g hg => ?_
    obtain ⟨contents, -, -, -, -, rfl⟩ := rename_eq_ok hg
    rw [here_set, here_erase]
  | remove p =>
    refine here_changed fun g hg => ?_
    obtain ⟨contents, -, rfl⟩ := remove_eq_ok hg
    rw [here_erase]

end Files

/-- No program changes the working directory. -/
theorem Program.here_run {α : Type} (f : Files) (x : Program α) :
    (x.run f).files.here = f.here := by
  induction x generalizing f with
  | done y => rfl
  | note e next ih => exact ih f
  | call c next ih => exact (ih (f.perform c).1 (f.perform c).2).trans (f.here_perform c)

end Telemetry
