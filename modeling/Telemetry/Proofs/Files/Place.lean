import Telemetry.Files.Tree
import Telemetry.Proofs.Basic

/-!
# Places of paths

Since a tree has no links, the names in a path alone say where it leads: to its place
(`Files.place`). What stands in the tree only decides whether one gets there, and for that nothing
but the directories matters. So a path that can be followed leads to its place, and it can still be
followed after a change that keeps all directories (`Files.target_mono`).

The temporary file for a path never has the place of the path itself, because its name is longer, or
because it lies in the directory that the path leads to.
-/

namespace Telemetry

/-- Where a name leads from a directory. -/
def Location.enter (start : Location) (name : String) : Location :=
  if name = "." then start else if name = ".." then start.dropLast else start ++ [name]

namespace Files

variable {f g : Files} {p : Path} {start l : Location}

/-- Where the names in a path lead, whether or not anything stands there. -/
def place (f : Files) (p : Path) : Location :=
  p.steps.foldl Location.enter (if p.absolute then [] else f.here)

/-- Places depend on the working directory only. -/
theorem place_congr (h : g.here = f.here) : g.place p = f.place p := by
  rw [place, place, h]

/-! ### Following a path leads to its place -/

/-- One name leads where it says. -/
theorem eq_enter_of_step {name : String} (h : f.step start name = .ok l) :
    l = Location.enter start name := by
  unfold step at h
  split at h
  · next hdot =>
    cases h
    exact (if_pos hdot).symm
  · next hdot =>
    rw [Location.enter, if_neg hdot]
    split at h
    · next hdots =>
      cases h
      exact (if_pos hdots).symm
    · next hdots =>
      rw [if_neg hdots]
      split at h
      · cases h
      · split at h
        · cases h
        · cases h
        · cases h
          rfl

/-- Several names lead where they say. -/
theorem eq_foldl_of_walk {names : List String} (h : f.walk start names = .ok l) :
    l = names.foldl Location.enter start := by
  induction names generalizing start with
  | nil =>
    cases h
    rfl
  | cons name names ih =>
    obtain ⟨next, hstep, hrest⟩ := bind_eq_ok_iff.mp h
    rw [List.foldl_cons, ← eq_enter_of_step hstep]
    exact ih hrest

/-- A path that ends in an ordinary name leads to an entry of that name, which is its place. -/
theorem eq_place_of_target {slash : Bool} (h : f.target p = .ok (.entry l slash)) :
    l = f.place p ∧ ∃ parent last,
      l = parent ++ [last] ∧ p.steps.getLast? = some last ∧ last ≠ "." ∧ last ≠ ".." := by
  obtain ⟨-, -, h⟩ := bind_eq_ok_iff.mp h
  dsimp only at h
  split at h
  · cases h
  · next last hlast =>
    obtain ⟨parent, hwalk, h⟩ := bind_eq_ok_iff.mp h
    split at h
    · cases h
    · next hdot =>
      split at h
      · cases h
      · next hdots =>
        split at h
        · cases h
        · cases h
          refine ⟨?_, parent, last, rfl, hlast, hdot, hdots⟩
          obtain ⟨names, hnames⟩ := List.getLast?_eq_some_iff.mp hlast
          rw [hnames, List.dropLast_concat] at hwalk
          rw [place, hnames, List.foldl_append, ← eq_foldl_of_walk hwalk]
          simp [Location.enter, hdot, hdots]

/-! ### Following a path in a tree with more directories -/

/-- The directories of one tree are directories of another, with the same working directory. -/
structure KeepsDirectories (f g : Files) : Prop where
  here : g.here = f.here
  get? : ∀ l, f.get? l = some .directory → g.get? l = some .directory

theorem KeepsDirectories.trans {h : Files} (hfg : f.KeepsDirectories g)
    (hgh : g.KeepsDirectories h) : f.KeepsDirectories h :=
  ⟨hgh.here.trans hfg.here, fun l hl => hgh.get? l (hfg.get? l hl)⟩

theorem KeepsDirectories.step {name : String} (h : f.KeepsDirectories g)
    (hstep : f.step start name = .ok l) : g.step start name = .ok l := by
  unfold Files.step at hstep ⊢
  split at hstep
  · next hdot => rwa [if_pos hdot]
  · next hdot =>
    rw [if_neg hdot]
    split at hstep
    · next hdots => rwa [if_pos hdots]
    · next hdots =>
      rw [if_neg hdots]
      split at hstep
      · cases hstep
      · next hlength =>
        rw [if_neg hlength]
        split at hstep
        · cases hstep
        · cases hstep
        · next hdir =>
          rw [h.get? _ hdir]
          exact hstep

theorem KeepsDirectories.walk {names : List String} (h : f.KeepsDirectories g)
    (hwalk : f.walk start names = .ok l) : g.walk start names = .ok l := by
  induction names generalizing start with
  | nil => exact hwalk
  | cons name names ih =>
    obtain ⟨next, hstep, hrest⟩ := bind_eq_ok_iff.mp hwalk
    exact bind_eq_ok_iff.mpr ⟨next, h.step hstep, ih hrest⟩

/-- A path that can be followed can be followed to the same target if all directories are kept. -/
theorem KeepsDirectories.target {x : Target} (h : f.KeepsDirectories g)
    (htarget : f.target p = .ok x) : g.target p = .ok x := by
  obtain ⟨u, hcheck, hrest⟩ := bind_eq_ok_iff.mp htarget
  refine bind_eq_ok_iff.mpr ⟨u, hcheck, ?_⟩
  rw [h.here]
  dsimp only at hrest ⊢
  split at hrest
  · exact hrest
  · obtain ⟨parent, hwalk, hlast⟩ := bind_eq_ok_iff.mp hrest
    exact bind_eq_ok_iff.mpr ⟨parent, h.walk hwalk, hlast⟩

end Files

/-! ### The temporary file for a path -/

namespace Path

variable {p : Path}

theorem getLast?_push (p : Path) (name : String) : (p.push name).segments.getLast? = some name := by
  unfold push
  split <;> simp

theorem getLast?_withFileName (p : Path) (name : String) :
    (p.withFileName name).segments.getLast? = some name := by
  unfold withFileName
  split
  · exact getLast?_push p name
  · split
    · rfl
    · exact getLast?_push _ name

/-- A last segment with something in it is the last name to follow. -/
theorem getLast?_steps {name : String} (h : p.segments.getLast? = some name) (hname : name ≠ "") :
    p.steps.getLast? = some name := by
  obtain ⟨names, hnames⟩ := List.getLast?_eq_some_iff.mp h
  rw [steps, hnames, List.filter_append]
  simp [hname]

/-- The last name in the path of the temporary file is the name made for it. -/
theorem getLast?_steps_temporary (p : Path) (writer : Nat) :
    (p.temporary writer).steps.getLast? =
      some (temporaryName (p.fileName?.getD "") writer) := by
  refine getLast?_steps (getLast?_withFileName p _) ?_
  rw [ne_eq, ← String.toList_inj]
  simp [temporaryName]

/-- The name of a temporary file is longer than that of the file that it is for. -/
theorem length_lt_temporaryName (name : String) (writer : Nat) :
    name.length + 2 < (temporaryName name writer).length := by
  have hdot : ".".length = 1 := rfl
  have hend : ".tmp".length = 4 := rfl
  simp only [temporaryName, String.length_append]
  omega

/-- The name of a temporary file is none of the short names. -/
theorem temporaryName_ne {fileName name : String} {writer : Nat} (h : name.length ≤ 2) :
    temporaryName fileName writer ≠ name := by
  rintro rfl
  have hlength := length_lt_temporaryName fileName writer
  omega

end Path

namespace Files

/-- A path that ends in an ordinary name has a place of that name. -/
theorem exists_place_eq (f : Files) {p : Path} {last : String} (h : p.steps.getLast? = some last)
    (hdot : last ≠ ".") (hdots : last ≠ "..") : ∃ parent, f.place p = parent ++ [last] := by
  obtain ⟨names, hnames⟩ := List.getLast?_eq_some_iff.mp h
  refine ⟨names.foldl Location.enter (if p.absolute then [] else f.here), ?_⟩
  rw [place, hnames, List.foldl_append]
  simp [Location.enter, hdot, hdots]

/-- Dots do not matter for where a path leads. -/
theorem place_eq_foldl_names (f : Files) (p : Path) :
    f.place p = (p.segments.filter Path.isName).foldl Location.enter
      (if p.absolute then [] else f.here) := by
  have hnames : p.segments.filter Path.isName = p.steps.filter (· ≠ ".") := by
    rw [Path.steps, List.filter_filter]
    refine List.filter_congr fun s _ => ?_
    rw [Bool.eq_iff_iff]
    simp [Path.isName, and_comm]
  rw [hnames, List.foldl_filter, place]
  congr 1
  funext start name
  by_cases hdot : name = "." <;> simp [Location.enter, hdot]

/-- A path with a file name has a place of that name. -/
theorem exists_place_eq_of_fileName {p : Path} {name : String} (f : Files)
    (h : p.fileName? = some name) : ∃ parent, f.place p = parent ++ [name] := by
  rw [Path.fileName?] at h
  split at h
  · cases h
  · next last hlast =>
    split at h
    · cases h
    · next hdots =>
      cases h
      obtain ⟨names, hnames⟩ := List.getLast?_eq_some_iff.mp hlast
      have hname : Path.isName name = true := by
        have hmem : name ∈ p.segments.filter Path.isName := by simp [hnames]
        exact (List.mem_filter.mp hmem).2
      have hdot : name ≠ "." := by
        rintro rfl
        simp [Path.isName] at hname
      refine ⟨names.foldl Location.enter (if p.absolute then [] else f.here), ?_⟩
      rw [place_eq_foldl_names, hnames, List.foldl_append]
      simp [Location.enter, hdot, hdots]

/-- A further name leads into the directory that the path leads to. -/
theorem place_push {name : String} (f : Files) (p : Path) (hempty : name ≠ "") (hdot : name ≠ ".")
    (hdots : name ≠ "..") : f.place (p.push name) = f.place p ++ [name] := by
  have hsteps : (p.push name).steps = p.steps ++ [name] := by
    unfold Path.push
    split
    · next hslash =>
      obtain ⟨segments, hsegments⟩ := List.getLast?_eq_some_iff.mp hslash
      simp [Path.steps, hsegments, hempty]
    · simp [Path.steps, hempty]
  have habsolute : (p.push name).absolute = p.absolute := by
    unfold Path.push
    split <;> rfl
  rw [place, hsteps, habsolute, List.foldl_append]
  simp [Location.enter, hdot, hdots, place]

/-- A temporary file has a place of its name. -/
theorem exists_place_temporary (f : Files) (p : Path) (writer : Nat) :
    ∃ parent, f.place (p.temporary writer) =
      parent ++ [Path.temporaryName (p.fileName?.getD "") writer] :=
  f.exists_place_eq (p.getLast?_steps_temporary writer) (Path.temporaryName_ne (by decide))
    (Path.temporaryName_ne (by decide))

/-- No temporary file for a path stands in the place of the path. -/
theorem place_ne_place_temporary (f : Files) (p : Path) (writer : Nat) :
    f.place p ≠ f.place (p.temporary writer) := by
  cases hname : p.fileName? with
  | none =>
    -- the temporary file lies in the directory that the path leads to
    have htemporary : p.temporary writer = p.push (Path.temporaryName "" writer) := by
      simp only [Path.temporary, Path.withFileName, hname, Option.getD_none]
    rw [htemporary, place_push f p (Path.temporaryName_ne (by decide))
      (Path.temporaryName_ne (by decide)) (Path.temporaryName_ne (by decide))]
    simp
  | some last =>
    obtain ⟨parent, hplace⟩ := f.exists_place_eq_of_fileName hname
    obtain ⟨parent', hplace'⟩ := f.exists_place_temporary p writer
    rw [hname, Option.getD_some] at hplace'
    rw [hplace, hplace']
    intro heq
    -- the two names would be equal, but one is longer than the other
    have hnames : last = Path.temporaryName last writer :=
      List.singleton_inj.mp (List.append_inj' heq rfl).2
    have hlength := Path.length_lt_temporaryName last writer
    rw [← hnames] at hlength
    omega

end Files

end Telemetry
