import Telemetry.Proofs.Compose
import Telemetry.Proofs.Files.Calls

/-!
# All or nothing

Replacing a file either puts the new contents in its place or leaves every file as it was; in
neither case does a temporary file remain. What can be left behind are directories that the path
needs.

A replacement makes directories first (`grows_createDirectories`), then a temporary file, which is
moved or removed (`writeAndRename_cases`); `replaceFile_cases` puts the two together. Composing a
header changes files by a replacement only, and only to write a schema that has been loaded.
-/

namespace Telemetry

namespace Program

variable {f : Files} {p q : Path} {l : Location}

@[simp] theorem run_makeDirectory (f : Files) (p : Path) :
    (makeDirectory p).run f =
      ⟨(f.changed (f.makeDirectory p)).1, (f.changed (f.makeDirectory p)).2, []⟩ := rfl

@[simp] theorem run_isDirectory (f : Files) (p : Path) :
    (isDirectory p).run f = ⟨f.isDirectory p, f, []⟩ := rfl

@[simp] theorem run_create (f : Files) (p : Path) :
    (create p).run f = ⟨(f.changed (f.create p)).1, (f.changed (f.create p)).2, []⟩ := rfl

@[simp] theorem run_rename (f : Files) (p q : Path) :
    (rename p q).run f = ⟨(f.changed (f.rename p q)).1, (f.changed (f.rename p q)).2, []⟩ := rfl

@[simp] theorem run_remove (f : Files) (p : Path) :
    (remove p).run f = ⟨(f.changed (f.remove p)).1, (f.changed (f.remove p)).2, []⟩ := rfl

/-! ### Making the directories of a path -/

/-- Making a directory makes at most that. -/
theorem grows_makeDirectory (f : Files) (p : Path) :
    f.Grows ((makeDirectory p).run f).files [f.place p] := by
  rw [run_makeDirectory]
  cases hmake : f.makeDirectory p with
  | error e => exact .refl f _
  | ok g => exact Files.grows_of_makeDirectory hmake

@[simp] theorem files_unlessDirectory (f : Files) (p : Path) (e : FileError) :
    ((unlessDirectory p e).run f).files = f := by
  rw [unlessDirectory, run_bind, run_isDirectory]
  cases f.isDirectory p <;> rfl

/-- Making directories makes none but those, whether or not it succeeds. -/
theorem grows_createDirectories (f : Files) (paths : List Path) :
    f.Grows ((createDirectories paths).run f).files (paths.map f.place) := by
  induction paths with
  | nil => exact .refl f _
  | cons p outer ih =>
    have hp : f.Grows ((makeDirectory p).run f).files ((p :: outer).map f.place) :=
      (grows_makeDirectory f p).mono (by simp)
    have houter : f.Grows ((createDirectories outer).run f).files ((p :: outer).map f.place) :=
      ih.mono (by simp)
    cases hmake : f.makeDirectory p with
    | ok g =>
      have hrun : ((createDirectories (p :: outer)).run f).files =
          ((makeDirectory p).run f).files := by
        simp only [createDirectories, run_bind, run_makeDirectory, hmake, Files.changed, run_pure]
      exact hrun ▸ hp
    | error e =>
      by_cases he : e = .notFound
      · subst he
        -- the parents come first, then the directory is tried once more
        cases hresult : ((createDirectories outer).run f).result with
        | error e =>
          have hrun : ((createDirectories (p :: outer)).run f).files =
              ((createDirectories outer).run f).files := by
            simp only [createDirectories, run_bind, run_makeDirectory, hmake, Files.changed,
              hresult, run_pure]
          exact hrun ▸ houter
        | ok u =>
          have hrun : ((createDirectories (p :: outer)).run f).files =
              ((makeDirectory p).run ((createDirectories outer).run f).files).files := by
            simp only [createDirectories, run_bind, run_makeDirectory, hmake, Files.changed,
              hresult]
            cases ((createDirectories outer).run f).files.makeDirectory p with
            | ok g => rfl
            | error e => exact files_unlessDirectory _ p e
          have hlast := grows_makeDirectory ((createDirectories outer).run f).files p
          rw [Files.place_congr houter.here] at hlast
          rw [hrun]
          exact houter.trans (hlast.mono (by simp))
      · have hrun : ((createDirectories (p :: outer)).run f).files = f := by
          simp only [createDirectories, run_bind, run_makeDirectory, hmake, Files.changed]
          exact files_unlessDirectory f p e
        rw [hrun]
        exact .refl f _

/-! ### Writing the temporary file -/

/-- Adding bytes to a file that a path leads to succeeds. -/
theorem run_appendAll {contents : Bytes} (htarget : f.target p = .ok (.entry l false))
    (hget : f.get? l = some (.file contents)) (bytes : Bytes) :
    ((appendAll p bytes).run f).result = .ok () ∧
      f.Changes ((appendAll p bytes).run f).files l (some (.file (contents ++ bytes))) := by
  by_cases hbytes : bytes = []
  · rw [appendAll, if_pos hbytes, hbytes, List.append_nil]
    exact ⟨rfl, rfl, hget, fun _ _ => rfl⟩
  · have hlength : bytes.length ≠ 0 := by simpa using hbytes
    have hrun : (appendAll p bytes).run f =
        ⟨.ok (), f.set l (.file (contents ++ bytes)), []⟩ := by
      rw [appendAll, if_neg hbytes]
      simp only [append, bind, run, Files.perform, Files.append_eq_ok htarget hget, if_neg hlength,
        List.drop_length]
      rw [appendAll, if_pos rfl]
      rfl
    rw [hrun]
    exact ⟨rfl, Files.changes_set (by simp [hget]) _⟩

/-- Either no temporary file is made, or it holds the bytes and is moved, or remains. -/
theorem writeAndRename_cases {temporary : Path} (p : Path) (bytes : Bytes)
    (hfree : ∀ c, f.get? (f.place temporary) ≠ some (.file c)) :
    (∃ e, ((writeAndRename temporary p bytes).run f).result = .error e ∧
        ((writeAndRename temporary p bytes).run f).files = f) ∨
      (f.target temporary = .ok (.entry (f.place temporary) false) ∧
        f.get? (f.place temporary) = none ∧
        ∃ g, f.Changes g (f.place temporary) (some (.file bytes)) ∧
          ((writeAndRename temporary p bytes).run f).result = (g.changed (g.rename temporary p)).1 ∧
          ((writeAndRename temporary p bytes).run f).files =
            (g.changed (g.rename temporary p)).2) := by
  cases hcreate : f.create temporary with
  | error e =>
    refine .inl ⟨e, ?_⟩
    simp only [writeAndRename, run_bind, run_create, hcreate, Files.changed, run_pure, and_self]
  | ok made =>
    obtain ⟨htarget, hdir, rfl⟩ := Files.create_eq_ok hcreate
    -- a file that is emptied would be lost, but there is none
    have hnone : f.get? (f.place temporary) = none := by
      cases hget : f.get? (f.place temporary) with
      | none => rfl
      | some node =>
        cases node with
        | file c => exact absurd hget (hfree c)
        | directory => exact absurd hget hdir
    have hset := Files.changes_set hdir (.file [])
    obtain ⟨hresult, happend⟩ :=
      run_appendAll ((hset.keepsDirectories hdir).target htarget) hset.self bytes
    refine .inr ⟨htarget, hnone, _, hset.trans happend, ?_⟩
    simp only [writeAndRename, run_bind, run_create, hcreate, Files.changed, hresult, run_rename,
      and_self]

/-! ### Replacing -/

/-- Once the temporary file has been moved, the bytes are in the place of the path and the rest is
as it was before there was a temporary file. -/
theorem changes_of_rename {f g h : Files} {writer : Nat} {bytes : Bytes}
    (hnone : f.get? (f.place (p.temporary writer)) = none)
    (hwritten : f.Changes g (f.place (p.temporary writer)) (some (.file bytes)))
    (hrename : g.rename (p.temporary writer) p = .ok h) :
    f.Changes h (f.place p) (some (.file bytes)) ∧ f.get? (f.place p) ≠ some .directory ∧
      f.place p ≠ f.place (p.temporary writer) ∧ h.read p = .ok bytes := by
  have hplace : ∀ q, g.place q = f.place q := fun q => Files.place_congr hwritten.here
  have hne := f.place_ne_place_temporary p writer
  obtain ⟨m, herase, hset, hdir, -, hread⟩ :=
    Files.changes_rename hrename (by rw [hplace, hwritten.self])
  simp only [hplace] at herase hset hdir
  -- without the temporary file the tree is as it was before there was one
  have hclean : ∀ l, m.get? l = f.get? l := by
    have hback := hwritten.trans herase
    rw [← hnone] at hback
    exact hback.get?_eq
  rw [hwritten.others _ hne] at hdir
  exact ⟨⟨hset.here.trans (herase.here.trans hwritten.here), hset.self,
    fun l hl => (hset.others l hl).trans (hclean l)⟩, hdir, hne, hread⟩

/-- A replacement makes directories; then it either puts the bytes in the place of the path or
changes nothing more. -/
theorem replaceFile_cases {writer : Nat} (p : Path) (bytes : Bytes)
    (hfree : ∀ c, f.get? (f.place (p.temporary writer)) ≠ some (.file c)) :
    ∃ g, f.Grows g ((p.ancestry.drop 1).map f.place) ∧
      ((((replaceFile writer p bytes).run f).result = .ok () ∧
          g.Changes ((replaceFile writer p bytes).run f).files (f.place p) (some (.file bytes)) ∧
          g.get? (f.place p) ≠ some .directory ∧ f.place p ≠ f.place (p.temporary writer) ∧
          ((replaceFile writer p bytes).run f).files.read p = .ok bytes) ∨
        ((∃ e, ((replaceFile writer p bytes).run f).result = .error e) ∧
          ∀ l, ((replaceFile writer p bytes).run f).files.get? l = g.get? l)) := by
  have hgrows := grows_createDirectories f (p.ancestry.drop 1)
  refine ⟨_, hgrows, ?_⟩
  generalize hg : ((createDirectories (p.ancestry.drop 1)).run f).files = g at hgrows ⊢
  have hplace : ∀ q, g.place q = f.place q := fun q => Files.place_congr hgrows.here
  have hfree' : ∀ c, g.get? (g.place (p.temporary writer)) ≠ some (.file c) := by
    intro c
    rw [hplace, ne_eq, hgrows.file_iff]
    exact hfree c
  cases hdirectories : ((createDirectories (p.ancestry.drop 1)).run f).result with
  | error e =>
    refine .inr ?_
    simp only [replaceFile, run_bind, hdirectories, hg, run_pure]
    exact ⟨⟨e, rfl⟩, fun _ => trivial⟩
  | ok u =>
    rcases writeAndRename_cases p bytes hfree' with
      ⟨e, hresult, hfiles⟩ | ⟨htarget, hnone, written, hwritten, hresult, hfiles⟩
    -- without a temporary file there is nothing to remove
    · refine .inr ?_
      cases hremove : g.remove (p.temporary writer) with
      | error e' =>
        simp only [replaceFile, run_bind, hdirectories, hg, hresult, hfiles, run_remove, hremove,
          Files.changed, run_pure]
        exact ⟨⟨e, rfl⟩, fun _ => trivial⟩
      | ok h =>
        obtain ⟨contents, hget, -⟩ := Files.remove_eq_ok hremove
        exact absurd hget (hfree' contents)
    · have hdir : g.get? (g.place (p.temporary writer)) ≠ some .directory := by simp [hnone]
      cases hrename : written.rename (p.temporary writer) p with
      | ok h =>
        obtain ⟨hchanges, hnot, hne, hread⟩ := changes_of_rename hnone hwritten hrename
        rw [hrename] at hresult hfiles
        refine .inl ?_
        simp only [replaceFile, run_bind, hdirectories, hg, hresult, hfiles, Files.changed,
          run_pure]
        simp only [hplace] at hchanges hnot hne
        exact ⟨trivial, hchanges, hnot, hne, hread⟩
      | error e =>
        -- the temporary file can be found as before and is removed
        have hremove := Files.remove_of_target
          ((hwritten.keepsDirectories hdir).target htarget) hwritten.self
        have herase := hwritten.trans
          (Files.changes_erase (l := g.place (p.temporary writer)) (by simp [hwritten.self]))
        rw [← hnone] at herase
        rw [hrename] at hresult hfiles
        refine .inr ?_
        simp only [replaceFile, run_bind, hdirectories, hg, hresult, hfiles, run_remove, hremove,
          Files.changed, run_pure]
        exact ⟨⟨e, rfl⟩, herase.get?_eq⟩

/-- A replacement succeeds if the directories can be made, both paths can then be followed to where
no directory is, and there is no temporary file yet. -/
theorem result_replaceFile {g : Files} {events : List Event} {writer : Nat} {l' : Location}
    (hdirectories : (createDirectories (p.ancestry.drop 1)).run f = ⟨.ok (), g, events⟩)
    (htarget : g.target p = .ok (.entry l false)) (hdir : g.get? l ≠ some .directory)
    (htemporary : g.target (p.temporary writer) = .ok (.entry l' false)) (hnone : g.get? l' = none)
    (bytes : Bytes) : ((replaceFile writer p bytes).run f).result = .ok () := by
  have hfile : g.get? l' ≠ some .directory := by simp [hnone]
  have hcreate := Files.create_of_target htemporary hfile
  have hset := Files.changes_set hfile (.file [])
  obtain ⟨hresult, happend⟩ :=
    run_appendAll ((hset.keepsDirectories hfile).target htemporary) hset.self bytes
  have hwritten := hset.trans happend
  have hkeeps := hwritten.keepsDirectories hfile
  have hne : l ≠ l' := by
    have hplaces := g.place_ne_place_temporary p writer
    rwa [← (Files.eq_place_of_target htarget).1,
      ← (Files.eq_place_of_target htemporary).1] at hplaces
  have hrename := Files.rename_of_target (hkeeps.target htemporary) (hkeeps.target htarget)
    hwritten.self (by rwa [hwritten.others l hne])
  simp only [replaceFile, writeAndRename, run_bind, hdirectories, run_create, hcreate,
    Files.changed, hresult, run_rename, hrename, run_pure]

/-- A replacement that succeeds puts the bytes at the path, whatever stood in the place of the
temporary file. -/
theorem read_of_replaceFile {writer : Nat} {bytes : Bytes}
    (h : ((replaceFile writer p bytes).run f).result = .ok ()) :
    ((replaceFile writer p bytes).run f).files.read p = .ok bytes := by
  simp only [replaceFile, run_bind] at h ⊢
  generalize ((createDirectories (p.ancestry.drop 1)).run f).files = g at h ⊢
  cases hdirectories : ((createDirectories (p.ancestry.drop 1)).run f).result with
  | error e =>
    rw [hdirectories] at h
    cases h
  | ok u =>
    simp only [hdirectories, run_bind, writeAndRename, run_create] at h ⊢
    cases hcreate : g.create (p.temporary writer) with
    | error e =>
      simp only [hcreate, Files.changed, run_pure, run_bind, reduceCtorEq] at h
    | ok made =>
      obtain ⟨htarget, hdir, rfl⟩ := Files.create_eq_ok hcreate
      have hset := Files.changes_set hdir (.file [])
      obtain ⟨hresult, happend⟩ :=
        run_appendAll ((hset.keepsDirectories hdir).target htarget) hset.self bytes
      have hwritten := hset.trans happend
      simp only [hcreate, Files.changed, run_bind, hresult, run_rename] at h ⊢
      split at h
      · next hmoved =>
        simp only [run_pure]
        obtain ⟨-, -, -, -, -, hread⟩ := Files.changes_rename hmoved (by
          rw [Files.place_congr hwritten.here]
          exact hwritten.self)
        exact hread
      · simp only [run_bind, run_pure, reduceCtorEq] at h

/-! ### Composing -/

/-- What goes wrong while a header is written belongs to the stage of writing. -/
theorem stage_of_writeHeader {writer : Nat} {path : String} {s : Schema} {header : Bytes}
    {e : Error} (h : ((writeHeader writer path s header).run f).result = .error e) :
    e.stage = .write := by
  simp only [writeHeader, run_bind, run_noteAll] at h
  split at h
  · cases h
    rfl
  · simp only [run_bind, run_noteAll, run_pure, reduceCtorEq] at h

/-- Composing changes no file if it only checks, or if no schema can be loaded. -/
theorem files_compose {writer : Nat} {config : Config}
    (h : config.mode = .check ∨ ∃ e, ((compose writer config).run f).result = .error e ∧
      (e.stage = .load ∨ e.stage = .validate)) :
    ((compose writer config).run f).files = f := by
  cases hload : ((loadSchema config.input).run f).result with
  | error e => exact (run_compose_of_error hload).2
  | ok s =>
    cases hmode : config.mode with
    | check => exact (run_compose_check hmode hload).2
    | write =>
      rcases h with h | ⟨e, he, hstage⟩
      · rw [hmode] at h
        cases h
      · rw [(run_compose_write hmode hload).1] at he
        rw [stage_of_writeHeader he] at hstage
        rcases hstage with hstage | hstage <;> cases hstage

/-- Replacing a file is all or nothing. If it succeeds, the path holds the bytes and all other files
are as before; if it fails, all files are as before. There is no temporary file afterwards if there
was none in its place, no directory goes away, and only directories that the path needs are new.
Composing leaves the tree alone unless it writes a schema that has been loaded. -/
theorem replaceFile_all_or_nothing (f : Files) (writer : Nat) :
    (∀ p bytes, (∀ c, f.get? (f.place (p.temporary writer)) ≠ some (.file c)) →
      let r := (replaceFile writer p bytes).run f
      (r.result = .ok () → r.files.read p = .ok bytes ∧
        ∀ l ≠ f.place p, ∀ c, r.files.get? l = some (.file c) ↔ f.get? l = some (.file c)) ∧
      (∀ e, r.result = .error e →
        ∀ l c, r.files.get? l = some (.file c) ↔ f.get? l = some (.file c)) ∧
      (∀ c, r.files.get? (f.place (p.temporary writer)) ≠ some (.file c)) ∧
      (∀ l, f.get? l = some .directory → r.files.get? l = some .directory) ∧
      ∀ l, r.files.get? l = some .directory → f.get? l = some .directory ∨
        (f.get? l = none ∧ l ∈ (p.ancestry.drop 1).map f.place)) ∧
    ∀ config,
      let r := (compose writer config).run f
      (config.mode = .check → r.files = f) ∧
      ∀ e, r.result = .error e → e.stage = .load ∨ e.stage = .validate → r.files = f := by
  refine ⟨fun p bytes hfree => ?_, fun config => ⟨fun h => files_compose (.inl h),
    fun e he hstage => files_compose (.inr ⟨e, he, hstage⟩)⟩⟩
  intro r
  obtain ⟨g, hgrows, ⟨hok, hchanges, hdir, hne, hread⟩ | ⟨⟨e, herror⟩, hsame⟩⟩ :=
    replaceFile_cases p bytes hfree
  · have hothers : ∀ l ≠ f.place p, ∀ c,
        r.files.get? l = some (.file c) ↔ f.get? l = some (.file c) := by
      intro l hl c
      rw [hchanges.others l hl]
      exact hgrows.file_iff l c
    refine ⟨fun _ => ⟨hread, hothers⟩, fun e he => ?_, fun c => ?_, fun l hl => ?_, fun l hl => ?_⟩
    · rw [hok] at he
      cases he
    · rw [ne_eq, hothers _ hne.symm]
      exact hfree c
    · have hkept := hgrows.directory hl
      exact (hchanges.keepsDirectories hdir).get? l hkept
    · have hplace : l ≠ f.place p := by
        rintro rfl
        rw [hchanges.self] at hl
        cases hl
      exact hgrows.of_directory (hchanges.others l hplace ▸ hl)
  · have hfiles : ∀ l c, r.files.get? l = some (.file c) ↔ f.get? l = some (.file c) := by
      intro l c
      rw [hsame l]
      exact hgrows.file_iff l c
    refine ⟨fun he => ?_, fun _ _ => hfiles, fun c => ?_, fun l hl => ?_, fun l hl => ?_⟩
    · rw [herror] at he
      cases he
    · rw [ne_eq, hfiles]
      exact hfree c
    · rw [hsame l]
      exact hgrows.directory hl
    · exact hgrows.of_directory (hsame l ▸ hl)

/-- A file in a directory that is not there yet. -/
theorem replaceFile_all_or_nothing_nested :
    let f : Files := ⟨[(["o"], .file [1])], []⟩
    let p := Path.ofString "a/../b/c"
    let r := (replaceFile 0 p [2, 3]).run f
    f.get? (f.place (p.temporary 0)) = none ∧ r.result = .ok () ∧ r.files.read p = .ok [2, 3] ∧
      r.files.get? ["o"] = some (.file [1]) := by
  intro f p r
  have hnone : f.get? (f.place (p.temporary 0)) = none := by rfl
  have hresult : r.result = .ok () := by
    simp only [r, f, p]
    with_unfolding_all rfl
  obtain ⟨hok, -⟩ := (replaceFile_all_or_nothing f 0).1 p [2, 3] (by simp [hnone])
  obtain ⟨hread, hothers⟩ := hok hresult
  exact ⟨hnone, hresult, hread, (hothers ["o"] (by decide) [1]).mpr rfl⟩

end Program

end Telemetry
