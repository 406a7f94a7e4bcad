import Telemetry.Files.Replacement
import Telemetry.Proofs.C.Numeral
import Telemetry.Proofs.Files.Calls
import Telemetry.Proofs.Files.Team

/-!
# Replacing one file concurrently

Any number of replacements of one file may run side by side, each with a temporary file of its own.
Whoever looks at the place of the path finds what was there at the start or all of what one of the
replacements puts there, never a part; when all are done, no temporary file remains, and the
replacement that moved its file last has decided what is there.

There is one exception. The directories that a path needs are made first, and if the path goes up
again, one of them can have the place of the path itself, where a directory then comes to stand
(`directory_in_place`).

A replacement relies on others to leave its temporary file alone and all directories where they are
(`leaving`). In turn it guarantees to change only its temporary file and, when it moves that, the
place of the path, besides making directories (`Replaces`). That it does is shown for each part of
it by itself, whatever the others do in between.
-/

namespace Telemetry

namespace Files

variable {f g : Files} {t p : Path}

/-! ### What replacements rely on and guarantee -/

/-- Others keep all directories, and the file at a path as it is, if there is one. -/
def leaving (t : Path) : Reliance where
  allows f g := f.KeepsDirectories g ∧
    ∀ c, g.get? (f.place t) = some (.file c) ↔ f.get? (f.place t) = some (.file c)
  refl _ := ⟨⟨rfl, fun _ h => h⟩, fun _ => .rfl⟩
  trans := by
    rintro f g h ⟨hfg, hfile⟩ ⟨hgh, hfile'⟩
    refine ⟨hfg.trans hgh, fun c => ?_⟩
    rw [place_congr hfg.here] at hfile'
    exact (hfile' c).trans (hfile c)

/-- There is no file at a path. -/
def Vacant (f : Files) (t : Path) : Prop := ∀ c, f.get? (f.place t) ≠ some (.file c)

theorem Vacant.of_allows (h : f.Vacant t) (hfg : (leaving t).allows f g) : g.Vacant t := by
  intro c
  rw [place_congr hfg.1.here, ne_eq, hfg.2 c]
  exact h c

theorem read_of_allows {c : Bytes} (h : f.read t = .ok c) (hfg : (leaving t).allows f g) :
    g.read t = .ok c :=
  hfg.1.read h ((hfg.2 c).mpr (read_eq_ok_iff.mp h).2)

/-- What an act of a replacement does: all directories stay; files change at most at the
temporary path and, by moving, in the place of the path; a directory comes to stand there only where
there was nothing and the path needs one; and after moving the path leads to the bytes. -/
structure Replaces (t p : Path) (bytes : Bytes) (a : Act) (f g : Files) : Prop where
  keeps : f.KeepsDirectories g
  others : ∀ l ≠ f.place t, (l = f.place p → a.moves = false) →
    ∀ c, g.get? l = some (.file c) ↔ f.get? l = some (.file c)
  place : a.moves = false → g.get? (f.place p) = f.get? (f.place p) ∨
    (f.get? (f.place p) = none ∧ g.get? (f.place p) = some .directory ∧
      f.place p ∈ (p.ancestry.drop 1).map f.place)
  moved : a.moves = true → g.read p = .ok bytes

variable {bytes : Bytes} {a : Act}

/-- Directories may be made that the path needs. -/
theorem Grows.replaces {places : List Location} (h : f.Grows g places)
    (hplaces : places ⊆ (p.ancestry.drop 1).map f.place) (ha : a.moves = false) :
    Replaces t p bytes a f g where
  keeps := h.keepsDirectories
  others := fun l _ _ => h.file_iff l
  place := fun _ => (h.get? (f.place p)).imp_right fun ⟨hnone, hdir, hmem⟩ =>
    ⟨hnone, hdir, hplaces hmem⟩
  moved := fun hmoves => by simp [ha] at hmoves

theorem replaces_self (f : Files) (ha : a.moves = false) : Replaces t p bytes a f f :=
  (Grows.refl f []).replaces (by simp) ha

/-- Anything may be done with the temporary file, where there is no directory. -/
theorem Changes.replaces {node : Option Node} (h : f.Changes g (f.place t) node)
    (hdir : f.get? (f.place t) ≠ some .directory) (hne : f.place p ≠ f.place t)
    (ha : a.moves = false) : Replaces t p bytes a f g where
  keeps := h.keepsDirectories hdir
  others := fun l hl _ c => by rw [h.others l hl]
  place := fun _ => .inl (h.others _ hne)
  moved := fun hmoves => by simp [ha] at hmoves

/-- What a replacement does does not disturb another one with another temporary file. -/
theorem Replaces.allows {t' : Path} (h : Replaces t p bytes a f g) (hne : f.place t' ≠ f.place t)
    (hplace : f.place t' ≠ f.place p) : (leaving t').allows f g :=
  ⟨h.keeps, h.others _ hne fun heq => absurd heq hplace⟩

end Files

/-! ### Each part of a replacement -/

namespace Program

open Files

variable {f : Files} {t p q : Path} {bytes written : Bytes} {acts : List Act}

/-- Nothing has been moved, and there is no file at the temporary path. -/
def Untouched (t : Path) (acts : List Act) (f : Files) : Prop :=
  acts.any Act.moves = false ∧ f.Vacant t

/-- Nothing has been moved, and the temporary path leads to the bytes written so far. -/
def Written (t : Path) (written : Bytes) (acts : List Act) (f : Files) : Prop :=
  acts.any Act.moves = false ∧ f.read t = .ok written

/-- There is no temporary file, and a file has been moved if and only if the result says so. -/
def Ended (t : Path) : List Act → Except FileError Unit → Files → Prop
  | acts, .ok (), f => acts.any Act.moves = true ∧ f.Vacant t
  | acts, .error _, f => Untouched t acts f

theorem Untouched.of_allows {g : Files} (hf : Untouched t acts f)
    (hfg : (leaving t).allows f g) : Untouched t acts g :=
  ⟨hf.1, hf.2.of_allows hfg⟩

theorem Written.of_allows {g : Files} (hf : Written t written acts f)
    (hfg : (leaving t).allows f g) : Written t written acts g :=
  ⟨hf.1, read_of_allows hf.2 hfg⟩

theorem Ended.vacant {r : Except FileError Unit} (hf : Ended t acts r f) : f.Vacant t := by
  cases r with
  | ok u => exact hf.2
  | error e => exact hf.2

theorem any_moves_concat {a : Act} (h : acts.any Act.moves = false)
    (ha : a.moves = false) : (acts ++ [a]).any Act.moves = false := by
  simp [h, ha]

/-- A call that does nothing and moves nothing. -/
theorem Untouched.concat {a : Act} {g h : Files} (hf : Untouched t acts f)
    (hfg : (leaving t).allows f g) (ha : a.moves = false) (hgh : (leaving t).allows g h) :
    Untouched t (acts ++ [a]) h :=
  ⟨any_moves_concat hf.1 ha, (hf.2.of_allows hfg).of_allows hgh⟩

/-! #### Directories -/

theorem meets_makeDirectory (hq : q ∈ p.ancestry.drop 1) (hf : Untouched t acts f) :
    (makeDirectory q).Meets (leaving t) (Replaces t p bytes)
      (fun acts _ g => Untouched t acts g) acts f := by
  intro g hfg answer h hanswer
  have hgrows : g.Grows h [g.place q] := by
    rcases hanswer with ⟨-, hmake⟩ | ⟨e, -, rfl⟩
    · exact grows_of_makeDirectory hmake
    · exact .refl h _
  have hplaces : [g.place q] ⊆ (p.ancestry.drop 1).map g.place := by
    intro l hl
    rw [List.mem_singleton.mp hl]
    exact List.mem_map_of_mem hq
  have hkept : (leaving t).allows g h := ⟨hgrows.keepsDirectories, hgrows.file_iff _⟩
  exact ⟨hgrows.replaces hplaces rfl, fun k hhk =>
    hf.concat hfg rfl ((leaving t).trans hkept hhk)⟩

theorem meets_unlessDirectory (q : Path) (e : FileError) (hf : Untouched t acts f) :
    (unlessDirectory q e).Meets (leaving t) (Replaces t p bytes)
      (fun acts _ g => Untouched t acts g) acts f := by
  have hasks : (isDirectory q).Meets (leaving t) (Replaces t p bytes)
      (fun acts _ g => Untouched t acts g) acts f := by
    rintro g hfg answer h ⟨-, rfl⟩
    exact ⟨replaces_self h rfl, fun k hhk => hf.concat hfg rfl hhk⟩
  refine hasks.bind fun acts answer g hg => ?_
  split <;> exact fun k hgk => hg.of_allows hgk

/-- Making the directories of the path. -/
theorem meets_createDirectories {paths : List Path} (hpaths : paths ⊆ p.ancestry.drop 1)
    (hf : Untouched t acts f) :
    (createDirectories paths).Meets (leaving t) (Replaces t p bytes)
      (fun acts _ g => Untouched t acts g) acts f := by
  have hdone {acts : List Act} {g : Files} (r : Except FileError Unit)
      (hg : Untouched t acts g) :
      (pure r : Program (Except FileError Unit)).Meets (leaving t) (Replaces t p bytes)
        (fun acts _ g => Untouched t acts g) acts g :=
    fun k hgk => hg.of_allows hgk
  induction paths generalizing acts f with
  | nil => exact hdone _ hf
  | cons q outer ih =>
    obtain ⟨hq, houter⟩ := List.cons_subset.mp hpaths
    refine (meets_makeDirectory hq hf).bind fun acts answer g hg => ?_
    split
    · exact hdone _ hg
    -- another program may have made the directory by the time it is tried once more
    · refine (ih houter hg).bind fun acts answer g hg => ?_
      split
      · exact hdone _ hg
      · refine (meets_makeDirectory hq hg).bind fun acts answer g hg => ?_
        split
        · exact hdone _ hg
        · exact meets_unlessDirectory q _ hg
    · exact meets_unlessDirectory q _ hg

/-! #### The temporary file -/

section Temporary

variable (hne : ∀ f : Files, f.place p ≠ f.place t)
include hne

/-- Making the temporary file. -/
theorem meets_create (hf : Untouched t acts f) :
    (create t).Meets (leaving t) (Replaces t p bytes)
      (fun acts answer g => match answer with
        | .ok () => Written t [] acts g
        | .error _ => Untouched t acts g) acts f := by
  intro g hfg answer h hanswer
  rcases hanswer with ⟨rfl, hcreate⟩ | ⟨e, rfl, rfl⟩
  · obtain ⟨htarget, hdir, rfl⟩ := create_eq_ok hcreate
    have hset := changes_set hdir (.file [])
    refine ⟨hset.replaces hdir (hne g) rfl, fun k hhk => ⟨any_moves_concat hf.1 rfl, ?_⟩⟩
    exact read_of_allows
      (read_of_target ((hset.keepsDirectories hdir).target htarget) hset.self) hhk
  · exact ⟨replaces_self h rfl, fun k hhk => hf.concat hfg rfl hhk⟩

/-- Adding some bytes to the temporary file. -/
theorem meets_append (next : Bytes) (hf : Written t written acts f) :
    (append t next).Meets (leaving t) (Replaces t p bytes)
      (fun acts answer g => match answer with
        | .ok n => n ≤ next.length ∧ Written t (written ++ next.take n) acts g
        | .error _ => Written t written acts g) acts f := by
  intro g hfg answer h hanswer
  have hread := read_of_allows hf.2 hfg
  rcases hanswer with ⟨n, hn, rfl, happend⟩ | ⟨e, rfl, rfl⟩
  · obtain ⟨htarget, hget⟩ := read_eq_ok_iff.mp hread
    rw [append_eq_ok htarget hget] at happend
    cases happend
    have hdir : g.get? (g.place t) ≠ some .directory := by simp [hget]
    have hset := changes_set hdir (.file (written ++ next.take n))
    refine ⟨hset.replaces hdir (hne g) rfl, fun k hhk =>
      ⟨hn, any_moves_concat hf.1 rfl, ?_⟩⟩
    exact read_of_allows ((hset.keepsDirectories hdir).read hread hset.self) hhk
  · exact ⟨replaces_self h rfl, fun k hhk =>
      ⟨any_moves_concat hf.1 rfl, read_of_allows hread hhk⟩⟩

/-- Adding all bytes to the temporary file, in however many parts. -/
theorem meets_appendAll (next : Bytes) (hf : Written t written acts f) :
    (appendAll t next).Meets (leaving t) (Replaces t p bytes)
      (fun acts answer g => match answer with
        | .ok () => Written t (written ++ next) acts g
        | .error _ => ∃ c, Written t c acts g) acts f := by
  -- on the bytes that are left; those written so far and those left always make the whole
  induction hlength : next.length using Nat.strong_induction_on
    generalizing next written acts f with
  | _ length ih =>
    rw [appendAll]
    split
    · next hnil =>
      rw [hnil, List.append_nil]
      exact fun k hgk => hf.of_allows hgk
    · next hcons =>
      refine (meets_append hne next hf).bind fun acts answer g hg => ?_
      cases answer with
      | error e => exact fun k hgk => ⟨_, hg.of_allows hgk⟩
      | ok n =>
        obtain ⟨hn, hg⟩ := hg
        dsimp only
        split
        · exact fun k hgk => ⟨_, hg.of_allows hgk⟩
        · next hzero =>
          have hrest := ih (next.drop n).length (by simp only [List.length_drop]; omega) _ hg rfl
          rwa [List.append_assoc, List.take_append_drop] at hrest

/-- Moving the temporary file. -/
theorem meets_rename (hf : Written t bytes acts f) :
    (rename t p).Meets (leaving t) (Replaces t p bytes)
      (fun acts answer g => match answer with
        | .ok () => acts.any Act.moves = true ∧ g.Vacant t
        | .error _ => Written t bytes acts g) acts f := by
  intro g hfg answer h hanswer
  have hread := read_of_allows hf.2 hfg
  rcases hanswer with ⟨rfl, hrename⟩ | ⟨e, rfl, rfl⟩
  · obtain ⟨m, herase, hset, -, hkeeps, hplace⟩ :=
      changes_rename hrename (read_eq_ok_iff.mp hread).2
    have hmoves : Act.moves (.call (.rename t p) (.ok ())) = true := rfl
    have hvacant : h.Vacant t := by
      intro c
      rw [place_congr hkeeps.here, hset.others _ (hne g).symm, herase.self]
      simp
    refine ⟨⟨hkeeps, fun l hl hlp c => ?_, ?_, fun _ => hplace⟩, fun k hhk => ?_⟩
    · have hlp' : l ≠ g.place p := fun heq => by
        have hstill := hlp heq
        rw [hmoves] at hstill
        cases hstill
      rw [hset.others l hlp', herase.others l hl]
    · simp [hmoves]
    · exact ⟨by simp [hmoves], hvacant.of_allows hhk⟩
  · exact ⟨replaces_self h rfl, fun k hhk =>
      ⟨any_moves_concat hf.1 rfl, read_of_allows hread hhk⟩⟩

/-- Removing the temporary file, if there is one. -/
theorem meets_remove (hf : Untouched t acts f ∨ ∃ c, Written t c acts f) :
    (remove t).Meets (leaving t) (Replaces t p bytes)
      (fun acts _ g => Untouched t acts g) acts f := by
  intro g hfg answer h hanswer
  rcases hf with hf | ⟨c, hmoved, hread⟩
  -- no one else makes the temporary file, so there is nothing to remove
  · have hvacant := hf.2.of_allows hfg
    cases hremove : g.remove t with
    | ok l =>
      obtain ⟨c, hget, -⟩ := remove_eq_ok hremove
      exact absurd hget (hvacant c)
    | error e =>
      rw [MayAnswer, hremove] at hanswer
      cases hanswer
      exact ⟨replaces_self g rfl, fun k hhk => hf.concat hfg rfl hhk⟩
  -- no one else removes it or its directory, so it is found
  · obtain ⟨htarget, hget⟩ := read_eq_ok_iff.mp (read_of_allows hread hfg)
    rw [MayAnswer, remove_of_target htarget hget] at hanswer
    cases hanswer
    have hdir : g.get? (g.place t) ≠ some .directory := by simp [hget]
    have herase := changes_erase hdir
    have hvacant : (g.erase (g.place t)).Vacant t := by
      intro c
      rw [place_congr herase.here, herase.self]
      simp
    exact ⟨herase.replaces hdir (hne g) rfl, fun k hhk =>
      ⟨any_moves_concat hmoved rfl, hvacant.of_allows hhk⟩⟩

/-- Writing and moving the temporary file. -/
theorem meets_writeAndRename (hf : Untouched t acts f) :
    (writeAndRename t p bytes).Meets (leaving t) (Replaces t p bytes)
      (fun acts answer g => match answer with
        | .ok () => acts.any Act.moves = true ∧ g.Vacant t
        | .error _ => Untouched t acts g ∨ ∃ c, Written t c acts g) acts f := by
  refine (meets_create hne hf).bind fun acts answer g hg => ?_
  cases answer with
  | error e => exact fun k hgk => .inl (hg.of_allows hgk)
  | ok u =>
    refine (meets_appendAll hne bytes hg).bind fun acts answer g hg => ?_
    cases answer with
    | error e =>
      obtain ⟨c, hg⟩ := hg
      exact fun k hgk => .inr ⟨c, hg.of_allows hgk⟩
    | ok u =>
      refine (meets_rename hne hg).mono fun acts answer g hg => ?_
      cases answer with
      | ok u => exact hg
      | error e => exact .inr ⟨bytes, hg⟩

end Temporary

/-- A whole replacement. -/
theorem meets_replaceFile (writer : Nat) (p : Path) (bytes : Bytes)
    (hf : f.Vacant (p.temporary writer)) :
    (replaceFile writer p bytes).Meets (leaving (p.temporary writer))
      (Replaces (p.temporary writer) p bytes) (Ended (p.temporary writer)) [] f := by
  have hne (g : Files) : g.place p ≠ g.place (p.temporary writer) :=
    g.place_ne_place_temporary p writer
  have hstart : Untouched (p.temporary writer) [] f := ⟨rfl, hf⟩
  refine (meets_createDirectories (List.Subset.refl _) hstart).bind fun acts answer g hg => ?_
  cases answer with
  | error e => exact fun k hgk => hg.of_allows hgk
  | ok u =>
    refine (meets_writeAndRename hne hg).bind fun acts answer g hg => ?_
    cases answer with
    | ok u => exact fun k hgk => ⟨hg.1, hg.2.of_allows hgk⟩
    | error e =>
      refine (meets_remove hne hg).bind fun acts answer g hg => ?_
      exact fun k hgk => hg.of_allows hgk

/-! ### All of them together -/

section Team

variable {ι : Type} {contents : ι → Bytes} {turns : List (Turn ι)} {t : Turn ι} {f g h : Files}
  {p : Path}

/-- Different writers use different temporary files. -/
theorem place_temporary_ne (f : Files) (p : Path) {m n : Nat} (hmn : m ≠ n) :
    f.place (p.temporary m) ≠ f.place (p.temporary n) := by
  obtain ⟨parent, hm⟩ := f.exists_place_temporary p m
  obtain ⟨parent', hn⟩ := f.exists_place_temporary p n
  rw [hm, hn]
  intro heq
  have hnames := List.singleton_inj.mp (List.append_inj' heq rfl).2
  rw [Path.temporaryName, Path.temporaryName, String.append_left_inj,
    String.append_right_inj] at hnames
  exact hmn (C.toString_injective hnames)

/-- What holds of the files while replacements of one file run: where the path leads is what was
there, or all that one of them puts there, or a directory that they need; and whoever moved a file
last has decided what it is. -/
structure Sound (f : Files) (p : Path) (contents : ι → Bytes) (turns : List (Turn ι)) (g : Files) :
    Prop where
  here : g.here = f.here
  place : g.get? (f.place p) = f.get? (f.place p) ∨
    (∃ i, g.get? (f.place p) = some (.file (contents i))) ∨
    (f.get? (f.place p) = none ∧ f.place p ∈ (p.ancestry.drop 1).map f.place ∧
      g.get? (f.place p) = some .directory)
  last : ∀ i, lastMover? turns = some i → g.read p = .ok (contents i)

theorem Sound.turn {source : Path} (hg : Sound f p contents turns g)
    (hgh : Replaces source p (contents t.who) t.act g h) :
    Sound f p contents (turns ++ [t]) h := by
  have hhere : h.here = f.here := hgh.keeps.here.trans hg.here
  have hplace : g.place p = f.place p := place_congr hg.here
  cases hmoves : t.act.moves with
  | true =>
    have hread := hgh.moved hmoves
    obtain ⟨-, hget⟩ := read_eq_ok_iff.mp hread
    rw [place_congr hhere] at hget
    refine ⟨hhere, .inr (.inl ⟨t.who, hget⟩), fun i hi => ?_⟩
    rw [lastMover?_concat, if_pos hmoves] at hi
    cases hi
    exact hread
  | false =>
    have hcases := hgh.place hmoves
    rw [hplace] at hcases
    refine ⟨hhere, ?_, fun i hi => ?_⟩
    · rcases hcases with hsame | ⟨hnone, hdir, hmem⟩
      · rw [hsame]
        exact hg.place
      · -- there was nothing, so there was nothing at the start
        rcases hg.place with hstart | ⟨i, hfile⟩ | ⟨-, -, hdir'⟩
        · have hplaces : g.place = f.place := funext fun q => place_congr hg.here
          rw [hplaces] at hmem
          exact .inr (.inr ⟨hstart ▸ hnone, hmem, hdir⟩)
        · rw [hfile] at hnone
          cases hnone
        · rw [hdir'] at hnone
          cases hnone
    · rw [lastMover?_concat, hmoves] at hi
      have hread := hg.last i hi
      obtain ⟨-, hget⟩ := read_eq_ok_iff.mp hread
      rcases hcases with hsame | ⟨hnone, -, -⟩
      · refine hgh.keeps.read hread ?_
        rw [hplace, hsame, ← hplace, hget]
      · rw [hplace, hnone] at hget
        cases hget

/-- Replacements of one file by writers with different numbers, in turns of any order, each call of
which does what it can or fails. At every moment the place of the path is as it was at the start, or
holds all bytes of one of the replacements, or is a directory that the path needs, where there was
nothing; so whoever reads the path finds no part of anything. No turn changes the temporary file of
another replacement. When all are done, no temporary file remains, and if one of them succeeded, the
path leads to the bytes of the successful one that moved its file last. -/
theorem replaceFile_concurrent [DecidableEq ι] (f : Files) (p : Path) (writer : ι → Nat)
    (contents : ι → Bytes) (hwriter : Function.Injective writer)
    (hfree : ∀ i c, f.get? (f.place (p.temporary (writer i))) ≠ some (.file c))
    {turns : List (Turn ι)} {x : Team ι (Except FileError Unit)}
    (hleads : Team.Leads ⟨f, fun i => replaceFile (writer i) p (contents i)⟩ turns x) :
    (x.files.get? (f.place p) = f.get? (f.place p) ∨
      (∃ i, x.files.get? (f.place p) = some (.file (contents i))) ∨
      (f.get? (f.place p) = none ∧ f.place p ∈ (p.ancestry.drop 1).map f.place ∧
        x.files.get? (f.place p) = some .directory)) ∧
    (∀ c, x.files.read p = .ok c →
      f.get? (f.place p) = some (.file c) ∨ ∃ i, c = contents i) ∧
    (∀ t y, x.Step t y → ∀ i ≠ t.who, ∀ c,
      y.files.get? (f.place (p.temporary (writer i))) = some (.file c) ↔
        x.files.get? (f.place (p.temporary (writer i))) = some (.file c)) ∧
    ((∀ i, ∃ r, x.programs i = .done r) →
      (∀ i c, x.files.get? (f.place (p.temporary (writer i))) ≠ some (.file c)) ∧
      ((∃ i, x.programs i = .done (.ok ())) →
        ∃ i, lastMover? turns = some i ∧ x.programs i = .done (.ok ()) ∧
          x.files.read p = .ok (contents i))) := by
  have hrely (i j : ι) (a : Act) (g h : Files) (hij : i ≠ j)
      (hgh : Replaces (p.temporary (writer i)) p (contents i) a g h) :
      (leaving (p.temporary (writer j))).allows g h :=
    hgh.allows (place_temporary_ne g p fun heq => hij (hwriter heq).symm)
      (g.place_ne_place_temporary p (writer j)).symm
  obtain ⟨hmeets, hsound⟩ := hleads.meets (Sound f p contents)
    (fun i => meets_replaceFile (writer i) p (contents i) (hfree i)) hrely
    ⟨rfl, .inl rfl, fun i hi => by cases hi⟩ fun _ _ _ _ hg hgh => hg.turn hgh
  have hplace (q : Path) : x.files.place q = f.place q := place_congr hsound.here
  have hended {i : ι} {r : Except FileError Unit} (hr : x.programs i = .done r) :
      Ended (p.temporary (writer i)) (actsOf i turns) r x.files := by
    have hi := hmeets i
    rw [hr] at hi
    exact hi x.files (Reliance.refl _ _)
  refine ⟨hsound.place, fun c hread => ?_, fun t y hstep i hi c => ?_, fun hdone => ⟨?_, ?_⟩⟩
  · obtain ⟨-, hget⟩ := read_eq_ok_iff.mp hread
    rw [hplace] at hget
    rcases hsound.place with hstart | ⟨i, hfile⟩ | ⟨-, -, hdir⟩
    · exact .inl (hstart ▸ hget)
    · rw [hfile] at hget
      cases hget
      exact .inr ⟨i, rfl⟩
    · rw [hdir] at hget
      cases hget
  · have hchange := (hstep.meets hmeets hrely).1
    have hkept := hrely _ _ _ _ _ hi.symm hchange
    rw [← hplace]
    exact hkept.2 c
  · intro i
    obtain ⟨r, hr⟩ := hdone i
    rw [← hplace]
    exact (hended hr).vacant
  · rintro ⟨i, hi⟩
    obtain ⟨j, hj⟩ := exists_lastMover? (hended hi).1
    obtain ⟨r, hr⟩ := hdone j
    cases r with
    | ok u => exact ⟨j, hj, hr, hsound.last j hj⟩
    | error e =>
      have hnone := (hended hr).1
      rw [any_moves_of_lastMover? hj] at hnone
      cases hnone

/-- Two writers that take turns, where the one that started first moves its file last. -/
theorem replaceFile_concurrent_two :
    let writer : Bool → Nat := fun i => if i then 7 else 8
    let contents : Bool → Bytes := fun i => if i then [1] else [2, 3]
    let f : Files := ⟨[(["h"], .file [0])], []⟩
    let p := Path.ofString "./h"
    let x := Team.play ⟨f, fun i => replaceFile (writer i) p (contents i)⟩
      [true, false, true, false, false, true]
    Function.Injective writer ∧ (∀ i, f.get? (f.place (p.temporary (writer i))) = none) ∧
      (∀ i, x.2.programs i = .done (.ok ())) ∧ x.2.files.read p = .ok [1] ∧
      ∀ i c, x.2.files.get? (f.place (p.temporary (writer i))) ≠ some (.file c) := by
  intro writer contents f p x
  have hwriter : Function.Injective writer := by decide
  have hnone : ∀ i, f.get? (f.place (p.temporary (writer i))) = none := by decide
  have hdone : ∀ i, x.2.programs i = .done (.ok ()) := by
    simp only [x, f, p, writer, contents]
    rintro (_ | _) <;> with_unfolding_all rfl
  have hlast : lastMover? x.1 = some true := by
    simp only [x, f, p, writer, contents]
    with_unfolding_all rfl
  have hleads := Team.leads_play ⟨f, fun i => replaceFile (writer i) p (contents i)⟩
    [true, false, true, false, false, true]
  -- only what has been computed so far counts from here on
  change Team.Leads _ x.1 x.2 at hleads
  clear_value x
  obtain ⟨-, -, -, hend⟩ := replaceFile_concurrent f p writer contents hwriter
    (fun i c => by simp [hnone i]) hleads
  obtain ⟨hvacant, hread⟩ := hend fun i => ⟨_, hdone i⟩
  obtain ⟨i, hi, -, hread⟩ := hread ⟨true, hdone true⟩
  rw [hlast] at hi
  cases hi
  exact ⟨hwriter, hnone, hdone, hread, hvacant⟩

/-- The path goes through a directory that stands in its own place: where there was nothing, there
is a directory afterwards. -/
theorem directory_in_place :
    let f : Files := ⟨[], []⟩
    let p := Path.ofString "a/../a"
    let start : Team Unit (Except FileError Unit) := ⟨f, fun _ => replaceFile 7 p [1]⟩
    ∃ turns x, start.Leads turns x ∧ f.get? (f.place (p.temporary 7)) = none ∧
      x.files.get? (f.place p) ≠ f.get? (f.place p) ∧
      x.files.get? (f.place p) ≠ some (.file [1]) := by
  intro f p start
  refine ⟨_, _, start.leads_play [(), ()], by decide, ?_⟩
  have hmade : (start.play [(), ()]).2.files.get? (f.place p) = some .directory := by
    simp only [start, f, p]
    with_unfolding_all rfl
  have hnone : f.get? (f.place p) = none := by decide
  rw [hmade, hnone]
  exact ⟨by simp, by simp⟩

end Team

end Program

end Telemetry
