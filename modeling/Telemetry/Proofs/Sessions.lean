import Telemetry.Proofs.Files.Replacement

/-!
# Sessions

What comes of editing the input file, composing headers from it and checking them, over and over. A
session remembers what the input file holds and what it held when a header was last written
(`Session`). Each action keeps it sound (`Session.Sound.step`): the input file can be read, the
output file holds the header of what was last written, and before the first header no file but the
input has changed. So all this holds after any number of actions, and a check at any point tells the
truth (`Session.written_and_checked`).
-/

namespace Telemetry

/-! ### Files that are kept -/

namespace Files

variable {f g h : Files} {changed : List Location}

/-- All directories are kept, and all files but those at some locations; there are no other new
ones. -/
structure Keeps (f g : Files) (changed : List Location) : Prop extends KeepsDirectories f g where
  files : ∀ l ∉ changed, ∀ c, g.get? l = some (.file c) ↔ f.get? l = some (.file c)

theorem Keeps.refl (f : Files) (changed : List Location) : f.Keeps f changed :=
  ⟨⟨rfl, fun _ hl => hl⟩, fun _ _ _ => Iff.rfl⟩

theorem Keeps.trans (hfg : f.Keeps g changed) (hgh : g.Keeps h changed) : f.Keeps h changed :=
  ⟨hfg.toKeepsDirectories.trans hgh.toKeepsDirectories,
    fun l hl c => (hgh.files l hl c).trans (hfg.files l hl c)⟩

theorem Keeps.mono {changed' : List Location} (hfg : f.Keeps g changed) (h : changed ⊆ changed') :
    f.Keeps g changed' :=
  ⟨hfg.toKeepsDirectories, fun l hl => hfg.files l fun hmem => hl (h hmem)⟩

/-- A file that is kept is read as before. -/
theorem Keeps.read {p : Path} {contents : Bytes} (hfg : f.Keeps g changed)
    (hp : f.place p ∉ changed) (hread : f.read p = .ok contents) : g.read p = .ok contents :=
  hfg.toKeepsDirectories.read hread
    ((hfg.files _ hp contents).mpr (read_eq_ok_iff.mp hread).2)

/-- Contents that are put in the place of a file are read there, and no other file is changed. -/
theorem read_set {p : Path} {contents : Bytes} (h : f.read p = .ok contents) (bytes : Bytes) :
    (f.set (f.place p) (.file bytes)).read p = .ok bytes ∧
      f.Keeps (f.set (f.place p) (.file bytes)) [f.place p] := by
  obtain ⟨-, hget⟩ := read_eq_ok_iff.mp h
  have hdir : f.get? (f.place p) ≠ some .directory := by simp [hget]
  have hchanges := changes_set hdir (.file bytes)
  have hkeeps := hchanges.keepsDirectories hdir
  refine ⟨hkeeps.read h hchanges.self, hkeeps, fun l hl c => ?_⟩
  rw [hchanges.others l (by simpa using hl)]

end Files

namespace Program

variable {f : Files} {bytes : Bytes}

/-- A replacement that succeeds changes only the file that it replaces, one that fails none. -/
theorem replaceFile_keeps {writer : Nat} (p : Path) (bytes : Bytes)
    (hfree : ∀ c, f.get? (f.place (p.temporary writer)) ≠ some (.file c)) :
    let r := (replaceFile writer p bytes).run f
    r.result = .ok () ∧ r.files.read p = .ok bytes ∧ f.Keeps r.files [f.place p] ∨
      (∃ e, r.result = .error e) ∧ f.Keeps r.files [] := by
  intro r
  obtain ⟨g, hgrows, ⟨hok, hchanges, hdir, -, hread⟩ | ⟨herror, hsame⟩⟩ :=
    replaceFile_cases p bytes hfree
  · have hkeeps := hgrows.keepsDirectories.trans (hchanges.keepsDirectories hdir)
    refine .inl ⟨hok, hread, hkeeps, fun l hl c => ?_⟩
    rw [hchanges.others l (by simpa using hl)]
    exact hgrows.file_iff l c
  · refine .inr ⟨herror, ⟨here_run f _, fun l hl => ?_⟩, fun l _ c => ?_⟩
    · rw [hsame l]
      exact hgrows.directory hl
    · rw [hsame l]
      exact hgrows.file_iff l c

/-- Composing either puts the header of what the input file holds in the output file, and says so,
or changes no file. -/
theorem compose_keeps (writer : Nat) (config : Config)
    (hread : f.read (.ofString config.input) = .ok bytes)
    (hfree : config.mode = .write →
      ∀ c, f.get? (f.place ((Path.ofString config.output).temporary writer)) ≠ some (.file c)) :
    let r := (compose writer config).run f
    (∃ s, Schema.load? bytes = .ok s ∧
        r.result = .ok (.written s.size (Text.Utf8.ofString s.headerText).length) ∧
        r.files.read (.ofString config.output) = .ok (Text.Utf8.ofString s.headerText) ∧
        f.Keeps r.files [f.place (.ofString config.output)]) ∨
      (∀ messages length, r.result ≠ .ok (.written messages length)) ∧ f.Keeps r.files [] := by
  intro r
  cases hload : ((loadSchema config.input).run f).result with
  | error e =>
    obtain ⟨hresult, hfiles⟩ : r.result = .error e ∧ r.files = f := run_compose_of_error hload
    rw [hresult, hfiles]
    exact .inr ⟨by simp, .refl f _⟩
  | ok s =>
    obtain ⟨bytes', hread', hs⟩ := result_loadSchema_eq_ok_iff.mp hload
    rw [hread] at hread'
    cases hread'
    cases hmode : config.mode with
    | check =>
      have hfiles : r.files = f := (run_compose_check hmode hload).2
      have hcases := result_compose_check_cases f writer hmode
      rw [hfiles]
      refine .inr ⟨fun messages length hresult => ?_, .refl f _⟩
      rcases hcases with h | h | ⟨e, h⟩ <;> cases h.symm.trans hresult
    | write =>
      obtain ⟨hresult, hfiles⟩ : r.result = _ ∧ r.files = _ := run_compose_write hmode hload
      obtain ⟨hreplaced, hreport⟩ :=
        run_writeHeader f writer config.output s (Text.Utf8.ofString s.headerText)
      rw [hreport] at hresult
      rw [hreplaced] at hfiles
      rw [hfiles]
      rcases replaceFile_keeps (.ofString config.output) (Text.Utf8.ofString s.headerText)
        (hfree hmode) with ⟨hok, hwritten, hkeeps⟩ | ⟨⟨e, herror⟩, hkeeps⟩
      · rw [hok] at hresult
        exact .inl ⟨s, hs, hresult, hwritten, hkeeps⟩
      · rw [herror] at hresult
        exact .inr ⟨by simp [hresult], hkeeps⟩

end Program

/-! ### Sessions -/

/-- What is done between the input file and the output file. -/
inductive Action where
  /-- The input file gets other contents. -/
  | edit (bytes : Bytes)
  | compose (writer : Nat) (mode : Mode)
deriving DecidableEq, Repr

/-- A tree of files, with what the input file holds in it and what it held when a header was last
written. -/
structure Session where
  files : Files
  document : Bytes
  written : Option Bytes := none

namespace Session

variable {input output : String} {writers : Nat → Prop} {f : Files} {x : Session}

/-- The input file gets other contents. -/
def edit (input : String) (x : Session) (bytes : Bytes) : Session :=
  { x with
    files := x.files.set (x.files.place (.ofString input)) (.file bytes)
    document := bytes }

/-- A header has been composed or checked. -/
def composed (x : Session) (r : Run (Except Error Outcome)) : Session :=
  { x with
    files := r.files
    written :=
      match r.result with
      | .ok (.written _ _) => some x.document
      | _ => x.written }

/-- One action. -/
def step (input output : String) (x : Session) : Action → Session
  | .edit bytes => x.edit input bytes
  | .compose writer mode =>
    x.composed ((Program.compose writer ⟨input, output, mode⟩).run x.files)

@[simp] theorem written_edit (x : Session) (bytes : Bytes) :
    (x.edit input bytes).written = x.written := rfl

/-- What the input file holds is what has been written. -/
theorem written_composed {r : Run (Except Error Outcome)} {messages length : Nat}
    (h : r.result = .ok (.written messages length)) :
    (x.composed r).written = some x.document := by
  simp only [composed, h]

/-- Actions in order. -/
def run (input output : String) (x : Session) (actions : List Action) : Session :=
  actions.foldl (step input output) x

/-- What holds at every point of a session that began with a tree `f` and has only some writers. -/
structure Sound (input output : String) (writers : Nat → Prop) (f : Files) (x : Session) :
    Prop where
  here : x.files.here = f.here
  readable : x.files.read (.ofString input) = .ok x.document
  free : ∀ writer, writers writer → ∀ c,
    x.files.get? (f.place ((Path.ofString output).temporary writer)) ≠ some (.file c)
  header : ∀ bytes, x.written = some bytes → ∃ s, Schema.load? bytes = .ok s ∧
    x.files.read (.ofString output) = .ok (Text.Utf8.ofString s.headerText)
  untouched : x.written = none → f.Keeps x.files [f.place (.ofString input)]

theorem Sound.place_eq (h : Sound input output writers f x) (p : Path) :
    x.files.place p = f.place p :=
  Files.place_congr h.here

/-- Other contents in the input file leave the output file as it is. -/
theorem Sound.edit (h : Sound input output writers f x)
    (hplace : f.place (.ofString output) ≠ f.place (.ofString input)) (bytes : Bytes) :
    Sound input output writers f (x.edit input bytes) := by
  obtain ⟨-, hinput⟩ := Files.read_eq_ok_iff.mp h.readable
  obtain ⟨hread, hkeeps⟩ := Files.read_set h.readable bytes
  rw [h.place_eq] at hinput hkeeps
  refine ⟨hkeeps.here.trans h.here, hread, fun writer hwriter c => ?_, fun d hd => ?_,
    fun hnone => ?_⟩
  · -- the input file is none of the temporary files
    have hne : f.place ((Path.ofString output).temporary writer) ≠ f.place (.ofString input) :=
      fun heq => h.free writer hwriter _ (heq ▸ hinput)
    rw [ne_eq, Session.edit, h.place_eq, hkeeps.files _ (by simpa using hne)]
    exact h.free writer hwriter c
  · obtain ⟨s, hs, houtput⟩ := h.header d hd
    refine ⟨s, hs, ?_⟩
    rw [Session.edit, h.place_eq]
    exact hkeeps.read (by rw [h.place_eq]; simpa using hplace) houtput
  · rw [Session.edit, h.place_eq]
    exact (h.untouched hnone).trans hkeeps

/-- A header that is written is that of what the input file holds. -/
theorem Sound.written (h : Sound input output writers f x)
    (hplace : f.place (.ofString output) ≠ f.place (.ofString input))
    {r : Run (Except Error Outcome)} {s : Schema} {messages length : Nat}
    (hs : Schema.load? x.document = .ok s) (hresult : r.result = .ok (.written messages length))
    (hread : r.files.read (.ofString output) = .ok (Text.Utf8.ofString s.headerText))
    (hkeeps : x.files.Keeps r.files [f.place (.ofString output)]) :
    Sound input output writers f (x.composed r) := by
  have hhere : r.files.here = f.here := hkeeps.here.trans h.here
  have hwritten : (x.composed r).written = some x.document := written_composed hresult
  refine ⟨hhere, ?_, fun writer hwriter c => ?_, fun d hd => ?_, fun hnone => ?_⟩
  · exact hkeeps.read (by rw [h.place_eq]; simpa using hplace.symm) h.readable
  · -- the output file is none of the temporary files
    have hne := r.files.place_ne_place_temporary (.ofString output) writer
    simp only [Files.place_congr hhere] at hne
    rw [ne_eq, composed, hkeeps.files _ (by simpa using hne.symm)]
    exact h.free writer hwriter c
  · rw [hwritten] at hd
    cases hd
    exact ⟨s, hs, hread⟩
  · rw [hwritten] at hnone
    cases hnone

/-- If nothing is written, everything is as before. -/
theorem Sound.unwritten (h : Sound input output writers f x) {r : Run (Except Error Outcome)}
    (hresult : ∀ messages length, r.result ≠ .ok (.written messages length))
    (hkeeps : x.files.Keeps r.files []) : Sound input output writers f (x.composed r) := by
  have hwritten : (x.composed r).written = x.written := by
    unfold composed
    split
    · next messages length hr => exact absurd hr (hresult messages length)
    · rfl
  refine ⟨hkeeps.here.trans h.here, hkeeps.read (by simp) h.readable, fun writer hwriter c => ?_,
    fun d hd => ?_, fun hnone => ?_⟩
  · rw [ne_eq, composed, hkeeps.files _ (by simp)]
    exact h.free writer hwriter c
  · rw [hwritten] at hd
    obtain ⟨s, hs, houtput⟩ := h.header d hd
    exact ⟨s, hs, hkeeps.read (by simp) houtput⟩
  · rw [hwritten] at hnone
    exact (h.untouched hnone).trans (hkeeps.mono (by simp))

/-- Every action keeps a session sound. -/
theorem Sound.step (h : Sound input output writers f x)
    (hplace : f.place (.ofString output) ≠ f.place (.ofString input)) {action : Action}
    (haction : ∀ writer, action = .compose writer .write → writers writer) :
    Sound input output writers f (x.step input output action) := by
  cases action with
  | edit bytes => exact h.edit hplace bytes
  | compose writer mode =>
    have hfree (hmode : mode = .write) (c : Bytes) :
        x.files.get? (x.files.place ((Path.ofString output).temporary writer)) ≠
          some (.file c) := by
      rw [h.place_eq]
      exact h.free writer (haction writer (by rw [hmode])) c
    rcases Program.compose_keeps writer ⟨input, output, mode⟩ h.readable hfree with
      ⟨s, hs, hresult, hread, hkeeps⟩ | ⟨hresult, hkeeps⟩
    · rw [h.place_eq] at hkeeps
      exact h.written hplace hs hresult hread hkeeps
    · exact h.unwritten hresult hkeeps

/-- A session stays sound through any number of actions. -/
theorem Sound.run (h : Sound input output writers f x)
    (hplace : f.place (.ofString output) ≠ f.place (.ofString input)) (actions : List Action)
    (hactions : ∀ writer, .compose writer .write ∈ actions → writers writer) :
    Sound input output writers f (x.run input output actions) := by
  induction actions generalizing x with
  | nil => exact h
  | cons action actions ih =>
    refine ih (h.step hplace fun writer hwriter => ?_) fun writer hmem => ?_
    · exact hactions writer (by simp [hwriter])
    · exact hactions writer (List.mem_cons_of_mem action hmem)

/-- After any number of actions, in which no temporary file is in the way, the output file holds the
header of what the input file held when a header was last written, and before the first header no
file but the input file has changed. A check then changes nothing. It finds the output file up to
date exactly if that holds the header of what the input file holds now, and stale exactly if it
holds something else or does not exist; all else is an error. -/
theorem written_and_checked {document : Bytes} (hinput : f.read (.ofString input) = .ok document)
    (hplace : f.place (.ofString output) ≠ f.place (.ofString input)) (actions : List Action)
    (hfree : ∀ writer, .compose writer .write ∈ actions → ∀ c,
      f.get? (f.place ((Path.ofString output).temporary writer)) ≠ some (.file c)) :
    let x := run input output ⟨f, document, none⟩ actions
    x.files.read (.ofString input) = .ok x.document ∧
    (∀ bytes, x.written = some bytes → ∃ s, Schema.load? bytes = .ok s ∧
      x.files.read (.ofString output) = .ok (Text.Utf8.ofString s.headerText)) ∧
    (x.written = none → ∀ l ≠ f.place (.ofString input), ∀ c,
      x.files.get? l = some (.file c) ↔ f.get? l = some (.file c)) ∧
    ∀ writer,
      let r := (Program.compose writer ⟨input, output, .check⟩).run x.files
      r.files = x.files ∧
      (r.result = .ok .upToDate ↔ ∃ s, Schema.load? x.document = .ok s ∧
        x.files.read (.ofString output) = .ok (Text.Utf8.ofString s.headerText)) ∧
      (r.result = .ok .stale ↔ ∃ s, Schema.load? x.document = .ok s ∧
        ((∃ found, x.files.read (.ofString output) = .ok found ∧
            found ≠ Text.Utf8.ofString s.headerText) ∨
          x.files.read (.ofString output) = .error .notFound)) ∧
      (r.result = .ok .upToDate ∨ r.result = .ok .stale ∨ ∃ e, r.result = .error e) := by
  intro x
  have hstart : Sound input output (fun writer => .compose writer .write ∈ actions) f
      ⟨f, document, none⟩ :=
    ⟨rfl, hinput, hfree, fun _ h => (by cases h), fun _ => .refl f _⟩
  have hx : Sound input output _ f x := hstart.run hplace actions fun _ => id
  refine ⟨hx.readable, hx.header,
    fun hnone l hl => (hx.untouched hnone).files l (by simpa using hl),
    fun writer => ?_⟩
  intro r
  refine ⟨Program.files_compose (.inl rfl), ?_, ?_,
    Program.result_compose_check_cases x.files writer rfl⟩
  · refine (Program.result_compose_eq_upToDate_iff rfl).trans ?_
    simp [hx.readable]
  · refine (Program.result_compose_eq_stale_iff rfl).trans ?_
    simp [hx.readable]

/-- A header is written into a directory that has to be made, then the input file is spoiled. The
header stays, and nothing can be checked. -/
theorem written_and_checked_spoiled :
    let d := Text.Utf8.ofString "\x7b\"a\":\x7b\"id\":1\x7d\x7d"
    let f : Files := ⟨[(["i"], .file d)], []⟩
    let s : Schema := ⟨[⟨"a", "A", 1, false, []⟩]⟩
    let x := run "i" "./g/../h" ⟨f, d, none⟩ [.compose 7 .write, .edit []]
    x.files.read (.ofString "./g/../h") = .ok (Text.Utf8.ofString s.headerText) ∧
      ∃ e, ((Program.compose 7 ⟨"i", "./g/../h", .check⟩).run x.files).result = .error e := by
  intro d f s x
  have hs : Schema.load? d = .ok s := by
    simp only [d, s]
    cbv
  have hempty (s') : Schema.load? [] ≠ .ok s' := by
    cbv
    simp
  -- the contents do not matter for the calls
  clear_value d s
  let g : Files := ⟨[(["g"], .directory), (["i"], .file d)], []⟩
  have hdirectories : (Program.createDirectories ((Path.ofString "./g/../h").ancestry.drop 1)).run
      f = ⟨.ok (), g, []⟩ := by
    with_unfolding_all rfl
  have htarget : g.target (.ofString "./g/../h") = .ok (.entry ["h"] false) := by
    with_unfolding_all rfl
  have htemporary : g.target ((Path.ofString "./g/../h").temporary 7) =
      .ok (.entry [".h.7.tmp"] false) := by
    with_unfolding_all rfl
  have hreplaced : ((Program.replaceFile 7 (.ofString "./g/../h")
      (Text.Utf8.ofString s.headerText)).run f).result = .ok () := by
    refine Program.result_replaceFile hdirectories htarget ?_ htemporary rfl _
    cbv
    simp
  have hread : f.read (.ofString "i") = .ok d := by
    with_unfolding_all rfl
  have hload := Program.result_loadSchema_eq_ok_iff.mpr ⟨d, hread, hs⟩
  have hresult : ((Program.compose 7 ⟨"i", "./g/../h", .write⟩).run f).result =
      .ok (.written s.size (Text.Utf8.ofString s.headerText).length) := by
    have hmode : (Config.mk "i" "./g/../h" .write).mode = .write := rfl
    have hreport := (Program.run_writeHeader f 7 "./g/../h" s (Text.Utf8.ofString s.headerText)).2
    rw [hreplaced] at hreport
    exact (Program.run_compose_write hmode hload).1.trans hreport
  have hwritten : x.written = some d := by
    have hx : x = (composed ⟨f, d, none⟩ _).edit "i" [] := rfl
    rw [hx, written_edit]
    exact written_composed hresult
  have hfree (writer) (h : Action.compose writer .write ∈ [.compose 7 .write, .edit []]) (c) :
      f.get? (f.place ((Path.ofString "./g/../h").temporary writer)) ≠ some (.file c) := by
    have hwriter : writer = 7 := by simpa using h
    subst hwriter
    have hplace : f.place ((Path.ofString "./g/../h").temporary 7) = [".h.7.tmp"] := rfl
    rw [hplace]
    cbv
    simp
  have hplace : f.place (.ofString "./g/../h") ≠ f.place (.ofString "i") := by
    have houtput : f.place (.ofString "./g/../h") = ["h"] := rfl
    have hinput : f.place (.ofString "i") = ["i"] := rfl
    rw [houtput, hinput]
    decide
  obtain ⟨-, hheader, -, hchecks⟩ :=
    written_and_checked hread hplace [.compose 7 .write, .edit []] hfree
  obtain ⟨s', hs', houtput⟩ := hheader d hwritten
  rw [hs] at hs'
  cases hs'
  refine ⟨houtput, ?_⟩
  obtain ⟨-, hupToDate, hstale, hverdicts⟩ := hchecks 7
  rcases hverdicts with h | h | h
  · obtain ⟨s', hs', -⟩ := hupToDate.mp h
    exact absurd hs' (hempty s')
  · obtain ⟨s', hs', -⟩ := hstale.mp h
    exact absurd hs' (hempty s')
  · exact h

end Session

end Telemetry
