import Telemetry.CommandLine.Report
import Telemetry.Proofs.CommandLine.Verbosity
import Telemetry.Proofs.Files.Replacement

/-!
# Exit codes

The exit code tells what came of a command: whether the document could be read, whether it was one,
whether it made sense, and what came of the output file (`Invocation.exitCode_tells`). How often the
command was asked to say more has no influence on it.

What composing comes to is put together once, in `Program.Ends`; each statement about codes is a
case analysis of that.
-/

namespace Telemetry

namespace Program

variable {f : Files} {writer : Nat} {config : Config} {r : Except Error Outcome}

/-- The input file can be read, its bytes are a document, and that describes a schema. -/
def Loads (f : Files) (config : Config) (s : Schema) : Prop :=
  ∃ bytes d, f.read (.ofString config.input) = .ok bytes ∧ Document.read? bytes = .ok d ∧
    Schema.ofDocument? d = .ok s

/-- What composing comes to. The input file decides unless it describes a schema; then the output
file does. -/
inductive Ends (f : Files) (writer : Nat) (config : Config) : Except Error Outcome → Prop where
  | unreadable {e : FileError} : f.read (.ofString config.input) = .error e →
    Ends f writer config (.error (.unreadable config.input e))
  | malformed {bytes : Bytes} {e : Json.ReadError} : f.read (.ofString config.input) = .ok bytes →
    Document.read? bytes = .error e → Ends f writer config (.error (.malformed config.input e))
  | invalid {bytes : Bytes} {d : Document} {e : SchemaError} :
    f.read (.ofString config.input) = .ok bytes → Document.read? bytes = .ok d →
      Schema.ofDocument? d = .error e → Ends f writer config (.error (.invalid e))
  | written {s : Schema} : Loads f config s → config.mode = .write →
    ((replaceFile writer (.ofString config.output)
      (Text.Utf8.ofString s.headerText)).run f).result = .ok () →
      Ends f writer config (.ok (.written s.size (Text.Utf8.ofString s.headerText).length))
  | unwritten {s : Schema} {e : FileError} : Loads f config s → config.mode = .write →
    ((replaceFile writer (.ofString config.output)
      (Text.Utf8.ofString s.headerText)).run f).result = .error e →
      Ends f writer config (.error (.unwritable config.output e))
  | upToDate {s : Schema} : Loads f config s → config.mode = .check →
    f.read (.ofString config.output) = .ok (Text.Utf8.ofString s.headerText) →
      Ends f writer config (.ok .upToDate)
  | differs {s : Schema} {found : Bytes} : Loads f config s → config.mode = .check →
    f.read (.ofString config.output) = .ok found → found ≠ Text.Utf8.ofString s.headerText →
      Ends f writer config (.ok .stale)
  | missing {s : Schema} : Loads f config s → config.mode = .check →
    f.read (.ofString config.output) = .error .notFound → Ends f writer config (.ok .stale)
  | unchecked {s : Schema} {e : FileError} : Loads f config s → config.mode = .check →
    f.read (.ofString config.output) = .error e → e ≠ .notFound →
      Ends f writer config (.error (.unwritable config.output e))

theorem loads_iff {s : Schema} :
    Loads f config s ↔
      ∃ bytes, f.read (.ofString config.input) = .ok bytes ∧ Schema.load? bytes = .ok s := by
  simp only [Loads, Schema.load?_eq_ok_iff, exists_and_left]

theorem Loads.unique {s t : Schema} (hs : Loads f config s) (ht : Loads f config t) : s = t := by
  obtain ⟨bytes, hread, hs⟩ := loads_iff.mp hs
  obtain ⟨bytes', hread', ht⟩ := loads_iff.mp ht
  rw [hread] at hread'
  cases hread'
  rw [hs] at ht
  cases ht
  rfl

/-- What is loaded from a file: nothing if it cannot be read, else what its bytes describe. -/
theorem result_loadSchema (f : Files) (path : String) :
    ((loadSchema path).run f).result =
      match f.read (.ofString path) with
      | .error e => .error (.unreadable path e)
      | .ok bytes => Schema.ofBytes? path bytes := by
  simp only [loadSchema, run_bind, run_noteAll, run_read]
  cases f.read (.ofString path) with
  | error e => rfl
  | ok bytes => simp only [run_bind, run_noteAll, run_pure]

theorem ends_of_loadSchema_error {e : Error}
    (h : ((loadSchema config.input).run f).result = .error e) :
    Ends f writer config (.error e) := by
  rw [result_loadSchema] at h
  split at h
  · next hread =>
    cases h
    exact .unreadable hread
  · next bytes hread =>
    unfold Schema.ofBytes? at h
    split at h
    · next hd =>
      cases h
      exact .malformed hread hd
    · next d hd =>
      cases hs : Schema.ofDocument? d with
      | ok s =>
        rw [hs] at h
        cases h
      | error e' =>
        rw [hs] at h
        cases h
        exact .invalid hread hd hs

/-- Composing ends in one of these ways. -/
theorem ends_compose (f : Files) (writer : Nat) (config : Config) :
    Ends f writer config ((compose writer config).run f).result := by
  cases hload : ((loadSchema config.input).run f).result with
  | error e =>
    rw [(run_compose_of_error hload).1]
    exact ends_of_loadSchema_error hload
  | ok s =>
    have hs : Loads f config s := loads_iff.mpr (result_loadSchema_eq_ok_iff.mp hload)
    cases hmode : config.mode with
    | write =>
      rw [(run_compose_write hmode hload).1, (run_writeHeader f writer config.output s _).2]
      split
      · next hresult => exact .unwritten hs hmode hresult
      · next hresult => exact .written hs hmode hresult
    | check =>
      rw [(run_compose_check hmode hload).1, result_checkHeader]
      split
      · next found hread =>
        split
        · next hfound => exact .upToDate hs hmode (hfound ▸ hread)
        · next hfound => exact .differs hs hmode hread hfound
      · next hread => exact .missing hs hmode hread
      · next e hnot hread => exact .unchecked hs hmode hread fun he => hnot (he ▸ rfl)

end Program

namespace Invocation

open Program

variable {f : Files} {writer : Nat} {x : Invocation} {r : Except Error Outcome} {s : Schema}

/-! ### What the codes mean -/

@[simp] theorem exitCode_report (x : Invocation) (run : Run (Except Error Outcome)) :
    (x.report run).exitCode = (x.conclusion run.result).exitCode := rfl

@[simp] theorem output_report (x : Invocation) (run : Run (Except Error Outcome)) :
    (x.report run).output = (x.conclusion run.result).output := rfl

/-- The codes of what is wrong with the input. -/
theorem exitCode_of_input (h : Ends f writer x.config r) :
    ((x.conclusion r).exitCode = 2 ↔ ∃ e, f.read (.ofString x.config.input) = .error e) ∧
    ((x.conclusion r).exitCode = 3 ↔ ∃ bytes e, f.read (.ofString x.config.input) = .ok bytes ∧
      Document.read? bytes = .error e) ∧
    ((x.conclusion r).exitCode = 4 ↔ ∃ bytes d e, f.read (.ofString x.config.input) = .ok bytes ∧
      Document.read? bytes = .ok d ∧ Schema.ofDocument? d = .error e) := by
  cases h with
  | unreadable hread => simp [conclusion, Error.exitCode, hread]
  | malformed hread hd => simp [conclusion, Error.exitCode, hread, hd]
  | invalid hread hd hs => simp [conclusion, Error.exitCode, hread, hd, hs]
  | _ hloads =>
    obtain ⟨bytes, d, hread, hd, hs⟩ := hloads
    simp [conclusion, Error.exitCode, hread, hd, hs]

/-- The codes of what comes of replacing the output file. -/
theorem exitCode_of_write (h : Ends f writer x.config r) (hloads : Loads f x.config s)
    (hmode : x.config.mode = .write) :
    let replaced := ((replaceFile writer (.ofString x.config.output)
      (Text.Utf8.ofString s.headerText)).run f).result
    ((x.conclusion r).exitCode = 0 ↔ replaced = .ok ()) ∧
      ((x.conclusion r).exitCode = 5 ↔ ∃ e, replaced = .error e) := by
  intro replaced
  obtain ⟨bytes, d, hread, hd, hs⟩ := id hloads
  cases h with
  | unreadable h => simp [hread] at h
  | malformed h h' => simp_all
  | invalid h h' h'' => simp_all
  | written h _ hresult =>
    cases hloads.unique h
    simp [conclusion, replaced, hresult]
  | unwritten h _ hresult =>
    cases hloads.unique h
    simp [conclusion, replaced, hresult, Error.exitCode]
  | _ _ hcheck => simp [hmode] at hcheck

/-- The codes of what comes of comparing the output file. -/
theorem exitCode_of_check (h : Ends f writer x.config r) (hloads : Loads f x.config s)
    (hmode : x.config.mode = .check) :
    let header := Text.Utf8.ofString s.headerText
    let found := f.read (.ofString x.config.output)
    ((x.conclusion r).exitCode = 0 ↔ found = .ok header) ∧
      ((x.conclusion r).exitCode = 1 ↔
        (∃ other, found = .ok other ∧ other ≠ header) ∨ found = .error .notFound) ∧
      ((x.conclusion r).exitCode = 5 ↔ ∃ e, found = .error e ∧ e ≠ .notFound) := by
  intro header found
  obtain ⟨bytes, d, hread, hd, hs⟩ := id hloads
  cases h with
  | unreadable h => simp [hread] at h
  | malformed h h' => simp_all
  | invalid h h' h'' => simp_all
  | written _ hwrite => simp [hmode] at hwrite
  | unwritten _ hwrite => simp [hmode] at hwrite
  | upToDate h _ hfound =>
    cases hloads.unique h
    simp [conclusion, header, found, hfound]
  | differs h _ hfound hne =>
    cases hloads.unique h
    simp [conclusion, header, found, hfound, hne]
  | missing h _ hfound => simp [conclusion, header, found, hfound]
  | unchecked h _ hfound hne => simp [conclusion, header, found, hfound, hne, Error.exitCode]

/-- After the code zero the output file holds the header of what the input described. -/
theorem read_of_exitCode_eq_zero
    (h : (x.conclusion ((x.program writer).run f).result).exitCode = 0) :
    ∃ bytes s, f.read (.ofString x.config.input) = .ok bytes ∧ Schema.load? bytes = .ok s ∧
      ((x.program writer).run f).files.read (.ofString x.config.output) =
        .ok (Text.Utf8.ofString s.headerText) := by
  have hends := ends_compose f writer x.config
  rw [program] at h ⊢
  generalize hr : ((compose writer x.config).run f).result = r at h hends
  cases hends with
  | @written s hloads hmode hresult =>
    obtain ⟨bytes, hread, hs⟩ := loads_iff.mp hloads
    have hload := result_loadSchema_eq_ok_iff.mpr ⟨bytes, hread, hs⟩
    refine ⟨bytes, s, hread, hs, ?_⟩
    rw [(run_compose_write hmode hload).2, (run_writeHeader _ _ _ _ _).1]
    exact read_of_replaceFile hresult
  | @upToDate s hloads hmode hfound =>
    obtain ⟨bytes, hread, hs⟩ := loads_iff.mp hloads
    have hload := result_loadSchema_eq_ok_iff.mpr ⟨bytes, hread, hs⟩
    refine ⟨bytes, s, hread, hs, ?_⟩
    rw [(run_compose_check hmode hload).2]
    exact hfound
  | _ => simp [conclusion, Error.exitCode] at h

/-- The codes of errors, and the names of the stages in which these arise. -/
def errorStages : List (Nat × String) := [(2, "load"), (3, "load"), (4, "validate"), (5, "write")]

/-- The stage in which an error with one of the codes arises has the name that goes with it. -/
theorem stage_of_exitCode (e : Error) :
    ∀ p ∈ errorStages, e.exitCode = p.1 → e.stage.text = p.2 := by
  cases e <;> simp only [Error.exitCode, Error.stage, Stage.text] <;> decide

/-- The last line of the errors names the stage. -/
theorem getLast?_errors {run : Run (Except Error Outcome)} {p : Nat × String}
    (hp : p ∈ errorStages) (h : (x.report run).exitCode = p.1) :
    (x.report run).errors.getLast? =
      some ("ERROR! Composition failed during " ++ p.2 ++ ", run with -v to debug") := by
  rw [report] at h ⊢
  cases hresult : run.result with
  | ok outcome =>
    have hlarge : ∀ p ∈ errorStages, 2 ≤ p.1 := by decide
    have hle := hlarge p hp
    rw [hresult] at h
    cases outcome <;> simp [conclusion] at h <;> omega
  | error e =>
    rw [hresult] at h
    rw [← stage_of_exitCode e p hp h]
    simp [conclusion, errorLines]

/-- How often the command was asked to say more only shows in the errors. -/
theorem conclusion_congr {x' : Invocation} (h : x'.config = x.config)
    (r : Except Error Outcome) : (x'.conclusion r).exitCode = (x.conclusion r).exitCode ∧
      (x'.conclusion r).output = (x.conclusion r).output := by
  cases r with
  | ok outcome => cases outcome <;> simp [conclusion, h]
  | error e => exact ⟨rfl, rfl⟩

/-- Arguments that differ in the marks for more verbosity ask for the same. -/
theorem config_eq_of_withoutMarks {arguments arguments' : List String} {x x' : Invocation}
    (hx : ofArguments? arguments = .ok x) (hx' : ofArguments? arguments' = .ok x')
    (h : withoutMarks arguments' = withoutMarks arguments) : x'.config = x.config := by
  have hsame := ofArguments?_withoutMarks hx'
  rw [h, ofArguments?_withoutMarks hx, Except.ok.injEq, Invocation.mk.injEq] at hsame
  exact hsame.1.symm

/-- The exit code tells what happened. It is 2 if the input cannot be read, 3 if its bytes are no
document and 4 if the document describes no schema. Otherwise the output file decides: to write, the
code is 0 if the file is replaced and 5 if not; to check, it is 0 if the file holds the header, 1 if
it holds something else or does not exist, and 5 if it cannot be read. After 0 the output file holds
the header of what the input described before. The last line of the errors names the stage: `load`
for 2 and 3, `validate` for 4 and `write` for 5. How often the command was asked to say more changes
neither the code, nor what is printed to the output, nor the files. -/
theorem exitCode_tells (f : Files) (writer : Nat) {arguments : List String} {x : Invocation}
    (hx : ofArguments? arguments = .ok x) :
    let run := (x.program writer).run f
    let code := (x.report run).exitCode
    let input := f.read (.ofString x.config.input)
    let output := Path.ofString x.config.output
    (code = 2 ↔ ∃ e, input = .error e) ∧
      (code = 3 ↔ ∃ bytes e, input = .ok bytes ∧ Document.read? bytes = .error e) ∧
      (code = 4 ↔ ∃ bytes d e, input = .ok bytes ∧ Document.read? bytes = .ok d ∧
        Schema.ofDocument? d = .error e) ∧
      (∀ bytes s, input = .ok bytes → Schema.load? bytes = .ok s →
        let header := Text.Utf8.ofString s.headerText
        (x.config.mode = .write →
          (code = 0 ↔ ((replaceFile writer output header).run f).result = .ok ()) ∧
            (code = 5 ↔ ∃ e, ((replaceFile writer output header).run f).result = .error e)) ∧
        (x.config.mode = .check →
          (code = 0 ↔ f.read output = .ok header) ∧
            (code = 1 ↔ (∃ other, f.read output = .ok other ∧ other ≠ header) ∨
              f.read output = .error .notFound) ∧
              (code = 5 ↔ ∃ e, f.read output = .error e ∧ e ≠ .notFound))) ∧
      (code = 0 → ∃ bytes s, input = .ok bytes ∧ Schema.load? bytes = .ok s ∧
        run.files.read output = .ok (Text.Utf8.ofString s.headerText)) ∧
      (∀ p ∈ errorStages, code = p.1 → (x.report run).errors.getLast? =
        some ("ERROR! Composition failed during " ++ p.2 ++ ", run with -v to debug")) ∧
      ∀ arguments' x', ofArguments? arguments' = .ok x' →
        withoutMarks arguments' = withoutMarks arguments →
          let run' := (x'.program writer).run f
          (x'.report run').exitCode = code ∧ (x'.report run').output = (x.report run).output ∧
            run'.files = run.files := by
  have hends := ends_compose f writer x.config
  obtain ⟨htwo, hthree, hfour⟩ := exitCode_of_input hends
  have hlast (p : Nat × String) (hp : p ∈ errorStages) :=
    @getLast?_errors x ((x.program writer).run f) p hp
  simp only [exitCode_report, output_report] at hlast ⊢
  refine ⟨htwo, hthree, hfour, fun bytes s hread hs => ?_, read_of_exitCode_eq_zero, hlast,
    fun arguments' x' hx' hmarks => ?_⟩
  · have hloads : Loads f x.config s := loads_iff.mpr ⟨bytes, hread, hs⟩
    exact ⟨exitCode_of_write hends hloads, exitCode_of_check hends hloads⟩
  · have hconfig := config_eq_of_withoutMarks hx hx' hmarks
    have hprogram : x'.program writer = x.program writer := by rw [program, program, hconfig]
    rw [hprogram]
    exact ⟨(conclusion_congr hconfig _).1, (conclusion_congr hconfig _).2, rfl⟩

/-- An output file that does not exist is out of date, with three marks and with none, and writing
makes it. An input file without a byte fails to load. -/
theorem exitCode_tells_missing :
    let bytes := Text.Utf8.ofString "\x7b\"a\":\x7b\"id\":1\x7d\x7d"
    let s : Schema := ⟨[⟨"a", "A", 1, false, []⟩]⟩
    let f : Files := ⟨[(["in"], .file bytes), (["empty"], .file [])], []⟩
    let x : Invocation := ⟨⟨"in", "out", .check⟩, 3⟩
    let x' : Invocation := ⟨⟨"in", "out", .check⟩, 0⟩
    let y : Invocation := ⟨⟨"in", "out", .write⟩, 0⟩
    let z : Invocation := ⟨⟨"empty", "out", .write⟩, 1⟩
    (ofArguments? ["-vv", "in", "--check", "-voout"] = .ok x ∧
      ofArguments? ["in", "--check", "-oout"] = .ok x' ∧
        (x.report ((x.program 7).run f)).exitCode = 1 ∧
          (x'.report ((x'.program 7).run f)).exitCode = 1) ∧
      (ofArguments? ["-oout", "in"] = .ok y ∧
        (y.report ((y.program 7).run f)).exitCode = 0 ∧
          ((y.program 7).run f).files.read (.ofString "out") =
            .ok (Text.Utf8.ofString s.headerText)) ∧
        ofArguments? ["-v", "empty", "-oout"] = .ok z ∧
          (z.report ((z.program 7).run f)).exitCode = 3 ∧
            (z.report ((z.program 7).run f)).errors.getLast? =
              some "ERROR! Composition failed during load, run with -v to debug" := by
  intro bytes s f x x' y z
  have hx : ofArguments? ["-vv", "in", "--check", "-voout"] = .ok x := by decide +kernel
  have hx' : ofArguments? ["in", "--check", "-oout"] = .ok x' := by decide +kernel
  have hy : ofArguments? ["-oout", "in"] = .ok y := by decide +kernel
  have hz : ofArguments? ["-v", "empty", "-oout"] = .ok z := by decide +kernel
  have hload : Schema.load? bytes = .ok s := by decide +kernel
  -- the contents do not matter for the calls
  clear_value bytes s
  have hread : f.read (.ofString "in") = .ok bytes := rfl
  have hempty : f.read (.ofString "empty") = .ok [] := by
    with_unfolding_all rfl
  have hnone : f.get? ["out"] = none := rfl
  have hmissing : f.read (.ofString "out") = .error .notFound := by
    with_unfolding_all rfl
  have htarget : f.target (.ofString "out") = .ok (.entry ["out"] false) := rfl
  have htemporary : f.target ((Path.ofString "out").temporary 7) =
      .ok (.entry [".out.7.tmp"] false) := rfl
  have hreplaced : ((replaceFile 7 (.ofString "out") (Text.Utf8.ofString s.headerText)).run
      f).result = .ok () :=
    result_replaceFile rfl htarget (by simp [hnone]) htemporary rfl _
  obtain ⟨-, -, -, hchecked, -, -, hmarks⟩ := exitCode_tells f 7 hx
  obtain ⟨-, -, -, hwritten, hheader, -⟩ := exitCode_tells f 7 hy
  obtain ⟨-, hmalformed, -, -, -, hlast, -⟩ := exitCode_tells f 7 hz
  have hone := ((hchecked bytes s hread hload).2 rfl).2.1.mpr (.inr hmissing)
  have hzero := ((hwritten bytes s hread hload).1 rfl).1.mpr hreplaced
  have hthree := hmalformed.mpr ⟨[], ⟨.endOfInput .value, 1, 0⟩, hempty, by cbv⟩
  obtain ⟨_, _, hread', hload', hout⟩ := hheader hzero
  cases hread.symm.trans hread'
  cases hload.symm.trans hload'
  exact ⟨⟨hx, hx', hone, (hmarks _ x' hx' (by decide +kernel)).1.trans hone⟩,
    ⟨hy, hzero, hout⟩, hz, hthree, hlast (3, "load") (by decide) hthree⟩

end Invocation

end Telemetry
