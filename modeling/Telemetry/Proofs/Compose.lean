import Telemetry.Compose
import Telemetry.Proofs.Schema.WellFormed

/-!
# Runs of composing

What comes of the parts of `Program.compose` when they run alone on a tree of files: the schema that
is loaded, the verdict on the output file, and the files that are left. Only writing the header
changes any.
-/

namespace Telemetry

namespace Program

variable {f : Files} {writer : Nat} {config : Config}

/-- Reading a file changes none. -/
@[simp] theorem run_read (f : Files) (p : Path) : (read p).run f = ⟨f.read p, f, []⟩ := rfl

/-! ### Loading -/

/-- Loading a schema changes no file. -/
@[simp] theorem files_loadSchema (f : Files) (path : String) :
    ((loadSchema path).run f).files = f := by
  simp only [loadSchema, run_bind, run_noteAll, run_read]
  cases f.read (.ofString path) with
  | error e => rfl
  | ok bytes => simp only [run_bind, run_noteAll, run_pure]

/-- The schema that is loaded is that of the bytes in the file. -/
theorem result_loadSchema_eq_ok_iff {path : String} {s : Schema} :
    ((loadSchema path).run f).result = .ok s ↔
      ∃ bytes, f.read (.ofString path) = .ok bytes ∧ Schema.load? bytes = .ok s := by
  simp only [loadSchema, run_bind, run_noteAll, run_read]
  cases f.read (.ofString path) with
  | error e => simp
  | ok bytes =>
    simp only [run_bind, run_noteAll, run_pure, Schema.ofBytes?_eq_ok_iff, Except.ok.injEq,
      exists_eq_left']

/-! ### Checking -/

/-- Comparing a header with a file changes none. -/
@[simp] theorem files_checkHeader (f : Files) (path : String) (header : Bytes) :
    ((checkHeader path header).run f).files = f := by
  simp only [checkHeader, run_bind, run_read]
  split <;> simp only [run_bind, run_noteAll, run_pure]

/-- What comparing a header with a file comes to. -/
theorem result_checkHeader (f : Files) (path : String) (header : Bytes) :
    ((checkHeader path header).run f).result =
      match f.read (.ofString path) with
      | .ok bytes => .ok (if bytes = header then .upToDate else .stale)
      | .error .notFound => .ok .stale
      | .error e => .error (.unwritable path e) := by
  simp only [checkHeader, run_bind, run_read]
  cases f.read (.ofString path) with
  | ok bytes => rfl
  | error e => cases e <;> simp only [run_bind, run_noteAll, run_pure]

/-- A file is up to date exactly if it holds the header. -/
theorem result_checkHeader_eq_upToDate_iff {path : String} {header : Bytes} :
    ((checkHeader path header).run f).result = .ok .upToDate ↔
      f.read (.ofString path) = .ok header := by
  rw [result_checkHeader]
  cases f.read (.ofString path) with
  | ok bytes =>
    by_cases h : bytes = header <;> simp [h]
  | error e => cases e <;> simp

/-- A file is stale exactly if it holds something else or does not exist. -/
theorem result_checkHeader_eq_stale_iff {path : String} {header : Bytes} :
    ((checkHeader path header).run f).result = .ok .stale ↔
      (∃ bytes, f.read (.ofString path) = .ok bytes ∧ bytes ≠ header) ∨
        f.read (.ofString path) = .error .notFound := by
  rw [result_checkHeader]
  cases f.read (.ofString path) with
  | ok bytes =>
    by_cases h : bytes = header <;> simp [h]
  | error e => cases e <;> simp

/-- Comparing ends with a verdict or an error. -/
theorem result_checkHeader_cases (f : Files) (path : String) (header : Bytes) :
    ((checkHeader path header).run f).result = .ok .upToDate ∨
      ((checkHeader path header).run f).result = .ok .stale ∨
      ∃ e, ((checkHeader path header).run f).result = .error e := by
  rw [result_checkHeader]
  cases f.read (.ofString path) with
  | ok bytes =>
    by_cases h : bytes = header <;> simp [h]
  | error e => cases e <;> simp

/-! ### Writing -/

/-- To write a header is to replace the file, and to say what was written. -/
theorem run_writeHeader (f : Files) (writer : Nat) (path : String) (s : Schema) (header : Bytes) :
    ((writeHeader writer path s header).run f).files =
        ((replaceFile writer (.ofString path) header).run f).files ∧
      ((writeHeader writer path s header).run f).result =
        match ((replaceFile writer (.ofString path) header).run f).result with
        | .error e => .error (.unwritable path e)
        | .ok () => .ok (.written s.size header.length) := by
  simp only [writeHeader, run_bind, run_noteAll]
  cases ((replaceFile writer (.ofString path) header).run f).result with
  | error e => simp only [run_pure, and_self]
  | ok u => simp only [run_bind, run_noteAll, run_pure, and_self]

/-! ### Composing -/

/-- If no schema can be loaded, composing ends with the reason. -/
theorem run_compose_of_error {e : Error}
    (h : ((loadSchema config.input).run f).result = .error e) :
    ((compose writer config).run f).result = .error e ∧
      ((compose writer config).run f).files = f := by
  simp only [compose, run_bind, h, files_loadSchema, run_pure, and_self]

/-- To check is to compare the header of the schema with the output file. -/
theorem run_compose_check {s : Schema} (hmode : config.mode = .check)
    (h : ((loadSchema config.input).run f).result = .ok s) :
    ((compose writer config).run f).result =
        ((checkHeader config.output (Text.Utf8.ofString s.headerText)).run f).result ∧
      ((compose writer config).run f).files = f := by
  simp only [compose, composeHeader, run_bind, h, files_loadSchema, run_noteAll, run_pure, hmode,
    files_checkHeader, and_self]

/-- To write is to replace the output file by the header of the schema. -/
theorem run_compose_write {s : Schema} (hmode : config.mode = .write)
    (h : ((loadSchema config.input).run f).result = .ok s) :
    ((compose writer config).run f).result =
        ((writeHeader writer config.output s (Text.Utf8.ofString s.headerText)).run f).result ∧
      ((compose writer config).run f).files =
        ((writeHeader writer config.output s (Text.Utf8.ofString s.headerText)).run f).files := by
  simp only [compose, composeHeader, run_bind, h, files_loadSchema, run_noteAll, run_pure, hmode,
    and_self]

/-- A verdict is the one on the header of what the input describes. -/
theorem result_compose_check_iff {verdict : Outcome} (hmode : config.mode = .check) :
    ((compose writer config).run f).result = .ok verdict ↔
      ∃ bytes s, f.read (.ofString config.input) = .ok bytes ∧ Schema.load? bytes = .ok s ∧
        ((checkHeader config.output (Text.Utf8.ofString s.headerText)).run f).result =
          .ok verdict := by
  constructor
  · intro h
    cases hload : ((loadSchema config.input).run f).result with
    | error e =>
      rw [(run_compose_of_error hload).1] at h
      cases h
    | ok s =>
      obtain ⟨bytes, hread, hs⟩ := result_loadSchema_eq_ok_iff.mp hload
      rw [(run_compose_check hmode hload).1] at h
      exact ⟨bytes, s, hread, hs, h⟩
  · rintro ⟨bytes, s, hread, hs, hout⟩
    have hload := result_loadSchema_eq_ok_iff.mpr ⟨bytes, hread, hs⟩
    rw [(run_compose_check hmode hload).1]
    exact hout

/-- The output file is up to date exactly if it holds the header of what the input describes. -/
theorem result_compose_eq_upToDate_iff (hmode : config.mode = .check) :
    ((compose writer config).run f).result = .ok .upToDate ↔
      ∃ bytes s, f.read (.ofString config.input) = .ok bytes ∧ Schema.load? bytes = .ok s ∧
        f.read (.ofString config.output) = .ok (Text.Utf8.ofString s.headerText) := by
  simp only [result_compose_check_iff hmode, result_checkHeader_eq_upToDate_iff]

/-- The output file is stale exactly if the input describes something, and the output file holds
something else or does not exist. -/
theorem result_compose_eq_stale_iff (hmode : config.mode = .check) :
    ((compose writer config).run f).result = .ok .stale ↔
      ∃ bytes s, f.read (.ofString config.input) = .ok bytes ∧ Schema.load? bytes = .ok s ∧
        ((∃ found, f.read (.ofString config.output) = .ok found ∧
            found ≠ Text.Utf8.ofString s.headerText) ∨
          f.read (.ofString config.output) = .error .notFound) := by
  simp only [result_compose_check_iff hmode, result_checkHeader_eq_stale_iff]

/-- To check ends with a verdict or an error. -/
theorem result_compose_check_cases (f : Files) (writer : Nat) (hmode : config.mode = .check) :
    ((compose writer config).run f).result = .ok .upToDate ∨
      ((compose writer config).run f).result = .ok .stale ∨
      ∃ e, ((compose writer config).run f).result = .error e := by
  cases hload : ((loadSchema config.input).run f).result with
  | error e => exact .inr (.inr ⟨e, (run_compose_of_error hload).1⟩)
  | ok s =>
    rw [(run_compose_check hmode hload).1]
    exact result_checkHeader_cases f config.output _

end Program

end Telemetry
