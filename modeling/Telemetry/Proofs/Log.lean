import Telemetry.Proofs.CommandLine.ExitCode
import Telemetry.Proofs.Log.Lines
import Telemetry.Proofs.Schema.Refusal

/-!
# The log

What is noted while a header is composed tells how far that came. Stages are announced in their
order, up to the one in which an error arises; between the examination of the document and the first
section of the header there is one event for each message type that has passed all checks
(`Program.log_follows_stages`). `Event.Reads` says which line stands for an event.

The result of a run and its events are put together once, in `Program.Logs`; each statement about
the log is a case analysis of that. Calls to the file system note nothing (`Program.Silent`), and
what is noted of a document are the message types of the longest front of it that makes sense
(`Document.accepted_examine`).
-/

namespace Telemetry

/-! ### Programs that note nothing -/

namespace Program

variable {α β : Type} {p : Program α} {next : α → Program β}

/-- A program that notes nothing, whatever its calls answer. -/
def Silent : Program α → Prop
  | done _ => True
  | note _ _ => False
  | call c k => ∀ r : c.Response, (k r).Silent

theorem Silent.events (h : p.Silent) (f : Files) : (p.run f).events = [] := by
  induction p generalizing f with
  | done x => rfl
  | note e p ih => cases h
  | call c k ih => exact ih _ (h _) _

theorem Silent.bind (hp : p.Silent) (hnext : ∀ x, (next x).Silent) : (p >>= next).Silent := by
  change (p.bind next).Silent
  induction p with
  | done x => exact hnext x
  | note e p ih => cases hp
  | call c k ih => exact fun r => ih r (hp r)

theorem silent_pure (x : α) : (pure x : Program α).Silent := trivial

/-- A call by itself notes nothing. -/
theorem silent_call (c : Call) : (call c done).Silent := fun _ => trivial

theorem silent_createDirectories (paths : List Path) : (createDirectories paths).Silent := by
  have hunless (p : Path) (e : FileError) : (unlessDirectory p e).Silent :=
    (silent_call _).bind fun r => by cases r <;> exact silent_pure _
  induction paths with
  | nil => exact silent_pure _
  | cons p outer ih =>
    refine (silent_call _).bind fun r => ?_
    split
    · exact silent_pure _
    · refine ih.bind fun r => ?_
      split
      · exact silent_pure _
      · refine (silent_call _).bind fun r => ?_
        split
        · exact silent_pure _
        · exact hunless p _
    · exact hunless p _

theorem silent_appendAll (p : Path) (bytes : Bytes) : (appendAll p bytes).Silent := by
  fun_induction appendAll p bytes with
  | case1 => exact silent_pure _
  | case2 bytes hne ih =>
    refine (silent_call (.append p bytes)).bind fun r => ?_
    split
    · exact silent_pure _
    · split
      · exact silent_pure _
      · next hn => exact ih _ hn

theorem silent_replaceFile (writer : Nat) (p : Path) (bytes : Bytes) :
    (replaceFile writer p bytes).Silent := by
  have hwrite (temporary : Path) : (writeAndRename temporary p bytes).Silent := by
    refine (silent_call _).bind fun r => ?_
    split
    · exact silent_pure _
    · refine (silent_appendAll temporary bytes).bind fun r => ?_
      split
      · exact silent_pure _
      · exact silent_call _
  refine (silent_createDirectories _).bind fun r => ?_
  split
  · exact silent_pure _
  · refine (hwrite _).bind fun r => ?_
    split
    · exact silent_pure _
    · exact (silent_call _).bind fun _ => silent_pure _

end Program

/-! ### What is noted of a document -/

/-- An event that says of an entry of a document that it has passed all checks, with its name, its
id and the number of its fields. -/
def Event.Announces (e : Event) (x : String × Definition) : Prop :=
  ∃ id : UInt8, x.2.id = some (.integer id.toNat) ∧ e = .accepted x.1 id x.2.fields.length

/-- An event that says of something that it has passed all checks. -/
def Event.IsAcceptance (e : Event) : Prop := ∃ name id fields, e = .accepted name id fields

namespace Document

/-- The longest front of a document that makes sense. -/
structure IsLongestAccepted (earlier d : Document) : Prop where
  front : earlier <+: d
  accepted : earlier.Accepted
  longest : ∀ other : Document, other <+: d → other.Accepted → other <+: earlier

end Document

/-- The entries whose message types are accepted, and the one that is not if there is one. -/
theorem accepted_examineAfter (messages : List Message) (d : Document) :
    ∃ earlier later, d = earlier ++ later ∧
      earlier.foldlM acceptEntry messages = .ok (examineAfter messages d).accepted ∧
        ∀ x ∈ later.head?, ∃ e, accept (examineAfter messages d).accepted x.1 x.2 = .error e := by
  induction d generalizing messages with
  | nil => exact ⟨[], [], rfl, rfl, nofun⟩
  | cons x d ih =>
    rw [examineAfter]
    cases hx : accept messages x.1 x.2 with
    | error e =>
      refine ⟨[], x :: d, rfl, rfl, fun y hy => ?_⟩
      cases hy
      exact ⟨e, hx⟩
    | ok m =>
      obtain ⟨earlier, later, rfl, hfold, hlater⟩ := ih (messages ++ [m])
      refine ⟨x :: earlier, later, rfl, ?_, hlater⟩
      rw [List.foldlM_cons, acceptEntry, hx]
      exact hfold

/-- An examination accepts what goes through the checks one by one. -/
theorem Document.accepted_examine_eq (d : Document) :
    d.examine.accepted = (examineAfter [] d).accepted := by
  rw [examine]
  split
  · next hd =>
    rw [hd]
    rfl
  · rfl

/-- The message types that an examination accepts are well formed. -/
theorem Document.messagesWellFormed_examine (d : Document) :
    MessagesWellFormed d.examine.accepted := by
  rw [accepted_examine_eq]
  exact messagesWellFormed_examineAfter messagesWellFormed_nil d

/-- What an examination accepts are the message types of the longest front that makes sense. -/
theorem Document.accepted_examine (d : Document) : ∃ earlier : Document,
    earlier.IsLongestAccepted d ∧ List.Forall₂ Message.DescribedBy d.examine.accepted earlier := by
  obtain ⟨earlier, later, hd, hfold, hlater⟩ := accepted_examineAfter [] d
  rw [accepted_examine_eq]
  refine ⟨earlier, ⟨⟨later, hd.symm⟩, Schema.accepted_iff.mpr ⟨_, hfold⟩, ?_⟩,
    (Schema.described_of_foldlM hfold).1⟩
  intro other hother haccepted
  refine (List.prefix_or_prefix_of_prefix hother ⟨later, hd.symm⟩).elim id fun h => ?_
  obtain ⟨more, rfl⟩ := h
  -- an entry more is one that is not accepted
  cases more with
  | nil => rw [List.append_nil]
  | cons x more =>
    rw [hd, List.prefix_append_right_inj] at hother
    obtain ⟨rest, rfl⟩ := hother
    rw [← List.singleton_append, ← List.append_assoc] at haccepted
    obtain ⟨messages, hmessages⟩ :=
      Schema.accepted_iff.mp (Schema.accepted_of_append haccepted)
    obtain ⟨e, he⟩ := hlater x rfl
    rw [List.foldlM_append, hfold] at hmessages
    simp [bind, Except.bind, List.foldlM_cons, acceptEntry, he, Except.map] at hmessages

/-! ### Results and events -/

namespace Program

variable {f : Files} {writer : Nat} {config : Config} {s : Schema} {events : List Event}
  {r : Except Error Outcome}

/-- How composing ends and what it notes when the header has been made. -/
inductive Finishes (config : Config) (s : Schema) : Except Error Outcome → List Event → Prop where
  | written {bytes : Nat} : config.mode = .write → Finishes config s (.ok (.written s.size bytes))
    [.committing config.output, .composed config.output s.size]
  | unwritten {cause : FileError} : config.mode = .write →
    Finishes config s (.error (.unwritable config.output cause)) [.committing config.output]
  | upToDate : config.mode = .check → Finishes config s (.ok .upToDate) []
  | differs : config.mode = .check → Finishes config s (.ok .stale) []
  | missing : config.mode = .check → Finishes config s (.ok .stale) [.noOutput config.output]
  | unchecked {cause : FileError} : config.mode = .check →
    Finishes config s (.error (.unwritable config.output cause)) []

/-- How composing ends and what it notes. -/
inductive Logs (f : Files) (config : Config) : Except Error Outcome → List Event → Prop where
  | unread {e : Error} :
    (∀ bytes d, f.read (.ofString config.input) = .ok bytes → Document.read? bytes ≠ .ok d) →
      e.stage = .load → Logs f config (.error e) [.reading config.input]
  | invalid {bytes : Bytes} {d : Document} {e : SchemaError} :
    f.read (.ofString config.input) = .ok bytes → Document.read? bytes = .ok d →
      Schema.ofDocument? d = .error e →
        Logs f config (.error (.invalid e)) (.reading config.input :: d.examinationEvents)
  | loaded {bytes : Bytes} {d : Document} {s : Schema} {r : Except Error Outcome}
    {events : List Event} : f.read (.ofString config.input) = .ok bytes →
      Document.read? bytes = .ok d → Schema.ofDocument? d = .ok s → Finishes config s r events →
        Logs f config r
          (.reading config.input :: (d.examinationEvents ++ (headerEvents ++ events)))

theorem events_loadSchema (f : Files) (path : String) :
    ((loadSchema path).run f).events =
      .reading path :: match f.read (.ofString path) with
        | .error _ => []
        | .ok bytes => loadEvents bytes := by
  simp only [loadSchema, run_bind, run_noteAll, run_read]
  cases f.read (.ofString path) with
  | error e => rfl
  | ok bytes => simp only [run_bind, run_noteAll, run_pure, List.singleton_append, List.append_nil,
      List.nil_append]

/-- What is noted when a header is written: that this begins, and that it is done if it is. -/
theorem finishes_writeHeader (hmode : config.mode = .write) (header : Bytes) :
    let run := (writeHeader writer config.output s header).run f
    Finishes config s run.result run.events := by
  have hsilent := (silent_replaceFile writer (.ofString config.output) header).events f
  simp only [writeHeader, run_bind, run_noteAll, hsilent, List.nil_append]
  cases ((replaceFile writer (.ofString config.output) header).run f).result with
  | error cause => exact .unwritten hmode
  | ok _ =>
    simp only [run_bind, run_noteAll, run_pure, List.append_nil]
    exact .written hmode

theorem finishes_checkHeader (hmode : config.mode = .check) (header : Bytes) :
    let run := (checkHeader config.output header).run f
    Finishes config s run.result run.events := by
  simp only [checkHeader, run_bind, run_read, List.nil_append]
  split
  · next bytes hread =>
    rw [run_pure]
    split
    · exact .upToDate hmode
    · exact .differs hmode
  · simp only [run_bind, run_noteAll, run_pure, List.append_nil]
    exact .missing hmode
  · exact .unchecked hmode

/-- Composing notes what goes with its result. -/
theorem logs_compose (f : Files) (writer : Nat) (config : Config) :
    let run := (compose writer config).run f
    Logs f config run.result run.events := by
  have hevents := events_loadSchema f config.input
  simp only [compose, composeHeader, run_bind, files_loadSchema, result_loadSchema]
  cases hread : f.read (.ofString config.input) with
  | error e =>
    simp only [hread] at hevents
    simp only [run_pure, hevents, List.append_nil]
    exact .unread (fun bytes d h => by rw [hread] at h; cases h) rfl
  | ok bytes =>
    simp only [hread, loadEvents] at hevents
    cases hd : Document.read? bytes with
    | error e =>
      simp only [hd] at hevents
      simp only [Schema.ofBytes?, hd, run_pure, hevents, List.append_nil]
      exact .unread (fun bytes' d h => by rw [hread] at h; cases h; simp [hd]) rfl
    | ok d =>
      simp only [hd] at hevents
      cases hs : Schema.ofDocument? d with
      | error e =>
        simp only [Schema.ofBytes?, hd, hs, Except.mapError, run_pure, hevents, List.append_nil]
        exact .invalid hread hd hs
      | ok s =>
        simp only [Schema.ofBytes?, hd, hs, Except.mapError, run_bind, run_noteAll, run_pure,
          hevents, List.append_nil]
        refine .loaded hread hd hs ?_
        cases hmode : config.mode with
        | write => exact finishes_writeHeader hmode _
        | check => exact finishes_checkHeader hmode _

end Program

/-! ### Lines -/

theorem reads_examinationEvents (d : Document) : ∀ e ∈ d.examinationEvents, e.Reads e.line := by
  refine List.forall_mem_cons.mpr ⟨(Event.Reads.validating _).line, ?_⟩
  refine List.forall_mem_map.mpr fun m hm => ?_
  have hwell := d.messagesWellFormed_examine.each m hm
  exact (Event.Reads.accepted m.id _ (isIdentifier_iff.mp hwell.identifier)).line

theorem reads_headerEvents : ∀ e ∈ headerEvents, e.Reads e.line := by
  have hevents : headerEvents = (sectionNames.map fun p => .emitting p.1) ++ [.closing] := rfl
  rw [hevents]
  refine List.forall_mem_append.mpr ⟨List.forall_mem_map.mpr fun p hp => ?_, ?_⟩
  · exact (Event.Reads.emitting hp).line
  · exact List.forall_mem_singleton.mpr Event.Reads.closing.line

namespace Program

variable {f : Files} {config : Config} {s : Schema} {events : List Event}
  {r : Except Error Outcome}

theorem Finishes.reads (h : Finishes config s r events) : ∀ e ∈ events, e.Reads e.line := by
  have hcommitting := (Event.Reads.committing config.output).line
  cases h with
  | written _ =>
    exact List.forall_mem_cons.mpr
      ⟨hcommitting, List.forall_mem_singleton.mpr (Event.Reads.composed _ _).line⟩
  | unwritten _ => exact List.forall_mem_singleton.mpr hcommitting
  | missing _ => exact List.forall_mem_singleton.mpr (Event.Reads.noOutput _).line
  | _ => exact List.forall_mem_nil _

/-- All that is noted reads as it should. -/
theorem Logs.reads (h : Logs f config r events) : ∀ e ∈ events, e.Reads e.line := by
  have hreading := (Event.Reads.reading config.input).line
  cases h with
  | unread _ _ => exact List.forall_mem_singleton.mpr hreading
  | invalid _ _ _ => exact List.forall_mem_cons.mpr ⟨hreading, reads_examinationEvents _⟩
  | loaded _ _ _ hfinishes =>
    refine List.forall_mem_cons.mpr ⟨hreading, ?_⟩
    exact List.forall_mem_append.mpr ⟨reads_examinationEvents _,
      List.forall_mem_append.mpr ⟨reads_headerEvents, hfinishes.reads⟩⟩

end Program

/-! ### Stages -/

/-- The stages that events announce, in their order. -/
def announcedStages (events : List Event) : List Stage := events.filterMap Event.stage?

theorem announcedStages_append (events later : List Event) :
    announcedStages (events ++ later) = announcedStages events ++ announcedStages later :=
  List.filterMap_append

/-- Message types that are accepted announce no stage. -/
theorem announcedStages_examinationEvents (d : Document) :
    announcedStages d.examinationEvents = [.validate] := by
  have hnone (messages : List Message) : announcedStages (messages.map fun m =>
      .accepted m.name m.id m.fields.length) = [] := by
    rw [announcedStages, List.filterMap_map, List.filterMap_eq_nil_iff]
    exact fun _ _ => rfl
  change .validate :: announcedStages _ = _
  rw [hnone]

/-- What is noted of a document: the message types of its longest front that makes sense. -/
theorem Document.announces_examinationEvents (d : Document) : ∃ earlier announced,
    IsLongestAccepted earlier d ∧ d.examinationEvents = .validating d.length :: announced ∧
      List.Forall₂ Event.Announces announced earlier := by
  obtain ⟨earlier, hlongest, hdescribed⟩ := d.accepted_examine
  refine ⟨earlier, _, hlongest, rfl, List.forall₂_map_left_iff.mpr (hdescribed.imp ?_)⟩
  intro m x hm
  exact ⟨m.id, hm.id, by rw [hm.name, hm.fields.length_eq]⟩

theorem not_isAcceptance_headerEvents : ∀ e ∈ headerEvents, ¬e.IsAcceptance := by
  simp [headerEvents, Event.IsAcceptance]

namespace Program

variable {f : Files} {config : Config} {s : Schema} {events : List Event}
  {r : Except Error Outcome}

/-- The stages that are announced if the document describes a schema. -/
def stagesOf : Mode → List Stage
  | .write => Stage.all
  | .check => Stage.all.dropLast

theorem Finishes.stages (h : Finishes config s r events) :
    Stage.all.dropLast ++ announcedStages events = stagesOf config.mode := by
  cases h with
  | _ hmode => rw [hmode]; rfl

theorem Finishes.not_isAcceptance (h : Finishes config s r events) :
    ∀ e ∈ events, ¬e.IsAcceptance := by
  cases h <;> simp [Event.IsAcceptance]

theorem announcedStages_of_document (path : String) (d : Document) (events : List Event) :
    announcedStages (.reading path :: (d.examinationEvents ++ (headerEvents ++ events))) =
      Stage.all.dropLast ++ announcedStages events := by
  change .load :: announcedStages _ = _
  rw [announcedStages_append, announcedStages_append, announcedStages_examinationEvents]
  rfl

/-- The stages that are announced, by what the input file holds. -/
theorem Logs.stages (h : Logs f config r events) :
    (announcedStages events = [.load] ∧ ∃ e : Error, r = .error e ∧ e.stage = .load) ∨
    (announcedStages events = [.load, .validate] ∧ ∃ e, r = .error (.invalid e)) ∨
    (announcedStages events = stagesOf config.mode ∧ ∃ s rest, Finishes config s r rest) := by
  cases h with
  | unread _ hstage => exact .inl ⟨rfl, _, rfl, hstage⟩
  | @invalid _ d _ _ _ _ =>
    refine .inr (.inl ⟨?_, _, rfl⟩)
    change .load :: announcedStages _ = _
    rw [announcedStages_examinationEvents]
  | loaded _ _ _ hfinishes =>
    refine .inr (.inr ⟨?_, _, _, hfinishes⟩)
    rw [announcedStages_of_document, hfinishes.stages]

/-- Stages are announced in their order, each at most once. -/
theorem Logs.stages_front (h : Logs f config r events) :
    announcedStages events <+: Stage.all ∧ (announcedStages events).Nodup := by
  obtain ⟨hstages, -⟩ | ⟨hstages, -⟩ | ⟨hstages, -⟩ := h.stages
  · rw [hstages]
    decide
  · rw [hstages]
    decide
  · rw [hstages]
    cases config.mode <;> decide

/-- The last stage that is announced is that of the error, unless that arises when the output file
is read. -/
theorem Logs.getLast?_stages (h : Logs f config r events) {e : Error} (he : r = .error e) :
    ((∃ cause, e = .unwritable config.output cause) ∧ config.mode = .check →
      e.stage = .write ∧ (announcedStages events).getLast? = some .finalize) ∧
    (¬((∃ cause, e = .unwritable config.output cause) ∧ config.mode = .check) →
      (announcedStages events).getLast? = some e.stage) := by
  subst he
  obtain ⟨hstages, e', he, hstage⟩ | ⟨hstages, e', he⟩ | ⟨hstages, s, rest, hfinishes⟩ := h.stages
  · cases he
    rw [hstages, hstage]
    refine ⟨?_, fun _ => rfl⟩
    rintro ⟨⟨cause, rfl⟩, -⟩
    cases hstage
  · cases he
    rw [hstages]
    refine ⟨?_, fun _ => rfl⟩
    rintro ⟨⟨cause, hcause⟩, -⟩
    cases hcause
  · rw [hstages]
    cases hfinishes with
    | unwritten hmode =>
      -- that the header is about to be written has been announced
      rw [hmode]
      exact ⟨fun h => (nomatch h.2), fun _ => rfl⟩
    | unchecked hmode =>
      -- and here it has not, as nothing is written
      rw [hmode]
      exact ⟨fun _ => ⟨rfl, rfl⟩, fun h => absurd ⟨⟨_, rfl⟩, rfl⟩ h⟩

/-- It is said that composing is done exactly if a header has been written. -/
theorem Logs.exists_composed_iff (h : Logs f config r events) :
    (∃ path messages, .composed path messages ∈ events) ↔
      ∃ messages bytes, r = .ok (.written messages bytes) := by
  have hnone (d : Document) (path : String) (messages : Nat) :
      .composed path messages ∉ d.examinationEvents := by
    simp [Document.examinationEvents]
  cases h with
  | unread _ _ => simp
  | invalid _ _ _ => simp [hnone]
  | loaded _ _ _ hfinishes =>
    have hheader (path : String) (messages : Nat) :
        .composed path messages ∉ headerEvents := by
      simp [headerEvents]
    cases hfinishes <;> simp [hnone, hheader]

/-- What is noted of the document stands behind that it is examined and in front of everything else.
-/
theorem Logs.announces (h : Logs f config r events) {bytes : Bytes} {d : Document}
    (hread : f.read (.ofString config.input) = .ok bytes) (hd : Document.read? bytes = .ok d) :
    ∃ earlier announced rest, Document.IsLongestAccepted earlier d ∧
      events = .reading config.input :: .validating d.length :: (announced ++ rest) ∧
        List.Forall₂ Event.Announces announced earlier ∧ ∀ e ∈ rest, ¬e.IsAcceptance := by
  obtain ⟨earlier, announced, hlongest, hevents, hannounces⟩ := d.announces_examinationEvents
  cases h with
  | unread hnone => exact absurd hd (hnone bytes d hread)
  | invalid hread' hd' _ =>
    cases hread.symm.trans hread'
    cases hd.symm.trans hd'
    exact ⟨earlier, announced, [], hlongest, by rw [hevents, List.append_nil], hannounces, nofun⟩
  | loaded hread' hd' _ hfinishes =>
    cases hread.symm.trans hread'
    cases hd.symm.trans hd'
    refine ⟨earlier, announced, _, hlongest, by rw [hevents]; rfl, hannounces, ?_⟩
    exact List.forall_mem_append.mpr ⟨not_isAcceptance_headerEvents, hfinishes.not_isAcceptance⟩

/-- The stages that are announced if there is a document. -/
theorem Logs.stages_of_document (h : Logs f config r events) {bytes : Bytes} {d : Document}
    (hread : f.read (.ofString config.input) = .ok bytes) (hd : Document.read? bytes = .ok d) :
    ((∃ e, Schema.ofDocument? d = .error e) → announcedStages events = [.load, .validate]) ∧
      ((∃ s, Schema.ofDocument? d = .ok s) → announcedStages events = stagesOf config.mode) := by
  cases h with
  | unread hnone => exact absurd hd (hnone bytes d hread)
  | invalid hread' hd' hs =>
    cases hread.symm.trans hread'
    cases hd.symm.trans hd'
    refine ⟨fun _ => ?_, fun ⟨s, hs'⟩ => absurd (hs.symm.trans hs') nofun⟩
    change .load :: announcedStages _ = _
    rw [announcedStages_examinationEvents]
  | loaded hread' hd' hs hfinishes =>
    cases hread.symm.trans hread'
    cases hd.symm.trans hd'
    refine ⟨fun ⟨e, he⟩ => absurd (hs.symm.trans he) nofun, fun _ => ?_⟩
    rw [announcedStages_of_document, hfinishes.stages]

/-- If there is no document, only loading is noted. -/
theorem Logs.of_unread (h : Logs f config r events)
    (hnone : ∀ bytes d, f.read (.ofString config.input) = .ok bytes →
      Document.read? bytes ≠ .ok d) : events = [.reading config.input] := by
  cases h with
  | unread _ _ => rfl
  | invalid hread hd _ => exact absurd hd (hnone _ _ hread)
  | loaded hread hd _ _ => exact absurd hd (hnone _ _ hread)

/-- At the least important level every event is shown. -/
theorem shownLines_of_trace {x : Invocation} (hx : x.level = .trace) (events : List Event) :
    x.shownLines events = events.map Event.line := by
  have hall (e : Event) : e.level.shownAt x.level = true := by
    rw [hx]
    cases e <;> rfl
  rw [Invocation.shownLines, List.filter_eq_self.mpr fun e _ => hall e]

/-- The log follows the stages. These are announced in their order, each at most once: only loading
if the input is no document, only that and the examination if the document describes no schema,
otherwise all up to the last section of the header, and writing exactly if the header is to be
written. Between the examination and the next stage the message types of the longest front of the
document that makes sense are noted in order, each with its name, its id and the number of its
fields, and no others anywhere. If there is an error, the last stage announced is the one it arises
in, except that an output file that cannot be compared belongs to writing, which is not announced
then. That composing is done is noted exactly if a header has been written. Each line reads as
`Event.Reads` says of its event, with the stage by name if one begins, and with name, id and number
of fields if a message type has passed all checks. At the least important level all are shown. -/
theorem log_follows_stages (f : Files) (writer : Nat) (config : Config) :
    let run := (compose writer config).run f
    let stages := announcedStages run.events
    (stages <+: Stage.all ∧ stages.Nodup) ∧
      ((∀ bytes d, f.read (.ofString config.input) = .ok bytes →
          Document.read? bytes ≠ .ok d) →
        stages = [.load] ∧ ∀ e ∈ run.events, ¬e.IsAcceptance) ∧
      (∀ bytes d, f.read (.ofString config.input) = .ok bytes → Document.read? bytes = .ok d →
        (∃ earlier announced rest, Document.IsLongestAccepted earlier d ∧
          run.events = .reading config.input :: .validating d.length :: (announced ++ rest) ∧
            List.Forall₂ Event.Announces announced earlier ∧ ∀ e ∈ rest, ¬e.IsAcceptance) ∧
          ((∃ e, Schema.ofDocument? d = .error e) → stages = [.load, .validate]) ∧
          ((∃ s, Schema.ofDocument? d = .ok s) → stages = stagesOf config.mode)) ∧
      (∀ e, run.result = .error e →
        ((∃ cause, e = .unwritable config.output cause) ∧ config.mode = .check →
          e.stage = .write ∧ stages.getLast? = some .finalize) ∧
        (¬((∃ cause, e = .unwritable config.output cause) ∧ config.mode = .check) →
          stages.getLast? = some e.stage)) ∧
      ((∃ path messages, .composed path messages ∈ run.events) ↔
        ∃ messages bytes, run.result = .ok (.written messages bytes)) ∧
      (∀ e ∈ run.events, e.Reads e.line) ∧
      ∀ x : Invocation, x.level = .trace → (x.report run).errors =
        run.events.map Event.line ++ (x.conclusion run.result).errors := by
  intro run stages
  have hlogs : Logs f config run.result run.events := logs_compose f writer config
  refine ⟨hlogs.stages_front, fun hnone => ?_, fun bytes d hread hd =>
    ⟨hlogs.announces hread hd, hlogs.stages_of_document hread hd⟩,
      fun e he => hlogs.getLast?_stages he, hlogs.exists_composed_iff, hlogs.reads, fun x hx => ?_⟩
  · have hevents : run.events = [.reading config.input] := hlogs.of_unread hnone
    simp only [stages, hevents]
    exact ⟨rfl, by simp [Event.IsAcceptance]⟩
  · rw [Invocation.report, shownLines_of_trace hx]

/-- A check of a document whose second entry has no id, with two marks for more verbosity. -/
theorem log_follows_stages_missing :
    let bytes := Text.Utf8.ofString "\x7b\"a\":\x7b\"id\":1\x7d,\"b\":\x7b\x7d\x7d"
    let d : Document := [("a", ⟨some (.integer 1), false, []⟩), ("b", ⟨none, false, []⟩)]
    let f : Files := ⟨[(["in"], .file bytes)], []⟩
    let x : Invocation := ⟨⟨"in", "out", .check⟩, 2⟩
    let run := (compose 7 x.config).run f
    run.result = .error (.invalid (.missingId "b" none)) ∧
      announcedStages run.events = [.load, .validate] ∧
        (announcedStages run.events).getLast? = some .validate ∧
          (∃ earlier announced rest, Document.IsLongestAccepted earlier d ∧
            run.events = .reading "in" :: .validating 2 :: (announced ++ rest) ∧
              List.Forall₂ Event.Announces announced earlier ∧ ∀ e ∈ rest, ¬e.IsAcceptance) ∧
            (Event.accepted "a" 1 0).Reads
              "TRACE msgspec_codegen::repr: validated message type name=\"a\" id=1 fields=0" ∧
              (x.report run).errors =
                ["DEBUG msgspec_codegen::compose: reading spec stage=load path=in",
                  "DEBUG msgspec_codegen::compose: validating spec stage=validate message_types=2",
                  "TRACE msgspec_codegen::repr: validated message type name=\"a\" id=1 fields=0"]
                    ++ (x.conclusion run.result).errors := by
  intro bytes d f x run
  have hread : f.read (.ofString x.config.input) = .ok bytes := by decide +kernel
  have hd : Document.read? bytes = .ok d := by
    simp only [bytes, d]
    cbv
  have hs : Schema.ofDocument? d = .error (.missingId "b" none) := by decide +kernel
  have hresult : run.result = .error (.invalid (.missingId "b" none)) := by decide +kernel
  have hevents : run.events = [.reading "in", .validating 2, .accepted "a" 1 0] := by
    decide +kernel
  obtain ⟨-, -, hdocument, herror, -, hreads, hlines⟩ := log_follows_stages f 7 x.config
  obtain ⟨hannounces, hstages, -⟩ := hdocument bytes d hread hd
  have haccepted : (Event.accepted "a" 1 0).line =
    "TRACE msgspec_codegen::repr: validated message type name=\"a\" id=1 fields=0" := by
    decide +kernel
  refine ⟨hresult, hstages ⟨_, hs⟩, (herror _ hresult).2 ?_, hannounces,
    haccepted ▸ hreads _ (by rw [hevents]; simp), ?_⟩
  · rintro ⟨⟨_, h⟩, -⟩
    cases h
  · rw [hlines x rfl, hevents]
    decide +kernel

end Program

end Telemetry
