import Mathlib.Data.List.Induction
import Mathlib.Logic.Function.Basic
import Telemetry.Program

/-!
# Programs that share files

Programs that run side by side take turns: in each turn one of them notes an event or makes a single
call to the file system (`Team.Step`). The turns may come in any order (`Team.Leads`). Bytes may be
added in parts, and a call may fail for reasons that the tree knows nothing of; only a removal does
what it can (`Files.MayAnswer`). `Team.play` lets programs take turns by a given order, with the
answers of `Files.perform`.

What holds of a program whatever the others do is a matter of rely and guarantee. If others change
files only as it relies on, each of its acts changes them as it guarantees, and what is promised
of its result holds (`Program.Meets`). When the guarantee of each program is among what the others
rely on, all of this holds along every run (`Team.Leads.meets`).
-/

namespace Telemetry

/-! ### Turns -/

/-- A change to the files is made and answered, or any error is answered and nothing changes. -/
def Files.MayChange (f : Files) (change : Except FileError Files) (answer : Except FileError Unit)
    (g : Files) : Prop :=
  (answer = .ok () ∧ change = .ok g) ∨ ∃ e, answer = .error e ∧ g = f

/-- What a call may answer, and the files after it. Any call that changes files may fail, except for
a removal of what can be removed. -/
def Files.MayAnswer (f : Files) : (c : Call) → c.Response → Files → Prop
  | .read p, answer, g => answer = f.read p ∧ g = f
  | .makeDirectory p, answer, g => f.MayChange (f.makeDirectory p) answer g
  | .isDirectory p, answer, g => answer = f.isDirectory p ∧ g = f
  | .create p, answer, g => f.MayChange (f.create p) answer g
  | .append p bytes, answer, g =>
    (∃ n ≤ bytes.length, answer = .ok n ∧ f.append p (bytes.take n) = .ok g) ∨
      ∃ e, answer = .error e ∧ g = f
  | .rename source destination, answer, g => f.MayChange (f.rename source destination) answer g
  | .remove p, answer, g => (answer, g) = f.changed (f.remove p)

/-- What a program does in one turn. -/
inductive Act where
  | note (event : Event)
  | call (c : Call) (answer : c.Response)

/-- Whether the act moves a file. -/
def Act.moves : Act → Bool
  | .call (.rename _ _) (.ok ()) => true
  | _ => false

/-- A turn of one of several programs. -/
structure Turn (ι : Type) where
  who : ι
  act : Act

/-- Programs that share files. -/
structure Team (ι α : Type) where
  files : Files
  programs : ι → Program α

section Team

variable {ι α : Type}

/-- What one program has done. -/
def actsOf [DecidableEq ι] (i : ι) (turns : List (Turn ι)) : List Act :=
  (turns.filter (·.who = i)).map (·.act)

/-- Who moved a file last. -/
def lastMover? (turns : List (Turn ι)) : Option ι :=
  (turns.reverse.find? (·.act.moves)).map (·.who)

namespace Team

variable [DecidableEq ι]

/-- One of the programs takes its turn. -/
inductive Step (x : Team ι α) : Turn ι → Team ι α → Prop
  | note {i : ι} {e : Event} {next : Program α} (hprogram : x.programs i = .note e next) :
      Step x ⟨i, .note e⟩ ⟨x.files, Function.update x.programs i next⟩
  | call {i : ι} {c : Call} {k : c.Response → Program α} {answer : c.Response} {g : Files}
      (hprogram : x.programs i = .call c k) (hanswer : x.files.MayAnswer c answer g) :
      Step x ⟨i, .call c answer⟩ ⟨g, Function.update x.programs i (k answer)⟩

/-- Turns that lead from one state of a team to another. -/
inductive Leads (x : Team ι α) : List (Turn ι) → Team ι α → Prop
  | start : Leads x [] x
  | turn {turns : List (Turn ι)} {y z : Team ι α} {t : Turn ι} (hleads : Leads x turns y)
      (hstep : y.Step t z) : Leads x (turns ++ [t]) z

/-- The turn of one program, in which its call does what it can, unless it is done. -/
def turn? (x : Team ι α) (i : ι) : Option (Turn ι × Team ι α) :=
  match x.programs i with
  | .done _ => none
  | .note e next => some (⟨i, .note e⟩, ⟨x.files, Function.update x.programs i next⟩)
  | .call c k =>
    let (answer, g) := x.files.perform c
    some (⟨i, .call c answer⟩, ⟨g, Function.update x.programs i (k answer)⟩)

/-- Lets programs take turns in a given order. -/
def play (x : Team ι α) (order : List ι) : List (Turn ι) × Team ι α :=
  order.foldl (fun (turns, y) i =>
    match y.turn? i with
    | none => (turns, y)
    | some (t, z) => (turns ++ [t], z)) ([], x)

end Team

end Team

namespace Files

variable {f : Files}

theorem mayChange_changed (f : Files) (change : Except FileError Files) :
    f.MayChange change (f.changed change).1 (f.changed change).2 := by
  cases change with
  | ok g => exact .inl ⟨rfl, rfl⟩
  | error e => exact .inr ⟨e, rfl, rfl⟩

/-- A call may do what it does when a program runs alone. -/
theorem mayAnswer_perform (f : Files) (c : Call) :
    f.MayAnswer c (f.perform c).1 (f.perform c).2 := by
  cases c with
  | read p => exact ⟨rfl, rfl⟩
  | isDirectory p => exact ⟨rfl, rfl⟩
  | makeDirectory p => exact f.mayChange_changed _
  | create p => exact f.mayChange_changed _
  | rename source destination => exact f.mayChange_changed _
  | remove p => exact rfl
  | append p bytes =>
    cases happend : f.append p bytes with
    | error e =>
      simp only [perform, happend]
      exact .inr ⟨e, rfl, rfl⟩
    | ok g =>
      simp only [perform, happend]
      exact .inl ⟨_, Nat.le_refl _, rfl, by rwa [List.take_length]⟩

end Files

/-! ### Rely and guarantee -/

/-- How others may change the files between two acts of a program. -/
structure Reliance where
  allows : Files → Files → Prop
  refl : ∀ f, allows f f
  trans : ∀ {f g h}, allows f g → allows g h → allows f h

namespace Program

variable {α β : Type} {rely : Reliance} {guarantee : Act → Files → Files → Prop}
  {promise : List Act → α → Files → Prop} {acts : List Act} {f g : Files}

/-- If others change files only as the program relies on, then each of its acts changes them as
it guarantees, and when it is done, what it promises holds of its acts, its result and the files.
The acts that are given are those it has done already. -/
def Meets (rely : Reliance) (guarantee : Act → Files → Files → Prop)
    (promise : List Act → α → Files → Prop) : Program α → List Act → Files → Prop
  | done x, acts, f => ∀ g, rely.allows f g → promise acts x g
  | note e next, acts, f =>
    ∀ g, rely.allows f g → guarantee (.note e) g g ∧
      next.Meets rely guarantee promise (acts ++ [.note e]) g
  | call c k, acts, f =>
    ∀ g, rely.allows f g → ∀ answer h, g.MayAnswer c answer h →
      guarantee (.call c answer) g h ∧
        (k answer).Meets rely guarantee promise (acts ++ [.call c answer]) h

/-- What others may change does not matter. -/
theorem Meets.of_allows {q : Program α} (h : q.Meets rely guarantee promise acts f)
    (hfg : rely.allows f g) : q.Meets rely guarantee promise acts g := by
  cases q with
  | done x => exact fun k hgk => h k (rely.trans hfg hgk)
  | note e next => exact fun k hgk => h k (rely.trans hfg hgk)
  | call c next => exact fun k hgk => h k (rely.trans hfg hgk)

/-- Less can be promised. -/
theorem Meets.mono {q : Program α} {promise' : List Act → α → Files → Prop}
    (h : q.Meets rely guarantee promise acts f)
    (hpromise : ∀ acts x g, promise acts x g → promise' acts x g) :
    q.Meets rely guarantee promise' acts f := by
  induction q generalizing acts f with
  | done x => exact fun g hfg => hpromise _ _ _ (h g hfg)
  | note e next ih => exact fun g hfg => ⟨(h g hfg).1, ih (h g hfg).2⟩
  | call c k ih =>
    exact fun g hfg answer l hanswer =>
      ⟨(h g hfg answer l hanswer).1, ih answer (h g hfg answer l hanswer).2⟩

/-- A second program can use what the first one promises. -/
theorem Meets.bind {q : Program α} {next : α → Program β}
    {promise' : List Act → β → Files → Prop} (h : q.Meets rely guarantee promise acts f)
    (hnext : ∀ acts x g, promise acts x g →
      (next x).Meets rely guarantee promise' acts g) :
    (q >>= next).Meets rely guarantee promise' acts f := by
  change (q.bind next).Meets rely guarantee promise' acts f
  -- on what the first program still has to do
  induction q generalizing acts f with
  | done x => exact hnext acts x f (h f (rely.refl f))
  | note e q ih =>
    intro g hg
    obtain ⟨hguarantee, hrest⟩ := h g hg
    exact ⟨hguarantee, ih hrest⟩
  | call c k ih =>
    intro g hg answer l hanswer
    obtain ⟨hguarantee, hrest⟩ := h g hg answer l hanswer
    exact ⟨hguarantee, ih answer hrest⟩

end Program

/-! ### Teams -/

section Team

variable {ι α : Type}

/-- Who moved a file last is who has done it now, or was it before. -/
theorem lastMover?_concat (turns : List (Turn ι)) (t : Turn ι) :
    lastMover? (turns ++ [t]) = if t.act.moves then some t.who else lastMover? turns := by
  unfold lastMover?
  split
  · next h => simp [h]
  · next h => simp [h]

variable [DecidableEq ι] {x y z : Team ι α} {turns : List (Turn ι)} {t : Turn ι}

theorem actsOf_concat_self (turns : List (Turn ι)) (i : ι) (a : Act) :
    actsOf i (turns ++ [⟨i, a⟩]) = actsOf i turns ++ [a] := by
  simp [actsOf]

theorem actsOf_concat_of_ne {i j : ι} (h : i ≠ j) (turns : List (Turn ι)) (a : Act) :
    actsOf j (turns ++ [⟨i, a⟩]) = actsOf j turns := by
  simp [actsOf, h]

/-- Whoever moved a file last has moved one. -/
theorem any_moves_of_lastMover? {i : ι} (h : lastMover? turns = some i) :
    (actsOf i turns).any Act.moves = true := by
  obtain ⟨t, ht, rfl⟩ := Option.map_eq_some_iff.mp h
  have hmem : t ∈ turns := List.mem_reverse.mp (List.mem_of_find?_eq_some ht)
  have hmoves := List.find?_some ht
  exact List.any_eq_true.mpr ⟨t.act,
    List.mem_map_of_mem (List.mem_filter.mpr ⟨hmem, by simp⟩), hmoves⟩

/-- If anyone has moved a file, someone did so last. -/
theorem exists_lastMover? {i : ι} (h : (actsOf i turns).any Act.moves = true) :
    ∃ j, lastMover? turns = some j := by
  obtain ⟨a, ha, hmoves⟩ := List.any_eq_true.mp h
  obtain ⟨t, ht, rfl⟩ := List.mem_map.mp ha
  have hmem : t ∈ turns.reverse := List.mem_reverse.mpr (List.mem_filter.mp ht).1
  have hfound : (turns.reverse.find? (·.act.moves)).isSome :=
    List.find?_isSome.mpr ⟨t, hmem, hmoves⟩
  obtain ⟨last, hlast⟩ := Option.isSome_iff_exists.mp hfound
  exact ⟨last.who, Option.map_eq_some_iff.mpr ⟨last, hlast, rfl⟩⟩

/-- Playing leads where it ends. -/
theorem Team.leads_play (x : Team ι α) (order : List ι) :
    x.Leads (x.play order).1 (x.play order).2 := by
  -- runs grow at their end, and so does the order
  induction order using List.reverseRecOn with
  | nil => exact .start
  | append_singleton order i ih =>
    simp only [play, List.foldl_append, List.foldl_cons, List.foldl_nil] at ih ⊢
    generalize order.foldl _ _ = state at ih ⊢
    obtain ⟨turns, y⟩ := state
    dsimp only
    cases hprogram : y.programs i with
    | done r =>
      simp only [turn?, hprogram]
      exact ih
    | note e next =>
      simp only [turn?, hprogram]
      exact ih.turn (.note hprogram)
    | call c k =>
      simp only [turn?, hprogram]
      exact ih.turn (.call hprogram (y.files.mayAnswer_perform c))

/-- Each program of the team meets what is said of it. -/
def Team.Meets (rely : ι → Reliance) (guarantee : ι → Act → Files → Files → Prop)
    (promise : ι → List Act → α → Files → Prop) (turns : List (Turn ι)) (x : Team ι α) : Prop :=
  ∀ i, (x.programs i).Meets (rely i) (guarantee i) (promise i) (actsOf i turns) x.files

section Rules

variable {rely : ι → Reliance} {guarantee : ι → Act → Files → Files → Prop}
  {promise : ι → List Act → α → Files → Prop}

/-- After an act that changes files as guaranteed, the other programs meet what they did. -/
theorem Team.Meets.update {i : ι} {a : Act} {q : Program α} {g : Files}
    (hx : x.Meets rely guarantee promise turns)
    (hrely : ∀ i j a f g, i ≠ j → guarantee i a f g → (rely j).allows f g)
    (hguarantee : guarantee i a x.files g)
    (hq : q.Meets (rely i) (guarantee i) (promise i) (actsOf i turns ++ [a]) g) :
    Team.Meets rely guarantee promise (turns ++ [⟨i, a⟩])
      ⟨g, Function.update x.programs i q⟩ := by
  intro j
  dsimp only
  by_cases hij : i = j
  · subst hij
    rwa [Function.update_self, actsOf_concat_self]
  · rw [Function.update_of_ne (Ne.symm hij), actsOf_concat_of_ne hij]
    exact (hx j).of_allows (hrely i j a _ _ hij hguarantee)

/-- A turn changes files as guaranteed, and after it all programs still meet what is said of them.
-/
theorem Team.Step.meets (hstep : x.Step t y) (hx : x.Meets rely guarantee promise turns)
    (hrely : ∀ i j a f g, i ≠ j → guarantee i a f g → (rely j).allows f g) :
    guarantee t.who t.act x.files y.files ∧ y.Meets rely guarantee promise (turns ++ [t]) := by
  cases hstep with
  | @note i e next hprogram =>
    have hi := hx i
    rw [hprogram] at hi
    obtain ⟨hguarantee, hnext⟩ := hi x.files ((rely i).refl _)
    exact ⟨hguarantee, hx.update hrely hguarantee hnext⟩
  | @call i c k answer g hprogram hanswer =>
    have hi := hx i
    rw [hprogram] at hi
    obtain ⟨hguarantee, hnext⟩ := hi x.files ((rely i).refl _) answer g hanswer
    exact ⟨hguarantee, hx.update hrely hguarantee hnext⟩

/-- What is said of programs holds along every run, and so does whatever the guarantees keep. -/
theorem Team.Leads.meets (inv : List (Turn ι) → Files → Prop) (hleads : x.Leads turns y)
    (hx : x.Meets rely guarantee promise [])
    (hrely : ∀ i j a f g, i ≠ j → guarantee i a f g → (rely j).allows f g)
    (hstart : inv [] x.files)
    (hkept : ∀ turns t f g, inv turns f → guarantee t.who t.act f g → inv (turns ++ [t]) g) :
    y.Meets rely guarantee promise turns ∧ inv turns y.files := by
  induction hleads with
  | start => exact ⟨hx, hstart⟩
  | turn hleads hstep ih =>
    obtain ⟨hmeets, hinv⟩ := ih
    obtain ⟨hguarantee, hmeets'⟩ := hstep.meets hmeets hrely
    exact ⟨hmeets', hkept _ _ _ _ hinv hguarantee⟩

end Rules

end Team

end Telemetry
