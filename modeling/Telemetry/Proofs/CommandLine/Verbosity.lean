import Telemetry.CommandLine.Arguments
import Telemetry.Proofs.Basic

/-!
# Marks for more verbosity

The marks that ask the command to say more do not change what it is asked to do: without them the
arguments mean the same (`Invocation.ofArguments?_withoutMarks`).

A mark makes a pending value be looked at, which otherwise happens when the next argument has been
recognised. So what the arguments have said with the marks and without differs in the verbosity, and
in that a value may still be pending (`Progress.Quiets`).
-/

namespace Telemetry

/-! ### Arguments without marks -/

/-- The letters of options behind the marks in front of them. -/
def unmarkedLetters : List Char → List Char
  | [] => []
  | c :: cs => if c = 'v' then unmarkedLetters cs else c :: cs

/-- The argument without its marks, unless it has only marks. -/
def unmarked? (a : String) : Option String :=
  match a.toList with
  | '-' :: '-' :: _ => if a = "--verbose" then none else some a
  | '-' :: c :: cs =>
    match unmarkedLetters (c :: cs) with
    | [] => none
    | rest => some (String.ofList ('-' :: rest))
  | _ => some a

/-- The arguments without marks for more verbosity, which stand in front of the mark that ends the
options. -/
def withoutMarks : List String → List String
  | [] => []
  | a :: rest => if a = "--" then a :: rest else (unmarked? a).toList ++ withoutMarks rest

namespace Progress

variable {x y z : Progress}

/-- What the arguments have said without asking for more. -/
def quiet (x : Progress) : Progress := { x with verbosity := 0 }

/-- The second progress is the first without verbosity, or it will be when the value that is pending
in it has been looked at. -/
def Quiets (x y : Progress) : Prop := y = x.quiet ∨ y.settle = .ok x.quiet

/-! ### Steps without verbosity -/

theorem setPath_quiet (x : Progress) (value : String) :
    x.quiet.setPath value = (x.setPath value).map quiet := by
  rw [setPath, setPath]
  split <;> rfl

theorem setOutput_quiet (x : Progress) (value : String) :
    x.quiet.setOutput value = (x.setOutput value).map quiet := by
  have houtput : x.quiet.output = x.output := rfl
  rw [setOutput, setOutput, houtput]
  split
  · rfl
  · split <;> rfl

theorem settle_quiet (x : Progress) : x.quiet.settle = x.settle.map quiet := by
  have hpending : x.quiet.pending = x.pending := rfl
  rw [settle, settle, hpending]
  split
  · rfl
  · exact setPath_quiet { x with pending := none } _
  · rfl
  · exact setOutput_quiet { x with pending := none } _

theorem setCheck_quiet (x : Progress) : x.quiet.setCheck = x.setCheck.map quiet := by
  rw [setCheck, setCheck, settle_quiet]
  cases x.settle with
  | error e => rfl
  | ok y =>
    simp only [Except.map, bind, Except.bind, quiet]
    split <;> rfl

theorem startOutput_quiet (x : Progress) (attached : Option String) :
    x.quiet.startOutput attached = (x.startOutput attached).map quiet := by
  rw [startOutput, startOutput, settle_quiet]
  cases x.settle with
  | error e => rfl
  | ok y =>
    cases attached with
    | none => rfl
    | some value => exact setOutput_quiet y value

theorem addPositional_quiet (x : Progress) (value : String) :
    x.quiet.addPositional value = (x.addPositional value).map quiet := by
  have hpath : x.quiet.hasPath = x.hasPath := rfl
  rw [addPositional, addPositional, hpath]
  split
  · rfl
  · rw [settle_quiet]
    cases x.settle <;> rfl

/-- What has been looked at is no longer pending; a path stays one. -/
theorem of_settle (h : x.settle = .ok y) : y.pending = none ∧ y.hasPath = x.hasPath := by
  unfold settle at h
  split at h
  · next hnone =>
    cases h
    exact ⟨hnone, rfl⟩
  · next hpath =>
    unfold setPath at h
    split at h
    · cases h
    · cases h
      exact ⟨rfl, by simp [hasPath, hpath]⟩
  · cases h
  · next houtput =>
    unfold setOutput at h
    dsimp only at h
    split at h
    · cases h
    · split at h
      · cases h
      · cases h
        exact ⟨rfl, by simp [hasPath, houtput]⟩

theorem settle_of_pending (h : x.pending = none) : x.settle = .ok x := by
  rw [settle, h]

/-! ### Steps with a value that is still pending -/

theorem Quiets.settle (h : x.Quiets y) : y.settle = x.quiet.settle := by
  rcases h with rfl | h
  · rfl
  · rw [h, settle_of_pending (of_settle h).1]

/-- A mark that has been taken leaves what was said without it as it is. -/
theorem Quiets.addVerbosity (h : x.Quiets y) (hx : x.addVerbosity = .ok z) : z.Quiets y := by
  obtain ⟨w, hw, hz⟩ := bind_eq_ok_iff.mp hx
  cases hz
  right
  rw [h.settle, settle_quiet, hw]
  rfl

theorem Quiets.setCheck (h : x.Quiets y) : y.setCheck = x.setCheck.map quiet := by
  rw [← setCheck_quiet, Progress.setCheck, Progress.setCheck, h.settle]

theorem Quiets.startOutput (h : x.Quiets y) (attached : Option String) :
    y.startOutput attached = (x.startOutput attached).map quiet := by
  rw [← startOutput_quiet, Progress.startOutput, Progress.startOutput, h.settle]

theorem Quiets.addPositional (h : x.Quiets y) (value : String) :
    y.addPositional value = (x.addPositional value).map quiet := by
  have hpath : y.hasPath = x.quiet.hasPath := by
    rcases h with rfl | h
    · rfl
    · exact (of_settle h).2.symm
  rw [← addPositional_quiet, Progress.addPositional, Progress.addPositional, h.settle, hpath]

/-- An output option waits for its value with the marks exactly if it does so without them. -/
theorem Quiets.addValue (h : x.Quiets y) (value : String) :
    y.addValue value = (x.addValue value).map quiet := by
  rw [Progress.addValue, Progress.addValue, h.addPositional]
  rcases h with rfl | h
  · have hpending : x.quiet.pending = x.pending := rfl
    rw [hpending]
    split <;> rfl
  · have hx : x.pending ≠ some (.output none) := by
      have hnone : x.quiet.pending = none := (of_settle h).1
      rw [show x.pending = none from hnone]
      exact nofun
    have hy : y.pending ≠ some (.output none) := by
      intro hy
      rw [Progress.settle, hy] at h
      cases h
    rw [if_neg hx, if_neg hy]

/-! ### Arguments -/

/-- What a step of the one comes to is what the same step of the other comes to, without verbosity.
-/
theorem Quiets.of_map {r r' : Except UsageError Progress} (h : r' = r.map quiet) (hr : r = .ok z) :
    ∃ w, r' = .ok w ∧ z.Quiets w := by
  rw [h, hr]
  exact ⟨z.quiet, rfl, .inl rfl⟩

theorem Quiets.addLetters {cs : List Char} (h : x.Quiets y) (hx : x.addLetters cs = .ok z) :
    ∃ w, y.addLetters (unmarkedLetters cs) = .ok w ∧ z.Quiets w := by
  induction cs generalizing x with
  | nil =>
    cases hx
    exact ⟨y, rfl, h⟩
  | cons c cs ih =>
    rw [Progress.addLetters] at hx
    rw [unmarkedLetters]
    split at hx
    · next hv =>
      obtain ⟨x', hmark, hx⟩ := bind_eq_ok_iff.mp hx
      rw [if_pos hv]
      exact ih (h.addVerbosity hmark) hx
    · next hv =>
      rw [if_neg hv, Progress.addLetters, if_neg hv]
      split at hx
      · obtain ⟨_, _, hx⟩ := bind_eq_ok_iff.mp hx
        cases hx
      · next hh =>
        split at hx
        · next ho =>
          rw [if_neg hh, if_pos ho]
          exact Quiets.of_map (h.startOutput _) hx
        · cases hx

/-- Behind marks there is nothing but the output option. -/
theorem unmarkedLetters_of_addLetters {cs : List Char} (h : x.addLetters cs = .ok z) :
    unmarkedLetters cs = [] ∨ ∃ rest, unmarkedLetters cs = 'o' :: rest := by
  induction cs generalizing x with
  | nil => exact .inl rfl
  | cons c cs ih =>
    rw [Progress.addLetters] at h
    rw [unmarkedLetters]
    split at h
    · next hv =>
      obtain ⟨x', -, h⟩ := bind_eq_ok_iff.mp h
      rw [if_pos hv]
      exact ih h
    · next hv =>
      rw [if_neg hv]
      split at h
      · obtain ⟨_, _, h⟩ := bind_eq_ok_iff.mp h
        cases h
      · split at h
        · next ho => exact .inr ⟨cs, by rw [ho]⟩
        · cases h

theorem Quiets.addPositionals {arguments : List String} (h : x.Quiets y)
    (hx : x.addPositionals arguments = .ok z) :
    ∃ w, y.addPositionals arguments = .ok w ∧ z.Quiets w := by
  induction arguments generalizing x y with
  | nil =>
    cases hx
    exact ⟨y, rfl, h⟩
  | cons a rest ih =>
    obtain ⟨x', ha, hx⟩ := bind_eq_ok_iff.mp hx
    obtain ⟨y', hy, h'⟩ := Quiets.of_map (h.addPositional a) ha
    obtain ⟨w, hw, hz⟩ := ih h' hx
    exact ⟨w, bind_eq_ok_iff.mpr ⟨y', hy, hw⟩, hz⟩

/-- A long option that is no mark does the same without verbosity. -/
theorem Quiets.addLong {name : String} {attached : Option String} (h : x.Quiets y)
    (hname : ¬(name = "verbose" ∧ attached = none)) (hx : x.addLong name attached = .ok z) :
    ∃ w, y.addLong name attached = .ok w ∧ z.Quiets w := by
  rw [Progress.addLong] at hx ⊢
  split at hx
  · next houtput =>
    rw [if_pos houtput]
    exact Quiets.of_map (h.startOutput attached) hx
  · next houtput =>
    rw [if_neg houtput]
    split at hx
    · next hflag =>
      split at hx
      · cases hx
      · next hattached =>
        have hverbose : name ≠ "verbose" := fun heq => hname ⟨heq, by simpa using hattached⟩
        rw [if_neg hverbose] at hx
        split at hx
        · next hcheck =>
          rw [if_pos hflag, if_neg hattached, if_neg hverbose, if_pos hcheck]
          exact Quiets.of_map h.setCheck hx
        · obtain ⟨_, _, hx⟩ := bind_eq_ok_iff.mp hx
          cases hx
    · cases hx

/-! ### One argument after the other -/

/-- Takes an argument that is not the mark that ends the options. -/
def addArgument (x : Progress) (a : String) : Except UsageError Progress :=
  match a.toList with
  | '-' :: '-' :: cs => x.addLong (splitLong cs).1 (splitLong cs).2
  | '-' :: c :: cs => x.addLetters (c :: cs)
  | _ => x.addValue a

theorem addAll_cons {a : String} (ha : a ≠ "--") (x : Progress) (rest : List String) :
    x.addAll (a :: rest) = x.addArgument a >>= fun x => x.addAll rest := by
  rw [addAll, addArgument]
  split
  · next hlist => exact absurd (String.toList_inj.mp hlist) ha
  · next hlist => simp only [hlist]
  · next hdash hlist =>
    split
    · next h =>
      rw [hlist] at h
      cases h
      exact absurd rfl hdash
    · next h =>
      rw [hlist] at h
      cases h
      rfl
    · next hnone => exact absurd hlist (hnone _ _)
  · next hnone =>
    split
    · next h => exact absurd h (hnone _ _)
    · next h => exact absurd h (hnone _ _)
    · rfl

/-- The mark with the long name. -/
theorem splitLong_eq_verbose {cs : List Char}
    (h : (splitLong cs).1 = "verbose" ∧ (splitLong cs).2 = none) : cs = "verbose".toList := by
  obtain ⟨hname, hvalue⟩ := h
  have hname : cs.takeWhile (· != '=') = "verbose".toList := by
    rw [← hname]
    exact String.toList_ofList.symm
  have hdrop : cs.length ≤ (cs.takeWhile (· != '=')).length := by
    have htail := Option.map_eq_none_iff.mp hvalue
    rw [← List.drop_eq_nil_iff]
    cases hrest : cs.drop (cs.takeWhile (· != '=')).length with
    | nil => rfl
    | cons c rest =>
      rw [hrest] at htail
      cases htail
  rw [← hname]
  exact ((List.takeWhile_prefix _).eq_of_length_le hdrop).symm

/-- An argument is taken as it is without its marks, if anything is left of it. -/
theorem Quiets.addArgument {a : String} (ha : a ≠ "--") (h : x.Quiets y)
    (hx : x.addArgument a = .ok z) :
    ∃ w, z.Quiets w ∧ ∀ rest, y.addAll ((unmarked? a).toList ++ rest) = w.addAll rest := by
  have hsome {a' : String} {w : Progress} (ha' : a' ≠ "--") (hw : y.addArgument a' = .ok w)
      (rest : List String) : y.addAll (a' :: rest) = w.addAll rest := by
    rw [addAll_cons ha', hw]
    rfl
  unfold Progress.addArgument at hx
  unfold unmarked?
  split at hx
  · next cs hlist =>
    by_cases hverbose : a = "--verbose"
    · subst hverbose
      cases hlist
      exact ⟨y, h.addVerbosity hx, fun _ => rfl⟩
    · have hmark : ¬((splitLong cs).1 = "verbose" ∧ (splitLong cs).2 = none) := fun hmark =>
        hverbose (String.toList_inj.mp (by rw [hlist, splitLong_eq_verbose hmark]; rfl))
      obtain ⟨w, hw, hz⟩ := h.addLong hmark hx
      refine ⟨w, hz, fun rest => ?_⟩
      simp only [if_neg hverbose, Option.toList_some, List.singleton_append]
      exact hsome ha (by simpa only [Progress.addArgument, hlist] using hw) rest
  · next c cs hdash hlist =>
    obtain ⟨w, hw, hz⟩ := h.addLetters hx
    refine ⟨w, hz, fun rest => ?_⟩
    obtain hnil | ⟨letters, ho⟩ := unmarkedLetters_of_addLetters hx
    · simp only [hnil]
      rw [hnil] at hw
      cases hw
      rfl
    · rw [ho] at hw
      simp only [ho]
      refine hsome (fun heq => ?_) ?_ rest
      · rw [← String.toList_inj, String.toList_ofList] at heq
        cases heq
      · rw [Progress.addArgument, String.toList_ofList]
        exact hw
  · next hlong hletters =>
    obtain ⟨w, hw, hz⟩ := Quiets.of_map (h.addValue a) hx
    refine ⟨w, hz, hsome ha ?_⟩
    rw [Progress.addArgument]
    split
    · next hlist => exact absurd hlist (hlong _)
    · next hlist => exact absurd hlist (hletters _ _)
    · exact hw

/-- Arguments without their marks are taken as with them. -/
theorem Quiets.addAll {arguments : List String} (h : x.Quiets y)
    (hx : x.addAll arguments = .ok z) :
    ∃ w, y.addAll (withoutMarks arguments) = .ok w ∧ z.Quiets w := by
  induction arguments generalizing x y with
  | nil =>
    cases hx
    exact ⟨y, rfl, h⟩
  | cons a rest ih =>
    rw [withoutMarks]
    by_cases ha : a = "--"
    · rw [if_pos ha]
      subst ha
      exact h.addPositionals hx
    · rw [addAll_cons ha] at hx
      obtain ⟨x', harg, hrest⟩ := bind_eq_ok_iff.mp hx
      obtain ⟨y', h', hy⟩ := h.addArgument ha harg
      rw [if_neg ha, hy]
      exact ih h' hrest

end Progress

namespace Invocation

/-- Without the marks for more verbosity, the arguments ask for the same. -/
theorem ofArguments?_withoutMarks {arguments : List String} {x : Invocation}
    (h : ofArguments? arguments = .ok x) :
    ofArguments? (withoutMarks arguments) = .ok ⟨x.config, 0⟩ := by
  obtain ⟨y, hall, h⟩ := bind_eq_ok_iff.mp h
  obtain ⟨z, hsettle, h⟩ := bind_eq_ok_iff.mp h
  obtain ⟨w, hw, hquiets⟩ := (show Progress.Quiets {} {} from .inl rfl).addAll hall
  have hdone : w.settle = .ok z.quiet := by
    rw [hquiets.settle, Progress.settle_quiet, hsettle]
    rfl
  refine bind_eq_ok_iff.mpr ⟨w, hw, bind_eq_ok_iff.mpr ⟨z.quiet, hdone, ?_⟩⟩
  have hpath : z.quiet.path = z.path := rfl
  rw [hpath]
  split at h
  · cases h
  · cases h
    rfl

end Invocation

end Telemetry
