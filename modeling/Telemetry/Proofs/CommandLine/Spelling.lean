import Telemetry.Proofs.CommandLine.Verbosity

/-!
# Spellings of command lines

What the command is asked to do can be written in many ways: the path, the output option and the
marks come in any order, marks stand alone or in clusters, and a value is attached to its option or
stands behind it. All of these mean the same (`Invocation.ofArguments?_of_writes`).

Arguments are taken from left to right. What they have said so far, once the value that is pending
has been looked at, is what the items so far say (`Progress.Says`): each item written adds what it
says, however it is written, and an induction over the items carries that to the end.
-/

namespace Telemetry

/-! ### Command lines as written -/

/-- What can be said on a command line. The output option may have marks in front of it, in the same
cluster. -/
inductive Item where
  | path (value : String)
  | output (marks : Nat) (value : String)
  | check
  | marks (n : Nat)
deriving DecidableEq, Repr

namespace Item

/-- The path that an item gives. -/
def path? : Item → Option String
  | path value => some value
  | _ => none

/-- The output file that an item gives. -/
def output? : Item → Option String
  | output _ value => some value
  | _ => none

/-- How many marks for more verbosity there are in an item. -/
def verbosity : Item → Nat
  | output n _ => n
  | marks n => n
  | _ => 0

/-- Whether an argument is no option: it is a dash, or does not start with one. -/
def IsValue (a : String) : Prop := a = "-" ∨ a.toList.head? ≠ some '-'

instance (a : String) : Decidable (IsValue a) := inferInstanceAs (Decidable (_ ∨ _))

/-- Marks and what follows them, in one argument. -/
def cluster (marks : Nat) (rest : List Char) : String :=
  String.ofList ('-' :: (List.replicate marks 'v' ++ rest))

/-- The arguments by which an item can be written. -/
inductive Spells : Item → List String → Prop where
  | path {value : String} : IsValue value → Spells (.path value) [value]
  | long {value : String} : IsValue value → Spells (.output 0 value) ["--output", value]
  | longEquals {value : String} : Spells (.output 0 value) ["--output=" ++ value]
  | letter {marks : Nat} {value : String} : IsValue value →
    Spells (.output marks value) [cluster marks ['o'], value]
  | attached {marks : Nat} {value : String} : value.toList.head? ≠ some '=' →
    Spells (.output marks value) [cluster marks ('o' :: value.toList)]
  | letterEquals {marks : Nat} {value : String} :
    Spells (.output marks value) [cluster marks ('o' :: '=' :: value.toList)]
  | check : Spells .check ["--check"]
  | verbose : Spells (.marks 1) ["--verbose"]
  | letters {n : Nat} : 0 < n → Spells (.marks n) [cluster n []]

end Item

/-- The arguments by which items can be written in their order. Behind a mark that ends the options
there may be the path, whatever it starts with. -/
inductive Writes : List Item → List String → Prop where
  | nil : Writes [] []
  | ended {value : String} : Writes [.path value] ["--", value]
  | cons {item : Item} {items : List Item} {arguments rest : List String} :
    item.Spells arguments → Writes items rest → Writes (item :: items) (arguments ++ rest)

namespace Progress

variable {x y z : Progress} {value : String}

/-! ### What has been said -/

/-- What has been said with one item more. -/
def tell (y : Progress) : Item → Progress
  | .path value => { y with path := some value }
  | .output marks value => { y with output := some value, verbosity := y.verbosity + marks }
  | .check => { y with check := true }
  | .marks n => { y with verbosity := y.verbosity + n }

/-- An item may be added: neither path nor output file nor the option to check only is given twice,
and no name is empty. -/
def Admits (y : Progress) : Item → Prop
  | .path value => y.path = none ∧ value ≠ ""
  | .output _ value => y.output = none ∧ value ≠ ""
  | .check => y.check = false
  | .marks _ => True

/-- What has been said, with nothing pending and a verbosity that stops. -/
def done (y : Progress) : Progress :=
  { y with verbosity := min y.verbosity greatestVerbosity, pending := none }

/-- Arguments have said something if they will have when the value that is pending has been looked
at. -/
def Says (x y : Progress) : Prop := x.settle = .ok y.done

theorem settle_done (y : Progress) : y.done.settle = .ok y.done := rfl

theorem Says.pending_ne (h : x.Says y) : x.pending ≠ some (.output none) := by
  intro hpending
  rw [Says, settle, hpending] at h
  cases h

/-- What takes arguments to where they have said one item more takes them there in front of others.
-/
def Adds (x : Progress) (arguments : List String) (y : Progress) : Prop :=
  ∃ z : Progress, z.Says y ∧ ∀ rest, x.addAll (arguments ++ rest) = z.addAll rest

theorem adds_of_addArgument {a : String} (ha : a ≠ "--") (h : x.addArgument a = .ok z)
    (hz : z.Says y) : x.Adds [a] y := by
  refine ⟨z, hz, fun rest => ?_⟩
  rw [List.singleton_append, addAll_cons ha, h]
  rfl

/-! ### Paths and values -/

theorem ne_of_isValue (h : Item.IsValue value) : value ≠ "--" := by
  rintro rfl
  revert h
  decide

theorem addArgument_of_isValue (h : Item.IsValue value) (x : Progress) :
    x.addArgument value = x.addValue value := by
  unfold addArgument
  obtain rfl | h := h
  · rfl
  · split
    · next hlist =>
      rw [hlist] at h
      exact absurd rfl h
    · next hlist =>
      rw [hlist] at h
      exact absurd rfl h
    · rfl

/-- A path waits to be looked at. -/
theorem addPositional_eq (h : x.Says y) (hpath : y.path = none) (value : String) :
    x.addPositional value = .ok { y.done with pending := some (.path value) } := by
  have hnone : x.hasPath = false := by
    rw [← (of_settle h).2]
    simp [hasPath, done, hpath]
  rw [addPositional, hnone, h]
  rfl

theorem says_path (hvalue : value ≠ "") :
    Says { y.done with pending := some (.path value) } (y.tell (.path value)) := by
  simp [Says, settle, setPath, hvalue, done, tell]

/-- A value that stands behind the output option. -/
theorem says_output (y : Progress) (houtput : y.output = none) (hvalue : value ≠ "") :
    Says { y.done with pending := some (.output (some value)) }
      { y with output := some value } := by
  simp [Says, settle, setOutput, hvalue, done, houtput]

/-! ### Options -/

theorem addVerbosity_eq (h : x.Says y) :
    x.addVerbosity = .ok { y with verbosity := y.verbosity + 1 : Progress }.done := by
  rw [addVerbosity, h]
  simp only [bind, Except.bind, done, greatestVerbosity, Except.ok.injEq, mk.injEq, true_and,
    and_true]
  omega

/-- Marks are counted one by one. -/
theorem addLetters_marks (h : x.Says y) (marks : Nat) : ∃ z : Progress,
    z.Says { y with verbosity := y.verbosity + marks } ∧
      ∀ rest, x.addLetters (List.replicate marks 'v' ++ rest) = z.addLetters rest := by
  induction marks generalizing x y with
  | zero => exact ⟨x, h, fun rest => rfl⟩
  | succ marks ih =>
    -- behind the first mark nothing is pending, and the others are counted from there
    obtain ⟨z, hz, hletters⟩ := ih (settle_done { y with verbosity := y.verbosity + 1 })
    refine ⟨z, ?_, fun rest => ?_⟩
    · rw [show y.verbosity + (marks + 1) = y.verbosity + 1 + marks by omega]
      exact hz
    · rw [List.replicate_succ, List.cons_append, addLetters, if_pos rfl, addVerbosity_eq h]
      exact hletters rest

theorem addArgument_cluster {marks : Nat} {rest : List Char}
    (hne : List.replicate marks 'v' ++ rest ≠ []) (hrest : rest.head? ≠ some '-')
    (x : Progress) : x.addArgument (Item.cluster marks rest) =
      x.addLetters (List.replicate marks 'v' ++ rest) := by
  rw [addArgument, Item.cluster, String.toList_ofList]
  cases marks with
  | zero =>
    -- without marks, the first letter might have made this a longer name
    obtain ⟨c, rest, rfl⟩ := List.exists_cons_of_ne_nil hne
    split
    · next h =>
      cases h
      exact absurd rfl hrest
    · next h =>
      cases h
      rfl
    · next h => exact absurd rfl (h c rest)
  | succ marks => rfl

theorem cluster_ne {marks : Nat} {rest : List Char} (hrest : rest.head? ≠ some '-') :
    Item.cluster marks rest ≠ "--" := by
  intro h
  have hlist : List.replicate marks 'v' ++ rest = ['-'] := by
    have := congrArg String.toList h
    rw [Item.cluster, String.toList_ofList] at this
    exact List.tail_eq_of_cons_eq this
  cases marks with
  | zero =>
    rw [List.replicate_zero, List.nil_append] at hlist
    exact hrest (by rw [hlist]; rfl)
  | succ marks => cases hlist

theorem startOutput_attached (h : x.Says y) (houtput : y.output = none) (hvalue : value ≠ "") :
    x.startOutput (some value) = .ok { y with output := some value : Progress }.done := by
  rw [startOutput, h]
  simp [bind, Except.bind, setOutput, done, houtput, hvalue]

/-- The output option in a cluster with its value attached. -/
theorem adds_attached (h : x.Says y) (houtput : y.output = none) (hvalue : value ≠ "")
    (marks : Nat) {cs : List Char} (hcs : attachedValue cs = some value) :
    x.Adds [Item.cluster marks ('o' :: cs)] (y.tell (.output marks value)) := by
  obtain ⟨z, hz, hletters⟩ := addLetters_marks h marks
  refine adds_of_addArgument (z := (y.tell (.output marks value)).done) (cluster_ne (by simp)) ?_
    (settle_done _)
  rw [addArgument_cluster (by simp) (by simp), hletters, addLetters, if_neg (by decide),
    if_neg (by decide), if_pos rfl, hcs]
  exact startOutput_attached hz houtput hvalue

/-- The output option in front of its value. -/
theorem adds_separate {a : String} (ha : a ≠ "--") (h : x.addArgument a = z.startOutput none)
    (hz : z.Says y) (houtput : y.output = none) (hvalue : Item.IsValue value) (hne : value ≠ "") :
    x.Adds [a, value] { y with output := some value } := by
  refine ⟨{ y.done with pending := some (.output (some value)) }, says_output y houtput hne,
    fun rest => ?_⟩
  -- the option waits for the next argument, which is taken whatever it is
  have hstart : z.startOutput none = .ok { y.done with pending := some (.output none) } := by
    rw [startOutput, hz]
    rfl
  rw [List.cons_append, addAll_cons ha, h, hstart]
  change addAll _ (value :: rest) = _
  rw [addAll_cons (ne_of_isValue hvalue), addArgument_of_isValue hvalue]
  rfl

/-- However an item is written, it adds what it says. -/
theorem adds_of_spells {item : Item} {arguments : List String} (h : x.Says y)
    (hadmits : y.Admits item) (hs : item.Spells arguments) :
    x.Adds arguments (y.tell item) := by
  cases hs with
  | @path value hvalue =>
    obtain ⟨hpath, hne⟩ := hadmits
    refine adds_of_addArgument (ne_of_isValue hvalue) ?_ (says_path hne)
    rw [addArgument_of_isValue hvalue, addValue, if_neg h.pending_ne]
    exact addPositional_eq h hpath value
  | @long value hvalue => exact adds_separate (by decide) rfl h hadmits.1 hvalue hadmits.2
  | @longEquals value =>
    have hlist : ("--output=" ++ value).toList =
        '-' :: '-' :: ("output".toList ++ '=' :: value.toList) := by
      rw [String.toList_append]
      rfl
    have hsplit : splitLong ("output".toList ++ '=' :: value.toList) =
        ("output", some value) := by
      simp [splitLong]
    refine adds_of_addArgument (fun heq => ?_) ?_ (settle_done _)
    · rw [heq] at hlist
      cases hlist
    · rw [addArgument]
      simp only [hlist, hsplit]
      exact startOutput_attached h hadmits.1 hadmits.2
  | @letter marks value hvalue =>
    obtain ⟨z, hz, hletters⟩ := addLetters_marks h marks
    refine adds_separate (cluster_ne (by simp)) ?_ hz hadmits.1 hvalue hadmits.2
    rw [addArgument_cluster (by simp) (by simp), hletters]
    rfl
  | @attached marks value hvalue =>
    refine adds_attached h hadmits.1 hadmits.2 marks ?_
    unfold attachedValue
    split
    · next hlist => exact absurd (String.toList_eq_nil_iff.mp hlist) hadmits.2
    · next hlist =>
      rw [hlist] at hvalue
      exact absurd rfl hvalue
    · rw [String.ofList_toList]
  | @letterEquals marks value =>
    exact adds_attached h hadmits.1 hadmits.2 marks (by simp [attachedValue])
  | check =>
    refine adds_of_addArgument (z := (y.tell .check).done) (by decide) ?_ (settle_done _)
    change x.setCheck = _
    rw [setCheck, h]
    simp [bind, Except.bind, done, tell, show y.check = false from hadmits]
  | verbose =>
    exact adds_of_addArgument (by decide) (addVerbosity_eq h) (settle_done _)
  | @letters n hn =>
    obtain ⟨z, hz, hletters⟩ := addLetters_marks h n
    refine adds_of_addArgument (cluster_ne (by simp)) ?_ hz
    rw [addArgument_cluster (by simp; omega) (by simp), hletters]
    rfl

/-! ### Items one after the other -/

/-- Items may be added one after the other. -/
def AdmitsAll (y : Progress) : List Item → Prop
  | [] => True
  | item :: items => y.Admits item ∧ (y.tell item).AdmitsAll items

/-- However items are written, their arguments say what they say. -/
theorem says_of_writes {items : List Item} {arguments : List String} (hw : Writes items arguments)
    (h : x.Says y) (hadmits : y.AdmitsAll items) :
    ∃ z, x.addAll arguments = .ok z ∧ z.Says (items.foldl tell y) := by
  induction hw generalizing x y with
  | nil => exact ⟨x, rfl, h⟩
  | @ended value =>
    obtain ⟨⟨hpath, hne⟩, -⟩ := hadmits
    refine ⟨_, ?_, says_path hne⟩
    change x.addPositionals [value] = _
    rw [addPositionals, addPositional_eq h hpath]
    rfl
  | cons hs _ ih =>
    obtain ⟨hadmits, hall⟩ := hadmits
    obtain ⟨x', hx', hadds⟩ := adds_of_spells h hadmits hs
    rw [hadds]
    exact ih hx' hall

/-- What is given once has not been given before. -/
theorem eq_none_of_toList_append {α : Type} {o p : Option α} {a : α} {l : List α}
    (h : o.toList ++ a :: l = p.toList) : o = none ∧ p = some a := by
  have hlength := congrArg List.length h
  cases o <;> cases p <;> simp_all

/-- Items that give one path, at most one output file and the option to check at most once may be
added, and say just this. -/
theorem admitsAll_of_items {items : List Item} {input : String} {output : Option String}
    {check : Bool} (hinput : input ≠ "") (houtput : ∀ o ∈ output, o ≠ "")
    (hpaths : y.path.toList ++ items.filterMap Item.path? = [input])
    (houtputs : y.output.toList ++ items.filterMap Item.output? = output.toList)
    (hcheck : y.check.toNat + items.count .check = check.toNat) :
    y.AdmitsAll items ∧ items.foldl tell y = ⟨some input, output, check,
      y.verbosity + (items.map Item.verbosity).sum, y.pending⟩ := by
  induction items generalizing y with
  | nil =>
    obtain ⟨path, output', check', verbosity, pending⟩ := y
    refine ⟨trivial, ?_⟩
    cases path <;> cases output' <;> cases output <;> cases check <;> cases check' <;> simp_all
  | cons item items ih =>
    have hadmits : y.Admits item := by
      cases item with
      | path value =>
        obtain ⟨hnone, hvalue⟩ := eq_none_of_toList_append (p := some input) hpaths
        cases hvalue
        exact ⟨hnone, hinput⟩
      | output marks value =>
        obtain ⟨hnone, hvalue⟩ := eq_none_of_toList_append houtputs
        exact ⟨hnone, houtput value hvalue⟩
      | check =>
        have hle := Bool.toNat_le check
        rw [List.count_cons_self] at hcheck
        exact Bool.toNat_eq_zero.mp (by omega)
      | marks n => trivial
    have hpaths' : (y.tell item).path.toList ++ items.filterMap Item.path? = [input] := by
      rw [← hpaths]
      cases item with
      | path value => rw [hadmits.1]; rfl
      | _ => rfl
    have houtputs' : (y.tell item).output.toList ++ items.filterMap Item.output? =
        output.toList := by
      rw [← houtputs]
      cases item with
      | output marks value => rw [hadmits.1]; rfl
      | _ => rfl
    have hcheck' : (y.tell item).check.toNat + items.count .check = check.toNat := by
      rw [← hcheck]
      cases item with
      | check =>
        rw [List.count_cons_self, show y.check = false from hadmits]
        simp only [tell, Bool.toNat_true, Bool.toNat_false]
        omega
      | _ => rw [List.count_cons_of_ne (by simp)]; rfl
    obtain ⟨hall, hstate⟩ := ih hpaths' houtputs' hcheck'
    have hverbosity : (y.tell item).verbosity = y.verbosity + item.verbosity := by
      cases item <;> rfl
    have hpending : (y.tell item).pending = y.pending := by cases item <;> rfl
    refine ⟨⟨hadmits, hall⟩, ?_⟩
    rw [List.foldl_cons, hstate, hverbosity, hpending, List.map_cons, List.sum_cons, Nat.add_assoc]

end Progress

namespace Invocation

/-- A command line means the same in every order and spelling. If the path, the output file if there
is one, the option to check only if that is to be done, and any number of marks for more verbosity
are given in any order and each in any of the ways in which it can be written, the command is asked
to do just that. It shows warnings if there is no mark, what is of interest for tracking down
problems if there is one, and everything if there are more, however many. -/
theorem ofArguments?_of_writes {items : List Item} {arguments : List String} {input : String}
    {output : Option String} {mode : Mode} {n : Nat} (h : Writes items arguments)
    (hinput : input ≠ "") (houtput : ∀ o ∈ output, o ≠ "")
    (hpaths : items.filterMap Item.path? = [input])
    (houtputs : items.filterMap Item.output? = output.toList)
    (hcheck : items.count .check = if mode = .check then 1 else 0)
    (hmarks : (items.map Item.verbosity).sum = n) :
    ∃ x : Invocation, ofArguments? arguments = .ok x ∧
      x.config = ⟨input, output.getD defaultOutput, mode⟩ ∧
        x.level = if n = 0 then .warn else if n = 1 then .debug else .trace := by
  have hstart : Progress.Says {} {} := rfl
  have hchecked : items.count .check = (decide (mode = .check)).toNat := by
    rw [hcheck]
    cases mode <;> rfl
  obtain ⟨hadmits, hstate⟩ := Progress.admitsAll_of_items (y := {}) hinput houtput
    (by simpa using hpaths) (by simpa using houtputs) (by simpa using hchecked)
  obtain ⟨z, hall, hz⟩ := Progress.says_of_writes h hstart hadmits
  rw [hstate, hmarks] at hz
  refine ⟨⟨⟨input, output.getD defaultOutput, mode⟩, min n greatestVerbosity⟩,
    bind_eq_ok_iff.mpr ⟨z, hall, bind_eq_ok_iff.mpr ⟨_, hz, ?_⟩⟩, rfl, ?_⟩
  · cases mode <;> simp [Progress.done]
  · obtain rfl | rfl | hn : n = 0 ∨ n = 1 ∨ 2 ≤ n := by omega
    · rfl
    · rfl
    · obtain ⟨m, hm⟩ : ∃ m, min n greatestVerbosity = m + 2 :=
        ⟨min n greatestVerbosity - 2, by unfold greatestVerbosity; omega⟩
      rw [hm, if_neg (by omega), if_neg (by omega)]
      rfl

/-- A cluster with two marks and the output file, a mark with the long name, the option to check
only, and a path that starts with a dash. -/
theorem ofArguments?_of_writes_dash :
    let arguments := ["-vvo=out", "--verbose", "--check", "--", "-x"]
    ∃ x : Invocation, ofArguments? arguments = .ok x ∧ x.config = ⟨"-x", "out", .check⟩ ∧
      x.level = .trace := by
  intro arguments
  have hcluster : Item.cluster 2 ('o' :: '=' :: "out".toList) = "-vvo=out" := by decide +kernel
  have hspells : (Item.output 2 "out").Spells ["-vvo=out"] := by
    rw [← hcluster]
    exact .letterEquals
  have hwrites : Writes [.output 2 "out", .marks 1, .check, .path "-x"] arguments :=
    .cons hspells (.cons .verbose (.cons .check .ended))
  have houtputs : [Item.output 2 "out", .marks 1, .check, .path "-x"].filterMap Item.output? =
      (some "out").toList := rfl
  exact ofArguments?_of_writes (n := 3) hwrites (by decide) (by decide) rfl houtputs rfl rfl

end Invocation

end Telemetry
