import Telemetry.Text.Lines

/-!
# Tokens of C

A text of C as a compiler sees it first: words (identifiers, keywords and numerals), single marks,
comments and directives, with blanks in between. Only what stands in declarations is known here;
strings and characters in quotes are not, and a line never continues on the next.

The scanner takes one character at a time (`Mode.step`) and `Mode.run` takes all of them. A text
*lexes* to tokens if the scanner reads them from it and is between tokens before and behind it
(`Lexes`). Such texts can be put one after the other, and a word may be put between two of them as
long as the second does not go on with it (`Lexes.append`, `Lexes.word`); whatever is said below
about longer texts is assembled from these.
-/

namespace Telemetry.C

/-- What a text of C consists of. -/
inductive Token where
  /-- An identifier, a keyword or a numeral. -/
  | word (text : String)
  | mark (c : Char)
  /-- What stands between the two marks of a comment. -/
  | comment (text : String)
  /-- What stands behind the number sign of a directive, up to the end of the line. -/
  | directive (text : String)
deriving DecidableEq, Repr

/-- The characters that words consist of. -/
def isWordChar (c : Char) : Bool := c == '_' || c.isAlphanum

/-- Blanks may stand between any two tokens. -/
def isBlank (c : Char) : Bool := c == ' ' || c == '\t' || c == '\n'

/-- What the scanner is in the middle of. -/
inductive Mode where
  | between
  | word (read : List Char)
  /-- Behind a slash, which may begin a comment. -/
  | slash
  | comment (read : List Char)
  /-- Behind a star in a comment, which may begin its end. -/
  | star (read : List Char)
  | directive (read : List Char)
deriving DecidableEq, Repr

namespace Mode

/-- Takes a character that belongs to no token before it. -/
def start (c : Char) : List Token × Mode :=
  if isBlank c then ([], between)
  else if isWordChar c then ([], word [c])
  else if c = '/' then ([], slash)
  else if c = '#' then ([], directive [])
  else ([.mark c], between)

/-- Takes a character; the result is the tokens that end with it or in front of it. -/
def step : Mode → Char → List Token × Mode
  | between, c => start c
  | word read, c =>
    if isWordChar c then ([], word (read ++ [c]))
    else (.word (String.ofList read) :: (start c).1, (start c).2)
  | slash, c =>
    if c = '*' then ([], comment []) else (.mark '/' :: (start c).1, (start c).2)
  | comment read, c => if c = '*' then ([], star read) else ([], comment (read ++ [c]))
  | star read, c =>
    if c = '/' then ([.comment (String.ofList read)], between)
    else if c = '*' then ([], star (read ++ ['*']))
    else ([], comment (read ++ ['*', c]))
  | directive read, c =>
    if c = '\n' then ([.directive (String.ofList read)], between)
    else ([], directive (read ++ [c]))

/-- Takes characters one after the other. -/
def run (m : Mode) : List Char → List Token × Mode
  | [] => ([], m)
  | c :: cs =>
    let (ts, next) := m.step c
    let (us, last) := next.run cs
    (ts ++ us, last)

theorem run_cons (m : Mode) (c : Char) (cs : List Char) :
    m.run (c :: cs) = ((m.step c).1 ++ ((m.step c).2.run cs).1, ((m.step c).2.run cs).2) := rfl

/-- Two texts one after the other: the second starts where the first ends. -/
theorem run_append (m : Mode) (xs ys : List Char) :
    m.run (xs ++ ys) =
      ((m.run xs).1 ++ ((m.run xs).2.run ys).1, ((m.run xs).2.run ys).2) := by
  induction xs generalizing m with
  | nil => rfl
  | cons c cs ih => simp only [List.cons_append, run_cons, ih, List.append_assoc]

/-- Within a word, word characters only make it longer. -/
theorem run_word (read : List Char) {cs : List Char} (h : ∀ c ∈ cs, isWordChar c = true) :
    (word read).run cs = ([], word (read ++ cs)) := by
  induction cs generalizing read with
  | nil => simp [run]
  | cons c cs ih =>
    have hstep : (word read).step c = ([], word (read ++ [c])) := by
      simp [step, h c List.mem_cons_self]
    rw [run_cons, hstep, ih _ fun d hd => h d (List.mem_cons_of_mem c hd)]
    simp

/-- Within a comment, characters other than stars only make it longer. -/
theorem run_comment (read : List Char) {cs : List Char} (h : '*' ∉ cs) :
    (comment read).run cs = ([], comment (read ++ cs)) := by
  induction cs generalizing read with
  | nil => simp [run]
  | cons c cs ih =>
    have hc : c ≠ '*' := fun e => h (e ▸ List.mem_cons_self)
    have hstep : (comment read).step c = ([], comment (read ++ [c])) := by simp [step, hc]
    rw [run_cons, hstep, ih _ fun hcs => h (List.mem_cons_of_mem c hcs)]
    simp

end Mode

/-- The tokens of a text, which must not end within one of them. -/
def tokens? (text : String) : Option (List Token) :=
  match Mode.between.run text.toList with
  | (ts, .between) => some ts
  | _ => none

/-- A text that consists of whole tokens: the scanner is between tokens before and behind it. -/
def Lexes (text : String) (ts : List Token) : Prop :=
  Mode.between.run text.toList = (ts, .between)

instance (text : String) (ts : List Token) : Decidable (Lexes text ts) :=
  inferInstanceAs (Decidable (_ = _))

/-- A text of word characters, at least one. -/
structure IsWord (w : String) : Prop where
  ne_nil : w.toList ≠ []
  wordChar : ∀ c ∈ w.toList, isWordChar c = true

instance (w : String) : Decidable (IsWord w) :=
  decidable_of_iff (w.toList.isEmpty = false ∧ w.toList.all isWordChar = true)
    ⟨fun h => ⟨by simpa using h.1, by simpa using h.2⟩,
      fun h => ⟨by simpa using h.ne_nil, by simpa using h.wordChar⟩⟩

/-- Whether a text begins with a character that ends a word in front of it. -/
def Separates (text : String) : Prop := ∃ c ∈ text.toList.head?, isWordChar c = false

/-! ### Words -/

/-- Words put together are a word. -/
theorem IsWord.append {a b : String} (ha : IsWord a) (hb : IsWord b) : IsWord (a ++ b) where
  ne_nil := by simp [ha.ne_nil]
  wordChar := by
    intro c hc
    rw [String.toList_append] at hc
    rcases List.mem_append.mp hc with hc | hc
    · exact ha.wordChar c hc
    · exact hb.wordChar c hc

/-- No star stands in a word, so words may stand in comments. -/
theorem IsWord.star_not_mem {w : String} (h : IsWord w) : '*' ∉ w.toList :=
  fun hmem => absurd (h.wordChar _ hmem) (by decide)

/-! ### Putting texts together -/

theorem tokens?_eq_some_of_lexes {text : String} {ts : List Token} (h : Lexes text ts) :
    tokens? text = some ts := by
  rw [Lexes] at h
  simp only [tokens?, h]

theorem lexes_empty : Lexes "" [] := rfl

theorem Lexes.congr {text : String} {s t : List Token} (h : Lexes text s) (hst : s = t) :
    Lexes text t :=
  hst ▸ h

/-- A text of whole tokens and another. -/
theorem Lexes.append {a b : String} {s t : List Token} (ha : Lexes a s) (hb : Lexes b t) :
    Lexes (a ++ b) (s ++ t) := by
  rw [Lexes] at ha hb ⊢
  rw [String.toList_append, Mode.run_append, ha, hb]

/-- A text of word characters begins a word and stays in it. -/
theorem IsWord.run {w : String} (h : IsWord w) :
    Mode.between.run w.toList = ([], .word w.toList) := by
  obtain ⟨hne, hall⟩ := h
  cases hw : w.toList with
  | nil => exact absurd hw hne
  | cons c cs =>
    rw [hw] at hall
    have hc : isWordChar c = true := hall c List.mem_cons_self
    have hb : isBlank c = false := by
      refine Bool.eq_false_iff.mpr fun hblank => ?_
      simp only [isBlank, Bool.or_eq_true, beq_iff_eq] at hblank
      rcases hblank with (rfl | rfl) | rfl <;> exact absurd hc (by decide)
    have hstep : Mode.between.step c = ([], .word [c]) := by simp [Mode.step, Mode.start, hb, hc]
    rw [Mode.run_cons, hstep, Mode.run_word _ fun d hd => hall d (List.mem_cons_of_mem c hd)]
    rfl

/-- A word between two texts of whole tokens, of which the second separates it from what follows. -/
theorem Lexes.word {a b w : String} {s t : List Token} (ha : Lexes a s) (hw : IsWord w)
    (hb : Lexes b t) (hsep : Separates b) : Lexes (a ++ w ++ b) (s ++ .word w :: t) := by
  obtain ⟨c, hc, hcw⟩ := hsep
  obtain ⟨cs, hcs⟩ : ∃ cs, b.toList = c :: cs := List.head?_eq_some_iff.mp hc
  rw [Lexes] at ha hb ⊢
  rw [hcs, Mode.run_cons] at hb
  have hstep : (Mode.word w.toList).step c =
      (.word w :: (Mode.between.step c).1, (Mode.between.step c).2) := by
    simp [Mode.step, hcw]
  have hrest : (Mode.word w.toList).run b.toList = (.word w :: t, .between) := by
    rw [hcs, Mode.run_cons, hstep, List.cons_append]
    exact congrArg (fun r => (Token.word w :: r.1, r.2)) hb
  rw [String.toList_append, String.toList_append, Mode.run_append, Mode.run_append, ha, hw.run,
    hrest]
  simp

/-- A comment for documentation, without a star in its text. -/
theorem lexes_docComment {t : String} (h : '*' ∉ t.toList) :
    Lexes ("/** " ++ t ++ "*/") [.comment ("* " ++ t)] := by
  have hopen : Mode.between.run "/** ".toList = ([], .comment ['*', ' ']) := rfl
  have hclose : (Mode.comment (['*', ' '] ++ t.toList)).run "*/".toList =
      ([.comment (String.ofList (['*', ' '] ++ t.toList))], .between) := rfl
  have htext : String.ofList (['*', ' '] ++ t.toList) = "* " ++ t := by
    rw [← String.toList_inj]
    simp
  rw [Lexes, String.toList_append, String.toList_append, Mode.run_append, Mode.run_append, hopen,
    Mode.run_comment _ h, hclose, htext]
  rfl

/-- Texts of whole tokens, one for each thing in a list. -/
theorem lexes_join {α : Type} {text : α → String} {ts : α → List Token} {l : List α}
    (h : ∀ x ∈ l, Lexes (text x) (ts x)) : Lexes (String.join (l.map text)) (l.flatMap ts) := by
  induction l with
  | nil => exact lexes_empty
  | cons x l ih =>
    have hl : Lexes (String.join (l.map text)) (l.flatMap ts) :=
      ih fun y hy => h y (List.mem_cons_of_mem x hy)
    have hx : Lexes (text x) (ts x) := h x List.mem_cons_self
    rw [List.map_cons, String.join_cons, List.flatMap_cons]
    exact hx.append hl

/-! ### Lines -/

/-- A line of whole tokens. -/
theorem Lexes.line {line : String} {ts : List Token} (h : Lexes line ts) :
    Lexes (line ++ "\n") ts := by
  simpa using h.append (show Lexes "\n" [] from rfl)

theorem lexes_unlines_nil : Lexes (Text.unlines []) [] := rfl

theorem lexes_unlines_cons {line : String} {lines : List String} {s t : List Token}
    (h : Lexes (line ++ "\n") s) (hs : Lexes (Text.unlines lines) t) :
    Lexes (Text.unlines (line :: lines)) (s ++ t) := by
  rw [Text.unlines, List.map_cons, String.join_cons]
  exact h.append hs

theorem lexes_unlines_append {xs ys : List String} {s t : List Token}
    (hx : Lexes (Text.unlines xs) s) (hy : Lexes (Text.unlines ys) t) :
    Lexes (Text.unlines (xs ++ ys)) (s ++ t) := by
  rw [Text.unlines, List.map_append, String.join_append]
  exact hx.append hy

theorem lexes_unlines_flatMap {α : Type} {lines : α → List String} {ts : α → List Token}
    {l : List α} (h : ∀ x ∈ l, Lexes (Text.unlines (lines x)) (ts x)) :
    Lexes (Text.unlines (l.flatMap lines)) (l.flatMap ts) := by
  induction l with
  | nil => exact lexes_unlines_nil
  | cons x l ih =>
    rw [List.flatMap_cons, List.flatMap_cons]
    exact lexes_unlines_append (h x List.mem_cons_self)
      (ih fun y hy => h y (List.mem_cons_of_mem x hy))

end Telemetry.C
