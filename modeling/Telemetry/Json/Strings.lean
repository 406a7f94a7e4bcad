import Telemetry.Json.Fault
import Telemetry.Text.Utf8

/-!
# Strings

Strings of a document, from behind the opening quote to behind the closing one. `readString` is for
strings whose content is wanted: it resolves escapes, and the bytes that result must be UTF-8.
`skipString` passes over a string nobody asked for, and checks the form of escapes only.
-/

namespace Telemetry.Json

/-- The byte that a one-letter escape stands for. -/
def letterEscape? (b : UInt8) : Option UInt8 :=
  if b = Byte.quote ∨ b = Byte.backslash ∨ b = Byte.slash then some b
  else if b = Byte.ofAscii 'b' then some 0x08
  else if b = Byte.ofAscii 'f' then some 0x0c
  else if b = Byte.ofAscii 'n' then some Byte.lineFeed
  else if b = Byte.ofAscii 'r' then some Byte.carriageReturn
  else if b = Byte.ofAscii 't' then some Byte.tab
  else none

/-- The value of four hexadecimal digits. -/
def hexValue? (a b c d : UInt8) : Option Nat :=
  match Byte.hexDigit? a, Byte.hexDigit? b, Byte.hexDigit? c, Byte.hexDigit? d with
  | some a, some b, some c, some d => some (((a * 16 + b) * 16 + c) * 16 + d)
  | _, _, _, _ => none

/-- Reads four hexadecimal digits. -/
def readHex : Scan Nat
  | a :: b :: c :: d :: s =>
    match hexValue? a b c d with
    | some n => .ok (n, s)
    | none => .error (.here .invalidEscape s)
  | _ => .error (.here (.endOfInput .string) [])

/-- Surrogates that open a pair. -/
def isHighSurrogate (n : Nat) : Bool := 0xd800 ≤ n && n < 0xdc00

/-- Surrogates that close a pair. -/
def isLowSurrogate (n : Nat) : Bool := 0xdc00 ≤ n && n < 0xe000

/-- The character that a pair of surrogates stands for. -/
def ofSurrogates (high low : Nat) : Char :=
  Char.ofNat (0x10000 + (high - 0xd800) * 0x400 + (low - 0xdc00))

/-- Reads the backslash and the letter that begin the second escape of a pair of surrogates. -/
def readPairMark : Bytes → Except Fault Bytes
  | [] => .error (.here (.endOfInput .string) [])
  | b :: s =>
    if b ≠ Byte.backslash then .error (.here .missingSurrogate s)
    else
      match s with
      | [] => .error (.here (.endOfInput .string) [])
      | b :: s => if b = Byte.ofAscii 'u' then .ok s else .error (.here .missingSurrogate s)

/-- Reads the digits of an escape by number. Surrogates must come in pairs. -/
def readNumberEscape (s : Bytes) : Except Fault (Char × Bytes) := do
  let (n, s) ← readHex s
  if isLowSurrogate n then .error (.here .loneSurrogate s)
  else if isHighSurrogate n then do
    let s ← readPairMark s
    let (m, s) ← readHex s
    if isLowSurrogate m then .ok (ofSurrogates n m, s) else .error (.here .loneSurrogate s)
  else .ok (Char.ofNat n, s)

/-- Reads an escape behind its backslash, and gives the bytes that it stands for. -/
def readEscape : Scan Bytes
  | [] => .error (.here (.endOfInput .string) [])
  | b :: s =>
    if b = Byte.ofAscii 'u' then
      match readNumberEscape s with
      | .error e => .error e
      | .ok (c, s) => .ok (Text.Utf8.encodeChar c, s)
    else
      match letterEscape? b with
      | some c => .ok ([c], s)
      | none => .error (.here .invalidEscape s)

/-- Passes over an escape behind its backslash. -/
def skipEscape : Bytes → Except Fault Bytes
  | [] => .error (.here (.endOfInput .string) [])
  | b :: s =>
    if b = Byte.ofAscii 'u' then (readHex s).map (·.2)
    else if (letterEscape? b).isSome then .ok s
    else .error (.here .invalidEscape s)

/-! ### Escapes consume bytes -/

theorem length_le_of_readHex {s r : Bytes} {n : Nat} (h : readHex s = .ok (n, r)) :
    r.length ≤ s.length := by
  unfold readHex at h
  split at h
  · split at h
    · simp only [Except.ok.injEq, Prod.mk.injEq] at h
      simp [← h.2]
      omega
    · simp at h
  · simp at h

theorem length_le_of_readPairMark {s r : Bytes} (h : readPairMark s = .ok r) :
    r.length ≤ s.length := by
  unfold readPairMark at h
  split at h
  · simp at h
  · split at h
    · simp at h
    · split at h
      · simp at h
      · split at h
        · simp only [Except.ok.injEq] at h
          simp [← h]
          omega
        · simp at h

theorem length_le_of_readNumberEscape {s r : Bytes} {c : Char}
    (h : readNumberEscape s = .ok (c, r)) : r.length ≤ s.length := by
  unfold readNumberEscape at h
  cases h₁ : readHex s with
  | error e => simp [h₁, bind, Except.bind] at h
  | ok p =>
    obtain ⟨n, t⟩ := p
    have h₂ := length_le_of_readHex h₁
    simp only [h₁, bind, Except.bind] at h
    split at h
    · simp at h
    · split at h
      · cases h₃ : readPairMark t with
        | error e => simp [h₃] at h
        | ok u =>
          have h₄ := length_le_of_readPairMark h₃
          simp only [h₃] at h
          cases h₅ : readHex u with
          | error e => simp [h₅] at h
          | ok p =>
            obtain ⟨m, v⟩ := p
            have h₆ := length_le_of_readHex h₅
            simp only [h₅] at h
            split at h
            · simp only [Except.ok.injEq, Prod.mk.injEq] at h
              rw [← h.2]
              omega
            · simp at h
      · simp only [Except.ok.injEq, Prod.mk.injEq] at h
        rw [← h.2]
        exact h₂

theorem length_le_of_readEscape {s r bs : Bytes} (h : readEscape s = .ok (bs, r)) :
    r.length ≤ s.length := by
  unfold readEscape at h
  split at h
  · simp at h
  · split at h
    · split at h
      · simp at h
      · next h₁ =>
        have := length_le_of_readNumberEscape h₁
        simp only [Except.ok.injEq, Prod.mk.injEq] at h
        rw [← h.2, List.length_cons]
        omega
    · split at h
      · simp only [Except.ok.injEq, Prod.mk.injEq] at h
        simp [← h.2]
      · simp at h

theorem length_le_of_skipEscape {s r : Bytes} (h : skipEscape s = .ok r) :
    r.length ≤ s.length := by
  unfold skipEscape at h
  split at h
  · simp at h
  · next b s =>
    split at h
    · cases h₁ : readHex s with
      | error e => simp [h₁, Except.map] at h
      | ok p =>
        obtain ⟨n, t⟩ := p
        have := length_le_of_readHex h₁
        simp only [h₁, Except.map, Except.ok.injEq] at h
        rw [← h, List.length_cons]
        omega
    · split at h
      · simp only [Except.ok.injEq] at h
        simp [← h]
      · simp at h

/-! ### Whole strings -/

/-- Reads up to the closing quote, and gives the bytes of the string with escapes resolved. -/
def readStringBytes (s : Bytes) : Except Fault (Bytes × Bytes) :=
  match s with
  | [] => .error (.here (.endOfInput .string) [])
  | b :: s =>
    if b = Byte.quote then .ok ([], s)
    else if b = Byte.backslash then
      match h : readEscape s with
      | .error e => .error e
      | .ok (bs, r) =>
        have := length_le_of_readEscape h
        (readStringBytes r).map fun (cs, r) => (bs ++ cs, r)
    else if Byte.isControl b then .error (.here .controlCharacter s)
    else (readStringBytes s).map fun (cs, r) => (b :: cs, r)
termination_by s.length

/-- Reads a string behind its opening quote. If its bytes are not UTF-8, the fault is shown as far
before the end as there are bytes from the first bad one on. -/
def readString (s : Bytes) : Except Fault (String × Bytes) :=
  match readStringBytes s with
  | .error e => .error e
  | .ok (bs, r) =>
    match Text.Utf8.decode bs with
    | (cs, []) => .ok (String.ofList cs, r)
    | (_, bad) => .error ⟨.invalidCharacter, r.length, bad.length⟩

/-- Passes over a string behind its opening quote. -/
def skipString (s : Bytes) : Except Fault Bytes :=
  match s with
  | [] => .error (.here (.endOfInput .string) [])
  | b :: s =>
    if b = Byte.quote then .ok s
    else if b = Byte.backslash then
      match h : skipEscape s with
      | .error e => .error e
      | .ok r =>
        have := length_le_of_skipEscape h
        skipString r
    else if Byte.isControl b then .error (.here .controlCharacter (b :: s))
    else skipString s
termination_by s.length

end Telemetry.Json
