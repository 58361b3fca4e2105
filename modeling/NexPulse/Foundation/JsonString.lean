import NexPulse.Foundation.Numeral

/-!
# Strings of JSON

A string is read from its opening quote on, and may hold what is not a character:
a byte outside UTF-8 or half of a surrogate pair.  A text that is written with
escapes is read back as its characters.
-/

namespace NexPulse.Foundation.JsonText

open NexPulse.Foundation.Numeral

/-- What a text that was read has come to, and the rest of it. -/
abbrev Reader (Item : Type) := List Rune → Option (Item × List Rune)

/-! ## Reading -/

/-- A part of a string; `unit` is a UTF-16 code unit in hexadecimal digits. -/
inductive Piece where
  | rune (rune : Rune)
  | unit (code : Nat)

def hexDigit? : Rune → Option Nat
  | some char =>
      if '0' ≤ char ∧ char ≤ '9' then some (char.toNat - '0'.toNat)
      else if 'a' ≤ char ∧ char ≤ 'f' then some (char.toNat - 'a'.toNat + 10)
      else if 'A' ≤ char ∧ char ≤ 'F' then some (char.toNat - 'A'.toNat + 10)
      else none
  | none => none

def code? (first second third fourth : Rune) : Option Nat := do
  let first ← hexDigit? first
  let second ← hexDigit? second
  let third ← hexDigit? third
  let fourth ← hexDigit? fourth
  return ((first * 16 + second) * 16 + third) * 16 + fourth

def shorthands : List (Char × Char) :=
  [('"', '"'), ('\\', '\\'), ('/', '/'), ('b', '\x08'), ('f', '\x0c'), ('n', '\n'), ('r', '\r'),
    ('t', '\t')]

def isControl (rune : Rune) : Bool := rune.any fun char => char.toNat < 32

def pieces : Reader (List Piece)
  | [] => none
  | rune :: rest =>
      if rune = some '"' then some ([], rest)
      else if rune = some '\\' then
        match rest with
        | some 'u' :: first :: second :: third :: fourth :: rest => do
            let code ← code? first second third fourth
            let (more, rest) ← pieces rest
            return (.unit code :: more, rest)
        | some letter :: rest => do
            let char ← shorthands.lookup letter
            let (more, rest) ← pieces rest
            return (.rune (some char) :: more, rest)
        | _ => none
      else if isControl rune then none
      else do
        let (more, rest) ← pieces rest
        return (.rune rune :: more, rest)

def isHigh (code : Nat) : Bool := 0xD800 ≤ code ∧ code < 0xDC00

def isLow (code : Nat) : Bool := 0xDC00 ≤ code ∧ code < 0xE000

def single (code : Nat) : Rune :=
  if isHigh code ∨ isLow code then none else some (Char.ofNat code)

def join : List Piece → List Rune
  | [] => []
  | .rune rune :: rest => rune :: join rest
  | .unit high :: .unit low :: rest =>
      if isHigh high ∧ isLow low then
        some (Char.ofNat (0x10000 + (high - 0xD800) * 0x400 + (low - 0xDC00))) :: join rest
      else single high :: join (.unit low :: rest)
  | .unit code :: rest => single code :: join rest

def string : Reader (List Rune) := fun text => do
  let (parts, rest) ← pieces text
  return (join parts, rest)

/-! ## Writing -/

def hexDigit (digit : Nat) : Char :=
  if digit < 10 then Char.ofNat ('0'.toNat + digit) else Char.ofNat ('a'.toNat + (digit - 10))

def writeCode (code : Nat) : Text :=
  ['\\', 'u', hexDigit (code / 4096), hexDigit (code / 256 % 16), hexDigit (code / 16 % 16),
    hexDigit (code % 16)]

def isCoded (char : Char) : Bool :=
  char.toNat < 32 ∨ char ∈ ['<', '>', '&', '\u2028', '\u2029']

def escape (char : Char) : Text :=
  match char with
  | '"' => ['\\', '"']
  | '\\' => ['\\', '\\']
  | '\x08' => ['\\', 'b']
  | '\x0c' => ['\\', 'f']
  | '\n' => ['\\', 'n']
  | '\r' => ['\\', 'r']
  | '\t' => ['\\', 't']
  | char => if isCoded char then writeCode char.toNat else [char]

def quote (text : Text) : Text := '"' :: (text.flatMap escape ++ ['"'])

def repair (content : List Rune) : Text := content.map fun rune => rune.getD '\uFFFD'

/-! ## Strings are read as they were written -/

section Strings

variable {rest : List Rune}

theorem hexDigit?_hexDigit {digit : Nat} (h : digit < 16) :
    hexDigit? (some (hexDigit digit)) = some digit := by
  decide +revert

theorem code?_writeCode {code : Nat} (h : code < 0x10000) :
    code? (some (hexDigit (code / 4096))) (some (hexDigit (code / 256 % 16)))
      (some (hexDigit (code / 16 % 16))) (some (hexDigit (code % 16))) = some code := by
  rw [code?, hexDigit?_hexDigit (by omega), hexDigit?_hexDigit (Nat.mod_lt _ (by decide)),
    hexDigit?_hexDigit (Nat.mod_lt _ (by decide)), hexDigit?_hexDigit (Nat.mod_lt _ (by decide))]
  simp only [Option.bind_eq_bind, Option.bind_some, Option.pure_def, Option.some.injEq]
  omega

def pieceOf (char : Char) : Piece :=
  if char ∉ shorthands.map Prod.snd ∧ isCoded char then .unit char.toNat else .rune (some char)

theorem toNat_of_isCoded {char : Char} (h : isCoded char) : char.toNat < 0xD800 := by
  rw [isCoded, decide_eq_true_iff] at h
  rcases h with hlow | hmem
  · omega
  · have hall : ['<', '>', '&', '\u2028', '\u2029'].all fun char => char.toNat < 0xD800 := by
      decide
    exact of_decide_eq_true (List.all_eq_true.mp hall char hmem)

theorem pieces_writeCode {code : Nat} (h : code < 0x10000) (rest : List Rune) :
    pieces (runes (writeCode code) ++ rest) =
      (pieces rest).map fun result => (.unit code :: result.1, result.2) := by
  cases hrest : pieces rest <;> simp [runes, writeCode, pieces, code?_writeCode h, hrest]

theorem pieces_plain {rune : Rune} (hquote : rune ≠ some '"') (hbackslash : rune ≠ some '\\')
    (hcontrol : ¬ isControl rune) (rest : List Rune) :
    pieces (rune :: rest) =
      (pieces rest).map fun result => (.rune rune :: result.1, result.2) := by
  rw [pieces.eq_def]
  cases hrest : pieces rest <;> simp [hquote, hbackslash, hcontrol, hrest]

theorem pieces_escape (char : Char) (rest : List Rune) :
    pieces (runes (escape char) ++ rest) =
      (pieces rest).map fun result => (pieceOf char :: result.1, result.2) := by
  unfold escape
  split
  case h_8 _ hquote hbackslash hback hfeed hline hreturn htab =>
    by_cases hcoded : isCoded char
    · have hslash : char ≠ '/' := by
        rintro rfl
        exact absurd hcoded (by decide)
      have hshort : char ∉ shorthands.map Prod.snd := by
        simpa [shorthands, hslash] using
          ⟨hquote, hbackslash, hback, hfeed, hline, hreturn, htab⟩
      have hpiece : pieceOf char = .unit char.toNat := if_pos ⟨hshort, hcoded⟩
      rw [if_pos hcoded, pieces_writeCode (by have := toNat_of_isCoded hcoded; omega), hpiece]
    · have hpiece : pieceOf char = .rune (some char) := by simp [pieceOf, hcoded]
      have hcontrol : ¬ isControl (some char) := by
        simp only [isCoded, decide_eq_true_iff, not_or] at hcoded
        simp [isControl, hcoded.1]
      rw [if_neg hcoded, hpiece]
      exact pieces_plain (by simpa using hquote) (by simpa using hbackslash) hcontrol rest
  all_goals
    cases h : pieces rest <;> simp [runes, pieces, shorthands, pieceOf, List.lookup_cons, h]

theorem join_unit {code : Nat} (h : code < 0xD800) (parts : List Piece) :
    join (.unit code :: parts) = some (Char.ofNat code) :: join parts := by
  have hsingle : single code = some (Char.ofNat code) := by
    simp [single, isHigh, isLow]
    omega
  have hhigh : ¬ isHigh code := by simp [isHigh]; omega
  rw [← hsingle]
  cases parts with
  | nil => rfl
  | cons part parts =>
      cases part with
      | rune rune => rfl
      | unit low => rw [join, if_neg (fun hpair => hhigh hpair.1)]

theorem join_pieceOf (char : Char) (parts : List Piece) :
    join (pieceOf char :: parts) = some char :: join parts := by
  rw [pieceOf]
  split
  · next hcoded => rw [join_unit (toNat_of_isCoded hcoded.2), Char.ofNat_toNat]
  · rw [join]

theorem join_map_pieceOf (text : Text) : join (text.map pieceOf) = runes text := by
  induction text with
  | nil => rfl
  | cons char text ih => rw [List.map_cons, join_pieceOf, ih, runes_cons]

theorem string_write (text : Text) (rest : List Rune) :
    string (runes (text.flatMap escape) ++ some '"' :: rest) = some (runes text, rest) := by
  have hpieces : pieces (runes (text.flatMap escape) ++ some '"' :: rest) =
      some (text.map pieceOf, rest) := by
    induction text with
    | nil =>
        rw [pieces.eq_def]
        simp [runes]
    | cons char text ih =>
        rw [List.flatMap_cons, runes_append, List.append_assoc, pieces_escape, ih]
        rfl
  rw [string, hpieces]
  simp [join_map_pieceOf]

theorem repair_sound {content : List Rune} (h : none ∉ content) :
    runes (repair content) = content := by
  have hsame : content.map (some ∘ fun rune => rune.getD '\uFFFD') = content.map id := by
    refine List.map_congr_left fun rune hrune => ?_
    cases rune with
    | none => exact absurd hrune h
    | some char => rfl
  rw [runes, repair, List.map_map, hsame, List.map_id]

end Strings

end NexPulse.Foundation.JsonText
