import NexPulse.Foundation.Text
import Mathlib.Data.Nat.Digits.Lemmas
import Mathlib.Data.Rat.Defs

/-!
# Decimal numerals

A numeral is read from a text as JSON has it: a sign, an integer part without
leading zeros, a fraction and an exponent.  A decimal that is written plainly or
in scientific notation reads as the same number.
-/

namespace NexPulse.Foundation

/-- A character of a text in UTF-8, or a byte that is no part of one. -/
abbrev Rune := Option Char

def runes (text : Text) : List Rune := text.map some

namespace Numeral

structure Decimal where
  negative : Bool
  coefficient : Nat
  exponent : Int

namespace Decimal

def numerator (decimal : Decimal) : Nat := decimal.coefficient * 10 ^ decimal.exponent.toNat

def denominator (decimal : Decimal) : Nat := 10 ^ (-decimal.exponent).toNat

def value (decimal : Decimal) : Rat :=
  mkRat (if decimal.negative then -decimal.numerator else decimal.numerator) decimal.denominator

end Decimal

/-! ## Reading -/

def digit? : Rune → Option Nat
  | some char => if '0' ≤ char ∧ char ≤ '9' then some (char.toNat - '0'.toNat) else none
  | none => none

def digits : List Rune → List Nat × List Rune
  | [] => ([], [])
  | rune :: rest =>
      match digit? rune with
      | some digit => (digit :: (digits rest).1, (digits rest).2)
      | none => ([], rune :: rest)

def ofDigits (digits : List Nat) : Nat := Nat.ofDigits 10 digits.reverse

def whole (text : List Rune) : Option (List Nat × List Rune) :=
  match digits text with
  | ([], _) | (0 :: _ :: _, _) => none
  | result => some result

def fraction : List Rune → Option (List Nat × List Rune)
  | some '.' :: rest =>
      match digits rest with
      | ([], _) => none
      | result => some result
  | text => some ([], text)

def exponentSign : List Rune → Bool × List Rune
  | some '-' :: rest => (true, rest)
  | some '+' :: rest => (false, rest)
  | text => (false, text)

def exponentDigits (text : List Rune) : Option (Int × List Rune) :=
  match digits (exponentSign text).2 with
  | ([], _) => none
  | (digits, rest) =>
      some (if (exponentSign text).1 then -ofDigits digits else ofDigits digits, rest)

def exponent : List Rune → Option (Int × List Rune)
  | some 'e' :: rest => exponentDigits rest
  | some 'E' :: rest => exponentDigits rest
  | text => some (0, text)

def unsigned (negative : Bool) (text : List Rune) : Option (Decimal × List Rune) := do
  let (whole, text) ← whole text
  let (fraction, text) ← fraction text
  let (exponent, text) ← exponent text
  return (⟨negative, ofDigits (whole ++ fraction), exponent - fraction.length⟩, text)

def numeral : List Rune → Option (Decimal × List Rune)
  | some '-' :: rest => unsigned true rest
  | text => unsigned false text

/-! ## Writing -/

def writeDigit (digit : Nat) : Char := Char.ofNat ('0'.toNat + digit)

def toDigits (n : Nat) : List Nat := if n = 0 then [0] else (Nat.digits 10 n).reverse

/-- The digits with the decimal point after the first `point` of them. -/
def writePlain (digits : List Nat) (point : Int) : Text :=
  if point ≤ 0 then
    '0' :: '.' :: (List.replicate (-point).toNat 0 ++ digits).map writeDigit
  else if digits.length ≤ point then
    (digits ++ List.replicate (point.toNat - digits.length) 0).map writeDigit
  else
    (digits.take point.toNat).map writeDigit ++ '.' :: (digits.drop point.toNat).map writeDigit

/-- The digits with the decimal point after the first, and a power of ten. -/
def writeScientific (digits : List Nat) (point : Int) : Text :=
  (digits.take 1).map writeDigit ++
    (if digits.length ≤ 1 then [] else '.' :: (digits.drop 1).map writeDigit) ++
    'e' :: (if decide (point ≤ 0) then '-' else '+') :: (toDigits (point - 1).natAbs).map writeDigit

def write (scientific : Bool) (decimal : Decimal) : Text :=
  let digits := toDigits decimal.coefficient
  let point := digits.length + decimal.exponent
  (if decimal.negative then ['-'] else []) ++
    if scientific then writeScientific digits point else writePlain digits point

/-! ## What is written is read -/

def Stops (rest : List Rune) : Prop :=
  ∀ rune ∈ rest.head?, digit? rune = none ∧ rune ∉ [some '.', some 'e', some 'E']

section Digits

variable {list : List Nat} {rest : List Rune}

theorem digit?_writeDigit {digit : Nat} (h : digit < 10) :
    digit? (some (writeDigit digit)) = some digit := by
  decide +revert

theorem digits_of_stop (hrest : ∀ rune ∈ rest.head?, digit? rune = none) :
    digits rest = ([], rest) := by
  cases rest with
  | nil => rfl
  | cons rune rest => rw [digits, hrest rune rfl]

theorem digits_write (hlist : ∀ digit ∈ list, digit < 10)
    (hrest : ∀ rune ∈ rest.head?, digit? rune = none) :
    digits (runes (list.map writeDigit) ++ rest) = (list, rest) := by
  induction list with
  | nil => exact digits_of_stop hrest
  | cons digit list ih =>
      obtain ⟨hdigit, hmore⟩ := List.forall_mem_cons.mp hlist
      have hnext := ih hmore
      rw [runes] at hnext
      simp only [runes, List.map_cons, List.cons_append, digits, digit?_writeDigit hdigit, hnext]

theorem toDigits_lt (n : Nat) : ∀ digit ∈ toDigits n, digit < 10 := by
  intro digit hdigit
  rw [toDigits] at hdigit
  split at hdigit
  · obtain rfl := List.mem_singleton.mp hdigit
    decide
  · exact Nat.digits_lt_base (by decide) (List.mem_reverse.mp hdigit)

theorem toDigits_ne_nil (n : Nat) : toDigits n ≠ [] := by
  rw [toDigits]
  split
  · exact List.cons_ne_nil _ _
  · next hn => simpa [Nat.digits_ne_nil_iff_ne_zero] using hn

theorem ofDigits_toDigits (n : Nat) : ofDigits (toDigits n) = n := by
  rw [toDigits, ofDigits]
  split
  · next hn => simp [hn]
  · rw [List.reverse_reverse, Nat.ofDigits_digits]

theorem head_toDigits {n : Nat} (hn : n ≠ 0) {digit : Nat} {rest : List Nat}
    (h : toDigits n = digit :: rest) : digit ≠ 0 := by
  rw [toDigits, if_neg hn] at h
  rintro rfl
  have hlast := Nat.getLast_digit_ne_zero 10 hn
  have hdigits : Nat.digits 10 n = rest.reverse ++ [0] := by
    rw [← List.reverse_reverse (Nat.digits 10 n), h, List.reverse_cons]
  simp [hdigits] at hlast

theorem ofDigits_zeros (count : Nat) (list : List Nat) :
    ofDigits (List.replicate count 0 ++ list) = ofDigits list := by
  rw [ofDigits, ofDigits, List.reverse_append, List.reverse_replicate,
    Nat.ofDigits_append_replicate_zero]

theorem ofDigits_append_zeros (list : List Nat) (count : Nat) :
    ofDigits (list ++ List.replicate count 0) = ofDigits list * 10 ^ count := by
  rw [ofDigits, ofDigits, List.reverse_append, List.reverse_replicate, Nat.ofDigits_append,
    Nat.ofDigits_replicate_zero, List.length_replicate]
  ring

end Digits

section Parts

variable {list : List Nat} {rest : List Rune}

theorem runes_append (first second : Text) :
    runes (first ++ second) = runes first ++ runes second :=
  List.map_append

theorem runes_cons (char : Char) (text : Text) : runes (char :: text) = some char :: runes text :=
  rfl

theorem whole_write (hsome : list ≠ [])
    (hhead : ∀ digit more, list = digit :: more → digit ≠ 0 ∨ more = [])
    (hlist : ∀ digit ∈ list, digit < 10) (hrest : ∀ rune ∈ rest.head?, digit? rune = none) :
    whole (runes (list.map writeDigit) ++ rest) = some (list, rest) := by
  rw [whole, digits_write hlist hrest]
  cases list with
  | nil => contradiction
  | cons digit more =>
      cases more with
      | nil => cases digit <;> rfl
      | cons next more =>
          cases digit with
          | zero => exact absurd (hhead 0 (next :: more) rfl) (by simp)
          | succ digit => rfl

theorem fraction_of_ne_dot (hrest : rest.head? ≠ some (some '.')) :
    fraction rest = some ([], rest) := by
  unfold fraction
  split
  · next more => exact absurd rfl hrest
  · rfl

theorem fraction_of_stop (hrest : Stops rest) : fraction rest = some ([], rest) :=
  fraction_of_ne_dot fun hdot => (hrest (some '.') hdot).2 (by simp)

theorem fraction_write (hsome : list ≠ []) (hlist : ∀ digit ∈ list, digit < 10)
    (hrest : ∀ rune ∈ rest.head?, digit? rune = none) :
    fraction (some '.' :: (runes (list.map writeDigit) ++ rest)) = some (list, rest) := by
  rw [fraction, digits_write hlist hrest]
  cases list with
  | nil => contradiction
  | cons digit more => rfl

theorem exponent_of_stop (hrest : Stops rest) : exponent rest = some (0, rest) := by
  unfold exponent
  split
  · next more => exact absurd (hrest (some 'e') rfl).2 (by simp)
  · next more => exact absurd (hrest (some 'E') rfl).2 (by simp)
  · rfl

theorem exponent_write (negative : Bool) (n : Nat)
    (hrest : ∀ rune ∈ rest.head?, digit? rune = none) :
    exponent (some 'e' :: some (if negative then '-' else '+') ::
        (runes ((toDigits n).map writeDigit) ++ rest)) =
      some (if negative then -(n : Int) else n, rest) := by
  have hdigits := digits_write (toDigits_lt n) hrest
  have hvalue := ofDigits_toDigits n
  cases hlist : toDigits n with
  | nil => exact absurd hlist (toDigits_ne_nil n)
  | cons digit more =>
      rw [hlist] at hdigits hvalue
      rw [List.map_cons] at hdigits ⊢
      cases negative <;>
        simp [exponent, exponentDigits, exponentSign, hdigits, hvalue]

end Parts

def Alike (first second : Decimal) : Prop :=
  first.negative = second.negative ∧ first.numerator = second.numerator ∧
    first.denominator = second.denominator

theorem Alike.value_eq {first second : Decimal} (h : Alike first second) :
    first.value = second.value := by
  rw [Decimal.value, Decimal.value, h.1, h.2.1, h.2.2]

section Write

variable {rest : List Rune}

theorem Stops.digit (h : Stops rest) : ∀ rune ∈ rest.head?, digit? rune = none :=
  fun rune hrune => (h rune hrune).1

theorem unsigned_parts {text afterWhole afterFraction : List Rune} {whole' fraction' : List Nat}
    {power : Int} (negative : Bool) (hwhole : whole text = some (whole', afterWhole))
    (hfraction : fraction afterWhole = some (fraction', afterFraction))
    (hexponent : exponent afterFraction = some (power, rest)) :
    unsigned negative text =
      some (⟨negative, ofDigits (whole' ++ fraction'), power - fraction'.length⟩, rest) := by
  simp [unsigned, hwhole, hfraction, hexponent]

theorem digit?_dot (more : List Rune) :
    ∀ rune ∈ (some '.' :: more).head?, digit? rune = none := by
  intro rune hrune
  obtain rfl := Option.mem_some_iff.mp hrune
  decide

theorem digit?_e (more : List Rune) : ∀ rune ∈ (some 'e' :: more).head?, digit? rune = none := by
  intro rune hrune
  obtain rfl := Option.mem_some_iff.mp hrune
  decide

theorem leading_toDigits (n : Nat) {digit : Nat} {more : List Nat}
    (h : toDigits n = digit :: more) : digit ≠ 0 ∨ more = [] := by
  by_cases hn : n = 0
  · subst hn
    exact .inr (List.cons.inj h).2.symm
  · exact .inl (head_toDigits hn h)

theorem unsigned_fraction (hrest : Stops rest) (negative : Bool) (n zeros : Nat) :
    unsigned negative (runes ('0' :: '.' ::
        (List.replicate zeros 0 ++ toDigits n).map writeDigit) ++ rest) =
      some (⟨negative, n, -((zeros + (toDigits n).length : Nat) : Int)⟩, rest) := by
  have hdigits : ∀ digit ∈ List.replicate zeros 0 ++ toDigits n, digit < 10 := by
    simpa [or_imp, forall_and] using toDigits_lt n
  have hread := unsigned_parts negative
    (whole_write (List.cons_ne_nil 0 []) (by simp) (by simp) (digit?_dot _))
    (fraction_write (by simp [toDigits_ne_nil]) hdigits hrest.digit) (exponent_of_stop hrest)
  rw [← List.replicate_one, ofDigits_zeros, ofDigits_zeros, ofDigits_toDigits, List.length_append,
    List.length_replicate, Int.zero_sub] at hread
  exact hread

theorem unsigned_zeros (hrest : Stops rest) (negative : Bool) {n zeros : Nat}
    (hzero : n = 0 → zeros = 0) :
    unsigned negative (runes ((toDigits n ++ List.replicate zeros 0).map writeDigit) ++ rest) =
      some (⟨negative, n * 10 ^ zeros, 0⟩, rest) := by
  have hdigits : ∀ digit ∈ toDigits n ++ List.replicate zeros 0, digit < 10 := by
    simpa [or_imp, forall_and] using toDigits_lt n
  have hlead : ∀ digit more, toDigits n ++ List.replicate zeros 0 = digit :: more →
      digit ≠ 0 ∨ more = [] := by
    intro digit more h
    by_cases hn : n = 0
    · rw [hzero hn, hn] at h
      exact .inr (List.cons.inj h).2.symm
    · obtain ⟨first, others, hfirst⟩ := List.exists_cons_of_ne_nil (toDigits_ne_nil n)
      rw [hfirst, List.cons_append] at h
      exact .inl ((List.cons.inj h).1 ▸ head_toDigits hn hfirst)
  have hread := unsigned_parts negative
    (whole_write (by simp [toDigits_ne_nil]) hlead hdigits hrest.digit)
    (fraction_of_stop hrest) (exponent_of_stop hrest)
  rw [List.append_nil, ofDigits_append_zeros, ofDigits_toDigits] at hread
  exact hread

theorem leading_take (n point : Nat) {digit : Nat} {more : List Nat}
    (h : (toDigits n).take point = digit :: more) : digit ≠ 0 ∨ more = [] := by
  obtain ⟨others, hothers⟩ : (toDigits n).take point <+: toDigits n := List.take_prefix _ _
  rw [h, List.cons_append] at hothers
  exact (leading_toDigits n hothers.symm).imp_right fun hnone => (List.append_eq_nil_iff.mp hnone).1

theorem take_toDigits_lt (n point : Nat) : ∀ digit ∈ (toDigits n).take point, digit < 10 :=
  fun digit hdigit => toDigits_lt n digit (List.mem_of_mem_take hdigit)

theorem drop_toDigits_lt (n point : Nat) : ∀ digit ∈ (toDigits n).drop point, digit < 10 :=
  fun digit hdigit => toDigits_lt n digit (List.mem_of_mem_drop hdigit)

theorem unsigned_mixed (hrest : Stops rest) (negative : Bool) {n point : Nat} (hpoint : 0 < point)
    (hshort : point < (toDigits n).length) :
    unsigned negative (runes (((toDigits n).take point).map writeDigit ++
        '.' :: ((toDigits n).drop point).map writeDigit) ++ rest) =
      some (⟨negative, n, -(((toDigits n).length - point : Nat) : Int)⟩, rest) := by
  have hbefore : (toDigits n).take point ≠ [] := by
    rw [← List.length_pos_iff, List.length_take]
    omega
  have hafter : (toDigits n).drop point ≠ [] := by
    rw [← List.length_pos_iff, List.length_drop]
    omega
  have hread := unsigned_parts negative
    (whole_write hbefore (fun _ _ => leading_take n point) (take_toDigits_lt n point)
      (digit?_dot _))
    (fraction_write hafter (drop_toDigits_lt n point) hrest.digit) (exponent_of_stop hrest)
  rw [List.take_append_drop, ofDigits_toDigits, List.length_drop, Int.zero_sub] at hread
  rw [← hread, runes_append, runes_cons, List.append_assoc]
  rfl

theorem unsigned_writePlain (hrest : Stops rest) (decimal : Decimal)
    (hzero : decimal.coefficient = 0 → decimal.exponent = 0) :
    ∃ read, unsigned decimal.negative (runes (writePlain (toDigits decimal.coefficient)
        ((toDigits decimal.coefficient).length + decimal.exponent)) ++ rest) = some (read, rest) ∧
      Alike read decimal := by
  obtain ⟨negative, n, power⟩ := decimal
  dsimp only at hzero ⊢
  rw [writePlain]
  split
  · next hpoint =>
      rw [unsigned_fraction hrest]
      have hpower : -(((-((toDigits n).length + power)).toNat + (toDigits n).length : Nat) : Int) =
          power := by
        omega
      rw [hpower]
      exact ⟨_, rfl, rfl, rfl, rfl⟩
  · next hpoint =>
      split
      · next hlong =>
          have hpower : ((toDigits n).length + power).toNat - (toDigits n).length =
              power.toNat := by
            omega
          have hnone : (-power).toNat = 0 := by omega
          rw [hpower, unsigned_zeros hrest _ fun hn => by rw [hzero hn]; rfl]
          exact ⟨_, rfl, rfl, by simp [Decimal.numerator], by simp [Decimal.denominator, hnone]⟩
      · next hshort =>
          rw [unsigned_mixed hrest _ (by omega) (by omega)]
          have hpower : -(((toDigits n).length - ((toDigits n).length + power).toNat : Nat) : Int) =
              power := by
            omega
          rw [hpower]
          exact ⟨_, rfl, rfl, rfl, rfl⟩

theorem exponent_writePoint (hrest : Stops rest) (point : Int) :
    exponent (some 'e' :: some (if decide (point ≤ 0) then '-' else '+') ::
        (runes ((toDigits (point - 1).natAbs).map writeDigit) ++ rest)) =
      some (point - 1, rest) := by
  rw [exponent_write _ _ hrest.digit]
  congr 2
  by_cases hpoint : point ≤ 0
  · rw [decide_eq_true hpoint, if_pos rfl]
    omega
  · rw [decide_eq_false hpoint, if_neg (by decide)]
    omega

theorem unsigned_writeScientific (hrest : Stops rest) (negative : Bool) (n : Nat) (power : Int) :
    unsigned negative (runes (writeScientific (toDigits n) ((toDigits n).length + power)) ++
        rest) = some (⟨negative, n, power⟩, rest) := by
  have hlength := List.length_pos_iff.mpr (toDigits_ne_nil n)
  have hbefore : (toDigits n).take 1 ≠ [] := by
    rw [← List.length_pos_iff, List.length_take]
    omega
  have hexponent := exponent_writePoint hrest ((toDigits n).length + power)
  rw [writeScientific]
  split
  · next hone =>
      have htake : (toDigits n).take 1 = toDigits n := List.take_of_length_le hone
      have hread := unsigned_parts negative
        (whole_write hbefore (fun _ _ => leading_take n 1) (take_toDigits_lt n 1) (digit?_e _))
        (fraction_of_ne_dot (by simp)) hexponent
      have hpower : (toDigits n).length + power - 1 - (([] : List Nat).length : Int) = power := by
        rw [List.length_nil]
        omega
      rw [hpower, List.append_nil, htake, ofDigits_toDigits] at hread
      rw [← hread, htake, List.append_nil, runes_append, runes_cons, runes_cons, List.append_assoc]
      rfl
  · next hmany =>
      have hafter : (toDigits n).drop 1 ≠ [] := by
        rw [← List.length_pos_iff, List.length_drop]
        omega
      have hread := unsigned_parts negative
        (whole_write hbefore (fun _ _ => leading_take n 1) (take_toDigits_lt n 1) (digit?_dot _))
        (fraction_write hafter (drop_toDigits_lt n 1) (digit?_e _)) hexponent
      have hpower : (toDigits n).length + power - 1 - (((toDigits n).drop 1).length : Int) =
          power := by
        rw [List.length_drop]
        omega
      rw [hpower, List.take_append_drop, ofDigits_toDigits] at hread
      rw [← hread]
      simp [runes]

theorem numeral_of_unsigned {text : List Rune} {result : Decimal × List Rune}
    (h : unsigned false text = some result) : numeral text = some result := by
  unfold numeral
  split
  · next more =>
      have hnone : whole (some '-' :: more) = none := by
        rw [whole, digits_of_stop]
        intro rune hrune
        obtain rfl := Option.mem_some_iff.mp hrune
        decide
      simp [unsigned, hnone] at h
  · exact h

theorem numeral_write (hrest : Stops rest) (scientific : Bool) (decimal : Decimal)
    (hzero : decimal.coefficient = 0 → decimal.exponent = 0) :
    ∃ read, numeral (runes (write scientific decimal) ++ rest) = some (read, rest) ∧
      read.value = decimal.value := by
  have hunsigned : ∃ read, unsigned decimal.negative (runes (if scientific then
      writeScientific (toDigits decimal.coefficient)
        ((toDigits decimal.coefficient).length + decimal.exponent)
      else writePlain (toDigits decimal.coefficient)
        ((toDigits decimal.coefficient).length + decimal.exponent)) ++ rest) = some (read, rest) ∧
      Alike read decimal := by
    split
    · exact ⟨decimal, unsigned_writeScientific hrest _ _ _, rfl, rfl, rfl⟩
    · exact unsigned_writePlain hrest decimal hzero
  obtain ⟨read, hread, halike⟩ := hunsigned
  refine ⟨read, ?_, halike.value_eq⟩
  rw [write]
  split
  · next hnegative =>
      rw [hnegative] at hread
      exact hread
  · next hpositive =>
      rw [Bool.not_eq_true _ |>.mp hpositive] at hread
      exact numeral_of_unsigned hread

end Write

/-! ## How a numeral starts -/

def starts : List Char := ['-', '0', '1', '2', '3', '4', '5', '6', '7', '8', '9']

theorem mem_starts_of_digit {char : Char} {digit : Nat} (h : digit? (some char) = some digit) :
    char ∈ starts := by
  rw [digit?] at h
  split at h
  · next hrange =>
      have hlow : 48 ≤ char.toNat := hrange.1
      have hhigh : char.toNat ≤ 57 := hrange.2
      have hall : ∀ code ≤ 57, 48 ≤ code → Char.ofNat code ∈ starts := by decide
      exact char.ofNat_toNat ▸ hall char.toNat hhigh hlow
  · contradiction

theorem mem_starts_of_numeral {char : Char} {rest : List Rune} {result : Decimal × List Rune}
    (h : numeral (some char :: rest) = some result) : char ∈ starts := by
  by_cases hminus : char = '-'
  · rw [hminus]
    decide
  · cases hdigit : digit? (some char) with
    | some digit => exact mem_starts_of_digit hdigit
    | none =>
        have hwhole : whole (some char :: rest) = none := by
          rw [whole, digits, hdigit]
        simp [numeral, hminus, unsigned, hwhole] at h

end Numeral

end NexPulse.Foundation
