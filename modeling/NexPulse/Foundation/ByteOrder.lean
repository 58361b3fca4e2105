import Mathlib.Data.String.Basic

/-!
# The order of strings by their bytes

A Redis server compares members byte by byte.  The UTF-8 encoding keeps the
order: strings compare by the code points of their characters as their
encodings compare by bytes.
-/

namespace NexPulse.Foundation

def bytes (text : String) : List UInt8 := text.toByteArray.data.toList

theorem bytes_eq_flatMap (text : String) :
    bytes text = text.toList.flatMap String.utf8EncodeChar := by
  rw [bytes, ← String.utf8Encode_toList]
  simp [List.utf8Encode]

theorem digits_lt {low high : Nat} (h : low < high) :
    low / 262144 < high / 262144 ∨ low / 262144 = high / 262144 ∧
      (low / 4096 % 64 < high / 4096 % 64 ∨ low / 4096 % 64 = high / 4096 % 64 ∧
        (low / 64 % 64 < high / 64 % 64 ∨ low / 64 % 64 = high / 64 % 64 ∧
          low % 64 < high % 64)) := by
  have hdigit {first second : Nat} (hlt : first < second) :
      first / 64 < second / 64 ∨ first / 64 = second / 64 ∧ first % 64 < second % 64 := by
    omega
  have htwo (number : Nat) : number / 64 / 64 = number / 4096 := Nat.div_div_eq_div_mul ..
  have hthree (number : Nat) : number / 4096 / 64 = number / 262144 := Nat.div_div_eq_div_mul ..
  rcases hdigit h with hrest | ⟨heq, hlast⟩
  · rcases hdigit hrest with hrest | ⟨heq, hlast⟩
    · rw [htwo, htwo] at hrest
      rcases hdigit hrest with hfirst | ⟨heq, hsecond⟩
      · exact .inl (by rwa [hthree, hthree] at hfirst)
      · exact .inr ⟨by rwa [hthree, hthree] at heq, .inl hsecond⟩
    · rw [htwo, htwo] at heq
      exact .inr ⟨by rw [← hthree, ← hthree, heq], .inr ⟨by rw [heq], .inl hlast⟩⟩
  · have hmiddle : low / 4096 = high / 4096 := by rw [← htwo, ← htwo, heq]
    exact .inr ⟨by rw [← hthree, ← hthree, hmiddle],
      .inr ⟨by rw [hmiddle], .inr ⟨by rw [heq], hlast⟩⟩⟩

theorem utf8EncodeChar_append_lt {first second : Char} (h : first < second)
    (firstRest secondRest : List UInt8) :
    String.utf8EncodeChar first ++ firstRest < String.utf8EncodeChar second ++ secondRest := by
  have hlt : first.val.toNat < second.val.toNat := h
  have hbound : second.val.toNat < 0x110000 := by
    have := second.valid
    simp only [UInt32.isValidChar, Nat.isValidChar] at this
    omega
  unfold String.utf8EncodeChar
  dsimp only
  generalize first.val.toNat = low at hlt ⊢
  generalize second.val.toNat = high at hlt hbound ⊢
  have hdigits := digits_lt hlt
  have hlowLead : low / 262144 % 8 = low / 262144 := Nat.mod_eq_of_lt (by omega)
  have hhighLead : high / 262144 % 8 = high / 262144 := Nat.mod_eq_of_lt (by omega)
  have htwo (code : Nat) : (code % 32 + 192) % 256 = code % 32 + 192 := by omega
  have hthree (code : Nat) : (code % 16 + 224) % 256 = code % 16 + 224 := by omega
  have hfour (code : Nat) : (code % 8 + 240) % 256 = code % 8 + 240 := by omega
  have hnext (code : Nat) : (code % 64 + 128) % 256 = code % 64 + 128 := by omega
  by_cases hrest : firstRest < secondRest <;>
    split_ifs <;>
    simp only [List.cons_append, List.nil_append, List.cons_lt_cons_iff, UInt8.lt_iff_toNat_lt,
      ← UInt8.toNat_inj, UInt8.toNat_ofNat', Nat.reducePow, htwo, hthree, hfour, hnext, hrest,
      and_true, and_false, or_false] <;>
    omega

theorem flatMap_utf8EncodeChar_lt {first second : List Char} (h : first < second) :
    first.flatMap String.utf8EncodeChar < second.flatMap String.utf8EncodeChar := by
  induction first generalizing second with
  | nil =>
      cases second with
      | nil => exact absurd h (List.lt_irrefl [])
      | cons char chars =>
          have hne : String.utf8EncodeChar char ≠ [] := String.utf8EncodeChar_ne_nil
          obtain ⟨byte, rest, hbytes⟩ := List.exists_cons_of_ne_nil hne
          simp [hbytes]
  | cons char chars ih =>
      cases second with
      | nil => exact absurd h (List.not_lt_nil _)
      | cons other others =>
          rw [List.flatMap_cons, List.flatMap_cons]
          rcases List.cons_lt_cons_iff.mp h with hchar | ⟨rfl, hrest⟩
          · exact utf8EncodeChar_append_lt hchar _ _
          · exact List.append_left_lt (ih hrest)

theorem bytes_lt_bytes {first second : String} : bytes first < bytes second ↔ first < second := by
  rw [bytes_eq_flatMap, bytes_eq_flatMap, String.lt_iff_toList_lt]
  refine ⟨fun h => ?_, flatMap_utf8EncodeChar_lt⟩
  rcases lt_trichotomy first.toList second.toList with hlt | heq | hgt
  · exact hlt
  · exact absurd (heq ▸ h) (List.lt_irrefl _)
  · exact absurd (flatMap_utf8EncodeChar_lt hgt) (List.lt_asymm h)

theorem bytes_lt_eq : (fun first second : String => bytes first < bytes second) = (· < ·) := by
  funext first second
  exact propext bytes_lt_bytes

end NexPulse.Foundation
