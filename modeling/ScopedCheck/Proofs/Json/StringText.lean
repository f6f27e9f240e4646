import ScopedCheck.Json.Lexeme
import ScopedCheck.Json.Printer
/-! # Strings as they are shown

What a string shows between its quotes is read back, and passed over, as it was. -/

namespace ScopedCheck.Lexeme

open Json

/-! ## Single characters -/

theorem hexValue?_hexDigit : ∀ n < 16, hexValue? (hexDigit n) = some n := by decide

theorem hexValue4?_control {c : Char} (hc : c.toNat < 0x20) :
    hexValue4? '0' '0' (hexDigit (c.toNat / 16)) (hexDigit (c.toNat % 16)) = some c.toNat := by
  have hhigh := hexValue?_hexDigit (c.toNat / 16) (by omega)
  have hlow := hexValue?_hexDigit (c.toNat % 16) (by omega)
  have hzero : hexValue? '0' = some 0 := by decide
  simp only [hexValue4?, hzero, hhigh, hlow, bind, Option.bind, pure]
  congr 1
  omega

/-- What a string shows as it is. -/
def IsShownPlainly (c : Char) : Prop := c ≠ '"' ∧ c ≠ '\\' ∧ 0x20 ≤ c.toNat

instance (c : Char) : Decidable (IsShownPlainly c) :=
  inferInstanceAs (Decidable (c ≠ '"' ∧ c ≠ '\\' ∧ 0x20 ≤ c.toNat))

theorem readString_short (spot : Spot) (read : List Char) {letter c : Char} (hletter : letter ≠ 'u')
    (h : shortEscape? letter = some c) (rest : List Char) :
    readString spot none read ('\\' :: letter :: rest) =
      readString (spot.after ['\\', letter]) none (c :: read) rest := by
  rw [readString]
  · simp only [h]
  all_goals simp_all

theorem readString_control (spot : Spot) (read : List Char) {c : Char} (hc : c.toNat < 0x20)
    (rest : List Char) :
    readString spot none read ('\\' :: 'u' :: '0' :: '0' :: hexDigit (c.toNat / 16) ::
        hexDigit (c.toNat % 16) :: rest) =
      readString (spot.after ['\\', 'u', '0', '0', hexDigit (c.toNat / 16), hexDigit (c.toNat % 16)])
        none (c :: read) rest := by
  have htrailing : isTrailingHalf c.toNat = false := by
    simp [isTrailingHalf]
    omega
  have hleading : isLeadingHalf c.toNat = false := by
    simp [isLeadingHalf]
    omega
  rw [readString.eq_def]
  simp only [hexValue4?_control hc, htrailing, hleading, Bool.false_eq_true, if_false, Char.ofNat_toNat]

theorem readString_plain (spot : Spot) (read : List Char) {c : Char} (hc : IsShownPlainly c)
    (rest : List Char) :
    readString spot none read (c :: rest) = readString (spot.next c) none (c :: read) rest := by
  obtain ⟨hquote, hslash, hcontrol⟩ := hc
  rw [readString]
  · have hlarge : ¬c.toNat < 32 := by omega
    simp [hquote, hlarge]
  all_goals simp_all

theorem skipString_short (spot : Spot) (count : Nat) {letter c : Char} (hletter : letter ≠ 'u')
    (h : shortEscape? letter = some c) (rest : List Char) :
    skipString spot count ('\\' :: letter :: rest) =
      skipString (spot.after ['\\', letter]) (count + 2) rest := by
  rw [skipString]
  · simp only [h, Option.isSome_some, if_true]
  all_goals simp_all

theorem skipString_control (spot : Spot) (count : Nat) {c : Char} (hc : c.toNat < 0x20)
    (rest : List Char) :
    skipString spot count ('\\' :: 'u' :: '0' :: '0' :: hexDigit (c.toNat / 16) ::
        hexDigit (c.toNat % 16) :: rest) =
      skipString (spot.after ['\\', 'u', '0', '0', hexDigit (c.toNat / 16), hexDigit (c.toNat % 16)])
        (count + 6) rest := by
  rw [skipString]
  simp only [hexValue4?_control hc, Option.isSome_some, if_true]

theorem skipString_plain (spot : Spot) (count : Nat) {c : Char} (hc : IsShownPlainly c)
    (rest : List Char) :
    skipString spot count (c :: rest) = skipString (spot.next c) (count + 1) rest := by
  obtain ⟨hquote, hslash, hcontrol⟩ := hc
  rw [skipString]
  · have hlarge : ¬c.toNat < 32 := by omega
    simp [hlarge]
  all_goals simp_all

/-- How a character is shown: by a short escape, by its number, or as it is. -/
theorem escapedChar_cases (c : Char) :
    (∃ letter, letter ≠ 'u' ∧ shortEscape? letter = some c ∧ escapedChar c = ['\\', letter]) ∨
    (c.toNat < 0x20 ∧ escapedChar c =
      ['\\', 'u', '0', '0', hexDigit (c.toNat / 16), hexDigit (c.toNat % 16)]) ∨
    (IsShownPlainly c ∧ escapedChar c = [c]) := by
  unfold escapedChar
  by_cases hquote : c = '"'
  · subst hquote
    exact Or.inl ⟨'"', by decide, by decide, rfl⟩
  by_cases hslash : c = '\\'
  · subst hslash
    exact Or.inl ⟨'\\', by decide, by decide, rfl⟩
  by_cases hline : c = '\n'
  · subst hline
    exact Or.inl ⟨'n', by decide, by decide, rfl⟩
  by_cases hreturn : c = '\r'
  · subst hreturn
    exact Or.inl ⟨'r', by decide, by decide, rfl⟩
  by_cases htab : c = '\t'
  · subst htab
    exact Or.inl ⟨'t', by decide, by decide, rfl⟩
  by_cases hback : c.toNat = 8
  · obtain rfl : c = '\x08' := Char.toNat_inj.mp hback
    exact Or.inl ⟨'b', by decide, by decide, rfl⟩
  by_cases hform : c.toNat = 12
  · obtain rfl : c = '\x0c' := Char.toNat_inj.mp hform
    exact Or.inl ⟨'f', by decide, by decide, rfl⟩
  simp only [hquote, hslash, hline, hreturn, htab, hback, hform, if_false]
  by_cases hcontrol : c.toNat < 0x20
  · exact Or.inr (Or.inl ⟨hcontrol, if_pos hcontrol⟩)
  · exact Or.inr (Or.inr ⟨⟨hquote, hslash, by omega⟩, if_neg hcontrol⟩)

/-! ## Whole strings -/

/-- A string is read as it was shown. -/
theorem readString_escaped (spot : Spot) (read cs rest : List Char) :
    readString spot none read (cs.flatMap escapedChar ++ '"' :: rest) = .ok (read.reverse ++ cs) := by
  induction cs generalizing spot read with
  | nil =>
      rw [List.flatMap_nil, List.nil_append, readString]
      · simp
      all_goals simp
  | cons c cs ih =>
      have hstep : ∃ next, readString spot none read ((c :: cs).flatMap escapedChar ++ '"' :: rest) =
          readString next none (c :: read) (cs.flatMap escapedChar ++ '"' :: rest) := by
        rw [List.flatMap_cons]
        rcases escapedChar_cases c with ⟨letter, hletter, hshort, hc⟩ | ⟨hcontrol, hc⟩ | ⟨hplain, hc⟩
        · exact ⟨_, by rw [hc]; exact readString_short spot read hletter hshort _⟩
        · exact ⟨_, by rw [hc]; exact readString_control spot read hcontrol _⟩
        · exact ⟨_, by rw [hc]; exact readString_plain spot read hplain _⟩
      obtain ⟨next, hnext⟩ := hstep
      rw [hnext, ih]
      simp

example : (readString Spot.first none [] ("say \"no\"\n".toList.flatMap escapedChar ++ ['"'])).toOption =
    some "say \"no\"\n".toList := by decide +kernel

/-- A string is passed over as a whole. -/
theorem skipString_escaped (spot : Spot) (count : Nat) (cs rest : List Char) :
    skipString spot count (cs.flatMap escapedChar ++ '"' :: rest) =
      .ok (count + (cs.flatMap escapedChar).length + 1) := by
  induction cs generalizing spot count with
  | nil => rw [List.flatMap_nil, List.nil_append, skipString]; rfl
  | cons c cs ih =>
      have hstep : ∃ next, skipString spot count ((c :: cs).flatMap escapedChar ++ '"' :: rest) =
          skipString next (count + (escapedChar c).length) (cs.flatMap escapedChar ++ '"' :: rest) := by
        rw [List.flatMap_cons]
        rcases escapedChar_cases c with ⟨letter, hletter, hshort, hc⟩ | ⟨hcontrol, hc⟩ | ⟨hplain, hc⟩
        · exact ⟨_, by rw [hc]; exact skipString_short spot count hletter hshort _⟩
        · exact ⟨_, by rw [hc]; exact skipString_control spot count hcontrol _⟩
        · exact ⟨_, by rw [hc]; exact skipString_plain spot count hplain _⟩
      obtain ⟨next, hnext⟩ := hstep
      rw [hnext, ih, List.flatMap_cons, List.length_append]
      congr 1
      omega

end ScopedCheck.Lexeme
