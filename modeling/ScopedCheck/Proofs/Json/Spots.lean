import Mathlib.Data.List.TakeDrop
import ScopedCheck.Json.Lexeme
import ScopedCheck.Proofs.Fallible
/-! # Every spot is a spot of the document

Lexemes are cut with the spots where they start and stop, and what cannot be read or passed over tells the
spot of its fault. All of them lie in the text that is cut, a number of bytes behind its first spot. -/

namespace ScopedCheck

namespace Spot

/-! ## Spots of a text -/

/-- Whether a spot lies in a text that starts at another one. -/
def Reaches (spot : Spot) (cs : List Char) (target : Spot) : Prop := ∃ bytes, target = spot.afterBytes bytes cs

variable {spot target : Spot} {cs : List Char}

@[simp] theorem after_cons (spot : Spot) (c : Char) (cs : List Char) :
    spot.after (c :: cs) = (spot.next c).after cs := rfl

theorem reaches_self (spot : Spot) (cs : List Char) : spot.Reaches cs spot := ⟨0, by simp [afterBytes]⟩

theorem reaches_afterBytes (spot : Spot) (bytes : Nat) (cs : List Char) :
    spot.Reaches cs (spot.afterBytes bytes cs) := ⟨bytes, rfl⟩

theorem reaches_ahead (spot : Spot) (cs : List Char) : spot.Reaches cs (spot.ahead cs) := ⟨1, rfl⟩

theorem Reaches.cons {c : Char} (h : (spot.next c).Reaches cs target) : spot.Reaches (c :: cs) target := by
  obtain ⟨bytes, rfl⟩ := h
  have hpos := c.utf8Size_pos
  have hcount : bytes + c.utf8Size ≠ 0 := by omega
  refine ⟨bytes + c.utf8Size, ?_⟩
  rw [afterBytes.eq_3 _ _ _ _ hcount, if_pos (Nat.le_add_left ..), Nat.add_sub_cancel]

theorem Reaches.append {front : List Char} (h : (spot.after front).Reaches cs target) :
    spot.Reaches (front ++ cs) target := by
  induction front generalizing spot with
  | nil => exact h
  | cons c front ih => exact .cons (ih h)

theorem reaches_after (spot : Spot) (front rest : List Char) : spot.Reaches (front ++ rest) (spot.after front) :=
  (reaches_self _ rest).append

theorem reaches_after_take (spot : Spot) (cs : List Char) (n : Nat) : spot.Reaches cs (spot.after (cs.take n)) := by
  simpa only [List.take_append_drop] using reaches_after spot (cs.take n) (cs.drop n)

theorem Reaches.drop {n : Nat} (h : (spot.after (cs.take n)).Reaches (cs.drop n) target) : spot.Reaches cs target := by
  simpa only [List.take_append_drop] using h.append

theorem line_after (spot : Spot) (cs : List Char) : (spot.after cs).line = spot.line + cs.count '\n' := by
  induction cs generalizing spot with
  | nil => rfl
  | cons c cs ih =>
    rw [after_cons, ih, List.count_cons, next]
    by_cases hc : c = '\n'
    · rw [if_pos hc, if_pos (beq_iff_eq.mpr hc)]
      exact Nat.add_right_comm ..
    · rw [if_neg hc, if_neg (fun h => hc (beq_iff_eq.mp h)), Nat.add_zero]

/-- Whether a spot stands behind the characters that have been read, in front of the first one that has not or
inside it. -/
def Between (spot : Spot) (read unread : List Char) (target : Spot) : Prop :=
  ∃ inside, target = ⟨(spot.after read).line, (spot.after read).column + inside⟩ ∧
    (inside = 0 ∨ ∃ c ∈ unread.head?, inside < c.utf8Size)

theorem between_nil (spot : Spot) (unread : List Char) : spot.Between [] unread spot := ⟨0, rfl, .inl rfl⟩

/-- A spot of a text parts it into what has been read and what has not. -/
theorem Reaches.exists_between (h : spot.Reaches cs target) :
    ∃ read unread, cs = read ++ unread ∧ spot.Between read unread target := by
  obtain ⟨bytes, rfl⟩ := h
  fun_induction afterBytes spot bytes cs with
  | case1 cs spot => exact ⟨[], cs, rfl, between_nil ..⟩
  | case2 => exact ⟨[], [], rfl, between_nil ..⟩
  | case3 spot bytes c cs hzero hle ih =>
    obtain ⟨read, unread, rfl, hbetween⟩ := ih
    exact ⟨c :: read, unread, rfl, hbetween⟩
  | case4 spot bytes c cs hzero hle => exact ⟨[], c :: cs, rfl, bytes, rfl, .inr ⟨c, rfl, by omega⟩⟩

end Spot

namespace JsonError

/-- Whether an error has a spot, and a certain one. -/
def IsPlaced (spots : Spot → Prop) (e : JsonError) : Prop := ∃ spot, e.spot = some spot ∧ spots spot

/-- Whether an error has no spot but a certain one. -/
def IsLoose (spots : Spot → Prop) (e : JsonError) : Prop := ∀ spot, e.spot = some spot → spots spot

variable {spots other : Spot → Prop} {e : JsonError}

theorem isPlaced_at {spot : Spot} (fault : JsonFault) (h : spots spot) : (fault.at spot).IsPlaced spots :=
  ⟨spot, rfl, h⟩

theorem IsPlaced.mono (h : e.IsPlaced spots) (hmono : ∀ spot, spots spot → other spot) : e.IsPlaced other := by
  obtain ⟨spot, hspot, hin⟩ := h
  exact ⟨spot, hspot, hmono spot hin⟩

theorem IsPlaced.isLoose (h : e.IsPlaced spots) : e.IsLoose spots := by
  intro spot hspot
  obtain ⟨spot', hspot', hin⟩ := h
  exact Option.some.inj (hspot'.symm.trans hspot) ▸ hin

end JsonError

namespace Lexeme

open JsonError Spot

variable {spot : Spot} {cs : List Char} {e : JsonError}

/-! ## Strings -/

theorem isPlaced_hexFault (spot : Spot) (rest : List Char) : (hexFault spot rest).IsPlaced (spot.Reaches rest) := by
  unfold hexFault
  split
  · exact isPlaced_at _ (reaches_afterBytes ..)
  · exact isPlaced_at _ (by simpa using reaches_after spot rest [])

/-- An error behind some characters is an error in the text that starts with them. -/
theorem isPlaced_append (front : List Char) {rest : List Char} (h : e.IsPlaced ((spot.after front).Reaches rest)) :
    e.IsPlaced (spot.Reaches (front ++ rest)) := h.mono fun _ => Reaches.append

theorem isPlaced_drop (n : Nat) (h : e.IsPlaced ((spot.after (cs.take n)).Reaches (cs.drop n))) :
    e.IsPlaced (spot.Reaches cs) := h.mono fun _ => Reaches.drop

theorem isPlaced_skipString {count : Nat} (h : skipString spot count cs = .error e) :
    e.IsPlaced (spot.Reaches cs) := by
  fun_induction skipString spot count cs with
  | case1 => cases h; exact isPlaced_at _ (reaches_self ..)
  | case2 => cases h
  | case3 => cases h; exact isPlaced_at _ (reaches_after _ ['\\'] [])
  | case4 spot count a b c d rest hhex ih => exact isPlaced_append ['\\', 'u', a, b, c, d] (ih h)
  | case5 => cases h; exact isPlaced_append ['\\', 'u'] (isPlaced_hexFault ..)
  | case6 => cases h; exact isPlaced_append ['\\', 'u'] (isPlaced_hexFault ..)
  | case7 spot count c rest hmore hunit hescape ih => exact isPlaced_append ['\\', c] (ih h)
  | case8 => cases h; exact isPlaced_append ['\\'] (isPlaced_at _ (reaches_ahead ..))
  | case9 => cases h; exact isPlaced_at _ (reaches_self ..)
  | case10 spot count c rest _ _ _ _ _ _ ih => exact isPlaced_append [c] (ih h)

theorem isPlaced_readString {half : Option Nat} {read : List Char} (h : readString spot half read cs = .error e) :
    e.IsPlaced (spot.Reaches cs) := by
  fun_induction readString spot half read cs with
  | case1 => cases h; exact isPlaced_at _ (reaches_self ..)
  | case2 => cases h; exact isPlaced_at _ (reaches_after _ ['\\'] [])
  | case3 => cases h; exact isPlaced_append ['\\', 'u'] (isPlaced_hexFault ..)
  | case4 spot read a b c d rest => cases h; exact isPlaced_at _ (reaches_after _ ['\\', 'u', a, b, c, d] rest)
  | case5 spot read a b c d rest stop n hhex htrailing hleading ih =>
    exact isPlaced_append ['\\', 'u', a, b, c, d] (ih h)
  | case6 spot read a b c d rest stop n hhex htrailing hleading ih =>
    exact isPlaced_append ['\\', 'u', a, b, c, d] (ih h)
  | case7 spot read a b c d rest stop n first hhex htrailing code ih =>
    exact isPlaced_append ['\\', 'u', a, b, c, d] (ih h)
  | case8 spot read a b c d rest => cases h; exact isPlaced_at _ (reaches_after _ ['\\', 'u', a, b, c, d] rest)
  | case9 => cases h; exact isPlaced_append ['\\', 'u'] (isPlaced_hexFault ..)
  | case10 => cases h; exact isPlaced_append ['\\'] (isPlaced_at _ (reaches_ahead ..))
  | case11 spot read c rest hmore hunit plain hescape ih => exact isPlaced_append ['\\', c] (ih h)
  | case12 => cases h; exact isPlaced_append ['\\'] (isPlaced_at _ (reaches_ahead ..))
  | case13 => cases h; exact isPlaced_at _ (reaches_ahead ..)
  | case14 => cases h
  | case15 => cases h; exact isPlaced_at _ (reaches_ahead ..)
  | case16 spot half read c rest _ _ _ _ _ _ _ ih => exact isPlaced_append [c] (ih h)

/-! ## Numbers -/

variable {reading : Bool}

theorem isPlaced_scanPower (h : scanPower reading spot cs = .error e) : e.IsPlaced (spot.Reaches cs) := by
  unfold scanPower at h
  split at h
  rename_i signed negative rest hsign
  have hrest : rest = cs.drop signed := by
    split at hsign <;> cases hsign <;> rfl
  subst hrest
  dsimp only at h
  split at h
  · cases h
    exact isPlaced_at _ (reaches_after_take ..)
  · rename_i c tail hdrop
    split at h
    · cases h
    · cases h
      exact isPlaced_at _ (.drop (reaches_ahead ..))

theorem isPlaced_scanFraction (h : scanFraction reading spot cs = .error e) : e.IsPlaced (spot.Reaches cs) := by
  unfold scanFraction at h
  split at h
  · cases h
    exact isPlaced_at _ (reaches_self ..)
  · split at h
    · cases h
    · cases h
      exact isPlaced_at _ (reaches_ahead ..)

theorem isPlaced_scanWhole (h : scanWhole reading spot cs = .error e) : e.IsPlaced (spot.Reaches cs) := by
  unfold scanWhole at h
  split at h
  · cases h
    exact isPlaced_at _ (reaches_self ..)
  · split at h
    · cases h
      exact isPlaced_append ['0'] (isPlaced_at _ (reaches_ahead ..))
    · cases h
  · split at h
    · cases h
    · cases h
      exact isPlaced_at _ (reaches_ahead ..)

theorem isPlaced_scanFraction? (h : scanFraction? reading spot cs = .error e) : e.IsPlaced (spot.Reaches cs) := by
  unfold scanFraction? at h
  split at h
  · rename_i rest
    exact isPlaced_append ['.'] (isPlaced_scanFraction (Fallible.map_eq_error_iff.mp h))
  · cases h

theorem isPlaced_scanPower? (h : scanPower? reading spot cs = .error e) : e.IsPlaced (spot.Reaches cs) := by
  unfold scanPower? at h
  split at h
  · cases h
  · rename_i c rest
    split at h
    · exact isPlaced_append [c] (isPlaced_scanPower (Fallible.map_eq_error_iff.mp h))
    · cases h

theorem drop_of_takeSign {negative : Bool} {unsigned : List Char} (h : takeSign cs = (negative, unsigned)) :
    unsigned = cs.drop (if negative then 1 else 0) := by
  unfold takeSign at h
  split at h <;> cases h <;> rfl

theorem prefix_digits (cs : List Char) : (digits cs).1 <+: cs := by
  rw [digits, List.span_eq_takeWhile_dropWhile]
  exact List.takeWhile_prefix _

theorem prefix_of_scanWhole {whole : List Char} (h : scanWhole reading spot cs = .ok whole) : whole <+: cs := by
  unfold scanWhole at h
  split at h
  · cases h
  · split at h
    · cases h
    · cases h
      exact ⟨_, rfl⟩
  · split at h
    · cases h
      exact prefix_digits _
    · cases h

theorem prefix_of_scanFraction? {fraction : Option (List Char)} (h : scanFraction? reading spot cs = .ok fraction) :
    pointed fraction <+: cs := by
  unfold scanFraction? at h
  split at h
  · rename_i rest
    unfold scanFraction at h
    split at h
    · cases h
    · split at h
      · cases h
        exact List.cons_prefix_cons.mpr ⟨rfl, prefix_digits _⟩
      · cases h
  · cases h
    exact List.nil_prefix

theorem isPlaced_of_prefix {front : List Char} (hfront : front <+: cs)
    (h : e.IsPlaced ((spot.after front).Reaches (cs.drop front.length))) : e.IsPlaced (spot.Reaches cs) := by
  simpa only [List.prefix_iff_eq_append.mp hfront] using isPlaced_append front h

theorem isPlaced_scanNumber (h : scanNumber reading spot cs = .error e) : e.IsPlaced (spot.Reaches cs) := by
  unfold scanNumber at h
  split at h
  rename_i negative unsigned hsign
  obtain rfl := drop_of_takeSign hsign
  refine isPlaced_drop (if negative then 1 else 0) ?_
  rcases Fallible.bind_eq_error_iff.mp h with h | ⟨whole, hwhole, h⟩
  · exact isPlaced_scanWhole h
  refine isPlaced_of_prefix (prefix_of_scanWhole hwhole) ?_
  rcases Fallible.bind_eq_error_iff.mp h with h | ⟨fraction, hfraction, h⟩
  · exact isPlaced_scanFraction? h
  refine isPlaced_of_prefix (prefix_of_scanFraction? hfraction) ?_
  rcases Fallible.bind_eq_error_iff.mp h with h | ⟨power, hpower, h⟩
  · exact isPlaced_scanPower? h
  · split at h <;> cases h

theorem isPlaced_readNumber (h : readNumber spot cs = .error e) : e.IsPlaced (spot.Reaches cs) := by
  unfold readNumber at h
  rcases Fallible.bind_eq_error_iff.mp h with h | ⟨numeral, -, h⟩
  · exact isPlaced_scanNumber h
  · split at h
    · cases h
    · cases h
      exact isPlaced_at _ (reaches_after_take ..)

theorem isPlaced_checkWord {letters : List Char} (h : checkWord spot letters cs = .error e) :
    e.IsPlaced (spot.Reaches cs) := by
  fun_induction checkWord spot letters cs with
  | case1 => cases h
  | case2 => cases h; exact isPlaced_at _ (reaches_self ..)
  | case3 spot letters c cs ih => exact isPlaced_append [c] (ih h)
  | case4 => cases h; exact isPlaced_at _ (reaches_ahead ..)

/-! ## Lexemes -/

/-- Whether a lexeme holds an error, to be told when it is read or passed over. -/
inductive Kind.Holds : Kind → JsonError → Prop
  | number (e : JsonError) : Holds (.number (.error e)) e
  | string (e : JsonError) : Holds (.string (.error e)) e
  | reading (isString : Bool) (e skipping : JsonError) : Holds (.broken isString e skipping) e
  | skipping (isString : Bool) (reading e : JsonError) : Holds (.broken isString reading e) e

/-- Whether a lexeme knows only certain spots. -/
structure Knows (spots : Spot → Prop) (lexeme : Lexeme) : Prop where
  start : spots lexeme.start
  ahead : spots lexeme.ahead
  stop : spots lexeme.stop
  errors : ∀ e, lexeme.kind.Holds e → e.IsPlaced spots

theorem Knows.mono {spots other : Spot → Prop} {lexeme : Lexeme} (h : lexeme.Knows spots)
    (hmono : ∀ spot, spots spot → other spot) : lexeme.Knows other where
  start := hmono _ h.start
  ahead := hmono _ h.ahead
  stop := hmono _ h.stop
  errors e he := (h.errors e he).mono hmono

theorem isPlaced_of_holds_kindAt {c : Char} (h : (kindAt spot c cs).1.Holds e) :
    e.IsPlaced (spot.Reaches (c :: cs)) := by
  have hword : ∀ {letters : List Char} {fault : JsonError}, checkWord spot letters (c :: cs) = .error fault →
      (Kind.broken false fault fault).Holds e → e.IsPlaced (spot.Reaches (c :: cs)) := by
    intro letters fault hcheck h
    cases h <;> exact isPlaced_checkWord hcheck
  have hvalue : ∀ fault, (readString (spot.next c) none [] cs).map String.ofList = .error fault →
      fault.IsPlaced (spot.Reaches (c :: cs)) :=
    fun fault h => isPlaced_append [c] (isPlaced_readString (Fallible.map_eq_error_iff.mp h))
  unfold kindAt at h
  dsimp only at h
  split at h
  · split at h
    · generalize (readString (spot.next c) none [] cs).map String.ofList = value at h hvalue
      cases h
      exact hvalue _ rfl
    · rename_i skipping hskip
      have hskipping : skipping.IsPlaced (spot.Reaches (c :: cs)) := isPlaced_append [c] (isPlaced_skipString hskip)
      split at h
      · rename_i hread
        cases h
        · exact hvalue _ hread
        · exact hskipping
      · cases h <;> exact hskipping
  split at h
  · split at h
    · cases h
    · exact hword ‹_› h
  split at h
  · split at h
    · cases h
    · exact hword ‹_› h
  split at h
  · split at h
    · cases h
    · exact hword ‹_› h
  split at h
  · split at h
    · generalize hvalue : readNumber spot (c :: cs) = value at h
      cases h
      exact isPlaced_readNumber hvalue
    · rename_i skipping hskip
      split at h
      · rename_i hread
        cases h
        · exact isPlaced_readNumber hread
        · exact isPlaced_scanNumber hskip
      · cases h <;> exact isPlaced_scanNumber hskip
  · cases h

/-- A document is cut into lexemes that know only its own spots, and ends at one of them. -/
theorem knows_cut (spot : Spot) (cs : List Char) :
    (∀ lexeme ∈ (cut spot cs).1, lexeme.Knows (spot.Reaches cs)) ∧ spot.Reaches cs (cut spot cs).2 := by
  induction spot, cs using cut.induct with
  | case1 spot =>
    rw [cut]
    exact ⟨fun _ h => (nomatch h), reaches_self ..⟩
  | case2 spot c cs hc ih =>
    rw [cut, if_pos hc]
    exact ⟨fun lexeme hlexeme => (ih.1 lexeme hlexeme).mono fun _ => Reaches.cons, ih.2.cons⟩
  | case3 spot c cs hc kind count hkind stop _ _ _ ih =>
    rw [cut, if_neg hc]
    simp only [hkind]
    have hbehind : ∀ target, stop.Reaches (cs.drop count) target → spot.Reaches (c :: cs) target :=
      fun _ h => .cons (.drop h)
    refine ⟨fun lexeme hlexeme => ?_, hbehind _ ih.2⟩
    rcases List.mem_cons.mp hlexeme with rfl | hlexeme
    · refine ⟨reaches_self .., reaches_ahead .., .cons (reaches_after_take ..), fun e he => ?_⟩
      exact isPlaced_of_holds_kindAt (congrArg Prod.fst hkind ▸ he)
    · exact (ih.1 lexeme hlexeme).mono hbehind

end Lexeme

end ScopedCheck
