import ScopedCheck.Text.Search.Lemmas
/-! # What patterns take

A pattern is read off the text part by part. A fixed text takes itself, and a greedy repetition takes
as much as there is if what follows it cannot start with one more character.

A pattern that takes none of certain characters sees nothing of a text behind the first of them. So what it
leads to is the same in two texts that agree up to there, if going on leads to the same (`rel_first?`). -/

namespace ScopedCheck.Text

/-- What is asked of the characters of a text is decided by going through the text. -/
instance decidableForallMem (cs : List Char) (p : Char → Prop) [DecidablePred p] : Decidable (∀ c ∈ cs, p c) :=
  List.decidableBAll p cs

/-- The last character of a text, or the one in front of it if it is empty. -/
def lastChar (before : Option Char) (cs : List Char) : Option Char :=
  cs.foldl (fun _ c => some c) before

@[simp] theorem lastChar_nil (before : Option Char) : lastChar before [] = before := rfl

@[simp] theorem lastChar_cons (before : Option Char) (c : Char) (cs : List Char) :
    lastChar before (c :: cs) = lastChar (some c) cs := rfl

@[simp] theorem lastChar_append (before : Option Char) (cs ds : List Char) :
    lastChar before (cs ++ ds) = lastChar (lastChar before cs) ds := List.foldl_append ..

theorem Place.textUpTo_append (before before' : Option Char) (offset : Nat) (cs rest rest' : List Char) :
    Place.textUpTo ⟨before, offset, cs ++ rest⟩ ⟨before', offset + cs.length, rest'⟩ = cs := by
  simp [Place.textUpTo]

namespace Pattern

variable {α β : Type} {goOn : Place → Groups → Option α} {before : Option Char} {offset : Nat}
  {groups : Groups}

/-! ## Parts -/

theorem first?_all_nil (here : Place) : (all []).first? goOn here groups = goOn here groups := rfl

theorem first?_all_cons (part : Pattern) (parts : List Pattern) (here : Place) :
    (all (part :: parts)).first? goOn here groups
      = part.first? ((all parts).first? goOn) here groups := rfl

theorem first?_all_append (parts more : List Pattern) (here : Place) :
    (all (parts ++ more)).first? goOn here groups
      = (all parts).first? ((all more).first? goOn) here groups := by
  induction parts generalizing here groups goOn with
  | nil => rfl
  | cons part parts ih =>
    have hrest : (all (parts ++ more)).first? goOn = (all parts).first? ((all more).first? goOn) :=
      funext fun there => funext fun known => ih there
    rw [List.cons_append, first?_all_cons, first?_all_cons, hrest]

theorem first?_char {accepts : Char → Bool} {c : Char} (h : accepts c = true) (cs : List Char) :
    (char accepts).first? goOn ⟨before, offset, c :: cs⟩ groups
      = goOn ⟨.some c, offset + 1, cs⟩ groups := by
  simp [first?, Place.next?, h]

theorem first?_char_cons_eq_none {accepts : Char → Bool} {c : Char} (h : accepts c = false)
    (cs : List Char) : (char accepts).first? goOn ⟨before, offset, c :: cs⟩ groups = none := by
  simp [first?, Place.next?, h]

theorem first?_char_eq_none {accepts : Char → Bool} {cs : List Char}
    (h : cs.head?.any accepts = false) :
    (char accepts).first? goOn ⟨before, offset, cs⟩ groups = none := by
  cases cs with
  | nil => rfl
  | cons c cs => exact first?_char_cons_eq_none h cs

theorem first?_place {holds : Place → Bool} {here : Place} (h : holds here = true) :
    (place holds).first? goOn here groups = goOn here groups := by
  simp [first?, h]

theorem first?_place_eq_none {holds : Place → Bool} {here : Place} (h : holds here = false) :
    (place holds).first? goOn here groups = none := by
  simp [first?, h]

theorem first?_atStart (cs : List Char) :
    atStart.first? goOn ⟨before, 0, cs⟩ groups = goOn ⟨before, 0, cs⟩ groups := rfl

theorem first?_boundary {here : Place} (h : here.isBoundary = true) :
    boundary.first? goOn here groups = goOn here groups := first?_place h

theorem first?_either (left right : Pattern) (here : Place) :
    (either left right).first? goOn here groups
      = (left.first? goOn here groups).or (right.first? goOn here groups) := by
  simp only [first?]
  cases left.first? goOn here groups <;> rfl

/-- A fixed text takes itself. -/
theorem first?_text (s : String) (cs : List Char) :
    (text s).first? goOn ⟨before, offset, s.toList ++ cs⟩ groups
      = goOn ⟨lastChar before s.toList, offset + s.toList.length, cs⟩ groups := by
  unfold text
  induction s.toList generalizing before offset with
  | nil => rfl
  | cons c rest ih =>
    rw [List.map_cons, first?_all_cons, List.cons_append, first?_char (by simp), ih, lastChar_cons,
      List.length_cons]
    congr 2
    omega

theorem first?_text_eq_none {s : String} {here : Place} (h : ¬s.toList <+: here.rest) :
    (text s).first? goOn here groups = none := by
  unfold text
  generalize s.toList = wanted at h
  induction wanted generalizing here with
  | nil => simp at h
  | cons c rest ih =>
    obtain ⟨before, offset, cs⟩ := here
    cases cs with
    | nil => rfl
    | cons d cs =>
      rw [List.map_cons, first?_all_cons]
      by_cases hd : d = c
      · subst hd
        rw [first?_char (by simp)]
        exact ih fun hrest => h (by simpa using hrest)
      · exact first?_char_cons_eq_none (by simpa using hd) cs

/-! ## Repetitions -/

/-- Nothing is found by going on where the next character is one of a class. -/
def Refuses (goOn : Place → Groups → Option α) (accepts : Char → Bool) : Prop :=
  ∀ here groups, here.nextIs accepts = true → goOn here groups = none

theorem refuses_char {accepts others : Char → Bool}
    (h : ∀ c, others c = true → accepts c = false) :
    Refuses ((char accepts).first? goOn) others := by
  intro here groups hnext
  obtain ⟨before, offset, cs⟩ := here
  cases cs with
  | nil => rfl
  | cons c cs => exact first?_char_cons_eq_none (h c hnext) cs

theorem any_head?_text {s : String} {others : Char → Bool}
    (h : s.toList.head?.any (fun c => !others c) = true) (rest : List Char) :
    (s.toList ++ rest).head?.any others = false := by
  cases hs : s.toList with
  | nil => simp [hs] at h
  | cons c tail => simpa [hs] using h

theorem refuses_text {s : String} {others : Char → Bool}
    (h : s.toList.head?.any (fun c => !others c) = true) : Refuses ((text s).first? goOn) others := by
  intro here groups hnext
  refine first?_text_eq_none fun hstarts => ?_
  obtain ⟨rest, hrest⟩ := hstarts
  rw [Place.nextIs, ← hrest, any_head?_text h rest] at hnext
  cases hnext

theorem Refuses.mono {accepts others : Char → Bool} (h : Refuses goOn accepts)
    (hothers : ∀ c, others c = true → accepts c = true) : Refuses goOn others := by
  intro here groups hnext
  refine h here groups ?_
  cases hrest : here.rest with
  | nil => simp [Place.nextIs, hrest] at hnext
  | cons c rest => simpa [Place.nextIs, hrest] using hothers c (by simpa [Place.nextIs, hrest] using hnext)

theorem Refuses.all {part : Pattern} {parts : List Pattern} {others : Char → Bool}
    (h : Refuses (part.first? ((all parts).first? goOn)) others) :
    Refuses ((all (part :: parts)).first? goOn) others := h

theorem Refuses.capture {others : Char → Bool} (h : Refuses goOn others) (group : Nat) (here : Place) :
    Refuses (fun stop known => goOn stop ((group, here, stop) :: known)) others :=
  fun stop known hnext => h stop ((group, here, stop) :: known) hnext

theorem first?_more_nil (accepts : Char → Bool) :
    (many .more accepts).first? goOn ⟨before, offset, []⟩ groups
      = goOn ⟨before, offset, []⟩ groups := by
  cases h : goOn ⟨before, offset, []⟩ groups <;> simp [first?, most?, placesAlong, h]

theorem first?_more_cons (accepts : Char → Bool) (c : Char) (cs : List Char) :
    (many .more accepts).first? goOn ⟨before, offset, c :: cs⟩ groups
      = (if accepts c then
            (many .more accepts).first? goOn ⟨.some c, offset + 1, cs⟩ groups
          else none).or (goOn ⟨before, offset, c :: cs⟩ groups) := by
  have hhere : List.findSome? (goOn · groups) [(⟨before, offset, c :: cs⟩ : Place)]
      = goOn ⟨before, offset, c :: cs⟩ groups := by
    cases h : goOn ⟨before, offset, c :: cs⟩ groups <;> simp [h]
  simp only [first?, most?, placesAlong]
  cases accepts c with
  | true => rw [if_pos rfl, if_pos rfl, placesAlong_append, List.findSome?_append, hhere]
  | false => rw [if_neg Bool.false_ne_true, if_neg Bool.false_ne_true, hhere, Option.none_or]

theorem first?_fewer_cons (accepts : Char → Bool) (c : Char) (cs : List Char) :
    (many .fewer accepts).first? goOn ⟨before, offset, c :: cs⟩ groups
      = (goOn ⟨before, offset, c :: cs⟩ groups).or
          (if accepts c then
            (many .fewer accepts).first? goOn ⟨.some c, offset + 1, cs⟩ groups
          else none) := by
  simp only [first?, fewest?]
  cases goOn ⟨before, offset, c :: cs⟩ groups <;> rfl

/-- A repetition of characters of which there is none here takes nothing. -/
theorem first?_many_of_head? (prefer : Preference) {accepts : Char → Bool} {rest : List Char}
    (hrest : rest.head?.any accepts = false) :
    (many prefer accepts).first? goOn ⟨before, offset, rest⟩ groups
      = goOn ⟨before, offset, rest⟩ groups := by
  cases rest with
  | nil =>
    cases prefer with
    | more => exact first?_more_nil accepts
    | fewer => rfl
  | cons c rest =>
    have hc : accepts c = false := hrest
    cases prefer with
    | more => rw [first?_more_cons, hc, if_neg Bool.false_ne_true, Option.none_or]
    | fewer => rw [first?_fewer_cons, hc, if_neg Bool.false_ne_true, Option.or_none]

/-- A greedy repetition takes as much as there is if nothing is found by stopping earlier. -/
theorem first?_more {accepts : Char → Bool} (hstop : Refuses goOn accepts) {cs rest : List Char}
    (hcs : ∀ c ∈ cs, accepts c = true) (hrest : rest.head?.any accepts = false) :
    (many .more accepts).first? goOn ⟨before, offset, cs ++ rest⟩ groups
      = goOn ⟨lastChar before cs, offset + cs.length, rest⟩ groups := by
  induction cs generalizing before offset with
  | nil => exact first?_many_of_head? .more hrest
  | cons c cs ih =>
    obtain ⟨hc, hcs⟩ := List.forall_mem_cons.mp hcs
    rw [List.cons_append, first?_more_cons, if_pos hc, ih hcs,
      hstop ⟨before, offset, c :: (cs ++ rest)⟩ groups hc, Option.or_none, lastChar_cons,
      List.length_cons]
    congr 2
    omega

/-- A greedy repetition takes as much as there is if something is found behind it. -/
theorem first?_more_of_some {accepts : Char → Bool} {cs rest : List Char} {found : α}
    (hcs : ∀ c ∈ cs, accepts c = true) (hrest : rest.head?.any accepts = false)
    (h : goOn ⟨lastChar before cs, offset + cs.length, rest⟩ groups = .some found) :
    (many .more accepts).first? goOn ⟨before, offset, cs ++ rest⟩ groups = .some found := by
  induction cs generalizing before offset with
  | nil => exact (first?_many_of_head? .more hrest).trans h
  | cons c cs ih =>
    obtain ⟨hc, hcs⟩ := List.forall_mem_cons.mp hcs
    have hlater : (many .more accepts).first? goOn ⟨.some c, offset + 1, cs ++ rest⟩ groups
        = .some found := ih hcs (by simpa [Nat.add_assoc, Nat.add_comm 1] using h)
    rw [List.cons_append, first?_more_cons, if_pos hc, hlater, Option.some_or]

/-- The same where all of the text is of the class. -/
theorem first?_more_of_forall {accepts : Char → Bool} {cs : List Char} {found : α}
    (hcs : ∀ c ∈ cs, accepts c = true)
    (h : goOn ⟨lastChar before cs, offset + cs.length, []⟩ groups = .some found) :
    (many .more accepts).first? goOn ⟨before, offset, cs⟩ groups = .some found := by
  have hnil : ([] : List Char).head?.any accepts = false := rfl
  have hall := first?_more_of_some hcs hnil h
  rwa [List.append_nil] at hall

theorem first?_some_cons (prefer : Preference) (accepts : Char → Bool) {c : Char} (hc : accepts c = true)
    (cs : List Char) :
    (some prefer accepts).first? goOn ⟨before, offset, c :: cs⟩ groups
      = (many prefer accepts).first? goOn ⟨.some c, offset + 1, cs⟩ groups := first?_char hc cs

/-- At least one character of a class, likewise. -/
theorem first?_some {accepts : Char → Bool} (hstop : Refuses goOn accepts) {cs rest : List Char}
    (hne : cs ≠ []) (hcs : ∀ c ∈ cs, accepts c = true) (hrest : rest.head?.any accepts = false) :
    (some .more accepts).first? goOn ⟨before, offset, cs ++ rest⟩ groups
      = goOn ⟨lastChar before cs, offset + cs.length, rest⟩ groups := by
  obtain ⟨c, cs, rfl⟩ := List.exists_cons_of_ne_nil hne
  obtain ⟨hc, hcs⟩ := List.forall_mem_cons.mp hcs
  rw [List.cons_append, first?_some_cons .more accepts hc, first?_more hstop hcs hrest, lastChar_cons, List.length_cons]
  congr 2
  omega

theorem first?_some_eq_none {prefer : Preference} {accepts : Char → Bool} {cs : List Char}
    (h : cs.head?.any accepts = false) :
    (some prefer accepts).first? goOn ⟨before, offset, cs⟩ groups = none := first?_char_eq_none h

/-- A single character of a class is taken. -/
theorem first?_some_single (prefer : Preference) {accepts : Char → Bool} {c : Char} (hc : accepts c = true)
    {rest : List Char} (hrest : rest.head?.any accepts = false) :
    (some prefer accepts).first? goOn ⟨before, offset, c :: rest⟩ groups
      = goOn ⟨.some c, offset + 1, rest⟩ groups := by
  rw [first?_some_cons prefer accepts hc, first?_many_of_head? prefer hrest]

theorem first?_capture (group : Nat) (inner : Pattern) (here : Place) :
    (capture group inner).first? goOn here groups
      = inner.first? (fun stop known => goOn stop ((group, here, stop) :: known)) here groups := rfl

/-- A lazy repetition takes all of a text if nothing is found by stopping earlier. -/
theorem first?_fewer {accepts : Char → Bool} {cs rest : List Char} {found : α}
    (hcs : ∀ c ∈ cs, accepts c = true)
    (hearly : ∀ taken c left, taken ++ c :: left = cs →
      goOn ⟨lastChar before taken, offset + taken.length, c :: left ++ rest⟩ groups = none)
    (h : goOn ⟨lastChar before cs, offset + cs.length, rest⟩ groups = .some found) :
    (many .fewer accepts).first? goOn ⟨before, offset, cs ++ rest⟩ groups = .some found := by
  induction cs generalizing before offset with
  | nil =>
    cases rest with
    | nil => exact h
    | cons c rest =>
      have hhere : goOn ⟨before, offset, c :: rest⟩ groups = .some found := h
      rw [List.nil_append, first?_fewer_cons, hhere, Option.some_or]
  | cons c cs ih =>
    obtain ⟨hc, hcs⟩ := List.forall_mem_cons.mp hcs
    have hhere : goOn ⟨before, offset, c :: (cs ++ rest)⟩ groups = none := hearly [] c cs rfl
    rw [List.cons_append, first?_fewer_cons, hhere, if_pos hc, Option.none_or]
    refine ih hcs (fun taken d left htaken => ?_) ?_
    · have := hearly (c :: taken) d left (by rw [List.cons_append, htaken])
      simpa [Nat.add_assoc, Nat.add_comm 1] using this
    · simpa [Nat.add_assoc, Nat.add_comm 1] using h

/-- What is found behind a lazy repetition is found at the first place from where something is found. -/
theorem exists_of_first?_fewer {accepts : Char → Bool} {cs : List Char} {found : α}
    (h : (many .fewer accepts).first? goOn ⟨before, offset, cs⟩ groups = .some found) :
    ∃ taken rest, cs = taken ++ rest ∧ (∀ c ∈ taken, accepts c = true) ∧
      goOn ⟨lastChar before taken, offset + taken.length, rest⟩ groups = .some found ∧
      ∀ front c left, front ++ c :: left = taken →
        goOn ⟨lastChar before front, offset + front.length, c :: left ++ rest⟩ groups = none := by
  induction cs generalizing before offset with
  | nil => exact ⟨[], [], rfl, by simp, h, by simp⟩
  | cons c cs ih =>
    rw [first?_fewer_cons, Option.or_eq_some_iff] at h
    rcases h with hhere | ⟨hnone, hlater⟩
    · exact ⟨[], c :: cs, rfl, by simp, hhere, by simp⟩
    · obtain ⟨hc, hlater⟩ := Option.ite_none_right_eq_some.mp hlater
      obtain ⟨taken, rest, rfl, htaken, hfound, hearly⟩ := ih hlater
      refine ⟨c :: taken, rest, rfl, List.forall_mem_cons.mpr ⟨hc, htaken⟩, ?_, fun front d left hsplit => ?_⟩
      · simpa [Nat.add_assoc, Nat.add_comm 1] using hfound
      · cases front with
        | nil =>
          obtain ⟨rfl, rfl⟩ := List.cons.inj hsplit
          exact hnone
        | cons e front =>
          obtain ⟨rfl, rfl⟩ := List.cons.inj hsplit
          simpa [Nat.add_assoc, Nat.add_comm 1] using hearly front d left rfl

/-- What is found is found by going on from some place. -/
theorem exists_of_first? {pattern : Pattern} {here : Place} {found : α}
    (h : pattern.first? goOn here groups = .some found) :
    ∃ stop known, goOn stop known = .some found := by
  induction pattern generalizing goOn here groups with
  | char accepts =>
    obtain ⟨before, offset, cs⟩ := here
    cases cs with
    | nil => cases h
    | cons c cs =>
      cases hc : accepts c with
      | true => exact ⟨_, _, first?_char hc cs ▸ h⟩
      | false => rw [first?_char_cons_eq_none hc] at h; cases h
  | many prefer accepts =>
    obtain ⟨before, offset, cs⟩ := here
    induction cs generalizing before offset with
    | nil =>
      rw [first?_many_of_head? prefer (show ([] : List Char).head?.any accepts = false from rfl)] at h
      exact ⟨_, _, h⟩
    | cons c cs ih =>
      have hcases : (∃ stop known, goOn stop known = .some found) ∨
          (many prefer accepts).first? goOn ⟨.some c, offset + 1, cs⟩ groups = .some found := by
        cases prefer with
        | more =>
          rw [first?_more_cons, Option.or_eq_some_iff] at h
          rcases h with hlater | ⟨-, hhere⟩
          · exact Or.inr (Option.ite_none_right_eq_some.mp hlater).2
          · exact Or.inl ⟨_, _, hhere⟩
        | fewer =>
          rw [first?_fewer_cons, Option.or_eq_some_iff] at h
          rcases h with hhere | ⟨-, hlater⟩
          · exact Or.inl ⟨_, _, hhere⟩
          · exact Or.inr (Option.ite_none_right_eq_some.mp hlater).2
      exact hcases.elim id fun hlater => ih _ _ hlater
  | place holds =>
    cases hholds : holds here with
    | true => exact ⟨_, _, first?_place hholds ▸ h⟩
    | false => rw [first?_place_eq_none hholds] at h; cases h
  | nothing => exact ⟨_, _, h⟩
  | seq first second ihFirst ihSecond =>
    obtain ⟨stop, known, hsecond⟩ := ihFirst h
    exact ihSecond hsecond
  | either left right ihLeft ihRight =>
    rw [first?_either, Option.or_eq_some_iff] at h
    rcases h with hleft | ⟨-, hright⟩
    · exact ihLeft hleft
    · exact ihRight hright
  | capture group inner ih =>
    obtain ⟨stop, known, hfound⟩ := ih h
    exact ⟨_, _, hfound⟩

/-- If nothing is found by going on then nothing is found. -/
theorem first?_none (pattern : Pattern) (here : Place) (groups : Groups) :
    pattern.first? (fun _ _ => (none : Option α)) here groups = none := by
  refine Option.eq_none_iff_forall_ne_some.mpr fun found h => ?_
  obtain ⟨_, _, hnone⟩ := exists_of_first? h
  cases hnone

/-! ## What a pattern may take -/

/-- Whether a pattern may take a text, what it asks of places left aside. -/
def Fits : Pattern → List Char → Prop
  | char accepts, cs => ∃ c, accepts c = true ∧ cs = [c]
  | many _ accepts, cs => ∀ c ∈ cs, accepts c = true
  | place _, cs => cs = []
  | nothing, cs => cs = []
  | seq first second, cs => ∃ front rest, cs = front ++ rest ∧ first.Fits front ∧ second.Fits rest
  | either left right, cs => left.Fits cs ∨ right.Fits cs
  | capture _ inner, cs => inner.Fits cs

theorem fits_all_cons {part : Pattern} {parts : List Pattern} {cs : List Char} :
    (all (part :: parts)).Fits cs ↔
      ∃ front rest, cs = front ++ rest ∧ part.Fits front ∧ (all parts).Fits rest := Iff.rfl

theorem fits_all_append {parts more : List Pattern} {cs : List Char} :
    (all (parts ++ more)).Fits cs ↔
      ∃ front rest, cs = front ++ rest ∧ (all parts).Fits front ∧ (all more).Fits rest := by
  induction parts generalizing cs with
  | nil =>
    constructor
    · exact fun h => ⟨[], cs, rfl, rfl, h⟩
    · rintro ⟨_, rest, rfl, rfl, h⟩
      exact h
  | cons part parts ih =>
    rw [List.cons_append, fits_all_cons]
    constructor
    · rintro ⟨taken, _, rfl, hpart, h⟩
      obtain ⟨front, rest, rfl, hfront, hrest⟩ := ih.mp h
      exact ⟨taken ++ front, rest, (List.append_assoc ..).symm, ⟨taken, front, rfl, hpart, hfront⟩, hrest⟩
    · rintro ⟨_, rest, rfl, ⟨taken, front, rfl, hpart, hfront⟩, hrest⟩
      exact ⟨taken, front ++ rest, List.append_assoc .., hpart, ih.mpr ⟨front, rest, rfl, hfront, hrest⟩⟩

theorem fits_text {s : String} {cs : List Char} : (text s).Fits cs ↔ cs = s.toList := by
  unfold text
  induction s.toList generalizing cs with
  | nil => exact Iff.rfl
  | cons c rest ih =>
    rw [List.map_cons, fits_all_cons]
    constructor
    · rintro ⟨_, tail, rfl, ⟨d, hd, rfl⟩, htail⟩
      rw [ih.mp htail, beq_iff_eq.mp hd]
      rfl
    · rintro rfl
      exact ⟨[c], rest, rfl, ⟨c, beq_self_eq_true c, rfl⟩, ih.mpr rfl⟩

theorem fits_some {prefer : Preference} {accepts : Char → Bool} {cs : List Char} :
    (some prefer accepts).Fits cs ↔ cs ≠ [] ∧ ∀ c ∈ cs, accepts c = true := by
  constructor
  · rintro ⟨_, rest, rfl, ⟨c, hc, rfl⟩, hrest⟩
    exact ⟨List.cons_ne_nil c rest, List.forall_mem_cons.mpr ⟨hc, hrest⟩⟩
  · rintro ⟨hne, hcs⟩
    obtain ⟨c, rest, rfl⟩ := List.exists_cons_of_ne_nil hne
    obtain ⟨hc, hrest⟩ := List.forall_mem_cons.mp hcs
    exact ⟨[c], rest, rfl, ⟨c, hc, rfl⟩, hrest⟩

theorem first?_many_congr {prefer : Preference} {accepts : Char → Bool} {goOn' : Place → Groups → Option α}
    {cs : List Char} (h : ∀ taken left, taken ++ left = cs → (∀ c ∈ taken, accepts c = true) →
      goOn ⟨lastChar before taken, offset + taken.length, left⟩ groups
        = goOn' ⟨lastChar before taken, offset + taken.length, left⟩ groups) :
    (many prefer accepts).first? goOn ⟨before, offset, cs⟩ groups
      = (many prefer accepts).first? goOn' ⟨before, offset, cs⟩ groups := by
  induction cs generalizing before offset with
  | nil =>
    have hnone : ([] : List Char).head?.any accepts = false := rfl
    rw [first?_many_of_head? prefer hnone, first?_many_of_head? prefer hnone]
    exact h [] [] rfl (by simp)
  | cons c cs ih =>
    have hhere : goOn ⟨before, offset, c :: cs⟩ groups = goOn' ⟨before, offset, c :: cs⟩ groups :=
      h [] (c :: cs) rfl (by simp)
    have hlater : (if accepts c then
          (many prefer accepts).first? goOn ⟨.some c, offset + 1, cs⟩ groups else none)
        = if accepts c then
          (many prefer accepts).first? goOn' ⟨.some c, offset + 1, cs⟩ groups else none := by
      cases hc : accepts c with
      | false => rfl
      | true =>
        refine ih fun taken left hcs htaken => ?_
        have := h (c :: taken) left (by rw [List.cons_append, hcs])
          (List.forall_mem_cons.mpr ⟨hc, htaken⟩)
        simpa [Nat.add_assoc, Nat.add_comm 1] using this
    cases prefer with
    | more => rw [first?_more_cons, first?_more_cons, hlater, hhere]
    | fewer => rw [first?_fewer_cons, first?_fewer_cons, hlater, hhere]

/-- Where two ways of going on lead to the same behind every text that a pattern may take, they lead to
the same in front of the pattern. -/
theorem first?_congr {pattern : Pattern} {goOn' : Place → Groups → Option α} {cs : List Char}
    (h : ∀ taken left, taken ++ left = cs → pattern.Fits taken → ∀ groups,
      goOn ⟨lastChar before taken, offset + taken.length, left⟩ groups
        = goOn' ⟨lastChar before taken, offset + taken.length, left⟩ groups) :
    pattern.first? goOn ⟨before, offset, cs⟩ groups
      = pattern.first? goOn' ⟨before, offset, cs⟩ groups := by
  induction pattern generalizing goOn goOn' before offset cs groups with
  | char accepts =>
    cases cs with
    | nil => rfl
    | cons c cs =>
      cases hc : accepts c with
      | true => rw [first?_char hc, first?_char hc]; exact h [c] cs rfl ⟨c, hc, rfl⟩ groups
      | false => rw [first?_char_cons_eq_none hc, first?_char_cons_eq_none hc]
  | many prefer accepts => exact first?_many_congr fun taken left hcs htaken => h taken left hcs htaken groups
  | place holds =>
    have hhere := h [] cs rfl rfl groups
    cases hholds : holds ⟨before, offset, cs⟩ with
    | true => rw [first?_place hholds, first?_place hholds]; exact hhere
    | false => rw [first?_place_eq_none hholds, first?_place_eq_none hholds]
  | nothing => exact h [] cs rfl rfl groups
  | seq first second ihFirst ihSecond =>
    refine ihFirst fun taken left hcs htaken groups => ihSecond fun taken' left' hleft htaken' groups => ?_
    have := h (taken ++ taken') left' (by rw [List.append_assoc, hleft, hcs])
      ⟨taken, taken', rfl, htaken, htaken'⟩ groups
    simpa [Nat.add_assoc] using this
  | either left right ihLeft ihRight =>
    rw [first?_either, first?_either, ihLeft fun taken rest hcs htaken => h taken rest hcs (.inl htaken),
      ihRight fun taken rest hcs htaken => h taken rest hcs (.inr htaken)]
  | capture group inner ih =>
    exact ih fun taken left hcs htaken groups => h taken left hcs htaken _

/-- Where nothing is found behind any text that a pattern may take, nothing is found in front of it. -/
theorem first?_eq_none {pattern : Pattern} {cs : List Char}
    (h : ∀ taken left, taken ++ left = cs → pattern.Fits taken → ∀ groups,
      goOn ⟨lastChar before taken, offset + taken.length, left⟩ groups = none) :
    pattern.first? goOn ⟨before, offset, cs⟩ groups = none :=
  (first?_congr h).trans (first?_none pattern _ groups)

/-- What is found has a property if what is found behind every text that a pattern may take has it. -/
theorem of_first? {pattern : Pattern} {cs : List Char} {p : α → Prop}
    (h : ∀ taken left, taken ++ left = cs → pattern.Fits taken → ∀ groups found,
      goOn ⟨lastChar before taken, offset + taken.length, left⟩ groups = .some found → p found)
    {found : α} (hfound : pattern.first? goOn ⟨before, offset, cs⟩ groups = .some found) : p found := by
  classical
  have hsame : pattern.first? goOn ⟨before, offset, cs⟩ groups
      = pattern.first? (fun there known => (goOn there known).filter (p ·)) ⟨before, offset, cs⟩ groups := by
    refine first?_congr fun taken left hcs htaken groups => ?_
    cases hgoOn : goOn ⟨lastChar before taken, offset + taken.length, left⟩ groups with
    | none => rfl
    | some found => simp [Option.filter, h taken left hcs htaken groups found hgoOn]
  obtain ⟨stop, known, hkept⟩ := exists_of_first? (hsame ▸ hfound)
  exact of_decide_eq_true (Option.filter_eq_some_iff.mp hkept).2

/-! ## What a pattern does not see -/

/-- Whether a pattern takes none of certain characters, and asks of a place only for the character in front
of it and for whether a word goes on behind it. -/
def Avoids (bad : Char → Bool) : Pattern → Prop
  | char accepts => ∀ c, bad c = true → accepts c = false
  | many _ accepts => ∀ c, bad c = true → accepts c = false
  | place holds => ∀ here there : Place, here.before = there.before →
      here.nextIs isWordChar = there.nextIs isWordChar → holds here = holds there
  | nothing => True
  | seq first second => first.Avoids bad ∧ second.Avoids bad
  | either left right => left.Avoids bad ∧ right.Avoids bad
  | capture _ inner => inner.Avoids bad

theorem avoids_all {bad : Char → Bool} {parts : List Pattern} (h : ∀ part ∈ parts, part.Avoids bad) :
    (all parts).Avoids bad := by
  induction parts with
  | nil => trivial
  | cons part parts ih =>
    obtain ⟨hpart, hparts⟩ := List.forall_mem_cons.mp h
    exact ⟨hpart, ih hparts⟩

theorem Avoids.append {bad : Char → Bool} {parts more : List Pattern} (h : (all parts).Avoids bad)
    (hmore : (all more).Avoids bad) : (all (parts ++ more)).Avoids bad := by
  induction parts with
  | nil => exact hmore
  | cons part parts ih => exact ⟨h.1, ih h.2⟩

/-- A pattern that avoids characters takes no text with one of them. -/
theorem Fits.of_avoids {bad : Char → Bool} {pattern : Pattern} {cs : List Char} (h : pattern.Fits cs)
    (havoids : pattern.Avoids bad) : ∀ c ∈ cs, bad c = false := by
  have hgood : ∀ {accepts : Char → Bool} {c : Char}, (∀ c, bad c = true → accepts c = false) →
      accepts c = true → bad c = false := by
    intro accepts c hbad hc
    cases h : bad c with
    | false => rfl
    | true => exact absurd ((hbad c h).symm.trans hc) Bool.false_ne_true
  induction pattern generalizing cs with
  | char accepts =>
    obtain ⟨c, hc, rfl⟩ := h
    exact List.forall_mem_singleton.mpr (hgood havoids hc)
  | many prefer accepts => exact fun c hc => hgood havoids (h c hc)
  | place holds => exact fun c hc => absurd (h ▸ hc) List.not_mem_nil
  | nothing => exact fun c hc => absurd (h ▸ hc) List.not_mem_nil
  | seq first second ihFirst ihSecond =>
    obtain ⟨front, rest, rfl, hfront, hrest⟩ := h
    exact List.forall_mem_append.mpr ⟨ihFirst hfront havoids.1, ihSecond hrest havoids.2⟩
  | either left right ihLeft ihRight =>
    rcases h with h | h
    · exact ihLeft h havoids.1
    · exact ihRight h havoids.2
  | capture group inner ih => exact ih h havoids

theorem avoids_text {bad : Char → Bool} {s : String} (h : s.toList.all (fun c => !bad c) = true) :
    (text s).Avoids bad := by
  refine avoids_all fun part hpart => ?_
  obtain ⟨c, hc, rfl⟩ := List.mem_map.mp hpart
  intro d hd
  have hgood := List.all_eq_true.mp h c hc
  cases hdc : d == c with
  | false => exact hdc
  | true => simp [beq_iff_eq.mp hdc ▸ hd] at hgood

theorem Avoids.mono {bad bad' : Char → Bool} {pattern : Pattern} (h : pattern.Avoids bad)
    (hbad : ∀ c, bad' c = true → bad c = true) : pattern.Avoids bad' := by
  induction pattern with
  | char accepts => exact fun c hc => h c (hbad c hc)
  | many prefer accepts => exact fun c hc => h c (hbad c hc)
  | place holds => exact h
  | nothing => trivial
  | seq first second ihFirst ihSecond => exact ⟨ihFirst h.1, ihSecond h.2⟩
  | either left right ihLeft ihRight => exact ⟨ihLeft h.1, ihRight h.2⟩
  | capture group inner ih => exact ih h

theorem avoids_boundary (bad : Char → Bool) : boundary.Avoids bad := by
  intro here there hbefore hnext
  simp only [Place.nextIs] at hnext
  simp only [Place.isBoundary, hbefore, hnext]

theorem rel_or {r : α → β → Prop} {x y : Option α} {x' y' : Option β} (hx : Option.Rel r x x')
    (hy : Option.Rel r y y') : Option.Rel r (x.or y) (x'.or y') := by
  cases hx with
  | none => simpa using hy
  | some h => exact .some h

/-- What is remembered: the numbers of the groups with their texts. -/
def remembered (groups : Groups) : List (Nat × List Char) :=
  groups.map fun known => (known.1, known.2.1.textUpTo known.2.2)

theorem group?_eq (found : Found) (number : Nat) :
    found.group? number = ((remembered found.groups).find? (·.1 == number)).map (·.2) := by
  rw [Found.group?, remembered, List.find?_map, Option.map_map]
  rfl

theorem any_head?_of_all {bad accepts : Char → Bool} {rest : List Char} (hrest : rest.head?.all bad = true)
    (haccepts : ∀ c, bad c = true → accepts c = false) : rest.head?.any accepts = false := by
  cases rest with
  | nil => rfl
  | cons c rest => exact haccepts c hrest

section Alike

variable {bad : Char → Bool} {rest rest' : List Char} {offset' : Nat} {groups' : Groups}
  {r : α → β → Prop} {cs : List Char} {goOn' : Place → Groups → Option β}

theorem rel_first?_char {accepts : Char → Bool} (haccepts : ∀ c, bad c = true → accepts c = false)
    (hrest : rest.head?.all bad = true) (hrest' : rest'.head?.all bad = true)
    (h : ∀ c left, c :: left = cs → accepts c = true →
      Option.Rel r (goOn ⟨.some c, offset + 1, left ++ rest⟩ groups)
        (goOn' ⟨.some c, offset' + 1, left ++ rest'⟩ groups')) :
    Option.Rel r ((char accepts).first? goOn ⟨before, offset, cs ++ rest⟩ groups)
      ((char accepts).first? goOn' ⟨before, offset', cs ++ rest'⟩ groups') := by
  cases cs with
  | nil =>
    rw [List.nil_append, List.nil_append, first?_char_eq_none (any_head?_of_all hrest haccepts),
      first?_char_eq_none (any_head?_of_all hrest' haccepts)]
    exact .none
  | cons c cs =>
    cases hc : accepts c with
    | true =>
      rw [List.cons_append, List.cons_append, first?_char hc, first?_char hc]
      exact h c cs rfl hc
    | false =>
      rw [List.cons_append, List.cons_append, first?_char_cons_eq_none hc, first?_char_cons_eq_none hc]
      exact .none

theorem rel_first?_many {prefer : Preference} {accepts : Char → Bool}
    (haccepts : ∀ c, bad c = true → accepts c = false) (hrest : rest.head?.all bad = true)
    (hrest' : rest'.head?.all bad = true)
    (h : ∀ taken left, taken ++ left = cs → (∀ c ∈ taken, accepts c = true) →
      Option.Rel r (goOn ⟨lastChar before taken, offset + taken.length, left ++ rest⟩ groups)
        (goOn' ⟨lastChar before taken, offset' + taken.length, left ++ rest'⟩ groups')) :
    Option.Rel r ((many prefer accepts).first? goOn ⟨before, offset, cs ++ rest⟩ groups)
      ((many prefer accepts).first? goOn' ⟨before, offset', cs ++ rest'⟩ groups') := by
  induction cs generalizing before offset offset' with
  | nil =>
    rw [List.nil_append, List.nil_append, first?_many_of_head? prefer (any_head?_of_all hrest haccepts),
      first?_many_of_head? prefer (any_head?_of_all hrest' haccepts)]
    exact h [] [] rfl (by simp)
  | cons c cs ih =>
    have hhere := h [] (c :: cs) rfl (by simp)
    have hlater : Option.Rel r
        (if accepts c then (many prefer accepts).first? goOn
          ⟨.some c, offset + 1, cs ++ rest⟩ groups else none)
        (if accepts c then (many prefer accepts).first? goOn'
          ⟨.some c, offset' + 1, cs ++ rest'⟩ groups' else none) := by
      cases hc : accepts c with
      | false => exact .none
      | true =>
        refine ih fun taken left hcs htaken => ?_
        have := h (c :: taken) left (by rw [List.cons_append, hcs])
          (List.forall_mem_cons.mpr ⟨hc, htaken⟩)
        simpa [Nat.add_assoc, Nat.add_comm 1] using this
    rw [List.cons_append, List.cons_append]
    cases prefer with
    | more =>
      rw [first?_more_cons, first?_more_cons]
      exact rel_or hlater hhere
    | fewer =>
      rw [first?_fewer_cons, first?_fewer_cons]
      exact rel_or hhere hlater

theorem rel_first?_place {holds : Place → Bool}
    (hsame : holds ⟨before, offset, cs ++ rest⟩ = holds ⟨before, offset', cs ++ rest'⟩)
    (h : Option.Rel r (goOn ⟨before, offset, cs ++ rest⟩ groups)
      (goOn' ⟨before, offset', cs ++ rest'⟩ groups')) :
    Option.Rel r ((place holds).first? goOn ⟨before, offset, cs ++ rest⟩ groups)
      ((place holds).first? goOn' ⟨before, offset', cs ++ rest'⟩ groups') := by
  cases hholds : holds ⟨before, offset, cs ++ rest⟩ with
  | true => rwa [first?_place hholds, first?_place (hsame ▸ hholds)]
  | false =>
    rw [first?_place_eq_none hholds, first?_place_eq_none (hsame ▸ hholds)]
    exact .none

/-- A pattern that avoids characters leads to the same within a text whatever follows it, if what follows
starts with one of these characters. -/
theorem rel_first? {pattern : Pattern} (havoids : pattern.Avoids bad) (hrest : rest.head?.all bad = true)
    (hrest' : rest'.head?.all bad = true)
    (hword : rest.head?.any isWordChar = rest'.head?.any isWordChar)
    (h : ∀ taken left, taken ++ left = cs → pattern.Fits taken → ∀ groups groups',
      remembered groups = remembered groups' →
      Option.Rel r (goOn ⟨lastChar before taken, offset + taken.length, left ++ rest⟩ groups)
        (goOn' ⟨lastChar before taken, offset' + taken.length, left ++ rest'⟩ groups'))
    (hgroups : remembered groups = remembered groups') :
    Option.Rel r (pattern.first? goOn ⟨before, offset, cs ++ rest⟩ groups)
      (pattern.first? goOn' ⟨before, offset', cs ++ rest'⟩ groups') := by
  induction pattern generalizing goOn goOn' before offset offset' cs groups groups' with
  | char accepts =>
    exact rel_first?_char havoids hrest hrest' fun c left hcs hc => h [c] left hcs ⟨c, hc, rfl⟩ _ _ hgroups
  | many prefer accepts =>
    exact rel_first?_many havoids hrest hrest' fun taken left hcs htaken => h taken left hcs htaken _ _ hgroups
  | place holds =>
    refine rel_first?_place (havoids _ _ rfl ?_) (h [] cs rfl rfl groups groups' hgroups)
    cases cs with
    | nil => exact hword
    | cons c cs => rfl
  | nothing => exact h [] cs rfl rfl groups groups' hgroups
  | seq first second ihFirst ihSecond =>
    refine ihFirst havoids.1 (fun taken left hcs htaken groups groups' hgroups => ?_) hgroups
    refine ihSecond havoids.2 (fun taken' left' hleft htaken' groups groups' hgroups => ?_) hgroups
    have := h (taken ++ taken') left' (by rw [List.append_assoc, hleft, hcs])
      ⟨taken, taken', rfl, htaken, htaken'⟩ groups groups' hgroups
    simpa [Nat.add_assoc] using this
  | either left right ihLeft ihRight =>
    rw [first?_either, first?_either]
    refine rel_or (ihLeft havoids.1 (fun taken rest hcs htaken => ?_) hgroups)
      (ihRight havoids.2 (fun taken rest hcs htaken => ?_) hgroups)
    · exact h taken rest hcs (.inl htaken)
    · exact h taken rest hcs (.inr htaken)
  | capture group inner ih =>
    refine ih havoids (fun taken left hcs htaken groups groups' hgroups => ?_) hgroups
    refine h taken left hcs htaken _ _ ?_
    have htext : ∀ (before' : Option Char) (offset : Nat) (rest : List Char),
        Place.textUpTo ⟨before, offset, cs ++ rest⟩ ⟨before', offset + taken.length, left ++ rest⟩ = taken := by
      intro before' offset rest
      rw [← hcs, List.append_assoc, Place.textUpTo_append]
    simp only [remembered, List.map_cons, htext] at hgroups ⊢
    rw [hgroups]

end Alike

end Pattern

end ScopedCheck.Text
