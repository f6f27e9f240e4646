import ScopedCheck.Text.Search
/-! # What searches find

A search tries only the places that one pass over the text has found to lead to a match. The main
statements say that no match is lost by this: `findAll_eq` for all matches, `occursIn_eq_any` for
whether there is one. -/

namespace ScopedCheck.Text

namespace Pattern

theorem placesAlong_append (accepts : Char → Bool) (known : List Place) (before : Option Char)
    (offset : Nat) (cs : List Char) :
    placesAlong accepts known before offset cs
      = placesAlong accepts [] before offset cs ++ known := by
  induction cs generalizing known before offset with
  | nil => rfl
  | cons c cs ih =>
    simp only [placesAlong]
    split
    · rw [ih, ih [_]]; simp
    · rfl

end Pattern

theorem Place.onward_nil (before : Option Char) (offset : Nat) :
    Place.onward ⟨before, offset, []⟩ = [⟨before, offset, []⟩] := rfl

theorem Place.onward_cons (before : Option Char) (offset : Nat) (c : Char) (cs : List Char) :
    Place.onward ⟨before, offset, c :: cs⟩
      = ⟨before, offset, c :: cs⟩ :: Place.onward ⟨some c, offset + 1, cs⟩ := by
  simp only [Place.onward, Pattern.placesAlong, if_true]
  rw [Pattern.placesAlong_append]
  simp

theorem Place.head_onward (here : Place) : ∃ later, here.onward = here :: later := by
  obtain ⟨before, offset, cs⟩ := here
  cases cs with
  | nil => exact ⟨[], rfl⟩
  | cons c cs => exact ⟨_, Place.onward_cons before offset c cs⟩

namespace Pattern

theorem isSome_fewest? {α β : Type} (accepts : Char → Bool) {goOn : Place → Option α}
    {goOn' : Place → Option β} (h : ∀ stop, (goOn stop).isSome = (goOn' stop).isSome)
    (before : Option Char) (offset : Nat) (cs : List Char) :
    (fewest? accepts goOn before offset cs).isSome
      = (fewest? accepts goOn' before offset cs).isSome := by
  induction cs generalizing before offset with
  | nil => exact h _
  | cons c cs ih =>
    have hc := h ⟨before, offset, c :: cs⟩
    simp only [fewest?]
    cases h₁ : goOn ⟨before, offset, c :: cs⟩ <;> cases h₂ : goOn' ⟨before, offset, c :: cs⟩
    · by_cases hac : accepts c <;> simp [hac, ih]
    all_goals simp_all

/-- Whether a pattern leads to any result depends neither on what is remembered nor on what the
results are. -/
theorem isSome_first? {α β : Type} (pattern : Pattern) {goOn : Place → Groups → Option α}
    {goOn' : Place → Groups → Option β}
    (h : ∀ stop groups groups', (goOn stop groups).isSome = (goOn' stop groups').isSome)
    (here : Place) (groups groups' : Groups) :
    (pattern.first? goOn here groups).isSome = (pattern.first? goOn' here groups').isSome := by
  induction pattern generalizing α β goOn goOn' here groups groups' with
  | char accepts =>
    simp only [first?]
    cases here.next? with
    | none => rfl
    | some next => by_cases hc : accepts next.1 <;> simp [hc, h _ groups groups']
  | many prefer accepts =>
    cases prefer with
    | fewer => simp only [first?]; exact isSome_fewest? accepts (fun stop => h stop _ _) ..
    | more =>
      simp only [first?, most?]
      rw [Bool.eq_iff_iff]
      simp [List.findSome?_isSome_iff, h _ groups groups']
  | place holds => simp only [first?]; split <;> simp [h _ groups groups']
  | nothing => exact h ..
  | seq first second ihFirst ihSecond =>
    simp only [first?]
    exact ihFirst (fun stop g g' => ihSecond h stop g g') ..
  | either left right ihLeft ihRight =>
    have hl := ihLeft h here groups groups'
    have hr := ihRight h here groups groups'
    simp only [first?]
    cases h₁ : left.first? goOn here groups <;>
      cases h₂ : left.first? goOn' here groups' <;> simp_all
  | capture group inner ih =>
    simp only [first?]
    exact ih (fun stop g g' => h stop ((group, here, stop) :: g) ((group, here, stop) :: g')) ..

private theorem isSome_if (isWanted : Bool) :
    (if isWanted then Option.some () else none).isSome = isWanted := by
  cases isWanted <;> rfl

/-- Whether a pattern leads from a place to a wanted one. -/
def reaches (pattern : Pattern) (isWanted : Place → Bool) (here : Place) : Bool :=
  (pattern.first? (fun stop _ => if isWanted stop then Option.some () else none) here []).isSome

theorem isSome_first?_eq_reaches {α : Type} (pattern : Pattern)
    (goOn : Place → Groups → Option α) (isWanted : Place → Bool)
    (h : ∀ stop groups, (goOn stop groups).isSome = isWanted stop) (here : Place)
    (groups : Groups) :
    (pattern.first? goOn here groups).isSome = pattern.reaches isWanted here :=
  isSome_first? pattern (fun stop g _ => by rw [h, isSome_if]) here groups []

theorem reaches_seq (first second : Pattern) (isWanted : Place → Bool) :
    (seq first second).reaches isWanted = first.reaches (second.reaches isWanted) := by
  funext here
  refine isSome_first?_eq_reaches first _ _ (fun stop groups => ?_) here []
  exact isSome_first?_eq_reaches second _ _ (fun there _ => isSome_if (isWanted there)) ..

theorem reaches_either (left right : Pattern) (isWanted : Place → Bool) (here : Place) :
    (either left right).reaches isWanted here
      = (left.reaches isWanted here || right.reaches isWanted here) := by
  simp only [reaches, first?]
  cases left.first? (fun stop _ => if isWanted stop then Option.some () else none) here [] <;> rfl

theorem reaches_capture (group : Nat) (inner : Pattern) (isWanted : Place → Bool) :
    (capture group inner).reaches isWanted = inner.reaches isWanted := by
  funext here
  exact isSome_first?_eq_reaches inner _ _ (fun stop _ => isSome_if (isWanted stop)) ..

theorem reaches_many_nil (prefer : Preference) (accepts : Char → Bool) (isWanted : Place → Bool)
    (before : Option Char) (offset : Nat) :
    (many prefer accepts).reaches isWanted ⟨before, offset, []⟩
      = isWanted ⟨before, offset, []⟩ := by
  cases prefer <;> cases h : isWanted ⟨before, offset, []⟩ <;>
    simp [reaches, first?, most?, fewest?, placesAlong, h]

theorem reaches_many_cons (prefer : Preference) (accepts : Char → Bool)
    (isWanted : Place → Bool) (before : Option Char) (offset : Nat) (c : Char) (cs : List Char) :
    (many prefer accepts).reaches isWanted ⟨before, offset, c :: cs⟩
      = (isWanted ⟨before, offset, c :: cs⟩
        || (accepts c && (many prefer accepts).reaches isWanted ⟨.some c, offset + 1, cs⟩)) := by
  cases prefer with
  | fewer =>
    simp only [reaches, first?, fewest?]
    cases isWanted ⟨before, offset, c :: cs⟩ <;> cases accepts c <;> simp
  | more =>
    simp only [reaches, first?, most?, placesAlong]
    by_cases h : accepts c
    · rw [if_pos h, placesAlong_append, List.findSome?_append]
      cases hw : isWanted ⟨before, offset, c :: cs⟩ <;> simp [h, hw]
    · rw [if_neg h]
      cases hw : isWanted ⟨before, offset, c :: cs⟩ <;> simp [h, hw]

/-- The pass over a text marks the places from which a pattern leads to a wanted one. -/
theorem leads_onward (pattern : Pattern) (isWanted : Place → Bool) (here : Place) :
    pattern.leads here.onward (here.onward.map isWanted)
      = here.onward.map (pattern.reaches isWanted) := by
  induction pattern generalizing isWanted with
  | char accepts =>
    obtain ⟨before, offset, cs⟩ := here
    induction cs generalizing before offset with
    | nil => rfl
    | cons c cs ih =>
      have ih := ih (.some c) (offset + 1)
      obtain ⟨later, hl⟩ := Place.head_onward ⟨.some c, offset + 1, cs⟩
      simp only [leads, Place.onward_cons, hl, List.map_cons, List.drop_succ_cons, List.drop_zero,
        List.cons_append, List.zipWith_cons_cons] at ih ⊢
      rw [ih]
      cases hc : accepts c <;> cases hw : isWanted ⟨.some c, offset + 1, cs⟩ <;>
        simp [reaches, first?, Place.next?, Place.nextIs, hc, hw]
  | many prefer accepts =>
    obtain ⟨before, offset, cs⟩ := here
    induction cs generalizing before offset with
    | nil => simp [leads, Place.onward_nil, reaches_many_nil, Place.nextIs]
    | cons c cs ih =>
      have ih := ih (.some c) (offset + 1)
      simp only [leads] at ih ⊢
      rw [Place.onward_cons]
      simp only [List.map_cons, List.zip_cons_cons, List.foldr_cons, ih, reaches_many_cons]
      obtain ⟨later, hl⟩ := Place.head_onward ⟨.some c, offset + 1, cs⟩
      simp [hl, Place.nextIs]
  | place holds =>
    simp only [leads, List.zipWith_map_right, List.zipWith_self]
    refine List.map_congr_left fun here _ => ?_
    simp only [reaches, first?]
    cases holds here <;> cases isWanted here <;> simp
  | nothing => 
    simp only [leads]
    exact List.map_congr_left fun here _ => (isSome_if (isWanted here)).symm
  | seq first second ihFirst ihSecond => simp only [leads, ihSecond, ihFirst, reaches_seq]
  | either left right ihLeft ihRight =>
    simp only [leads, ihLeft, ihRight, List.zipWith_map_left, List.zipWith_map_right,
      List.zipWith_self]
    exact List.map_congr_left fun here _ => (reaches_either left right isWanted here).symm
  | capture group inner ih => simp only [leads, ih, reaches_capture]

theorem isSome_matchAt? (pattern : Pattern) (here : Place) :
    (pattern.matchAt? here).isSome = pattern.reaches (fun _ => true) here :=
  isSome_first?_eq_reaches pattern (fun stop groups => Option.some (⟨here, stop, groups⟩ : Found))
    (fun _ => true) (fun _ _ => rfl) here []

/-- The places at which there is a match are those at which one is found. -/
theorem startsIn_eq_filter (pattern : Pattern) (cs : List Char) :
    pattern.startsIn cs
      = (Place.start cs).onward.filter fun here => (pattern.matchAt? here).isSome := by
  simp only [startsIn, leads_onward, isSome_matchAt?]
  generalize (Place.start cs).onward = places
  induction places with
  | nil => rfl
  | cons here later ih =>
    cases h : pattern.reaches (fun _ => true) here <;> simp_all

/-- Places without a match may be left out of a search. -/
theorem findAmong_filter (pattern : Pattern) (keeps : Place → Bool)
    (h : ∀ here, keeps here = false → pattern.matchAt? here = none) (stop : Nat)
    (places : List Place) :
    pattern.findAmong stop (places.filter keeps) = pattern.findAmong stop places := by
  induction places generalizing stop with
  | nil => rfl
  | cons here later ih =>
    cases hk : keeps here with
    | true => simp only [List.filter_cons, hk, if_true, findAmong, ih]
    | false => simp [hk, findAmong, ih, h here hk]

/-- What is found is what is found by trying every place. -/
theorem findAll_eq (pattern : Pattern) (cs : List Char) :
    pattern.findAll cs = pattern.findAmong 0 (Place.start cs).onward := by
  rw [findAll, startsIn_eq_filter]
  exact findAmong_filter pattern _ (fun here h => by simpa using h) 0 _

/-- A pattern occurs where a match is found somewhere. -/
theorem occursIn_eq_any (pattern : Pattern) (cs : List Char) :
    pattern.occursIn cs
      = (Place.start cs).onward.any fun here => (pattern.matchAt? here).isSome := by
  rw [occursIn, startsIn_eq_filter]
  generalize (Place.start cs).onward = places
  induction places with
  | nil => rfl
  | cons here later ih => cases h : (pattern.matchAt? here).isSome <;> simp_all

end Pattern

end ScopedCheck.Text
