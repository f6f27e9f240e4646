import ScopedCheck.Json.Decoder
import ScopedCheck.Proofs.Json.ValueText
/-! # What decoders give

Whatever a decoder gives is made of the lexemes that it took, and the whole numbers among them are
exact. -/

namespace ScopedCheck

namespace Lexeme

/-! ## Exact lexemes -/

/-- A whole number that is read is exact. -/
theorem isExact_of_value {numeral : Numeral} {n : Int} (h : numeral.value = .ok (.int n)) :
    IsExact n := by
  have hle : (takeDigits maxSignificand 0 numeral.whole).1 ≤ maxSignificand :=
    takeDigits_le (Nat.zero_le _) _
  have hmax : maxSignificand = 2 ^ 64 - 1 := rfl
  unfold Numeral.value at h
  simp only at h
  split at h
  · split at h
    · split at h <;> cases h
    · split at h <;> cases h
  · split at h
    · split at h <;> cases h
    · split at h
      · cases h
        constructor <;> omega
      · split at h
        · rename_i hrange
          simp only [Bool.and_eq_true, decide_eq_true_eq] at hrange
          cases h
          constructor <;> omega
        · split at h <;> cases h

/-- Whether a lexeme, if it is a whole number, is an exact one. -/
def Kind.IsExact (kind : Kind) : Prop := ∀ n, kind = .number (.ok (.int n)) → Lexeme.IsExact n

theorem isExact_of_readNumber {spot : Spot} {cs : List Char} {n : Int}
    (h : readNumber spot cs = .ok (.int n)) : IsExact n := by
  unfold readNumber at h
  cases hscan : scanNumber true spot cs with
  | error e => simp [hscan, bind, Except.bind] at h
  | ok numeral =>
      simp only [hscan, bind, Except.bind] at h
      split at h
      · rename_i number hvalue
        cases h
        exact isExact_of_value hvalue
      · cases h

theorem isExact_kindAt (spot : Spot) (c : Char) (cs : List Char) : (kindAt spot c cs).1.IsExact := by
  intro n hn
  unfold kindAt at hn
  simp only at hn
  split at hn
  · split at hn
    · cases hn
    · split at hn <;> cases hn
  · split at hn
    · split at hn <;> cases hn
    · split at hn
      · split at hn <;> cases hn
      · split at hn
        · split at hn <;> cases hn
        · split at hn
          · split at hn
            · exact isExact_of_readNumber (Kind.number.inj hn)
            · split at hn <;> cases hn
          · cases hn

theorem isExact_cut (spot : Spot) (cs : List Char) :
    ∀ lexeme ∈ (cut spot cs).1, lexeme.kind.IsExact := by
  induction spot, cs using cut.induct with
  | case1 spot => simp [cut]
  | case2 spot c cs hc ih =>
      rw [cut, if_pos hc]
      exact ih
  | case3 spot c cs hc _ count hkind stop _ _ _ ih =>
      rw [cut, if_neg hc]
      intro lexeme hlexeme
      rcases List.mem_cons.mp hlexeme with rfl | hmem
      · exact isExact_kindAt spot c cs
      · simp only [hkind] at hmem
        exact ih lexeme hmem

end Lexeme

namespace Json

open Lexeme

/-- Whether the whole numbers that are left are exact. -/
def Rest.IsExact (rest : Rest) : Prop := ∀ lexeme ∈ rest.lexemes, lexeme.kind.IsExact

namespace Decoder

variable {α β : Type}

/-! ## Steps -/

/-- Whether what a decoder gives has a property, and what it leaves is still exact. -/
def Yields (decoder : Decoder α) (property : α → Prop) : Prop :=
  ∀ rest value next, rest.IsExact → decoder rest = .ok value next → next.IsExact ∧ property value

theorem Yields.mono {decoder : Decoder α} {property weaker : α → Prop} (h : Yields decoder property)
    (hweaker : ∀ value, property value → weaker value) : Yields decoder weaker := by
  intro rest value next hrest hvalue
  obtain ⟨hnext, hproperty⟩ := h rest value next hrest hvalue
  exact ⟨hnext, hweaker value hproperty⟩

theorem yields_pure {value : α} {property : α → Prop} (h : property value) :
    Yields (pure value) property := by
  intro rest found next hrest hfound
  obtain ⟨rfl, rfl⟩ : value = found ∧ rest = next := by
    simpa [pure, EStateM.pure] using hfound
  exact ⟨hrest, h⟩

theorem Yields.bind {decoder : Decoder α} {f : α → Decoder β} {property : α → Prop}
    {final : β → Prop} (h : Yields decoder property) (hf : ∀ value, property value → Yields (f value) final) :
    Yields (decoder >>= f) final := by
  intro rest result last hrest hresult
  change EStateM.bind decoder f rest = _ at hresult
  unfold EStateM.bind at hresult
  split at hresult
  · rename_i value next hvalue
    obtain ⟨hnext, hproperty⟩ := h rest value next hrest hvalue
    exact hf value hproperty next result last hnext hresult
  · cases hresult

theorem yields_throw (e : JsonError) (property : α → Prop) :
    Yields (throw e : Decoder α) property := by
  intro rest value next _ h
  cases h

theorem yields_failHere (fault : JsonFault) (property : α → Prop) :
    Yields (failHere fault : Decoder α) property := by
  intro rest value next _ h
  cases h

theorem yields_failAhead (fault : JsonFault) (lexeme : Lexeme) (property : α → Prop) :
    Yields (failAhead fault lexeme : Decoder α) property := by
  intro rest value next _ h
  cases h

theorem yields_failLoose (fault : JsonFault) (property : α → Prop) :
    Yields (failLoose fault : Decoder α) property := by
  intro rest value next _ h
  cases h

theorem peek_of_nil {rest : Rest} (h : rest.lexemes = []) :
    peek rest = .ok none { rest with spot := rest.last } := by
  obtain ⟨lexemes, spot, last⟩ := rest
  obtain rfl := h
  rfl

theorem peek_of_cons {rest : Rest} {lexeme : Lexeme} {lexemes : List Lexeme}
    (h : rest.lexemes = lexeme :: lexemes) :
    peek rest = .ok (some lexeme) { rest with spot := lexeme.start } := by
  obtain ⟨all, spot, last⟩ := rest
  obtain rfl := h
  rfl

/-- Looking at a value is looking at the next lexeme, which has to be there. -/
theorem peekValue_bind (f : Lexeme → Decoder α) :
    peekValue >>= f = peek >>= fun found => found.elim (failHere .endInValue) f := by
  unfold peekValue
  rw [bind_assoc]
  congr 1
  funext found
  cases found <;> rfl

theorem yields_peek : Yields peek fun found => ∀ lexeme ∈ found, lexeme.kind.IsExact := by
  intro rest found next hrest h
  cases hlexemes : rest.lexemes with
  | nil =>
      rw [peek_of_nil hlexemes] at h
      cases h
      exact ⟨hrest, by simp⟩
  | cons lexeme lexemes =>
      rw [peek_of_cons hlexemes] at h
      cases h
      refine ⟨hrest, fun other hother => ?_⟩
      obtain rfl := Option.mem_some.mp hother
      exact hrest lexeme (hlexemes ▸ List.mem_cons_self ..)

theorem yields_peek_bind {f : Option Lexeme → Decoder α} {property : α → Prop}
    (hnone : Yields (f none) property)
    (hsome : ∀ lexeme : Lexeme, lexeme.kind.IsExact → Yields (f (some lexeme)) property) :
    Yields (peek >>= f) property := by
  refine yields_peek.bind fun found hfound => ?_
  cases found with
  | none => exact hnone
  | some lexeme => exact hsome lexeme (hfound lexeme rfl)

theorem yields_eat (lexeme : Lexeme) : Yields (eat lexeme) fun _ => True := by
  intro rest value next hrest h
  cases h
  exact ⟨fun other hother => hrest other (List.mem_of_mem_tail hother), trivial⟩

theorem yields_count : Yields count fun _ => True := by
  intro rest value next hrest h
  cases h
  exact ⟨hrest, trivial⟩

theorem yields_closed {close : Decoder Unit} {inside : Decoder α} {property : α → Prop}
    (hclose : Yields close fun _ => True) (h : Yields inside property) :
    Yields (closed close inside) property := by
  intro rest value last hrest hvalue
  unfold closed at hvalue
  split at hvalue
  · rename_i found next hfound
    obtain ⟨hnext, hproperty⟩ := h rest found next hrest hfound
    have hend : Yields (do close; return found) property :=
      hclose.bind fun _ _ => yields_pure hproperty
    unfold placed at hvalue
    split at hvalue
    · rename_i result behind hresult
      cases hvalue
      exact hend next value last hnext hresult
    · cases hvalue
  · split at hvalue <;> cases hvalue

/-! ## Parts of documents -/

theorem yields_closeArray : Yields closeArray fun _ => True := by
  refine yields_peek_bind (yields_failHere _ _) fun lexeme _ => ?_
  simp only
  split
  · exact yields_eat lexeme
  · refine (yields_eat lexeme).bind fun _ _ =>
      yields_peek_bind (yields_failHere _ _) fun lexeme _ => ?_
    simp only
    split <;> exact yields_failAhead _ _ _
  · exact yields_failAhead _ _ _

theorem yields_closeObject : Yields closeObject fun _ => True := by
  refine yields_peek_bind (yields_failHere _ _) fun lexeme _ => ?_
  simp only
  split
  · exact yields_eat lexeme
  · exact yields_failAhead _ _ _
  · exact yields_failAhead _ _ _

theorem yields_skipScalar (lexeme : Lexeme) : Yields (skipScalar lexeme) fun _ => True := by
  unfold skipScalar
  split
  · exact yields_failAhead _ _ _
  · exact yields_throw _ _
  · exact yields_eat lexeme

theorem yields_colon : Yields colon fun _ => True := by
  refine yields_peek_bind (yields_failHere _ _) fun lexeme _ => ?_
  simp only
  split
  · exact yields_eat lexeme
  · exact yields_failAhead _ _ _

theorem yields_skipKey (lexeme : Lexeme) : Yields (skipKey lexeme) fun _ => True := by
  unfold skipKey
  split
  · exact (yields_eat lexeme).bind fun _ _ => yields_colon
  · exact (yields_throw _ fun _ => True).bind fun _ _ => yields_colon
  · exact (yields_failAhead _ _ fun _ => True).bind fun _ _ => yields_colon

theorem yields_skip_fuel (fuel : Nat) : (Yields (skipValue fuel) fun _ => True) ∧
    (Yields (skipItems fuel) fun _ => True) ∧ Yields (skipFields fuel) fun _ => True := by
  induction fuel with
  | zero =>
      unfold skipValue skipItems skipFields
      exact ⟨yields_failHere _ _, yields_failHere _ _, yields_failHere _ _⟩
  | succ fuel ih =>
      obtain ⟨hvalue, hitems, hfields⟩ := ih
      refine ⟨?_, ?_, ?_⟩
      · unfold skipValue
        refine yields_peek_bind (yields_failHere _ _) fun lexeme _ => ?_
        simp only
        split
        · refine (yields_eat lexeme).bind fun _ _ =>
            yields_peek_bind (yields_failHere _ _) fun lexeme _ => ?_
          simp only
          split
          · exact yields_eat lexeme
          · exact hitems
        · refine (yields_eat lexeme).bind fun _ _ =>
            yields_peek_bind (yields_failHere _ _) fun lexeme _ => ?_
          simp only
          split
          · exact yields_eat lexeme
          · exact hfields
        · exact yields_skipScalar lexeme
      · unfold skipItems
        refine hvalue.bind fun _ _ => yields_peek_bind (yields_failHere _ _) fun lexeme _ => ?_
        simp only
        split
        · exact (yields_eat lexeme).bind fun _ _ => hitems
        · exact yields_eat lexeme
        · exact yields_failAhead _ _ _
      · unfold skipFields
        refine yields_peek.bind fun found hfound => ?_
        clear hfound
        cases found
        case' none =>
          refine (yields_failHere _ fun _ => True).bind fun _ _ => hvalue.bind fun _ _ => ?_
        case' some lexeme =>
          refine (yields_skipKey lexeme).bind fun _ _ => hvalue.bind fun _ _ => ?_
        all_goals
          refine yields_peek_bind (yields_failHere _ _) fun lexeme _ => ?_
          simp only
          split
          · exact (yields_eat lexeme).bind fun _ _ => hfields
          · exact yields_eat lexeme
          · exact yields_failAhead _ _ _

theorem yields_skip : Yields skip fun _ => True :=
  yields_count.bind fun count _ => (yields_skip_fuel (2 * count + 2)).1

theorem yields_readString (lexeme : Lexeme) : Yields (readString lexeme) fun _ => True := by
  unfold readString
  split
  · exact (yields_eat lexeme).bind fun _ _ => yields_pure trivial
  · exact yields_throw _ _
  · exact yields_throw _ _
  · exact yields_failAhead _ _ _

/-- A mismatch gives nothing. -/
theorem yields_mismatch (lexeme : Lexeme) (expected : String) (property : α → Prop) :
    Yields (mismatch lexeme expected : Decoder α) property := by
  unfold mismatch
  split
  · exact yields_failHere _ _
  · exact yields_failHere _ _
  · exact yields_failAhead _ _ _
  · exact (yields_eat lexeme).bind fun _ _ => yields_failHere _ _
  · exact (yields_eat lexeme).bind fun _ _ => yields_failHere _ _
  · exact (yields_eat lexeme).bind fun _ _ => yields_failHere _ _
  · exact (yields_eat lexeme).bind fun _ _ => yields_failHere _ _
  · exact (yields_eat lexeme).bind fun _ _ => yields_failHere _ _
  · exact (yields_eat lexeme).bind fun _ _ => yields_failHere _ _
  · exact yields_throw _ _
  · exact yields_throw _ _
  · exact yields_throw _ _

theorem yields_peekValue : Yields peekValue fun lexeme => lexeme.kind.IsExact := by
  refine yields_peek.bind fun found hfound => ?_
  cases found with
  | none => exact yields_failHere _ _
  | some lexeme => exact yields_pure (hfound lexeme rfl)

theorem yields_string : Yields string fun _ => True := by
  refine yields_peekValue.bind fun lexeme _ => ?_
  split
  · exact yields_readString lexeme
  · exact yields_readString lexeme
  · exact yields_mismatch _ _ _

theorem yields_optional {decoder : Decoder α} {property : α → Prop} (h : Yields decoder property) :
    Yields (optional decoder) fun found => ∀ value ∈ found, property value := by
  have hsome : Yields (do return some (← decoder)) fun found => ∀ value ∈ found, property value :=
    h.bind fun value hvalue => yields_pure fun other hother => by
      obtain rfl := Option.mem_some.mp hother
      exact hvalue
  refine yields_peek.bind fun found _ => ?_
  cases found with
  | none => exact hsome
  | some lexeme =>
      simp only
      split
      · exact (yields_eat lexeme).bind fun _ _ => yields_pure (by simp)
      · exact hsome

/-! ## Containers -/

theorem yields_hasItem (isFirst : Bool) : Yields (hasItem isFirst) fun _ => True := by
  refine yields_peek_bind (yields_failHere _ _) fun lexeme _ => ?_
  simp only
  split
  · exact yields_pure trivial
  · split
    · exact yields_pure trivial
    · refine (yields_eat lexeme).bind fun _ _ =>
        yields_peek_bind (yields_failHere _ _) fun lexeme _ => ?_
      simp only
      split
      · exact yields_failAhead _ _ _
      · exact yields_pure trivial
  · split
    · exact yields_pure trivial
    · exact yields_failAhead _ _ _

theorem yields_nextItem (isFirst : Bool) {item : Decoder α} {property : α → Prop}
    (h : Yields item property) :
    Yields (nextItem isFirst item) fun found => ∀ value ∈ found, property value := by
  refine (yields_hasItem isFirst).bind fun more _ => ?_
  split
  · exact h.bind fun value hvalue => yields_pure (by simpa using hvalue)
  · exact yields_pure (by simp)

theorem yields_items {item : Decoder α} {property : α → Prop} (h : Yields item property)
    (isFirst : Bool) (fuel : Nat) :
    Yields (items item isFirst fuel) fun values => ∀ value ∈ values, property value := by
  induction fuel generalizing isFirst with
  | zero => exact yields_pure (by simp)
  | succ fuel ih =>
      refine (yields_nextItem isFirst h).bind fun found hfound => ?_
      cases found with
      | none => exact yields_pure (by simp)
      | some value =>
          refine (ih false).bind fun values hvalues => yields_pure fun other hother => ?_
          rcases List.mem_cons.mp hother with rfl | hmem
          · exact hfound other rfl
          · exact hvalues other hmem

theorem yields_nextKey (isFirst : Bool) : Yields (nextKey isFirst) fun _ => True := by
  have hkey : ∀ lexeme, Yields (do return some (← readString lexeme)) fun _ => True :=
    fun lexeme => (yields_readString lexeme).bind fun _ _ => yields_pure trivial
  refine yields_peek_bind (yields_failHere _ _) fun lexeme _ => ?_
  simp only
  split
  · exact yields_pure trivial
  · split
    · exact yields_failAhead _ _ _
    · refine (yields_eat lexeme).bind fun _ _ =>
        yields_peek_bind (yields_failHere _ _) fun lexeme _ => ?_
      simp only
      split
      · exact hkey lexeme
      · exact hkey lexeme
      · exact yields_failAhead _ _ _
      · exact yields_failAhead _ _ _
  · split
    · exact hkey lexeme
    · exact yields_failAhead _ _ _
  · split
    · exact hkey lexeme
    · exact yields_failAhead _ _ _
  · split
    · exact yields_failAhead _ _ _
    · exact yields_failAhead _ _ _

/-- What every entry keeps is kept by all of them. -/
theorem yields_entries {σ : Type} {step : σ → String → Decoder σ} {invariant : σ → Prop}
    (hstep : ∀ state key, invariant state → Yields (step state key) invariant) (isFirst : Bool)
    (fuel : Nat) {state : σ} (hstate : invariant state) :
    Yields (entries step isFirst fuel state) invariant := by
  induction fuel generalizing isFirst state with
  | zero => exact yields_pure hstate
  | succ fuel ih =>
      refine (yields_nextKey isFirst).bind fun found _ => ?_
      cases found with
      | none => exact yields_pure hstate
      | some key => exact (hstep state key hstate).bind fun next hnext => ih false hnext

theorem yields_enter (room : Nat) (lexeme : Lexeme) {close : Decoder Unit}
    (hclose : Yields close fun _ => True) {inside : Nat → Decoder α} {property : α → Prop}
    (h : ∀ left, room = left + 1 → Yields (inside left) property) :
    Yields (enter room lexeme close inside) property := by
  unfold enter
  split
  · exact yields_failAhead _ _ _
  · exact (yields_eat lexeme).bind fun _ _ => yields_closed hclose (h _ rfl)

theorem yields_list (room : Nat) {item : Nat → Decoder α} {property : α → Prop}
    (h : ∀ left, Yields (item left) property) :
    Yields (list room item) fun values => ∀ value ∈ values, property value := by
  refine yields_peekValue.bind fun lexeme _ => ?_
  split
  · exact yields_enter room lexeme yields_closeArray fun left _ =>
      yields_count.bind fun count _ => yields_items (h left) true count
  · exact yields_mismatch _ _ _

/-- The keys of a map differ. -/
theorem yields_map (room : Nat) {value : Nat → Decoder α} (h : ∀ left, Yields (value left) fun _ => True) :
    Yields (map room value) fun entries => entries.keys.Nodup := by
  refine yields_peekValue.bind fun lexeme _ => ?_
  split
  · refine yields_enter room lexeme yields_closeObject fun left _ => ?_
    refine yields_count.bind fun count _ => yields_entries (fun state key hstate => ?_)
      true count List.nodup_nil
    exact yields_colon.bind fun _ _ => (h left).bind fun found _ =>
      yields_pure (Entries.nodup_set hstate key found)
  · exact yields_mismatch _ _ _

/-- What the fields of a record keep, and its items give. -/
theorem yields_record {σ : Type} (room : Nat) (r : Record σ α) (invariant : σ → Prop)
    {property : α → Prop} (hstart : invariant r.start)
    (hfield : ∀ left, room = left + 1 → ∀ state key, invariant state →
      Yields (r.field left state key) invariant)
    (hfinish : ∀ state, invariant state → Yields (r.finish state) property)
    (hitems : ∀ items ∈ r.items, ∀ left, room = left + 1 → Yields (items left) property) :
    Yields (record room r) property := by
  refine yields_peekValue.bind fun lexeme _ => ?_
  split
  · rename_i items _ hcase
    exact yields_enter room lexeme yields_closeArray fun left hleft => hitems items hcase left hleft
  · exact yields_enter room lexeme yields_closeObject fun left hleft => yields_count.bind fun count _ =>
      (yields_entries (hfield left hleft) true count hstart).bind fun state hstate =>
        hfinish state hstate
  · exact yields_mismatch _ _ _

theorem yields_value_step {room : Nat}
    (ih : ∀ left, room = left + 1 → Yields (value left) fun found => found.Fits left) :
    Yields (value room) fun found => found.Fits room := by
  have heat : ∀ (lexeme : Lexeme) (found : Json), found.Fits room →
      Yields (do eat lexeme; return found) fun found => found.Fits room :=
    fun lexeme found hfound => (yields_eat lexeme).bind fun _ _ => yields_pure hfound
  unfold value
  refine yields_peekValue.bind fun lexeme hlexeme => ?_
  split
  · exact heat lexeme .null trivial
  · exact heat lexeme (.bool true) trivial
  · exact heat lexeme (.bool false) trivial
  · rename_i n hkind
    exact heat lexeme (.int n) (hlexeme n hkind)
  · rename_i x _
    exact heat lexeme (.float x) trivial
  · rename_i s _
    exact heat lexeme (.string s) trivial
  · exact yields_throw _ _
  · exact yields_throw _ _
  · exact yields_throw _ _
  · cases room with
    | zero => exact yields_failAhead _ _ _
    | succ left =>
        refine (yields_eat lexeme).bind fun _ _ => yields_closed yields_closeArray ?_
        refine yields_count.bind fun count _ => (yields_items (ih left rfl) true count).bind ?_
        exact fun items hitems => yields_pure ⟨Nat.succ_pos left, fitItems_iff.mpr hitems⟩
  · cases room with
    | zero => exact yields_failAhead _ _ _
    | succ left =>
        let invariant (state : Entries Json) : Prop :=
          state.keys.Nodup ∧ ∀ entry ∈ state, entry.2.Fits left
        have hstep : ∀ state key, invariant state → Yields (do
            colon
            return state.set key (← value left)) invariant := by
          intro state key hstate
          obtain ⟨hnodup, hfits⟩ := hstate
          refine yields_colon.bind fun _ _ => (ih left rfl).bind fun found hfound => yields_pure ?_
          refine ⟨Entries.nodup_set hnodup key found, fun entry hentry => ?_⟩
          rcases Entries.mem_set hentry with rfl | hmem
          · exact hfound
          · exact hfits entry hmem
        have hstart : invariant [] := ⟨List.nodup_nil, by simp⟩
        refine (yields_eat lexeme).bind fun _ _ => yields_closed yields_closeObject ?_
        refine yields_count.bind fun count _ => (yields_entries hstep true count hstart).bind ?_
        exact fun state hstate =>
          yields_pure ⟨Nat.succ_pos left, hstate.1, fitEntries_iff.mpr hstate.2⟩
  · exact yields_failAhead _ _ _

/-- A value that is read fits where it was read. -/
theorem yields_value (room : Nat) : Yields (value room) fun found => found.Fits room := by
  induction room with
  | zero => exact yields_value_step fun left h => absurd h.symm (Nat.succ_ne_zero left)
  | succ room ih =>
      refine yields_value_step fun left h => ?_
      obtain rfl := Nat.succ.inj h
      exact ih

/-- What a document yields holds if it is decoded. -/
theorem of_run {decoder : Nat → Decoder α} {property : α → Prop} {text : String} {found : α}
    (h : Yields (decoder depthLimit) property) (hrun : run decoder text = .ok found) : property found := by
  have hend : Yields endOfText fun _ => True :=
    yields_peek_bind (yields_pure trivial) fun _ _ => yields_failAhead _ _ _
  have hall : Yields (do let found ← decoder depthLimit; endOfText; return found) property :=
    h.bind fun found hfound => hend.bind fun _ _ => yields_pure hfound
  simp only [run] at hrun
  split at hrun
  · rename_i value next hvalue
    cases hrun
    have hexact : Rest.IsExact ⟨(cut Spot.first text.toList).1, Spot.first,
        (cut Spot.first text.toList).2⟩ := isExact_cut Spot.first text.toList
    exact (hall _ _ _ hexact hvalue).2
  · cases hrun

end Decoder

end Json

end ScopedCheck
