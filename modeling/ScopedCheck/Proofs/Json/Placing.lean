import ScopedCheck.Json.Decoder
import ScopedCheck.Proofs.Json.Spots
import ScopedCheck.Proofs.Json.Yields
/-! # Errors are placed in the document

Whatever a decoder says of a spot, it says of a spot that its lexemes know. An error about what a container
holds may lack a spot inside the container, but never outside: going on to the closing bracket gives it one. So
every error of a whole document has a spot of the document (`isPlaced_of_run`). -/

namespace ScopedCheck.Json

open Lexeme JsonError

/-- Whether only certain spots are known of what is left of a document. -/
structure Rest.Knows (spots : Spot → Prop) (rest : Rest) : Prop where
  lexemes : ∀ lexeme ∈ rest.lexemes, lexeme.Knows spots
  spot : spots rest.spot
  last : spots rest.last

namespace Decoder

variable {α β : Type} {spots : Spot → Prop} {told : JsonError → Prop}

/-! ## Steps -/

/-- Whether a decoder goes on among certain spots, and fails with certain errors. -/
def Errs (spots : Spot → Prop) (told : JsonError → Prop) (decoder : Decoder α) : Prop :=
  ∀ rest, rest.Knows spots →
    match decoder rest with
    | .ok _ next => next.Knows spots
    | .error e next => told e ∧ next.Knows spots

/-- Whether every error of a decoder has a spot. -/
abbrev Places (spots : Spot → Prop) (decoder : Decoder α) : Prop := Errs spots (IsPlaced spots) decoder

/-- Whether every error of a decoder that has a spot has a certain one. -/
abbrev MayPlace (spots : Spot → Prop) (decoder : Decoder α) : Prop := Errs spots (IsLoose spots) decoder

theorem Errs.mono {weaker : JsonError → Prop} {decoder : Decoder α} (h : Errs spots told decoder)
    (hweaker : ∀ e, told e → weaker e) : Errs spots weaker decoder := by
  intro rest hrest
  have hresult := h rest hrest
  split at hresult
  · exact hresult
  · exact ⟨hweaker _ hresult.1, hresult.2⟩

theorem Places.mayPlace {decoder : Decoder α} (h : Places spots decoder) : MayPlace spots decoder :=
  h.mono fun _ => IsPlaced.isLoose

theorem errs_pure (value : α) : Errs spots told (pure value) := fun _ hrest => hrest

theorem Errs.bind {decoder : Decoder α} {f : α → Decoder β} (h : Errs spots told decoder)
    (hf : ∀ value, Errs spots told (f value)) : Errs spots told (decoder >>= f) := by
  intro rest hrest
  have hresult := h rest hrest
  change match EStateM.bind decoder f rest with
    | .ok _ next => next.Knows spots
    | .error e next => told e ∧ next.Knows spots
  unfold EStateM.bind
  cases hdecoder : decoder rest with
  | ok value next =>
    rw [hdecoder] at hresult
    exact hf value next hresult
  | error e next =>
    rw [hdecoder] at hresult
    exact hresult

theorem errs_throw {e : JsonError} (h : told e) : Errs spots told (throw e : Decoder α) := fun _ hrest => ⟨h, hrest⟩

theorem places_failHere (fault : JsonFault) : Places spots (failHere fault : Decoder α) :=
  fun _ hrest => ⟨isPlaced_at fault hrest.spot, hrest⟩

theorem places_failAhead (fault : JsonFault) {lexeme : Lexeme} (h : lexeme.Knows spots) :
    Places spots (failAhead fault lexeme : Decoder α) := errs_throw (isPlaced_at fault h.ahead)

theorem mayPlace_failLoose (fault : JsonFault) : MayPlace spots (failLoose fault : Decoder α) :=
  errs_throw fun _ h => (nomatch h)

theorem errs_peek_bind {f : Option Lexeme → Decoder α} (hnone : Errs spots told (f none))
    (hsome : ∀ lexeme : Lexeme, lexeme.Knows spots → Errs spots told (f (some lexeme))) :
    Errs spots told (peek >>= f) := by
  intro rest hrest
  change match EStateM.bind peek f rest with
    | .ok _ next => next.Knows spots
    | .error e next => told e ∧ next.Knows spots
  unfold EStateM.bind
  cases hlexemes : rest.lexemes with
  | nil =>
    rw [peek_of_nil hlexemes]
    exact hnone _ ⟨hrest.lexemes, hrest.last, hrest.last⟩
  | cons lexeme lexemes =>
    have hlexeme := hrest.lexemes lexeme (hlexemes ▸ List.mem_cons_self ..)
    rw [peek_of_cons hlexemes]
    exact hsome lexeme hlexeme _ ⟨hrest.lexemes, hlexeme.start, hrest.last⟩

theorem errs_eat {lexeme : Lexeme} (h : lexeme.Knows spots) : Errs spots told (eat lexeme) :=
  fun _ hrest => ⟨fun other hother => hrest.lexemes other (List.mem_of_mem_tail hother), h.stop, hrest.last⟩

theorem errs_count : Errs spots told count := fun _ hrest => hrest

/-! ## Parts of documents -/

theorem isPlaced_getD {e : JsonError} (h : e.IsLoose spots) {spot : Spot} (hspot : spots spot) :
    IsPlaced spots { e with spot := some (e.spot.getD spot) } := by
  refine ⟨_, rfl, ?_⟩
  cases he : e.spot with
  | none => exact hspot
  | some own => exact h own he

/-- Going on to the closing bracket gives every error a spot. -/
theorem places_closed {close : Decoder Unit} {inside : Decoder α} (hclose : Places spots close)
    (h : MayPlace spots inside) : Places spots (closed close inside) := by
  intro rest hrest
  have hinside := h rest hrest
  unfold closed
  cases hresult : inside rest with
  | ok value next =>
    rw [hresult] at hinside
    have hend := (hclose.bind fun _ => errs_pure value) next hinside
    simp only [placed]
    cases hlast : (do close; return value : Decoder α) next with
    | ok value last =>
      rw [hlast] at hend
      exact hend
    | error e last =>
      rw [hlast] at hend
      exact ⟨isPlaced_getD hend.1.isLoose hend.2.spot, hend.2⟩
  | error e next =>
    rw [hresult] at hinside
    have hend := hclose next hinside.2
    simp only
    cases hlast : close next with
    | ok _ last =>
      rw [hlast] at hend
      exact ⟨isPlaced_getD hinside.1 hend.spot, hend⟩
    | error _ last =>
      rw [hlast] at hend
      exact ⟨isPlaced_getD hinside.1 hend.2.spot, hend.2⟩

theorem places_closeArray : Places spots closeArray := by
  refine errs_peek_bind (places_failHere _) fun lexeme hlexeme => ?_
  simp only
  split
  · exact errs_eat hlexeme
  · refine (errs_eat hlexeme).bind fun _ => errs_peek_bind (places_failHere _) fun lexeme hlexeme => ?_
    simp only
    split <;> exact places_failAhead _ hlexeme
  · exact places_failAhead _ hlexeme

theorem places_closeObject : Places spots closeObject := by
  refine errs_peek_bind (places_failHere _) fun lexeme hlexeme => ?_
  simp only
  split
  · exact errs_eat hlexeme
  · exact places_failAhead _ hlexeme
  · exact places_failAhead _ hlexeme

theorem places_colon : Places spots colon := by
  refine errs_peek_bind (places_failHere _) fun lexeme hlexeme => ?_
  simp only
  split
  · exact errs_eat hlexeme
  · exact places_failAhead _ hlexeme

/-! ## Values that are passed over -/

theorem places_skipScalar {lexeme : Lexeme} (h : lexeme.Knows spots) : Places spots (skipScalar lexeme) := by
  unfold skipScalar
  split
  · exact places_failAhead _ h
  · rename_i hkind
    exact errs_throw (h.errors _ (hkind ▸ .skipping ..))
  · exact errs_eat h

theorem places_skipKey {lexeme : Lexeme} (h : lexeme.Knows spots) : Places spots (skipKey lexeme) := by
  unfold skipKey
  split
  · exact (errs_eat h).bind fun _ => places_colon
  · rename_i hkind
    exact (errs_throw (h.errors _ (hkind ▸ .skipping ..))).bind fun _ => places_colon
  · exact (places_failAhead _ h).bind fun _ => places_colon

theorem places_skip_fuel (fuel : Nat) : Places spots (skipValue fuel) ∧ Places spots (skipItems fuel) ∧
    Places spots (skipFields fuel) := by
  induction fuel with
  | zero =>
    unfold skipValue skipItems skipFields
    exact ⟨places_failHere _, places_failHere _, places_failHere _⟩
  | succ fuel ih =>
    obtain ⟨hvalue, hitems, hfields⟩ := ih
    refine ⟨?_, ?_, ?_⟩
    · unfold skipValue
      refine errs_peek_bind (places_failHere _) fun lexeme hlexeme => ?_
      simp only
      split
      · refine (errs_eat hlexeme).bind fun _ => errs_peek_bind (places_failHere _) fun lexeme hlexeme => ?_
        simp only
        split
        · exact errs_eat hlexeme
        · exact hitems
      · refine (errs_eat hlexeme).bind fun _ => errs_peek_bind (places_failHere _) fun lexeme hlexeme => ?_
        simp only
        split
        · exact errs_eat hlexeme
        · exact hfields
      · exact places_skipScalar hlexeme
    · unfold skipItems
      refine hvalue.bind fun _ => errs_peek_bind (places_failHere _) fun lexeme hlexeme => ?_
      simp only
      split
      · exact (errs_eat hlexeme).bind fun _ => hitems
      · exact errs_eat hlexeme
      · exact places_failAhead _ hlexeme
    · unfold skipFields
      refine errs_peek_bind ((places_failHere _).bind fun _ => hvalue.bind fun _ => ?_) fun lexeme hlexeme =>
        (places_skipKey hlexeme).bind fun _ => hvalue.bind fun _ => ?_
      all_goals
        refine errs_peek_bind (places_failHere _) fun lexeme hlexeme => ?_
        simp only
        split
        · exact (errs_eat hlexeme).bind fun _ => hfields
        · exact errs_eat hlexeme
        · exact places_failAhead _ hlexeme

theorem places_skip : Places spots skip :=
  errs_count.bind fun count => (places_skip_fuel (2 * count + 2)).1

/-! ## Scalars -/

theorem places_readString {lexeme : Lexeme} (h : lexeme.Knows spots) : Places spots (readString lexeme) := by
  unfold readString
  split
  · exact (errs_eat h).bind fun _ => errs_pure _
  · rename_i hkind
    exact errs_throw (h.errors _ (hkind ▸ .string _))
  · rename_i hkind
    exact errs_throw (h.errors _ (hkind ▸ .reading ..))
  · exact places_failAhead _ h

theorem places_mismatch {lexeme : Lexeme} (h : lexeme.Knows spots) (expected : String) :
    Places spots (mismatch lexeme expected : Decoder α) := by
  unfold mismatch
  split
  · exact places_failHere _
  · exact places_failHere _
  · exact places_failAhead _ h
  · exact (errs_eat h).bind fun _ => places_failHere _
  · exact (errs_eat h).bind fun _ => places_failHere _
  · exact (errs_eat h).bind fun _ => places_failHere _
  · exact (errs_eat h).bind fun _ => places_failHere _
  · exact (errs_eat h).bind fun _ => places_failHere _
  · exact (errs_eat h).bind fun _ => places_failHere _
  · rename_i hkind
    exact errs_throw (h.errors _ (hkind ▸ .number _))
  · rename_i hkind
    exact errs_throw (h.errors _ (hkind ▸ .string _))
  · rename_i hkind
    exact errs_throw (h.errors _ (hkind ▸ .reading ..))

theorem places_peekValue_bind {f : Lexeme → Decoder α}
    (hf : ∀ lexeme : Lexeme, lexeme.Knows spots → Places spots (f lexeme)) : Places spots (peekValue >>= f) := by
  rw [peekValue_bind]
  exact errs_peek_bind (places_failHere _) hf

theorem places_string : Places spots string := by
  refine places_peekValue_bind fun lexeme hlexeme => ?_
  split
  · exact places_readString hlexeme
  · exact places_readString hlexeme
  · exact places_mismatch hlexeme _

theorem errs_optional {decoder : Decoder α} (h : Errs spots told decoder) : Errs spots told (optional decoder) := by
  have hsome : Errs spots told (do return some (← decoder)) := h.bind fun value => errs_pure _
  refine errs_peek_bind hsome fun lexeme hlexeme => ?_
  simp only
  split
  · exact (errs_eat hlexeme).bind fun _ => errs_pure _
  · exact hsome

/-! ## Containers -/

theorem places_hasItem (isFirst : Bool) : Places spots (hasItem isFirst) := by
  refine errs_peek_bind (places_failHere _) fun lexeme hlexeme => ?_
  simp only
  split
  · exact errs_pure _
  · split
    · exact errs_pure _
    · refine (errs_eat hlexeme).bind fun _ => errs_peek_bind (places_failHere _) fun lexeme hlexeme => ?_
      simp only
      split
      · exact places_failAhead _ hlexeme
      · exact errs_pure _
  · split
    · exact errs_pure _
    · exact places_failAhead _ hlexeme

theorem mayPlace_nextItem (isFirst : Bool) {item : Decoder α} (h : MayPlace spots item) :
    MayPlace spots (nextItem isFirst item) := by
  refine (places_hasItem isFirst).mayPlace.bind fun more => ?_
  split
  · exact h.bind fun value => errs_pure _
  · exact errs_pure _

theorem mayPlace_items {item : Decoder α} (h : MayPlace spots item) (isFirst : Bool) (fuel : Nat) :
    MayPlace spots (items item isFirst fuel) := by
  induction fuel generalizing isFirst with
  | zero => exact errs_pure _
  | succ fuel ih =>
    refine (mayPlace_nextItem isFirst h).bind fun found => ?_
    cases found with
    | none => exact errs_pure _
    | some value => exact (ih false).bind fun values => errs_pure _

theorem places_nextKey (isFirst : Bool) : Places spots (nextKey isFirst) := by
  have hkey : ∀ lexeme : Lexeme, lexeme.Knows spots → Places spots (do return some (← readString lexeme)) :=
    fun lexeme h => (places_readString h).bind fun key => errs_pure _
  refine errs_peek_bind (places_failHere _) fun lexeme hlexeme => ?_
  simp only
  split
  · exact errs_pure _
  · split
    · exact places_failAhead _ hlexeme
    · refine (errs_eat hlexeme).bind fun _ => errs_peek_bind (places_failHere _) fun lexeme hlexeme => ?_
      simp only
      split
      · exact hkey lexeme hlexeme
      · exact hkey lexeme hlexeme
      · exact places_failAhead _ hlexeme
      · exact places_failAhead _ hlexeme
  · split
    · exact hkey lexeme hlexeme
    · exact places_failAhead _ hlexeme
  · split
    · exact hkey lexeme hlexeme
    · exact places_failAhead _ hlexeme
  · split <;> exact places_failAhead _ hlexeme

theorem mayPlace_entries {σ : Type} {step : σ → String → Decoder σ}
    (hstep : ∀ state key, MayPlace spots (step state key)) (isFirst : Bool) (fuel : Nat) (state : σ) :
    MayPlace spots (entries step isFirst fuel state) := by
  induction fuel generalizing isFirst state with
  | zero => exact errs_pure _
  | succ fuel ih =>
    refine (places_nextKey isFirst).mayPlace.bind fun found => ?_
    cases found with
    | none => exact errs_pure _
    | some key => exact (hstep state key).bind fun next => ih false next

theorem places_enter (room : Nat) {lexeme : Lexeme} (hlexeme : lexeme.Knows spots) {close : Decoder Unit}
    (hclose : Places spots close) {inside : Nat → Decoder α} (h : ∀ left, MayPlace spots (inside left)) :
    Places spots (enter room lexeme close inside) := by
  unfold enter
  split
  · exact places_failAhead _ hlexeme
  · exact (errs_eat hlexeme).bind fun _ => places_closed hclose (h _)

theorem places_list (room : Nat) {item : Nat → Decoder α} (h : ∀ left, MayPlace spots (item left)) :
    Places spots (list room item) := by
  refine places_peekValue_bind fun lexeme hlexeme => ?_
  split
  · exact places_enter room hlexeme places_closeArray fun left =>
      errs_count.bind fun count => mayPlace_items (h left) true count
  · exact places_mismatch hlexeme _

theorem places_map (room : Nat) {value : Nat → Decoder α} (h : ∀ left, MayPlace spots (value left)) :
    Places spots (map room value) := by
  refine places_peekValue_bind fun lexeme hlexeme => ?_
  split
  · refine places_enter room hlexeme places_closeObject fun left => errs_count.bind fun count =>
      mayPlace_entries (fun state key => ?_) true count []
    exact places_colon.mayPlace.bind fun _ => (h left).bind fun found => errs_pure _
  · exact places_mismatch hlexeme _

/-- Every error of a record has a spot, even if its fields, its items and its end give none. -/
theorem places_record {σ : Type} (room : Nat) (r : Record σ α)
    (hfield : ∀ left state key, MayPlace spots (r.field left state key))
    (hfinish : ∀ state, MayPlace spots (r.finish state))
    (hitems : ∀ items ∈ r.items, ∀ left, MayPlace spots (items left)) : Places spots (record room r) := by
  refine places_peekValue_bind fun lexeme hlexeme => ?_
  split
  · rename_i items _ hcase
    exact places_enter room hlexeme places_closeArray fun left => hitems items hcase left
  · exact places_enter room hlexeme places_closeObject fun left => errs_count.bind fun count =>
      (mayPlace_entries (hfield left) true count r.start).bind fun state => hfinish state
  · exact places_mismatch hlexeme _

theorem mayPlace_onlyOnce (field : Option α) (name : String) : MayPlace spots (onlyOnce field name) := by
  unfold onlyOnce
  split
  · exact mayPlace_failLoose _
  · exact errs_pure _

theorem places_value_step {room : Nat} (ih : ∀ left, room = left + 1 → Places spots (value left)) :
    Places spots (value room) := by
  unfold value
  refine places_peekValue_bind fun lexeme hlexeme => ?_
  have heat : ∀ found : Json, Places spots (do eat lexeme; return found) :=
    fun found => (errs_eat hlexeme).bind fun _ => errs_pure _
  split
  · exact heat .null
  · exact heat (.bool true)
  · exact heat (.bool false)
  · exact heat (.int _)
  · exact heat (.float _)
  · exact heat (.string _)
  · rename_i hkind
    exact errs_throw (hlexeme.errors _ (hkind ▸ .number _))
  · rename_i hkind
    exact errs_throw (hlexeme.errors _ (hkind ▸ .string _))
  · rename_i hkind
    exact errs_throw (hlexeme.errors _ (hkind ▸ .reading ..))
  · cases room with
    | zero => exact places_failAhead _ hlexeme
    | succ left =>
      refine (errs_eat hlexeme).bind fun _ => places_closed places_closeArray ?_
      exact errs_count.bind fun count => (mayPlace_items (ih left rfl).mayPlace true count).bind fun items =>
        errs_pure _
  · cases room with
    | zero => exact places_failAhead _ hlexeme
    | succ left =>
      refine (errs_eat hlexeme).bind fun _ => places_closed places_closeObject ?_
      refine errs_count.bind fun count => (mayPlace_entries (fun state key => ?_) true count []).bind fun entries =>
        errs_pure _
      exact places_colon.mayPlace.bind fun _ => (ih left rfl).mayPlace.bind fun found => errs_pure _
  · exact places_failAhead _ hlexeme

theorem places_value (room : Nat) : Places spots (value room) := by
  induction room with
  | zero => exact places_value_step fun left h => absurd h.symm (Nat.succ_ne_zero left)
  | succ room ih =>
    refine places_value_step fun left h => ?_
    obtain rfl := Nat.succ.inj h
    exact ih

theorem places_endOfText : Places spots endOfText :=
  errs_peek_bind (errs_pure _) fun _ hlexeme => places_failAhead _ hlexeme

/-- Every error of a document has a spot of the document. -/
theorem isPlaced_of_run {decoder : Nat → Decoder α} {text : String} {e : JsonError}
    (h : ∀ spots : Spot → Prop, Places spots (decoder depthLimit)) (hrun : run decoder text = .error e) :
    e.IsPlaced (Spot.first.Reaches text.toList) := by
  obtain ⟨hlexemes, hlast⟩ := knows_cut Spot.first text.toList
  have hall : Places (Spot.first.Reaches text.toList) (do
      let found ← decoder depthLimit
      endOfText
      return found) := (h _).bind fun found => places_endOfText.bind fun _ => errs_pure found
  have hresult := hall ⟨(cut Spot.first text.toList).1, Spot.first, (cut Spot.first text.toList).2⟩
    ⟨hlexemes, Spot.reaches_self .., hlast⟩
  simp only [run] at hrun
  split at hrun
  · cases hrun
  · rename_i hfound
    cases hrun
    rw [hfound] at hresult
    exact hresult.1

end Decoder

end ScopedCheck.Json
