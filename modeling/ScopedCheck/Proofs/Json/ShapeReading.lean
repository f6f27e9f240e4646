import ScopedCheck.Json.Decoder
import ScopedCheck.Proofs.Json.Shape
import ScopedCheck.Proofs.Json.Yields
/-! # Decoders look at shapes only

What a decoder reads depends on what its lexemes show and not on their spots, which only errors tell. -/

namespace ScopedCheck

namespace Lexeme

/-- Whether a lexeme holds an error. -/
inductive Kind.IsFaulty : Kind → Prop
  | number (e : JsonError) : IsFaulty (.number (.error e))
  | string (e : JsonError) : IsFaulty (.string (.error e))
  | broken (isString : Bool) (reading skipping : JsonError) : IsFaulty (.broken isString reading skipping)

/-- Results without their errors differ at most in their errors. -/
theorem eq_or_of_toOption_eq {ε β : Type} {x y : Except ε β} (h : x.toOption = y.toOption) :
    x = y ∨ (∃ e, x = .error e) ∧ ∃ e, y = .error e := by
  cases x with
  | error e =>
      cases y with
      | error e' => exact .inr ⟨⟨e, rfl⟩, e', rfl⟩
      | ok value => cases h
  | ok value =>
      cases y with
      | error e => cases h
      | ok value' => exact .inl (congrArg Except.ok (Option.some.inj h))

/-- Kinds that show the same differ at most in their errors. -/
theorem Kind.eq_or_isFaulty {kind other : Kind} (h : kind.shape = other.shape) :
    kind = other ∨ kind.IsFaulty ∧ other.IsFaulty := by
  cases kind with
  | mark c =>
      cases other with
      | mark d => exact .inl (congrArg Kind.mark (Shape.mark.inj h))
      | _ => cases h
  | word w =>
      cases other with
      | word w' => exact .inl (congrArg Kind.word (Shape.word.inj h))
      | _ => cases h
  | number value =>
      cases other with
      | number value' =>
          rcases eq_or_of_toOption_eq (Shape.number.inj h) with rfl | ⟨⟨e, rfl⟩, e', rfl⟩
          · exact .inl rfl
          · exact .inr ⟨.number e, .number e'⟩
      | _ => cases h
  | string value =>
      cases other with
      | string value' =>
          rcases eq_or_of_toOption_eq (Shape.string.inj h) with rfl | ⟨⟨e, rfl⟩, e', rfl⟩
          · exact .inl rfl
          · exact .inr ⟨.string e, .string e'⟩
      | _ => cases h
  | broken isString reading skipping =>
      cases other with
      | broken isString' reading' skipping' => exact .inr ⟨.broken .., .broken ..⟩
      | _ => cases h

end Lexeme

namespace Json.Decoder

open Lexeme

variable {α β : Type}

/-! ## Steps -/

/-- Whether a decoder never gives anything. -/
def Fails (decoder : Decoder α) : Prop := ∀ rest value next, decoder rest ≠ .ok value next

theorem fails_throw (e : JsonError) : Fails (throw e : Decoder α) := fun _ _ _ h => by cases h

theorem fails_failHere (fault : JsonFault) : Fails (failHere fault : Decoder α) := fun _ _ _ h => by cases h

theorem fails_failAhead (fault : JsonFault) (lexeme : Lexeme) : Fails (failAhead fault lexeme : Decoder α) :=
  fails_throw _

theorem fails_failLoose (fault : JsonFault) : Fails (failLoose fault : Decoder α) := fails_throw _

theorem Fails.bind {decoder : Decoder α} (h : Fails decoder) (f : α → Decoder β) :
    Fails (decoder >>= f) := by
  intro rest result last hresult
  change EStateM.bind decoder f rest = _ at hresult
  unfold EStateM.bind at hresult
  split at hresult
  · exact h _ _ _ ‹_›
  · cases hresult

/-- Whether another decoder gives whatever a decoder gives, where the lexemes show the same. -/
def Follows (other decoder : Decoder α) : Prop :=
  ∀ rest twin value next, shapes rest.lexemes = shapes twin.lexemes → decoder rest = .ok value next →
    ∃ last, other twin = .ok value last ∧ shapes next.lexemes = shapes last.lexemes

/-- Whether a decoder looks only at what its lexemes show. -/
def ReadsShapes (decoder : Decoder α) : Prop := Follows decoder decoder

theorem Fails.follows {decoder other : Decoder α} (h : Fails decoder) : Follows other decoder :=
  fun _ _ _ _ _ hvalue => absurd hvalue (h _ _ _)

theorem readsShapes_pure (value : α) : ReadsShapes (pure value) := by
  intro rest twin found next hrest hfound
  obtain ⟨rfl, rfl⟩ : value = found ∧ rest = next := by
    simpa [pure, EStateM.pure] using hfound
  exact ⟨twin, rfl, hrest⟩

theorem Follows.bind {decoder other : Decoder α} {f g : α → Decoder β} (h : Follows other decoder)
    (hf : ∀ value, Follows (g value) (f value)) : Follows (other >>= g) (decoder >>= f) := by
  intro rest twin result last hrest hresult
  change EStateM.bind decoder f rest = _ at hresult
  unfold EStateM.bind at hresult
  split at hresult
  · rename_i value next hvalue
    obtain ⟨behind, hbehind, hnext⟩ := h rest twin value next hrest hvalue
    obtain ⟨last', hlast', hlast⟩ := hf value next behind result last hnext hresult
    refine ⟨last', ?_, hlast⟩
    change EStateM.bind other g twin = _
    rw [EStateM.bind, hbehind]
    exact hlast'
  · cases hresult

theorem readsShapes_peek_bind {f : Option Lexeme → Decoder α} (hnone : ReadsShapes (f none))
    (hsome : ∀ lexeme twin : Lexeme, lexeme.kind.shape = twin.kind.shape →
      Follows (f (some twin)) (f (some lexeme))) : ReadsShapes (peek >>= f) := by
  intro rest twin value next hrest h
  change EStateM.bind peek f rest = _ at h
  change ∃ last, EStateM.bind peek f twin = _ ∧ _
  unfold EStateM.bind at h ⊢
  cases hlexemes : rest.lexemes with
  | nil =>
      rw [hlexemes] at hrest
      have htwin : twin.lexemes = [] := List.map_eq_nil_iff.mp hrest.symm
      rw [peek_of_nil hlexemes] at h
      rw [peek_of_nil htwin]
      exact hnone _ _ value next (by simp [hlexemes, htwin]) h
  | cons lexeme lexemes =>
      rw [hlexemes] at hrest
      obtain ⟨other, others, htwin, hkind, hothers⟩ := List.map_eq_cons_iff.mp hrest.symm
      rw [peek_of_cons hlexemes] at h
      rw [peek_of_cons htwin]
      refine hsome _ _ hkind.symm _ _ value next ?_ h
      simp [shapes, hlexemes, htwin, hkind, hothers]

theorem follows_eat (lexeme twin : Lexeme) : Follows (eat twin) (eat lexeme) := by
  intro rest twin value next hrest h
  cases h
  refine ⟨_, rfl, ?_⟩
  simpa [shapes, List.map_tail] using congrArg List.tail hrest

theorem readsShapes_count : ReadsShapes count := by
  intro rest twin value next hrest h
  cases h
  have hlength : rest.lexemes.length = twin.lexemes.length := by
    simpa [shapes] using congrArg List.length hrest
  exact ⟨twin, by rw [hlength]; rfl, hrest⟩

/-- A decoder that fails where the next lexeme holds an error. -/
theorem readsShapes_peek_or_fail {f : Option Lexeme → Decoder α} (hnone : ReadsShapes (f none))
    (hfaulty : ∀ kind start ahead stop, kind.IsFaulty → Fails (f (some ⟨kind, start, ahead, stop⟩)))
    (hsame : ∀ lexeme twin : Lexeme, lexeme.kind = twin.kind →
      Follows (f (some twin)) (f (some lexeme))) : ReadsShapes (peek >>= f) := by
  refine readsShapes_peek_bind hnone fun lexeme twin hshape => ?_
  rcases lexeme.kind.eq_or_isFaulty hshape with heq | ⟨hlexeme, -⟩
  · exact hsame lexeme twin heq
  · exact (hfaulty _ _ _ _ hlexeme).follows

/-- A decoder that goes on in one way where the next lexeme holds an error. -/
theorem readsShapes_peek_or {f : Option Lexeme → Decoder α} {onwards : Decoder α}
    (hnone : ReadsShapes (f none)) (honwards : ReadsShapes onwards)
    (hfaulty : ∀ kind start ahead stop, kind.IsFaulty → f (some ⟨kind, start, ahead, stop⟩) = onwards)
    (hsame : ∀ lexeme twin : Lexeme, lexeme.kind = twin.kind →
      Follows (f (some twin)) (f (some lexeme))) : ReadsShapes (peek >>= f) := by
  refine readsShapes_peek_bind hnone fun lexeme twin hshape => ?_
  rcases lexeme.kind.eq_or_isFaulty hshape with heq | ⟨hlexeme, htwin⟩
  · exact hsame lexeme twin heq
  · have hboth : f (some lexeme) = onwards ∧ f (some twin) = onwards :=
      ⟨hfaulty _ _ _ _ hlexeme, hfaulty _ _ _ _ htwin⟩
    rw [hboth.1, hboth.2]
    exact honwards

/-! ## Parts of documents -/

theorem readsShapes_closed {close : Decoder Unit} {inside : Decoder α} (hclose : ReadsShapes close)
    (h : ReadsShapes inside) : ReadsShapes (closed close inside) := by
  intro rest twin value last hrest hvalue
  unfold closed at hvalue ⊢
  split at hvalue
  · rename_i found next hfound
    obtain ⟨behind, hbehind, hnext⟩ := h rest twin found next hrest hfound
    have hend := hclose.bind fun _ => readsShapes_pure found
    unfold placed at hvalue
    split at hvalue
    · rename_i hresult
      cases hvalue
      obtain ⟨last', hlast', hlast⟩ := hend next behind value last hnext hresult
      refine ⟨last', ?_, hlast⟩
      rw [hbehind]
      simp only [placed]
      rw [hlast']
    · cases hvalue
  · split at hvalue <;> cases hvalue

theorem readsShapes_closeArray : ReadsShapes closeArray := by
  refine readsShapes_peek_or_fail (fails_failHere _).follows (fun kind _ _ _ h => ?_) fun lexeme twin h => ?_
  · cases h <;> exact fails_failAhead _ _
  · simp only [h]
    split
    · exact follows_eat _ _
    · refine (follows_eat _ _).bind fun _ => readsShapes_peek_or_fail (fails_failHere _).follows
        (fun kind _ _ _ h => ?_) fun lexeme twin h => ?_
      · cases h <;> exact fails_failAhead _ _
      · simp only [h]
        split <;> exact (fails_failAhead _ _).follows
    · exact (fails_failAhead _ _).follows

theorem readsShapes_closeObject : ReadsShapes closeObject := by
  refine readsShapes_peek_or_fail (fails_failHere _).follows (fun kind _ _ _ h => ?_) fun lexeme twin h => ?_
  · cases h <;> exact fails_failAhead _ _
  · simp only [h]
    split
    · exact follows_eat _ _
    · exact (fails_failAhead _ _).follows
    · exact (fails_failAhead _ _).follows

theorem readsShapes_colon : ReadsShapes colon := by
  refine readsShapes_peek_or_fail (fails_failHere _).follows (fun kind _ _ _ h => ?_) fun lexeme twin h => ?_
  · cases h <;> exact fails_failAhead _ _
  · simp only [h]
    split
    · exact follows_eat _ _
    · exact (fails_failAhead _ _).follows

/-! ## Values that are passed over -/

/-- A string or a number may be passed over even if it cannot be read. -/
theorem follows_skipScalar {lexeme twin : Lexeme} (h : lexeme.kind.shape = twin.kind.shape) :
    Follows (skipScalar twin) (skipScalar lexeme) := by
  obtain ⟨kind, _, _, _⟩ := lexeme
  obtain ⟨other, _, _, _⟩ := twin
  rcases kind.eq_or_isFaulty h with rfl | ⟨hkind, hother⟩
  · unfold skipScalar
    simp only
    split
    · exact (fails_failAhead _ _).follows
    · exact (fails_throw _).follows
    · exact follows_eat _ _
  · cases hkind with
    | broken isString reading skipping => exact (fails_throw _).follows
    | number e =>
        cases hother with
        | broken isString reading skipping => cases h
        | _ => exact follows_eat _ _
    | string e =>
        cases hother with
        | broken isString reading skipping => cases h
        | _ => exact follows_eat _ _

theorem follows_skipKey {lexeme twin : Lexeme} (h : lexeme.kind.shape = twin.kind.shape) :
    Follows (skipKey twin) (skipKey lexeme) := by
  obtain ⟨kind, _, _, _⟩ := lexeme
  obtain ⟨other, _, _, _⟩ := twin
  rcases kind.eq_or_isFaulty h with rfl | ⟨hkind, hother⟩
  · unfold skipKey
    simp only
    split
    · exact (follows_eat _ _).bind fun _ => readsShapes_colon
    · exact ((fails_throw _).bind _).follows
    · exact ((fails_failAhead _ _).bind _).follows
  · cases hkind with
    | broken isString reading skipping =>
        cases isString with
        | true => exact ((fails_throw _).bind _).follows
        | false => exact ((fails_failAhead _ _).bind _).follows
    | number e => exact ((fails_failAhead _ _).bind _).follows
    | string e =>
        cases hother with
        | string e' => exact (follows_eat _ _).bind fun _ => readsShapes_colon
        | _ => cases h

theorem readsShapes_skip_fuel (fuel : Nat) : ReadsShapes (skipValue fuel) ∧
    ReadsShapes (skipItems fuel) ∧ ReadsShapes (skipFields fuel) := by
  induction fuel with
  | zero =>
      unfold skipValue skipItems skipFields
      exact ⟨(fails_failHere _).follows, (fails_failHere _).follows, (fails_failHere _).follows⟩
  | succ fuel ih =>
      obtain ⟨hvalue, hitems, hfields⟩ := ih
      refine ⟨?_, ?_, ?_⟩
      · unfold skipValue
        refine readsShapes_peek_bind (fails_failHere _).follows fun lexeme twin h => ?_
        rcases lexeme.kind.eq_or_isFaulty h with heq | ⟨hlexeme, htwin⟩
        · simp only [heq]
          split
          · refine (follows_eat _ _).bind fun _ => readsShapes_peek_or (fails_failHere _).follows hitems
              (fun kind _ _ _ h => by cases h <;> rfl) fun lexeme twin h => ?_
            simp only [h]
            split
            · exact follows_eat _ _
            · exact hitems
          · refine (follows_eat _ _).bind fun _ => readsShapes_peek_or (fails_failHere _).follows hfields
              (fun kind _ _ _ h => by cases h <;> rfl) fun lexeme twin h => ?_
            simp only [h]
            split
            · exact follows_eat _ _
            · exact hfields
          · exact follows_skipScalar h
        · obtain ⟨kind, _, _, _⟩ := lexeme
          obtain ⟨other, _, _, _⟩ := twin
          cases hlexeme <;> cases htwin <;> exact follows_skipScalar h
      · unfold skipItems
        refine hvalue.bind fun _ => readsShapes_peek_or_fail (fails_failHere _).follows
          (fun kind _ _ _ h => ?_) fun lexeme twin h => ?_
        · cases h <;> exact fails_failAhead _ _
        · simp only [h]
          split
          · exact (follows_eat _ _).bind fun _ => hitems
          · exact follows_eat _ _
          · exact (fails_failAhead _ _).follows
      · unfold skipFields
        refine readsShapes_peek_bind ((fails_failHere _).bind _).follows fun lexeme twin h =>
          (follows_skipKey h).bind fun _ => hvalue.bind fun _ =>
            readsShapes_peek_or_fail (fails_failHere _).follows (fun kind _ _ _ h => ?_) fun lexeme twin h => ?_
        · cases h <;> exact fails_failAhead _ _
        · simp only [h]
          split
          · exact (follows_eat _ _).bind fun _ => hfields
          · exact follows_eat _ _
          · exact (fails_failAhead _ _).follows

theorem readsShapes_skip : ReadsShapes skip :=
  readsShapes_count.bind fun count => (readsShapes_skip_fuel (2 * count + 2)).1

/-! ## Scalars -/

theorem follows_readString {lexeme twin : Lexeme} (h : lexeme.kind = twin.kind) :
    Follows (readString twin) (readString lexeme) := by
  unfold readString
  simp only [h]
  split
  · exact (follows_eat _ _).bind fun _ => readsShapes_pure _
  · exact (fails_throw _).follows
  · exact (fails_throw _).follows
  · exact (fails_failAhead _ _).follows

/-- A mismatch gives nothing. -/
theorem fails_mismatch (lexeme : Lexeme) (expected : String) :
    Fails (mismatch lexeme expected : Decoder α) := by
  have heat : ∀ f : Unit → Decoder α, (∀ u, Fails (f u)) → Fails (eat lexeme >>= f) := by
    intro f hf rest value next h
    exact hf () _ value next h
  unfold mismatch
  split
  · exact fails_failHere _
  · exact fails_failHere _
  · exact fails_failAhead _ _
  · exact heat _ fun _ => fails_failHere _
  · exact heat _ fun _ => fails_failHere _
  · exact heat _ fun _ => fails_failHere _
  · exact heat _ fun _ => fails_failHere _
  · exact heat _ fun _ => fails_failHere _
  · exact heat _ fun _ => fails_failHere _
  · exact fails_throw _
  · exact fails_throw _
  · exact fails_throw _

/-- A decoder of a value that fails where the next lexeme holds an error. -/
theorem readsShapes_peekValue_or_fail {f : Lexeme → Decoder α}
    (hfaulty : ∀ kind start ahead stop, kind.IsFaulty → Fails (f ⟨kind, start, ahead, stop⟩))
    (hsame : ∀ lexeme twin : Lexeme, lexeme.kind = twin.kind → Follows (f twin) (f lexeme)) :
    ReadsShapes (peekValue >>= f) := by
  rw [peekValue_bind]
  exact readsShapes_peek_or_fail (fails_failHere _).follows hfaulty hsame

theorem readsShapes_string : ReadsShapes string := by
  refine readsShapes_peekValue_or_fail (fun kind _ _ _ h => ?_) fun lexeme twin hkind => ?_
  · cases h with
    | number e => exact fails_mismatch _ _
    | string e => exact fails_throw _
    | broken isString reading skipping =>
        cases isString with
        | true => exact fails_throw _
        | false => exact fails_mismatch _ _
  · simp only [hkind]
    split
    · exact follows_readString hkind
    · exact follows_readString hkind
    · exact (fails_mismatch _ _).follows

theorem readsShapes_optional {decoder : Decoder α} (h : ReadsShapes decoder) :
    ReadsShapes (optional decoder) := by
  have hsome : ReadsShapes (do return some (← decoder)) :=
    h.bind fun value => readsShapes_pure _
  refine readsShapes_peek_or hsome hsome (fun kind _ _ _ h => by cases h <;> rfl) fun lexeme twin h => ?_
  simp only [h]
  split
  · exact (follows_eat _ _).bind fun _ => readsShapes_pure _
  · exact hsome

/-! ## Containers -/

theorem readsShapes_hasItem (isFirst : Bool) : ReadsShapes (hasItem isFirst) := by
  cases isFirst with
  | true =>
      refine readsShapes_peek_or (fails_failHere _).follows (readsShapes_pure true)
        (fun kind _ _ _ h => by cases h <;> rfl) fun lexeme twin h => ?_
      simp only [h]
      split <;> exact readsShapes_pure _
  | false =>
      refine readsShapes_peek_or_fail (fails_failHere _).follows (fun kind _ _ _ h => ?_) fun lexeme twin h => ?_
      · cases h <;> exact fails_failAhead _ _
      · simp only [h]
        split
        · exact readsShapes_pure _
        · refine (follows_eat _ _).bind fun _ => readsShapes_peek_or (fails_failHere _).follows
            (readsShapes_pure true) (fun kind _ _ _ h => by cases h <;> rfl) fun lexeme twin h => ?_
          simp only [h]
          split
          · exact (fails_failAhead _ _).follows
          · exact readsShapes_pure _
        · exact (fails_failAhead _ _).follows

theorem readsShapes_nextItem (isFirst : Bool) {item : Decoder α} (h : ReadsShapes item) :
    ReadsShapes (nextItem isFirst item) := by
  refine (readsShapes_hasItem isFirst).bind fun more => ?_
  split
  · exact h.bind fun value => readsShapes_pure _
  · exact readsShapes_pure _

theorem readsShapes_items {item : Decoder α} (h : ReadsShapes item) (isFirst : Bool) (fuel : Nat) :
    ReadsShapes (items item isFirst fuel) := by
  induction fuel generalizing isFirst with
  | zero => exact readsShapes_pure _
  | succ fuel ih =>
      refine (readsShapes_nextItem isFirst h).bind fun found => ?_
      cases found with
      | none => exact readsShapes_pure _
      | some value => exact (ih false).bind fun values => readsShapes_pure _

theorem readsShapes_nextKey (isFirst : Bool) : ReadsShapes (nextKey isFirst) := by
  have hkey : ∀ lexeme twin : Lexeme, lexeme.kind = twin.kind →
      Follows (do return some (← readString twin)) (do return some (← readString lexeme)) :=
    fun lexeme twin h => (follows_readString h).bind fun key => readsShapes_pure _
  refine readsShapes_peek_or_fail (fails_failHere _).follows (fun kind _ _ _ h => ?_) fun lexeme twin h => ?_
  · cases isFirst with
    | false =>
        cases h with
        | broken isString reading skipping => cases isString <;> exact fails_failAhead _ _
        | _ => exact fails_failAhead _ _
    | true =>
        cases h with
        | number e => exact fails_failAhead _ _
        | string e => exact (fails_throw _).bind _
        | broken isString reading skipping =>
            cases isString with
            | true => exact (fails_throw _).bind _
            | false => exact fails_failAhead _ _
  · simp only [h]
    split
    · exact readsShapes_pure _
    · split
      · exact (fails_failAhead _ _).follows
      · refine (follows_eat _ _).bind fun _ => readsShapes_peek_or_fail (fails_failHere _).follows
          (fun kind _ _ _ h => ?_) fun lexeme twin h => ?_
        · cases h with
          | number e => exact fails_failAhead _ _
          | string e => exact (fails_throw _).bind _
          | broken isString reading skipping =>
              cases isString with
              | true => exact (fails_throw _).bind _
              | false => exact fails_failAhead _ _
        · simp only [h]
          split
          · exact hkey lexeme twin h
          · exact hkey lexeme twin h
          · exact (fails_failAhead _ _).follows
          · exact (fails_failAhead _ _).follows
    · split
      · exact hkey lexeme twin h
      · exact (fails_failAhead _ _).follows
    · split
      · exact hkey lexeme twin h
      · exact (fails_failAhead _ _).follows
    · split
      · exact (fails_failAhead _ _).follows
      · exact (fails_failAhead _ _).follows

theorem readsShapes_entries {σ : Type} {step : σ → String → Decoder σ}
    (hstep : ∀ state key, ReadsShapes (step state key)) (isFirst : Bool) (fuel : Nat)
    (state : σ) : ReadsShapes (entries step isFirst fuel state) := by
  induction fuel generalizing isFirst state with
  | zero => exact readsShapes_pure _
  | succ fuel ih =>
      refine (readsShapes_nextKey isFirst).bind fun found => ?_
      cases found with
      | none => exact readsShapes_pure _
      | some key => exact (hstep state key).bind fun next => ih false next

theorem follows_enter (room : Nat) (lexeme twin : Lexeme) {close : Decoder Unit}
    (hclose : ReadsShapes close) {inside : Nat → Decoder α}
    (h : ∀ left, ReadsShapes (inside left)) :
    Follows (enter room twin close inside) (enter room lexeme close inside) := by
  unfold enter
  split
  · exact (fails_failAhead _ _).follows
  · exact (follows_eat _ _).bind fun _ => readsShapes_closed hclose (h _)

theorem readsShapes_list (room : Nat) {item : Nat → Decoder α} (h : ∀ left, ReadsShapes (item left)) :
    ReadsShapes (list room item) := by
  refine readsShapes_peekValue_or_fail (fun kind _ _ _ h => ?_) fun lexeme twin hkind => ?_
  · cases h <;> exact fails_mismatch _ _
  · simp only [hkind]
    split
    · exact follows_enter room lexeme twin readsShapes_closeArray fun left =>
        readsShapes_count.bind fun count => readsShapes_items (h left) true count
    · exact (fails_mismatch _ _).follows

theorem readsShapes_map (room : Nat) {value : Nat → Decoder α} (h : ∀ left, ReadsShapes (value left)) :
    ReadsShapes (map room value) := by
  refine readsShapes_peekValue_or_fail (fun kind _ _ _ h => ?_) fun lexeme twin hkind => ?_
  · cases h <;> exact fails_mismatch _ _
  · simp only [hkind]
    split
    · refine follows_enter room lexeme twin readsShapes_closeObject fun left => ?_
      refine readsShapes_count.bind fun count => readsShapes_entries (fun state key => ?_) true count []
      exact readsShapes_colon.bind fun _ => (h left).bind fun found => readsShapes_pure _
    · exact (fails_mismatch _ _).follows

/-- A record looks at shapes only if its fields, its items and its end do. -/
theorem readsShapes_record {σ : Type} (room : Nat) (r : Record σ α)
    (hfield : ∀ left state key, ReadsShapes (r.field left state key))
    (hfinish : ∀ state, ReadsShapes (r.finish state))
    (hitems : ∀ items ∈ r.items, ∀ left, ReadsShapes (items left)) :
    ReadsShapes (record room r) := by
  refine readsShapes_peekValue_or_fail (fun kind _ _ _ h => ?_) fun lexeme twin hkind => ?_
  · cases h <;> exact fails_mismatch _ _
  · simp only [hkind]
    split
    · rename_i items _ hcase
      exact follows_enter room lexeme twin readsShapes_closeArray fun left => hitems items hcase left
    · exact follows_enter room lexeme twin readsShapes_closeObject fun left => readsShapes_count.bind fun count =>
        (readsShapes_entries (hfield left) true count r.start).bind fun state => hfinish state
    · exact (fails_mismatch _ _).follows

theorem readsShapes_onlyOnce (field : Option α) (name : String) :
    ReadsShapes (onlyOnce field name) := by
  unfold onlyOnce
  split
  · exact (fails_failLoose _).follows
  · exact readsShapes_pure _

theorem readsShapes_value_step {room : Nat}
    (ih : ∀ left, room = left + 1 → ReadsShapes (value left)) :
    ReadsShapes (value room) := by
  have heat : ∀ (lexeme twin : Lexeme) (found : Json),
      Follows (do eat twin; return found) (do eat lexeme; return found) :=
    fun lexeme twin found => (follows_eat lexeme twin).bind fun _ => readsShapes_pure _
  unfold value
  refine readsShapes_peekValue_or_fail (fun kind _ _ _ h => ?_) fun lexeme twin hkind => ?_
  · cases h <;> exact fails_throw _
  · simp only [hkind]
    split
    · exact heat lexeme twin .null
    · exact heat lexeme twin (.bool true)
    · exact heat lexeme twin (.bool false)
    · exact heat lexeme twin (.int _)
    · exact heat lexeme twin (.float _)
    · exact heat lexeme twin (.string _)
    · exact (fails_throw _).follows
    · exact (fails_throw _).follows
    · exact (fails_throw _).follows
    · cases room with
      | zero => exact (fails_failAhead _ _).follows
      | succ left =>
          refine (follows_eat _ _).bind fun _ => readsShapes_closed readsShapes_closeArray ?_
          exact readsShapes_count.bind fun count => (readsShapes_items (ih left rfl) true count).bind fun items =>
            readsShapes_pure _
    · cases room with
      | zero => exact (fails_failAhead _ _).follows
      | succ left =>
          refine (follows_eat _ _).bind fun _ => readsShapes_closed readsShapes_closeObject ?_
          refine readsShapes_count.bind fun count => (readsShapes_entries (fun state key => ?_) true count []).bind
            fun entries => readsShapes_pure _
          exact readsShapes_colon.bind fun _ => (ih left rfl).bind fun found => readsShapes_pure _
    · exact (fails_failAhead _ _).follows

theorem readsShapes_value (room : Nat) : ReadsShapes (value room) := by
  induction room with
  | zero => exact readsShapes_value_step fun left h => absurd h.symm (Nat.succ_ne_zero left)
  | succ room ih =>
      refine readsShapes_value_step fun left h => ?_
      obtain rfl := Nat.succ.inj h
      exact ih

theorem readsShapes_endOfText : ReadsShapes endOfText := by
  refine readsShapes_peek_bind (readsShapes_pure _) fun lexeme twin _ => (fails_failAhead _ _).follows

/-- Documents that show the same are decoded as the same. -/
theorem run_of_shapes {decoder : Nat → Decoder α} (h : ReadsShapes (decoder depthLimit))
    {text other : String}
    (hshapes : shapes (cut Spot.first text.toList).1 = shapes (cut Spot.first other.toList).1) {found : α}
    (hrun : run decoder text = .ok found) : run decoder other = .ok found := by
  have hall : ReadsShapes (do let found ← decoder depthLimit; endOfText; return found) :=
    h.bind fun found => readsShapes_endOfText.bind fun _ => readsShapes_pure found
  simp only [run] at hrun ⊢
  split at hrun
  · rename_i value next hvalue
    cases hrun
    obtain ⟨last, hlast, -⟩ := hall _ ⟨(cut Spot.first other.toList).1, Spot.first,
      (cut Spot.first other.toList).2⟩ _ _ hshapes hvalue
    rw [hlast]
  · cases hrun

end Json.Decoder

end ScopedCheck
