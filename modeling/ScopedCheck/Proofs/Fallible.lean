import Mathlib.Data.List.Forall2
/-! # Computations that may fail

What is known once such a computation has succeeded. -/

namespace ScopedCheck.Fallible

variable {ε α β σ : Type}

/-- A chain succeeds when both of its steps do. -/
theorem bind_eq_ok_iff {x : Except ε α} {f : α → Except ε β} {b : β} :
    x >>= f = .ok b ↔ ∃ a, x = .ok a ∧ f a = .ok b := by
  cases x with
  | error e => simp [bind, Except.bind]
  | ok a => simp [bind, Except.bind]

/-- A chain fails when its first step does, or its second one behind it. -/
theorem bind_eq_error_iff {x : Except ε α} {f : α → Except ε β} {e : ε} :
    x >>= f = .error e ↔ x = .error e ∨ ∃ a, x = .ok a ∧ f a = .error e := by
  cases x with
  | error e => simp [bind, Except.bind]
  | ok a => simp [bind, Except.bind]

theorem map_eq_error_iff {f : α → β} {x : Except ε α} {e : ε} : x.map f = .error e ↔ x = .error e := by
  cases x with
  | error e => simp [Except.map]
  | ok a => simp [Except.map]

theorem mapError_eq_ok_iff {δ : Type} {f : ε → δ} {x : Except ε α} {a : α} :
    x.mapError f = .ok a ↔ x = .ok a := by
  cases x with
  | error e =>
      constructor
      · intro h
        cases h
      · intro h
        cases h
  | ok b =>
      constructor
      · intro h
        cases h
        rfl
      · intro h
        cases h
        rfl

theorem mapError_ok {δ : Type} (f : ε → δ) (a : α) : (Except.ok a).mapError f = .ok a := rfl

/-- What is said about the result of a computation, if there is one, is said about a result. -/
theorem exists_of_toOption {x : Except ε α} {f : α → β} {b : β}
    (h : x.toOption.map f = some b) : ∃ a, x = .ok a ∧ f a = b := by
  cases x with
  | error e => simp [Except.toOption] at h
  | ok a => exact ⟨a, rfl, by simpa [Except.toOption] using h⟩

theorem toOption_eq_some_iff {x : Except ε α} {a : α} : x.toOption = some a ↔ x = .ok a := by
  cases x <;> simp [Except.toOption]

theorem of_toOption {x : Except ε α} {f : α → β} {a : α} {b : β} (hx : x = .ok a)
    (h : x.toOption.map f = some b) : f a = b := by
  subst hx
  simpa [Except.toOption] using h

/-- A computation that succeeds on all elements of a list succeeds on the list, and yields what it
yields on the elements. -/
theorem mem_of_mapM {f : α → Except ε β} {xs : List α} {ys : List β} (h : xs.mapM f = .ok ys) {y : β}
    (hy : y ∈ ys) : ∃ x ∈ xs, f x = .ok y := by
  induction xs generalizing ys with
  | nil =>
      obtain rfl : [] = ys := Except.ok.inj h
      cases hy
  | cons x xs ih =>
      rw [List.mapM_cons] at h
      obtain ⟨first, hfirst, h⟩ := bind_eq_ok_iff.mp h
      obtain ⟨rest, hrest, h⟩ := bind_eq_ok_iff.mp h
      obtain rfl := Except.ok.inj h
      rcases List.mem_cons.mp hy with rfl | hmem
      · exact ⟨x, List.mem_cons_self .., hfirst⟩
      · obtain ⟨found, hfound, hvalue⟩ := ih hrest hmem
        exact ⟨found, List.mem_cons_of_mem _ hfound, hvalue⟩

theorem exists_of_mapM {f : α → Except ε β} {xs : List α} {ys : List β} (h : xs.mapM f = .ok ys) {x : α}
    (hx : x ∈ xs) : ∃ y ∈ ys, f x = .ok y := by
  induction xs generalizing ys with
  | nil => cases hx
  | cons first xs ih =>
      rw [List.mapM_cons] at h
      obtain ⟨y, hy, h⟩ := bind_eq_ok_iff.mp h
      obtain ⟨rest, hrest, h⟩ := bind_eq_ok_iff.mp h
      obtain rfl := Except.ok.inj h
      rcases List.mem_cons.mp hx with rfl | hmem
      · exact ⟨y, List.mem_cons_self .., hy⟩
      · obtain ⟨found, hfound, hvalue⟩ := ih hrest hmem
        exact ⟨found, List.mem_cons_of_mem _ hfound, hvalue⟩

/-- Computations that are alike on all elements of a list are alike on the list. -/
theorem mapM_congr {f g : α → Except ε β} {xs : List α} (h : ∀ x ∈ xs, f x = g x) :
    xs.mapM f = xs.mapM g := by
  induction xs with
  | nil => rfl
  | cons x xs ih =>
      rw [List.mapM_cons, List.mapM_cons, h x (List.mem_cons_self ..),
        ih fun y hy => h y (List.mem_cons_of_mem _ hy)]

theorem exists_mapM {f : α → Except ε β} (xs : List α) (h : ∀ x ∈ xs, ∃ y, f x = .ok y) :
    ∃ ys, xs.mapM f = .ok ys ∧ ∀ y, y ∈ ys ↔ ∃ x ∈ xs, f x = .ok y := by
  induction xs with
  | nil => exact ⟨[], rfl, by simp⟩
  | cons x xs ih =>
      obtain ⟨y, hy⟩ := h x (List.mem_cons_self ..)
      obtain ⟨ys, hys, hmem⟩ := ih fun x hx => h x (List.mem_cons_of_mem _ hx)
      refine ⟨y :: ys, ?_, fun z => ?_⟩
      · simp only [List.mapM_cons, hy, hys]
        rfl
      · simp [hmem, hy, eq_comm]

/-- The first failure is the failure of all: what stands behind it is not reached. -/
theorem mapM_eq_error {f : α → Except ε β} {front rear : List α} {x : α} {e : ε}
    (hfront : ∀ y ∈ front, ∃ z, f y = .ok z) (h : f x = .error e) :
    (front ++ x :: rear).mapM f = .error e := by
  induction front with
  | nil =>
      rw [List.nil_append, List.mapM_cons, h]
      rfl
  | cons y front ih =>
      obtain ⟨z, hz⟩ := hfront y (List.mem_cons_self ..)
      rw [List.cons_append, List.mapM_cons, hz, ih fun other hother =>
        hfront other (List.mem_cons_of_mem _ hother)]
      rfl

/-- A fold that may stop gives what the plain fold gives, if no step stops it. -/
theorem foldlM_eq_ok_iff {f : β → α → Except ε β} {g : β → α → β} {P : α → Prop}
    (h : ∀ b a c, f b a = .ok c ↔ P a ∧ g b a = c) {xs : List α} {b c : β} :
    xs.foldlM f b = .ok c ↔ (∀ a ∈ xs, P a) ∧ xs.foldl g b = c := by
  induction xs generalizing b with
  | nil => simp [pure, Except.pure]
  | cons a xs ih =>
      rw [List.foldlM_cons, bind_eq_ok_iff]
      simp [h, ih, and_assoc]

/-- A fold stops with the first step that does. -/
theorem foldlM_eq_error {f : β → α → Except ε β} {front rear : List α} {x : α} {b : β} {e : ε}
    (hfront : ∀ c, ∀ y ∈ front, ∃ d, f c y = .ok d) (h : ∀ c, f c x = .error e) :
    (front ++ x :: rear).foldlM f b = .error e := by
  induction front generalizing b with
  | nil =>
      rw [List.nil_append, List.foldlM_cons, h]
      rfl
  | cons y front ih =>
      obtain ⟨d, hd⟩ := hfront b y (List.mem_cons_self ..)
      rw [List.cons_append, List.foldlM_cons, hd]
      exact ih fun c z hz => hfront c z (List.mem_cons_of_mem _ hz)

/-! ## Failures -/

/-- Whether a computation fails. -/
def Fails (x : Except ε α) : Prop := ∃ e, x = .error e

theorem not_fails_iff {x : Except ε α} : ¬Fails x ↔ ∃ a, x = .ok a := by
  cases x <;> simp [Fails]

theorem not_fails_of_ok {x : Except ε α} {a : α} (h : x = .ok a) : ¬Fails x :=
  not_fails_iff.mpr ⟨a, h⟩

/-- A chain fails when one of its steps does. -/
theorem fails_bind_iff {x : Except ε α} {f : α → Except ε β} :
    Fails (x >>= f) ↔ Fails x ∨ ∃ a, x = .ok a ∧ Fails (f a) := by
  cases x <;> simp [Fails, bind, Except.bind]

/-- What is made of a value in the end cannot fail. -/
theorem fails_bind_pure_iff {x : Except ε α} {g : α → β} :
    Fails (x >>= fun a => pure (g a)) ↔ Fails x := by
  cases x <;> simp [Fails, bind, Except.bind, pure, Except.pure]

/-- A computation fails on a list when it fails on one of the elements. -/
theorem fails_mapM_iff {f : α → Except ε β} {xs : List α} :
    Fails (xs.mapM f) ↔ ∃ x ∈ xs, Fails (f x) := by
  induction xs with
  | nil => simp [Fails, pure, Except.pure]
  | cons x xs ih =>
      have hlast : ∀ y ys, ¬Fails (pure (y :: ys) : Except ε (List β)) :=
        fun _ _ => not_fails_of_ok rfl
      simp only [List.mapM_cons, fails_bind_iff, hlast, and_false, exists_const, or_false, ih,
        List.mem_cons, or_and_right, exists_or, exists_eq_left]
      cases hx : f x with
      | error e => simp [Fails]
      | ok y => simp [Fails]

/-! ## Computations that belong together -/

/-- Two computations both fail, or they yield values that belong together. -/
inductive Together {γ : Type} (R : α → γ → Prop) : Except ε α → Except ε γ → Prop
  | fail (e e' : ε) : Together R (.error e) (.error e')
  | yield {a : α} {c : γ} (h : R a c) : Together R (.ok a) (.ok c)

theorem Together.bind {γ δ : Type} {R : α → γ → Prop} {S : β → δ → Prop} {x : Except ε α} {y : Except ε γ}
    {f : α → Except ε β} {g : γ → Except ε δ} (h : Together R x y)
    (hrest : ∀ a c, R a c → Together S (f a) (g c)) : Together S (x >>= f) (y >>= g) := by
  cases h with
  | fail e e' => exact .fail e e'
  | yield h => exact hrest _ _ h

theorem Together.map {γ δ : Type} {R : α → γ → Prop} {S : β → δ → Prop} {x : Except ε α} {y : Except ε γ}
    {f : α → β} {g : γ → δ} (h : Together R x y) (hrest : ∀ a c, R a c → S (f a) (g c)) :
    Together S (x.map f) (y.map g) := by
  cases h with
  | fail e e' => exact .fail e e'
  | yield h => exact .yield (hrest _ _ h)

/-- Computations that belong together on the elements of two lists do so on the lists. -/
theorem together_mapM {γ δ : Type} {R : β → δ → Prop} {f : α → Except ε β} {g : γ → Except ε δ} {xs : List α}
    {ys : List γ} (h : List.Forall₂ (fun x y => Together R (f x) (g y)) xs ys) :
    Together (List.Forall₂ R) (xs.mapM f) (ys.mapM g) := by
  induction h with
  | nil => exact .yield .nil
  | cons hfirst _ ih =>
      rw [List.mapM_cons, List.mapM_cons]
      exact hfirst.bind fun a c hac => ih.bind fun as cs hall => .yield (.cons hac hall)

end ScopedCheck.Fallible
