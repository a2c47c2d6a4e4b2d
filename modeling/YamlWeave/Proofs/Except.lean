import Mathlib.Data.List.Forall2

/-!
# Steps that may fail

How a row of steps that may fail came out, read off its outcome. A row succeeds when every step
does (`mapM_eq_ok`), and fails as the first step does that fails (`failure?_mapM`), so the steps
after that one do not count.
-/

set_option autoImplicit false

namespace YamlWeave

variable {ε α β : Type}

/-- Two steps succeed exactly when the first does and the second does with what it gave. Nearly
every law about a computation with failures is taken apart by this equation and the next one, so no
proof unfolds the monad. -/
theorem bind_eq_ok {x : Except ε α} {f : α → Except ε β} {b : β} :
    (x >>= f) = .ok b ↔ ∃ a, x = .ok a ∧ f a = .ok b := by
  cases x <;> simp [bind, Except.bind]

/-- Two steps fail as the first one does, or as the second does after the first succeeded. The order
of failures comes down to this. -/
theorem bind_eq_error {x : Except ε α} {f : α → Except ε β} {e : ε} :
    (x >>= f) = .error e ↔ x = .error e ∨ ∃ a, x = .ok a ∧ f a = .error e := by
  cases x <;> simp [bind, Except.bind]

theorem map_eq_ok {f : α → β} {x : Except ε α} {b : β} :
    f <$> x = .ok b ↔ ∃ a, x = .ok a ∧ f a = b := by
  cases x <;> simp [Functor.map, Except.map]

theorem map_eq_error {f : α → β} {x : Except ε α} {e : ε} :
    f <$> x = .error e ↔ x = .error e := by
  cases x <;> simp [Functor.map, Except.map]

/-- Two steps succeed with something. The form without a value is what laws about success alone are
stated with. -/
theorem exists_bind_eq_ok {x : Except ε α} {f : α → Except ε β} :
    (∃ b, (x >>= f) = .ok b) ↔ ∃ a, x = .ok a ∧ ∃ b, f a = .ok b := by
  cases x <;> simp [bind, Except.bind]

theorem exists_map_eq_ok {f : α → β} {x : Except ε α} :
    (∃ b, f <$> x = .ok b) ↔ ∃ a, x = .ok a := by
  cases x <;> simp [Functor.map, Except.map]

/-- Putting another failure in place of the own one does not touch success. -/
theorem mapError_eq_ok {ε' : Type} {f : ε → ε'} {x : Except ε α} {a : α} :
    x.mapError f = .ok a ↔ x = .ok a := by
  cases x <;> simp [Except.mapError]

theorem mapError_eq_error {ε' : Type} {f : ε → ε'} {x : Except ε α} {e' : ε'} :
    x.mapError f = .error e' ↔ ∃ e, x = .error e ∧ f e = e' := by
  cases x <;> simp [Except.mapError]

/-- What holds of an element as soon as it holds of all before it holds of every element. Files of a
list are loaded from left to right, so a law about one of them may take for granted that those
before it were loaded. -/
theorem forall_mem_of_front {P : α → Prop} {l : List α}
    (h : ∀ front a back, l = front ++ a :: back → (∀ x ∈ front, P x) → P a) : ∀ a ∈ l, P a := by
  induction l with
  | nil => exact fun a ha => absurd ha List.not_mem_nil
  | cons y l ih =>
    have hy : P y := h [] y l rfl fun x hx => absurd hx List.not_mem_nil
    have hl : ∀ a ∈ l, P a := ih fun front a back hsplit hfront =>
      h (y :: front) a back (congrArg (y :: ·) hsplit) (List.forall_mem_cons.mpr ⟨hy, hfront⟩)
    exact List.forall_mem_cons.mpr ⟨hy, hl⟩

/-- Rows of steps that agree wherever every step before succeeded have one outcome. Steps behind the
first failure are not compared, because they are not taken. -/
theorem mapM_congr_of_reached {f g : α → Except ε β} {l : List α}
    (h : ∀ front a back, l = front ++ a :: back → (∀ x ∈ front, ∃ b, f x = .ok b) → g a = f a) :
    l.mapM g = l.mapM f := by
  induction l with
  | nil => rfl
  | cons a l ih =>
    have ha : g a = f a := h [] a l rfl fun x hx => absurd hx List.not_mem_nil
    rw [List.mapM_cons, List.mapM_cons, ha]
    cases hfa : f a with
    | error e => rfl
    | ok b =>
      rw [ih fun front c back hsplit hfront => ?_]
      refine h (a :: front) c back (congrArg (a :: ·) hsplit) ?_
      intro x hx
      rcases List.mem_cons.mp hx with rfl | hx
      · exact ⟨b, hfa⟩
      · exact hfront x hx

/-- A row of steps succeeds exactly when every step does, and gives what the steps give, place by
place. -/
theorem mapM_eq_ok {f : α → Except ε β} {l : List α} {bs : List β} :
    l.mapM f = .ok bs ↔ List.Forall₂ (fun a b => f a = .ok b) l bs := by
  induction l generalizing bs with
  | nil =>
    rw [List.mapM_nil, List.forall₂_nil_left_iff]
    exact ⟨fun h => (Except.ok.inj h).symm, fun h => congrArg Except.ok h.symm⟩
  | cons a l ih =>
    rw [List.mapM_cons, bind_eq_ok, List.forall₂_cons_left_iff]
    constructor
    · rintro ⟨b, hb, h⟩
      obtain ⟨rest, hrest, heq⟩ := bind_eq_ok.mp h
      cases heq
      exact ⟨b, rest, hb, ih.mp hrest, rfl⟩
    · rintro ⟨b, rest, hb, hrest, rfl⟩
      exact ⟨b, hb, bind_eq_ok.mpr ⟨rest, ih.mpr hrest, rfl⟩⟩

/-! ## The first failure -/

/-- The failure that a step ends with, when it does. -/
def failure? : Except ε α → Option ε
  | .ok _ => none
  | .error e => some e

@[simp] theorem failure?_ok (a : α) : failure? (.ok a : Except ε α) = none := rfl

@[simp] theorem failure?_error (e : ε) : failure? (.error e : Except ε α) = some e := rfl

theorem failure?_eq_some {x : Except ε α} {e : ε} : failure? x = some e ↔ x = .error e := by
  cases x <;> simp [failure?]

theorem failure?_eq_none {x : Except ε α} : failure? x = none ↔ ∃ a, x = .ok a := by
  cases x <;> simp [failure?]

@[simp] theorem failure?_map {f : α → β} {x : Except ε α} : failure? (f <$> x) = failure? x := by
  cases x <;> rfl

/-- The failure of a row of steps is the first one in it. With this, `mapM_eq_error` and the order
in which nodes are refused are facts about finding in lists. -/
theorem failure?_mapM {f : α → Except ε β} {l : List α} :
    failure? (l.mapM f) = l.findSome? fun a => failure? (f a) := by
  induction l with
  | nil => rfl
  | cons a l ih =>
    rw [List.mapM_cons, List.findSome?_cons, ← ih]
    cases f a with
    | error e => rfl
    | ok b => cases l.mapM f <;> rfl

/-- A row of steps fails exactly as its first failing step does. All steps before it succeed, and
nothing is said of those behind it. -/
theorem mapM_eq_error {f : α → Except ε β} {l : List α} {e : ε} :
    l.mapM f = .error e ↔ ∃ front a back, l = front ++ a :: back ∧
      (∀ x ∈ front, ∃ b, f x = .ok b) ∧ f a = .error e := by
  rw [← failure?_eq_some, failure?_mapM, List.findSome?_eq_some_iff]
  simp only [failure?_eq_some, failure?_eq_none, and_comm]

/-- Searches that agree on every element of a list find the same in it. -/
theorem findSome?_congr {f g : α → Option ε} {l : List α} (h : ∀ a ∈ l, f a = g a) :
    l.findSome? f = l.findSome? g := by
  induction l with
  | nil => rfl
  | cons a l ih =>
    obtain ⟨ha, hl⟩ := List.forall_mem_cons.mp h
    rw [List.findSome?_cons, List.findSome?_cons, ha, ih hl]

/-- The first find in lists, one after the other, is that of the first list in which there is one.
It takes the order of nodes in a whole value apart into the orders in its parts. -/
theorem findSome?_flatMap {f : β → Option ε} {g : α → List β} {l : List α} :
    (l.flatMap g).findSome? f = l.findSome? fun a => (g a).findSome? f := by
  induction l with
  | nil => rfl
  | cons a l ih =>
    rw [List.flatMap_cons, List.findSome?_append, ih, List.findSome?_cons]
    cases (g a).findSome? f <;> rfl

/-! ## What comes from where -/

/-- Where two lists stand in a relation, everything on the right has something on the left. Order is
lost on purpose, since the laws that use this only ask where an entry comes from. -/
theorem exists_left_of_forall₂ {R : α → β → Prop} {l : List α} {bs : List β}
    (h : List.Forall₂ R l bs) {b : β} (hb : b ∈ bs) : ∃ a ∈ l, R a b := by
  induction h with
  | nil => exact absurd hb List.not_mem_nil
  | @cons a c l cs hc _ ih =>
    rcases List.mem_cons.mp hb with rfl | hb
    · exact ⟨a, List.mem_cons_self, hc⟩
    · obtain ⟨x, hx, hR⟩ := ih hb
      exact ⟨x, List.mem_cons_of_mem a hx, hR⟩

/-- What a row of steps gives comes from its elements. -/
theorem exists_mem_of_mapM_eq_ok {f : α → Except ε β} {l : List α} {bs : List β}
    (h : l.mapM f = .ok bs) {b : β} (hb : b ∈ bs) : ∃ a ∈ l, f a = .ok b :=
  exists_left_of_forall₂ (mapM_eq_ok.mp h) hb

/-- Where a row of steps succeeds, so does the step for each element. -/
theorem exists_ok_of_mapM_eq_ok {f : α → Except ε β} {l : List α} {bs : List β}
    (h : l.mapM f = .ok bs) {a : α} (ha : a ∈ l) : ∃ b ∈ bs, f a = .ok b :=
  exists_left_of_forall₂ (R := fun b a => f a = .ok b) (mapM_eq_ok.mp h).flip ha

end YamlWeave
