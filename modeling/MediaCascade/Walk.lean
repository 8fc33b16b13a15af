/-!
# Walks

A walk takes a state through a list, one element at a time, and collects in order what the steps
report. Reading rules into a block, blocks into a style sheet, and the transforms are walks.
-/

namespace MediaCascade

variable {σ α β : Type}

/-- The state after the steps over a list, and the reports of all steps in order. -/
def walk (step : σ → α → σ × List β) (state : σ) : List α → σ × List β
  | [] => (state, [])
  | x :: rest =>
    let here := step state x
    let later := walk step here.1 rest
    (later.1, here.2 ++ later.2)

@[simp] theorem walk_nil (step : σ → α → σ × List β) (state : σ) :
    walk step state [] = (state, []) := rfl

@[simp] theorem walk_cons (step : σ → α → σ × List β) (state : σ) (x : α) (rest : List α) :
    walk step state (x :: rest) =
      ((walk step (step state x).1 rest).1,
        (step state x).2 ++ (walk step (step state x).1 rest).2) := rfl

/-- **A walk over two lists is a walk over the first and then over the second.** -/
theorem walk_append (step : σ → α → σ × List β) (state : σ) (xs ys : List α) :
    walk step state (xs ++ ys) =
      ((walk step (walk step state xs).1 ys).1,
        (walk step state xs).2 ++ (walk step (walk step state xs).1 ys).2) := by
  induction xs generalizing state with
  | nil => simp
  | cons x rest ih => simp [ih]

/-- What every step keeps, a walk keeps. -/
theorem walk_invariant {step : σ → α → σ × List β} {P : σ → Prop}
    (keeps : ∀ state x, P state → P (step state x).1) {state : σ} (h : P state) (xs : List α) :
    P (walk step state xs).1 := by
  induction xs generalizing state with
  | nil => exact h
  | cons x rest ih => exact ih (keeps state x h)

/-- Every report of a walk is one of a step. -/
theorem mem_walk {step : σ → α → σ × List β} {state : σ} {xs : List α} {y : β}
    (h : y ∈ (walk step state xs).2) : ∃ s, ∃ x ∈ xs, y ∈ (step s x).2 := by
  induction xs generalizing state with
  | nil => cases h
  | cons x rest ih =>
    rw [walk_cons] at h
    rcases List.mem_append.mp h with h | h
    · exact ⟨state, x, List.mem_cons_self, h⟩
    · obtain ⟨s, x', hx', hy⟩ := ih h
      exact ⟨s, x', List.mem_cons_of_mem _ hx', hy⟩

/-- Where the steps look at a view of the elements only, so does a walk. -/
theorem walk_congr {γ : Type} (step : σ → α → σ × List β) (view : α → γ)
    (hstep : ∀ s x y, view x = view y → step s x = step s y) {xs ys : List α}
    (h : xs.map view = ys.map view) (state : σ) : walk step state xs = walk step state ys := by
  induction xs generalizing ys state with
  | nil =>
    cases ys with
    | nil => rfl
    | cons y ys => cases h
  | cons x xs ih =>
    cases ys with
    | nil => cases h
    | cons y ys =>
      obtain ⟨hx, hxs⟩ := List.cons.inj h
      rw [walk_cons, walk_cons, hstep state x y hx, ih hxs]

/-- What no step changes, a walk does not change. -/
theorem walk_unchanged {γ : Type} {step : σ → α → σ × List β} (f : σ → γ)
    (keeps : ∀ state x, f (step state x).1 = f state) (state : σ) (xs : List α) :
    f (walk step state xs).1 = f state :=
  walk_invariant (P := fun t => f t = f state) (fun t x h => (keeps t x).trans h) rfl xs

end MediaCascade
