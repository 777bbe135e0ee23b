/-!
# Faults: why a computation has no answer

A fault is a broken promise of the caller or a number out of range.  It is not an answer about
the terrain: nothing that was being built when it arose is kept.

* `tooFewCellVertices`   a cell edge needs two vertices to have an interval;
* `resolutionOverflow`   the number of vertices along an edge does not fit into 32 bits;
* `limitNotPositive`     quartering never gets below a limit that is not positive;
* `sizeNotFinite`        only a finite square can be quartered down to a limit;
* `depthOverflow`        the bound on the quartering depth does not fit into 32 bits;
* `depthExceeded`        a square was quartered deeper than its bound;
* `vertexCountMismatch`  the vertices of a patch are not the ones its index buffer indexes;
* `texelCountMismatch`   a texture's texels do not fill it exactly;
* `indexOutOfRange`      an element was addressed that is not there.
-/

namespace TerrainPatches

inductive Fault where
  | tooFewCellVertices
  | resolutionOverflow
  | limitNotPositive
  | sizeNotFinite
  | depthOverflow
  | depthExceeded
  | vertexCountMismatch
  | texelCountMismatch
  | indexOutOfRange
deriving DecidableEq

/-- a computation in two parts has an answer if both parts have -/
theorem Fault.bind_eq_ok {α β : Type} {x : Except Fault α} {f : α → Except Fault β} {b : β} :
    x >>= f = .ok b ↔ ∃ a, x = .ok a ∧ f a = .ok b := by
  cases x with
  | error e =>
    constructor
    · intro h
      cases h
    · intro h
      obtain ⟨a, ha, -⟩ := h
      cases ha
  | ok a =>
    constructor
    · intro h
      exact ⟨a, rfl, h⟩
    · intro h
      obtain ⟨a', ha, h⟩ := h
      cases ha
      exact h

/-- a test of the answer says that there is one -/
theorem exists_ok_of_any {ε α : Type} {x : Except ε α} {test : α → Bool}
    (h : x.toOption.any test = true) : ∃ a, x = .ok a ∧ test a = true := by
  cases x with
  | error e => cases h
  | ok a => exact ⟨a, rfl, h⟩

/-- two computations in two parts agree after `g` if their first parts agree after `f` and their
second parts do then -/
theorem Fault.map_bind {α β γ δ : Type} {x : Except Fault α} {y : Except Fault β} {f : α → β}
    {k : α → Except Fault γ} {k' : β → Except Fault δ} {g : γ → δ} (first : x.map f = y)
    (second : ∀ a, x = .ok a → (k a).map g = k' (f a)) : (x >>= k).map g = y >>= k' := by
  cases x with
  | error e =>
    rw [← first]
    rfl
  | ok a =>
    rw [← first]
    exact second a rfl

end TerrainPatches
