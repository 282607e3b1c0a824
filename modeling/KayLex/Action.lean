/-!
State actions that may fail, as cursors and scanners use them: an action answers
or fails, and leaves a state in either case. These are the equations by which a
sequence of actions is taken apart.
-/

namespace KayLex.Action

variable {ε σ α β : Type}

/-- The state that an outcome leaves, be it an answer or a failure. -/
def left : EStateM.Result ε σ α → σ
  | .ok _ s => s
  | .error _ s => s

/-- What an outcome tells, the answer or the failure. -/
def told : EStateM.Result ε σ α → Except ε α
  | .ok a _ => .ok a
  | .error e _ => .error e

theorem bind_apply (x : EStateM ε σ α) (f : α → EStateM ε σ β) (s : σ) :
    (x >>= f) s =
      match x s with
      | .ok a s' => f a s'
      | .error e s' => .error e s' := rfl

theorem get_apply (s : σ) : (get : EStateM ε σ σ) s = .ok s s := rfl

theorem ite_apply (p : Prop) [Decidable p] (x y : EStateM ε σ α) (s : σ) :
    (if p then x else y) s = if p then x s else y s := by
  split <;> rfl

@[simp] theorem left_map (f : α → β) (x : EStateM ε σ α) (s : σ) :
    left ((f <$> x) s) = left (x s) := by
  show left (EStateM.map f x s) = _
  rw [EStateM.map]
  cases x s <;> rfl

@[simp] theorem left_bind_pure (f : α → β) (x : EStateM ε σ α) (s : σ) :
    left ((x >>= fun a => pure (f a)) s) = left (x s) := by
  rw [bind_apply]
  cases x s <;> rfl

theorem map_ok {f : α → β} {x : EStateM ε σ α} {s s' : σ} {b : β} :
    (f <$> x) s = .ok b s' ↔ ∃ a, x s = .ok a s' ∧ b = f a := by
  show EStateM.map f x s = _ ↔ _
  rw [EStateM.map]
  cases x s with
  | ok a s₁ =>
    constructor
    · rintro ⟨⟩
      exact ⟨a, rfl, rfl⟩
    · rintro ⟨_, ⟨⟩, rfl⟩
      rfl
  | error e s₁ => simp

theorem bind_ok {x : EStateM ε σ α} {f : α → EStateM ε σ β} {s s' : σ} {b : β} :
    (x >>= f) s = .ok b s' ↔ ∃ a s₁, x s = .ok a s₁ ∧ f a s₁ = .ok b s' := by
  rw [bind_apply]
  split
  · next a s₁ h =>
    constructor
    · exact fun hf => ⟨a, s₁, h, hf⟩
    · rintro ⟨_, _, hx, hf⟩
      cases h ▸ hx
      exact hf
  · next e s₁ h => simp [h]

end KayLex.Action
