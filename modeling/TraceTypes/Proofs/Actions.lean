/-!
# Actions that may fail

An action changes a state and either answers or ends in an error, and leaves a
state behind in both cases. `ok_of_bind` and `error_of_bind` take a sequence of
two actions apart. `Keeps P m` says that `m` keeps `P` however it ends, and
`Succeeds m s` that `m` does not fail in the state `s`.
-/

namespace TraceTypes

variable {ε σ α β : Type} {m : EStateM ε σ α} {f : α → EStateM ε σ β} {s s' : σ}

/-- Both actions of a sequence that succeeds do. -/
theorem ok_of_bind {b : β} (h : (m >>= f) s = .ok b s') :
    ∃ a s₁, m s = .ok a s₁ ∧ f a s₁ = .ok b s' := by
  change EStateM.bind m f s = .ok b s' at h
  unfold EStateM.bind at h
  cases hm : m s with
  | error e s₁ => rw [hm] at h; cases h
  | ok a s₁ => rw [hm] at h; exact ⟨a, s₁, rfl, h⟩

theorem ok_of_pure {a b : α} (h : (pure a : EStateM ε σ α) s = .ok b s') : b = a ∧ s' = s := by
  cases h
  exact ⟨rfl, rfl⟩

/-- A sequence fails in its first action, or behind it in the second. -/
theorem error_of_bind {e : ε} (h : (m >>= f) s = .error e s') :
    m s = .error e s' ∨ ∃ a s₁, m s = .ok a s₁ ∧ f a s₁ = .error e s' := by
  change EStateM.bind m f s = .error e s' at h
  unfold EStateM.bind at h
  cases hm : m s with
  | error e s₁ => rw [hm] at h; cases h; exact .inl rfl
  | ok a s₁ => rw [hm] at h; exact .inr ⟨a, s₁, rfl, h⟩

/-- The state that an action leaves behind. -/
def endState : EStateM.Result ε σ α → σ
  | .ok _ s | .error _ s => s

/-! What an action does to the state does not depend on what becomes of its answer. -/

variable {g : α → β}

theorem ok_of_map {b : β} (h : (g <$> m) s = .ok b s') : ∃ a, m s = .ok a s' ∧ b = g a := by
  change EStateM.map g m s = .ok b s' at h
  unfold EStateM.map at h
  cases hm : m s with
  | error e s₁ => rw [hm] at h; cases h
  | ok a s₁ => rw [hm] at h; cases h; exact ⟨a, rfl, rfl⟩

theorem error_of_map {e : ε} (h : (g <$> m) s = .error e s') : m s = .error e s' := by
  change EStateM.map g m s = .error e s' at h
  unfold EStateM.map at h
  cases hm : m s with
  | error v s₁ => rw [hm] at h; cases h; rfl
  | ok a s₁ => rw [hm] at h; cases h

theorem endState_map : endState ((g <$> m) s) = endState (m s) := by
  show endState (EStateM.map g m s) = _
  unfold EStateM.map
  cases m s with
  | error e s₁ => rfl
  | ok a s₁ => rfl

/-- The action keeps a property of the state, also when it fails. -/
def Keeps (P : σ → Prop) (m : EStateM ε σ α) : Prop := ∀ s, P s → P (endState (m s))

variable {P : σ → Prop}

theorem Keeps.ok {a : α} (hm : Keeps P m) (hs : P s) (h : m s = .ok a s') : P s' := by
  have := hm s hs
  rwa [h] at this

theorem Keeps.error {e : ε} (hm : Keeps P m) (hs : P s) (h : m s = .error e s') : P s' := by
  have := hm s hs
  rwa [h] at this

/-- An action that fails without a change need only be looked at where it succeeds. -/
theorem Keeps.of_ok (herr : ∀ s e s', m s = .error e s' → s' = s)
    (hok : ∀ s a s', m s = .ok a s' → P s → P s') : Keeps P m := by
  intro s hs
  cases h : m s with
  | ok a s' => exact hok s a s' h hs
  | error e s' =>
      show P s'
      rw [herr s e s' h]
      exact hs

theorem Keeps.pure (a : α) : Keeps P (Pure.pure a : EStateM ε σ α) := fun _ hs => hs

theorem Keeps.modify {f : σ → σ} (hf : ∀ s, P s → P (f s)) :
    Keeps P (modify f : EStateM ε σ PUnit) := fun s hs => hf s hs

/-- The second action needs to keep the property only for answers that the first one can give. -/
theorem Keeps.bind_of (hm : Keeps P m) (hf : ∀ s a s₁, m s = .ok a s₁ → Keeps P (f a)) :
    Keeps P (m >>= f) := by
  intro s hs
  have hs₁ := hm s hs
  show P (endState (EStateM.bind m f s))
  unfold EStateM.bind
  cases h : m s with
  | error v s₁ => rw [h] at hs₁; exact hs₁
  | ok a s₁ => rw [h] at hs₁; exact hf s a s₁ h s₁ hs₁

theorem Keeps.bind (hm : Keeps P m) (hf : ∀ a, Keeps P (f a)) : Keeps P (m >>= f) :=
  hm.bind_of fun _ a _ _ => hf a

/-- The action does not fail in this state. -/
def Succeeds (m : EStateM ε σ α) (s : σ) : Prop := ∃ a s', m s = .ok a s'

theorem Succeeds.pure (a : α) (s : σ) : Succeeds (Pure.pure a : EStateM ε σ α) s := ⟨a, s, rfl⟩

theorem Succeeds.bind (hm : Succeeds m s) (hf : ∀ a s₁, m s = .ok a s₁ → Succeeds (f a) s₁) :
    Succeeds (m >>= f) s := by
  obtain ⟨a, s₁, h⟩ := hm
  obtain ⟨b, s₂, h'⟩ := hf a s₁ h
  refine ⟨b, s₂, ?_⟩
  show EStateM.bind m f s = _
  unfold EStateM.bind
  rw [h]
  exact h'

end TraceTypes
