import TraceTypes.Artifact
/-!
# One value for every kind

A `PerKind α` holds one `α` for each kind of artifact.
-/

namespace TraceTypes

/-- One value for each kind of artifact. -/
structure PerKind (α : Type) where
  symbol : α
  classLoader : α
  module : α
  package : α
  cls : α
  method : α
  thread : α
  deriving DecidableEq

namespace PerKind

variable {α β : Type}

/-- The same value for every kind. -/
def replicate (v : α) : PerKind α := ⟨v, v, v, v, v, v, v⟩

/-- The value for a kind. -/
def get (t : PerKind α) : Kind → α
  | .symbol => t.symbol
  | .classLoader => t.classLoader
  | .module => t.module
  | .package => t.package
  | .cls => t.cls
  | .method => t.method
  | .thread => t.thread

/-- Replace the value for one kind. -/
def set (t : PerKind α) (k : Kind) (v : α) : PerKind α :=
  match k with
  | .symbol => { t with symbol := v }
  | .classLoader => { t with classLoader := v }
  | .module => { t with module := v }
  | .package => { t with package := v }
  | .cls => { t with cls := v }
  | .method => { t with method := v }
  | .thread => { t with thread := v }

/-- Change the value for every kind. -/
def map (t : PerKind α) (f : α → β) : PerKind β :=
  ⟨f t.symbol, f t.classLoader, f t.module, f t.package, f t.cls, f t.method, f t.thread⟩

/-- The sum of the numbers of all kinds. -/
def total (t : PerKind Nat) : Nat :=
  t.symbol + t.classLoader + t.module + t.package + t.cls + t.method + t.thread

@[ext] theorem ext {s t : PerKind α} (h : ∀ k, s.get k = t.get k) : s = t := by
  obtain ⟨_, _, _, _, _, _, _⟩ := s
  obtain ⟨_, _, _, _, _, _, _⟩ := t
  have h1 := h .symbol
  have h2 := h .classLoader
  have h3 := h .module
  have h4 := h .package
  have h5 := h .cls
  have h6 := h .method
  have h7 := h .thread
  simp only [get] at h1 h2 h3 h4 h5 h6 h7
  subst h1 h2 h3 h4 h5 h6 h7
  rfl

@[simp] theorem get_replicate (v : α) (k : Kind) : (replicate v).get k = v := by
  cases k <;> rfl

theorem get_set (t : PerKind α) (k k' : Kind) (v : α) :
    (t.set k v).get k' = if k' = k then v else t.get k' := by
  cases k <;> cases k' <;> rfl

/-- Whatever is replaced, the values for a kind that are equal stay so. -/
theorem get_set_congr {t t' : PerKind α} {k k' : Kind} {v v' : α} (h : t'.get k' = t.get k')
    (hv : k' = k → v' = v) : (t'.set k v').get k' = (t.set k v).get k' := by
  rw [get_set, get_set]
  split
  · exact hv ‹_›
  · exact h

@[simp] theorem get_set_self (t : PerKind α) (k : Kind) (v : α) : (t.set k v).get k = v := by
  simp [get_set]

@[simp] theorem get_map (t : PerKind α) (f : α → β) (k : Kind) :
    (t.map f).get k = f (t.get k) := by
  cases k <;> rfl

theorem map_set (t : PerKind α) (f : α → β) (k : Kind) (v : α) :
    (t.set k v).map f = (t.map f).set k (f v) := by
  cases k <;> rfl

/-- In the sum, the new value stands where the old one stood. -/
theorem total_set (t : PerKind Nat) (k : Kind) (n : Nat) :
    (t.set k n).total + t.get k = t.total + n := by
  cases k <;> simp only [total, set, get] <;> omega

/-- A value that grows by some number makes the sum grow by as much. -/
theorem total_set_add (t : PerKind Nat) (k : Kind) (n : Nat) :
    (t.set k (t.get k + n)).total = t.total + n := by
  have := t.total_set k (t.get k + n)
  omega

end PerKind

end TraceTypes
