import TraceTypes.Artifact
/-!
# Interned symbols

Every text that a record names becomes a symbol. The table keeps the texts in
the order of their first use, and a symbol's handle is its place in the table,
counted from one. So handles are dense and a text keeps its handle for good.
-/

namespace TraceTypes

/-- The interned texts, in the order of their handles. -/
structure SymbolTable where
  texts : List String := []
  /-- No text is interned twice. -/
  nodup_texts : texts.Nodup := by simp

namespace SymbolTable

@[ext] theorem ext {s t : SymbolTable} (h : s.texts = t.texts) : s = t := by
  cases s; cases t; cases h; rfl

instance : DecidableEq SymbolTable := fun s t =>
  decidable_of_iff (s.texts = t.texts) ⟨ext, fun h => h ▸ rfl⟩

/-- The number of symbols. -/
def size (t : SymbolTable) : Nat := t.texts.length

/-- The symbol of a text, if the text is interned. -/
def find? (t : SymbolTable) (s : String) : Option Artifact :=
  (t.texts.idxOf? s).map fun i => .symbol (i + 1)

/-- The symbol of a text, interned now if it is new. -/
def intern (t : SymbolTable) (s : String) : Artifact × SymbolTable :=
  if h : s ∈ t.texts then (.symbol (t.texts.idxOf s + 1), t)
  else (.symbol (t.size + 1), ⟨t.texts ++ [s], by
    rw [List.nodup_append]
    refine ⟨t.nodup_texts, by simp, fun a ha b hb => ?_⟩
    simp only [List.mem_singleton] at hb
    subst hb
    exact fun e => h (e ▸ ha)⟩)

/-- The text of the symbol with a handle. -/
def text? (t : SymbolTable) (h : Handle) : Option String :=
  match h with
  | 0 => none
  | i + 1 => t.texts[i]?

/-! ## Texts keep their places -/

theorem kind_intern (t : SymbolTable) (s : String) : (t.intern s).1.kind = .symbol := by
  unfold intern
  split <;> rfl

theorem prefix_intern (t : SymbolTable) (s : String) : t.texts <+: (t.intern s).2.texts := by
  unfold intern
  split
  · exact List.prefix_rfl
  · exact List.prefix_append ..

/-- The symbol of a text stands for the text. -/
theorem text?_intern (t : SymbolTable) (s : String) :
    (t.intern s).2.text? (t.intern s).1.handle = some s := by
  unfold intern
  split
  · rename_i h
    exact List.getElem?_eq_some_iff.mpr ⟨List.idxOf_lt_length_of_mem h, List.getElem_idxOf _⟩
  · simp [text?, size]

theorem text?_of_prefix {t u : SymbolTable} (h : t.texts <+: u.texts) {a : Handle} {s : String}
    (ha : t.text? a = some s) : u.text? a = some s := by
  cases a with
  | zero => cases ha
  | succ i =>
      obtain ⟨l, hl⟩ := h
      obtain ⟨hi, -⟩ := List.getElem?_eq_some_iff.mp ha
      show u.texts[i]? = some s
      rw [← hl, List.getElem?_append_left hi]
      exact ha

/-- Two symbols never stand for the same text. -/
theorem text?_inj {t : SymbolTable} {a b : Handle} {s : String} (ha : t.text? a = some s)
    (hb : t.text? b = some s) : a = b := by
  cases a with
  | zero => cases ha
  | succ i =>
      cases b with
      | zero => cases hb
      | succ j =>
          obtain ⟨hi, -⟩ := List.getElem?_eq_some_iff.mp ha
          have hij := (List.getElem?_inj hi t.nodup_texts).mp (ha.trans hb.symm)
          rw [hij]

end SymbolTable

end TraceTypes
