import TraceTypes.Proofs.DepthBound
import TraceTypes.Proofs.LeakSegments
/-!
# A plan that is repeated

When the tags stay in place behind a pass, the pass can be made again
(`PassScope.Repeats`). Whatever the first plan has pulled in besides the tagged
artifacts counts as written then, so the second one leaves it out:

* `PassScope.Repeats.pulls` — a dependency that is not covered is tagged, and the
  first plan has its entry in front;
* `PassScope.Repeats.traversable` — so the tags lead to no defect, and
  `PassScope.Repeats.needed_iff`, they need nothing but themselves;
* `PassScope.Repeats.perm` — the second plan has one entry for each tagged
  artifact, and no other.

The paths to the tagged artifacts may be other ones, though: what stood in front
of a path in the first plan need not be looked at in the second. So the second
plan may get deeper than the limit.
-/

namespace TraceTypes

open Dependency

/-- The scope of a pass that repeats another one: the tags are as they were, and what the plan `s`
of the other pass has entries for counts as written. -/
structure PassScope.Repeats (c c' : PassScope) (s : Pass) : Prop where
  graph : c'.graph = c.graph
  settings : c'.settings = c.settings
  tagged : ∀ a, c'.marks.isTagged a = c.marks.isTagged a
  serialized : ∀ a, c'.marks.isSerialized a = true ↔
    c.marks.isSerialized a = true ∨ a ∈ Entry.subjects s.entries
  bootstrapWritten : c'.bootstrapWritten = (c.bootstrapWritten || s.bootstrapEmitted)

/-- What an earlier entry is of stands in front. -/
theorem Entry.idxOf_subjects_lt {before after : List Entry} {e : Entry} {a d : Artifact}
    (hnodup : (subjects (before ++ e :: after)).Nodup) (he : e.subject = some a)
    (hd : d ∈ subjects before) : (subjects (before ++ e :: after)).idxOf d <
      (subjects (before ++ e :: after)).idxOf a := by
  have hsplit : subjects (before ++ e :: after) = subjects before ++ a :: subjects after := by
    rw [subjects_append]
    exact congrArg _ (List.filterMap_cons_some he)
  rw [hsplit] at hnodup ⊢
  have ha : a ∉ subjects before :=
    fun ha => (List.nodup_append.mp hnodup).2.2 a ha a List.mem_cons_self rfl
  rw [List.idxOf_append_of_mem hd, List.idxOf_append_of_notMem ha]
  exact Nat.lt_add_right _ (List.idxOf_lt_length_iff.mpr hd)

/-- Entries that all have a subject are listed by their subjects. -/
theorem Entry.map_subject {l : List Entry} (h : ∀ e ∈ l, e.subject ≠ none) :
    l.map Entry.subject = (subjects l).map some := by
  induction l with
  | nil => rfl
  | cons e rest ih =>
      obtain ⟨he, hrest⟩ := List.forall_mem_cons.mp h
      obtain ⟨a, ha⟩ := Option.ne_none_iff_exists'.mp he
      rw [subjects, List.filterMap_cons_some ha, List.map_cons, List.map_cons, ha, ih hrest]
      rfl

/-- No artifact is listed twice among the tagged ones. -/
theorem MarkTable.nodup_allTagged (t : MarkTable) : t.allTagged.Nodup := by
  unfold allTagged
  rw [List.nodup_flatMap]
  refine ⟨fun k _ => ?_, ?_⟩
  · refine (t.nodup_carrying .referenced k).map fun m n h => ?_
    exact congrArg Artifact.handle h
  · refine List.Pairwise.imp_of_mem ?_ (by decide : Kind.all.Nodup)
    intro k k' _ _ hne a ha ha'
    obtain ⟨_, -, rfl⟩ := List.mem_map.mp ha
    obtain ⟨_, -, heq⟩ := List.mem_map.mp ha'
    exact hne (congrArg Artifact.kind heq).symm

namespace PassScope.Repeats

variable {c c' : PassScope} {r : Registries} {y : SymbolTable} {s s' : Pass} {a d : Artifact}

section Inv

variable (h : c.Repeats c' s) (hs : s.Inv c r y [])
  (htagged : ∀ a, c.marks.isTagged a = true → a ∈ Entry.subjects s.entries)

include h

/-- What the first pass wrote or could refer to is covered, unless it is tagged. -/
theorem stillValid_of (ha : c.stillValid a = true ∨ a ∈ Entry.subjects s.entries)
    (htag : c.marks.isTagged a ≠ true) : c'.stillValid a = true := by
  have hser : c'.marks.isSerialized a = true := by
    rw [h.serialized]
    exact ha.imp_left fun ha => ((Bool.and_eq_true _ _).mp ha).1
  simp [stillValid, hser, h.tagged, htag]

include hs

/-- An artifact with an entry pulls in tagged ones only, and their entries stand in front. -/
theorem pulls (ha : a ∈ Entry.subjects s.entries)
    (hpull : Pulls c'.graph (fun d => c'.stillValid d = true) a d) :
    c.marks.isTagged d = true ∧
      (Entry.subjects s.entries).idxOf d < (Entry.subjects s.entries).idxOf a := by
  obtain ⟨hd, hnew⟩ := hpull
  rw [h.graph] at hd
  have htag : c.marks.isTagged d = true := by
    by_contra htag
    refine hnew (h.stillValid_of ?_ htag)
    exact or_iff_not_imp_left.mpr fun hvalid => hs.mem_of_dependsOn ha hd hvalid
  refine ⟨htag, ?_⟩
  -- it is tagged, so the first pass could not refer to an earlier record
  obtain ⟨before, e, after, hsplit, hsub, hmem⟩ :=
    hs.dependency_in_front ha hd fun hvalid => by simp [stillValid, htag] at hvalid
  have hnodup := hs.nodup
  rw [List.append_nil, hsplit] at hnodup
  rw [hsplit]
  exact Entry.idxOf_subjects_lt hnodup hsub hmem

include htagged

/-- The tags need nothing but what is tagged. -/
theorem needed_iff : c'.Needed a ↔ c.marks.isTagged a = true ∧ a.kind ≠ .symbol := by
  constructor
  · intro ha
    refine ⟨?_, ha.kind_ne⟩
    unfold Needed at ha
    induction ha with
    | root hroot => exact h.tagged _ ▸ hroot.1
    | dependency _ hd hnew ih => exact (h.pulls hs (htagged _ ih) ⟨hd, hnew⟩).1
  · exact fun ⟨htag, hkind⟩ => .root ⟨(h.tagged a).trans htag, hkind⟩

theorem not_reaches_self (ha : a ∈ Entry.subjects s.entries) :
    ¬ Relation.TransGen (Pulls c'.graph fun d => c'.stillValid d = true) a a := by
  -- along a path the entries stand ever further in front
  have hlt : ∀ d, Relation.TransGen (Pulls c'.graph fun d => c'.stillValid d = true) a d →
      c.marks.isTagged d = true ∧
        (Entry.subjects s.entries).idxOf d < (Entry.subjects s.entries).idxOf a := by
    intro d hd
    induction hd with
    | single hpull => exact h.pulls hs ha hpull
    | tail _ hpull ih =>
        obtain ⟨htag, hlt⟩ := h.pulls hs (htagged _ ih.1) hpull
        exact ⟨htag, Nat.lt_trans hlt ih.2⟩
  exact fun hcycle => Nat.lt_irrefl _ (hlt a hcycle).2

/-- What the tags need has got its entry, with all that it leads to, so it is in order. -/
theorem traversable : c'.Traversable s.registries s.symbols where
  interned n htag := by
    obtain ⟨e, he, hsub⟩ := Entry.mem_subjects.mp (htagged _ (h.tagged _ ▸ htag))
    obtain ⟨_, _, -, htext, -⟩ := hs.symbols e he n hsub
    exact Option.isSome_of_eq_some htext
  described a ha := by
    obtain ⟨htag, hkind⟩ := (h.needed_iff hs htagged).mp ha
    obtain ⟨_, -, -, _, i, -, hi, hok⟩ := hs.recordOk (htagged a htag) hkind
    obtain ⟨l, hl, -⟩ := hok.placed
    rw [h.graph]
    exact ⟨i, l, hi, hl⟩
  acyclic a ha := h.not_reaches_self hs htagged (htagged a ((h.needed_iff hs htagged).mp ha).1)
  known a i ha _ _ := by
    obtain ⟨htag, -⟩ := (h.needed_iff hs htagged).mp ha
    obtain ⟨e, he, hsub⟩ := Entry.mem_subjects.mp (htagged a htag)
    exact ⟨_, (hs.ids e he a hsub).1⟩

/-- The bootstrap loader has its record, if the tags need one. -/
theorem not_needsBootstrap : ¬ c'.NeedsBootstrap := by
  rintro ⟨hemit, hwritten, n, i, hneed, hi, hloader⟩
  rw [h.bootstrapWritten, Bool.or_eq_false_iff] at hwritten
  have hneed : c.Needed (.cls n) := .root ((h.needed_iff hs htagged).mp hneed)
  have hneeds : c.NeedsBootstrap :=
    ⟨h.settings ▸ hemit, hwritten.1, n, i, hneed, h.graph ▸ hi, hloader⟩
  have hentry := (hs.bootstrap_iff htagged).mpr hneeds
  rw [← hs.bootstrapEmitted_iff, hwritten.2] at hentry
  cases hentry

/-- A text that is needed has its record. -/
theorem serialized_of_needsText {text : String} (htext : c'.NeedsText text) :
    ∃ n, s.symbols.text? n = some text ∧ c'.marks.isSerialized (.symbol n) = true := by
  obtain ⟨a, i, ha, hi, hmem⟩ : ∃ a i, c'.Needed a ∧ c'.graph.describe? a = some i ∧
      .text text ∈ i.mentions :=
    htext.resolve_right fun hboot => h.not_needsBootstrap hs htagged hboot.1
  have hneeds : c.NeedsText text :=
    .inl ⟨a, i, .root ((h.needed_iff hs htagged).mp ha), h.graph ▸ hi, hmem⟩
  rcases hs.text_of_needed htagged hneeds with hmem | ⟨n, hn, hser⟩
  · obtain ⟨e, he, id, hrec⟩ := Entry.mem_texts.mp hmem
    obtain ⟨n, hsub, hn, -⟩ := hs.symbol_of_record he hrec
    exact ⟨n, hn, (h.serialized _).mpr (.inr (Entry.mem_subjects.mpr ⟨e, he, hsub⟩))⟩
  · exact ⟨n, SymbolTable.text?_of_prefix hs.grown.texts hn, (h.serialized _).mpr (.inl hser)⟩

end Inv

/-- The plan of the second pass has one entry for each tagged artifact, and no other entry. -/
theorem perm (h : c.Repeats c' s) (hready : Pass.Ready c r y)
    (hplan : Pass.planAll c r y = .ok () s) (hready' : Pass.Ready c' s.registries s.symbols)
    (hplan' : Pass.planAll c' s.registries s.symbols = .ok () s') :
    (s'.entries.map Entry.subject).Perm (c.marks.allTagged.map some) := by
  obtain ⟨hs, htagged⟩ := Pass.planAll_ok hready hplan
  obtain ⟨hs', htagged'⟩ := Pass.planAll_ok hready' hplan'
  have hnone : ∀ e ∈ s'.entries, e.subject ≠ none := fun e he hsub =>
    h.not_needsBootstrap hs htagged ((hs'.bootstrap_iff htagged').mp ⟨e, he, hsub⟩)
  rw [Entry.map_subject hnone]
  have hnodup := hs'.nodup
  rw [List.append_nil] at hnodup
  refine List.Perm.map some ((List.perm_ext_iff_of_nodup hnodup c.marks.nodup_allTagged).mpr ?_)
  intro a
  rw [MarkTable.mem_allTagged]
  refine ⟨fun ha => ?_, fun htag => htagged' a ((h.tagged a).trans htag)⟩
  by_cases hkind : a.kind = .symbol
  · obtain ⟨k, n⟩ := a
    cases hkind
    obtain ⟨e, he, hsub⟩ := Entry.mem_subjects.mp ha
    obtain ⟨id, text, -, htext, htag | ⟨hser, hneed⟩⟩ := hs'.symbols e he n hsub
    · exact h.tagged _ ▸ htag
    · -- the symbol has the text of one that counts as written, so it is that one
      obtain ⟨m, hm, hser'⟩ := h.serialized_of_needsText hs htagged hneed
      obtain rfl := SymbolTable.text?_inj (SymbolTable.text?_of_prefix hs'.grown.texts hm) htext
      rw [hser] at hser'
      cases hser'
  · exact ((h.needed_iff hs htagged).mp (hs'.needed a ha hkind)).1

end PassScope.Repeats

end TraceTypes
