import TraceTypes.Proofs.Planning
/-!
# The content of a planned pass

`PassContent` says which entries a pass has, in terms of the tags, the marks
and the graph only. `Pass.Inv.content` derives it from the invariant of
planning: the invariant bounds the entries from above, and each need is met
because the record that has it refers to something.

`PassContent.congr` compares two passes: what they write does not depend on the
order in which the artifacts were tagged.
-/

namespace TraceTypes

open Dependency

namespace Entry

/-- The texts that have a symbol record, in order. -/
def texts (l : List Entry) : List String :=
  l.filterMap fun e => match e.record with
    | .symbol _ text => some text
    | _ => none

theorem mem_texts {l : List Entry} {text : String} :
    text ∈ texts l ↔ ∃ e ∈ l, ∃ id, e.record = .symbol id text := by
  unfold texts
  rw [List.mem_filterMap]
  constructor
  · rintro ⟨e, he, h⟩
    split at h
    · rename_i id t hrec
      cases h
      exact ⟨e, he, id, hrec⟩
    · cases h
  · rintro ⟨e, he, id, hrec⟩
    exact ⟨e, he, by rw [hrec]⟩

end Entry

/-- The entries of a pass over the tags, marks and graph of `c`, when `y` has the symbols that were
interned before. -/
structure PassContent (c : PassScope) (y : SymbolTable) (entries : List Entry) : Prop where
  /-- The artifacts other than symbols are the needed ones. -/
  artifacts : ∀ a, a.kind ≠ .symbol → (a ∈ Entry.subjects entries ↔ c.Needed a)
  /-- The texts are those of the tagged symbols, and the used ones without an earlier record. -/
  texts : ∀ s, s ∈ Entry.texts entries ↔
    (∃ h, c.marks.isTagged (.symbol h) = true ∧ y.text? h = some s) ∨
    (c.NeedsText s ∧ ∀ h, y.text? h = some s → c.marks.isSerialized (.symbol h) = false)
  /-- The bootstrap loader has a record iff it needs one. -/
  bootstrap : (∃ e ∈ entries, e.subject = none) ↔ c.NeedsBootstrap
  /-- Nothing is written twice. -/
  subjects_nodup : (Entry.subjects entries).Nodup
  texts_nodup : (Entry.texts entries).Nodup
  bootstrap_once : (entries.filter fun e => e.subject.isNone).length ≤ 1
  /-- No id is defined twice. -/
  ids_nodup : (entries.map fun e => e.record.id).Nodup
  /-- A record is of its artifact's type. -/
  record_type : ∀ e ∈ entries, ∀ a, e.subject = some a → e.record.tag = a.kind.index + 1
  /-- The only record without an artifact is that of the bootstrap loader. -/
  bootstrap_record : ∀ e ∈ entries, e.subject = none →
    ∃ name, e.record = .classLoader bootstrapId (some name) name
  /-- A class is written as unloading iff the pass asks for it and the graph announces the class. -/
  unloading : ∀ e ∈ entries, ∀ h, e.subject = some (.cls h) →
    e.record.saysUnloading = (c.classUnload && c.graph.isUnloading h)

namespace Pass

variable {c : PassScope} {r : Registries} {y : SymbolTable} {s s' : Pass} {a d : Artifact}

/-! ## Tagged symbols come first -/

theorem taggedSymbol_cases (h : PassM.taggedSymbol a s = .ok () s') :
    s'.symbols = s.symbols ∧ (∀ b ∈ s'.plan.done, b ∈ s.plan.done ∨ b = a) ∧
      (a ∈ s.plan.done ∨ ∃ text, s.symbols.text? a.handle = some text) := by
  unfold PassM.taggedSymbol at h
  split at h
  · rename_i hdone
    cases h
    exact ⟨rfl, fun b hb => .inl hb, .inl (List.contains_iff_mem.mp hdone)⟩
  · cases htext : s.symbols.text? a.handle with
    | none => rw [htext] at h; cases h
    | some text =>
        rw [htext] at h
        obtain ⟨id, s₁, hr, hw⟩ := ok_of_bind h
        obtain ⟨_, _, -, rfl⟩ := register_eq_ok hr
        cases hw
        refine ⟨rfl, ?_, .inr ⟨text, rfl⟩⟩
        intro b hb
        exact (List.mem_insert_iff.mp hb).symm

/-- Tagged symbols get their entries before anything else is interned. -/
theorem visitAll_symbols {l : List Artifact} (hl : ∀ a ∈ l, a.kind = .symbol)
    (hdone : ∀ a ∈ s.plan.done, ∃ text, s.symbols.text? a.handle = some text)
    (h : PassM.visitAll c l s = .ok () s') :
    ∀ a ∈ l, ∃ text, s.symbols.text? a.handle = some text := by
  -- along the way the texts of symbols stay as they are, so each one is known from the start
  induction l generalizing s with
  | nil => exact fun a ha => absurd ha List.not_mem_nil
  | cons a rest ih =>
      obtain ⟨_, s₁, hvisit, h⟩ := ok_of_bind h
      rw [PassM.visit, if_pos (hl a List.mem_cons_self)] at hvisit
      obtain ⟨hsymbols, hdone₁, ha⟩ := taggedSymbol_cases hvisit
      have hatext := ha.elim (hdone a) fun htext => htext
      intro b hb
      rcases List.mem_cons.mp hb with rfl | hb
      · exact hatext
      · rw [← hsymbols] at hdone hatext ⊢
        refine ih (fun d hd => hl d (List.mem_cons_of_mem _ hd)) ?_ h b hb
        intro d hd
        rcases hdone₁ d hd with hd | rfl
        · exact hdone d hd
        · exact hatext

theorem visitAll_append {l l' : List Artifact} (h : PassM.visitAll c (l ++ l') s = .ok () s') :
    ∃ s₁, PassM.visitAll c l s = .ok () s₁ ∧ PassM.visitAll c l' s₁ = .ok () s' := by
  induction l generalizing s with
  | nil => exact ⟨s, rfl, h⟩
  | cons a rest ih =>
      obtain ⟨_, s₁, hvisit, h⟩ := ok_of_bind h
      obtain ⟨s₂, h₂, hrest⟩ := ih h
      refine ⟨s₂, ?_, hrest⟩
      show EStateM.bind (PassM.visit c a) _ s = _
      unfold EStateM.bind
      rw [hvisit]
      exact h₂

/-- A pass over a tagged symbol that was never interned does not succeed. -/
theorem interned_of_tagged (h : planAll c r y = .ok () s) {n : Handle}
    (htag : c.marks.isTagged (.symbol n) = true) : ∃ text, y.text? n = some text := by
  -- symbols are the first kind, so the plan begins with the tagged ones
  obtain ⟨s₁, h₁, -⟩ := visitAll_append (l := c.marks.tagged .symbol) h
  refine visitAll_symbols ?_ (fun a ha => absurd ha List.not_mem_nil) h₁ (.symbol n) ?_
  · intro a ha
    obtain ⟨k, -, rfl⟩ := List.mem_map.mp ha
    rfl
  · exact List.mem_map.mpr ⟨n, MarkTable.mem_carrying.mpr htag, rfl⟩

/-! ## Every need is met -/

/-- An id stands for a text by a symbol record of the pass or an earlier one. -/
theorem text_of_stands {before : List Entry} {id : TraceId} {text : String}
    (hle : before <+: s.entries) (h : Stands c r y before id (.text text)) :
    text ∈ Entry.texts s.entries ∨
      ∃ n, y.text? n = some text ∧ c.marks.isSerialized (.symbol n) = true := by
  rcases h with ⟨e, he, -, hrec⟩ | ⟨n, hser, htext, -⟩
  · exact .inl (Entry.mem_texts.mpr ⟨e, hle.subset he, id, hrec⟩)
  · exact .inr ⟨n, htext, hser⟩

section Inv

variable (hs : s.Inv c r y [])

include hs

/-- An entry of an artifact that is not a symbol is right behind entries before it. -/
theorem Inv.recordOk (ha : a ∈ Entry.subjects s.entries) (hkind : a.kind ≠ .symbol) :
    ∃ e ∈ s.entries, e.subject = some a ∧ ∃ before i, before <+: s.entries ∧
      c.graph.describe? a = some i ∧ RecordOk c r y before a i e.record := by
  obtain ⟨e, he, hsub⟩ := Entry.mem_subjects.mp ha
  obtain ⟨before, hle, hok⟩ := hs.grounded.mem he
  unfold EntryOk at hok
  rw [hsub] at hok
  obtain ⟨i, hi, hok⟩ := hok hkind
  exact ⟨e, he, hsub, before, i, hle, hi, hok⟩

theorem Inv.bootstrapOk {e : Entry} (he : e ∈ s.entries) (hsub : e.subject = none) :
    ∃ before name, before <+: s.entries ∧
      e.record = .classLoader bootstrapId (some name) name ∧
      Stands c r y before name (.text c.settings.bootstrapLoaderName) := by
  obtain ⟨before, hle, hok⟩ := hs.grounded.mem he
  unfold EntryOk at hok
  rw [hsub] at hok
  obtain ⟨name, hrec, hstands⟩ := hok
  exact ⟨before, name, hle, hrec, hstands⟩

/-- In front of an artifact's entry stand those of its uncovered dependencies. -/
theorem Inv.dependency_in_front (ha : a ∈ Entry.subjects s.entries)
    (h : DependsOn c.graph a d) (hnew : c.stillValid d ≠ true) :
    ∃ before e after, s.entries = before ++ e :: after ∧ e.subject = some a ∧
      d ∈ Entry.subjects before := by
  obtain ⟨i, l, hi, hl, hd⟩ := h
  obtain ⟨e, he, hsub⟩ := Entry.mem_subjects.mp ha
  obtain ⟨before, after, hsplit⟩ := List.append_of_mem he
  have hok := hs.grounded before e after hsplit
  unfold EntryOk at hok
  rw [hsub] at hok
  obtain ⟨j, hj, hok⟩ := hok (MetadataGraph.kind_ne_of_describe? hi)
  rw [hi] at hj
  cases hj
  obtain ⟨l', hl', hplaced⟩ := hok.placed
  rw [hl] at hl'
  cases hl'
  exact ⟨before, e, after, hsplit, hsub, (hplaced d hd).resolve_left hnew⟩

/-- The entries are closed under uncovered dependencies. -/
theorem Inv.mem_of_dependsOn (ha : a ∈ Entry.subjects s.entries) (h : DependsOn c.graph a d)
    (hnew : c.stillValid d ≠ true) : d ∈ Entry.subjects s.entries := by
  obtain ⟨before, e, after, hsplit, -, hd⟩ := hs.dependency_in_front ha h hnew
  exact Entry.subjects_subset (hsplit ▸ List.prefix_append ..) hd

/-- The entries are closed under dependencies, so they have the whole closure of the tags. -/
theorem Inv.mem_of_needed
    (htagged : ∀ a, c.marks.isTagged a = true → a ∈ Entry.subjects s.entries)
    (ha : c.Needed a) : a ∈ Entry.subjects s.entries := by
  have hclosure : Closure c.graph _ _ a := ha
  induction hclosure with
  | root h => exact htagged _ h.1
  | dependency hb hd hnew ih =>
      have hneed : c.Needed _ := hb
      exact hs.mem_of_dependsOn (ih hneed) hd hnew

theorem Inv.bootstrap_iff
    (htagged : ∀ a, c.marks.isTagged a = true → a ∈ Entry.subjects s.entries) :
    (∃ e ∈ s.entries, e.subject = none) ↔ c.NeedsBootstrap := by
  constructor
  · exact fun he => hs.bootstrap_needed (hs.bootstrapEmitted_iff.mpr he)
  · rintro ⟨hemit, hwritten, n, i, hneed, hi, hloader⟩
    obtain ⟨e, he, hsub, before, j, hle, hj, hok⟩ :=
      hs.recordOk (hs.mem_of_needed htagged hneed) hneed.kind_ne
    obtain rfl : j = .cls i := by
      have : c.graph.describe? (.cls n) = some (.cls i) := by simp [MetadataGraph.describe?, hi]
      rw [hj] at this
      exact Option.some.inj this
    have hmention : Target.bootstrap ∈ (ArtifactInfo.cls i).mentions := by
      simp [ArtifactInfo.mentions, hloader, Target.loader]
    -- the id of the class's loader stands for the bootstrap loader, by an entry of the pass
    obtain ⟨id, hmeans⟩ := hok.shows.of_mem_mentions hmention
    rcases hmeans with (⟨b, hb, hbsub, -⟩ | ⟨-, hprior⟩) | hself
    · exact ⟨b, hle.subset hb, hbsub⟩
    · rw [hprior hemit] at hwritten
      cases hwritten
    · cases hself

/-- A used text has a symbol record in the pass or an earlier one. -/
theorem Inv.text_of_needed
    (htagged : ∀ a, c.marks.isTagged a = true → a ∈ Entry.subjects s.entries) {text : String}
    (h : c.NeedsText text) : text ∈ Entry.texts s.entries ∨
      ∃ n, y.text? n = some text ∧ c.marks.isSerialized (.symbol n) = true := by
  rcases h with ⟨a, i, hneed, hi, hmention⟩ | ⟨hboot, rfl⟩
  · obtain ⟨e, he, hsub, before, j, hle, hj, hok⟩ :=
      hs.recordOk (hs.mem_of_needed htagged hneed) hneed.kind_ne
    rw [hi] at hj
    cases hj
    obtain ⟨id, hmeans⟩ := hok.shows.of_mem_mentions hmention
    rcases hmeans with hstands | hself
    · exact text_of_stands hle hstands
    · cases hself
  · obtain ⟨e, he, hsub⟩ := (hs.bootstrap_iff htagged).mpr hboot
    obtain ⟨before, name, hle, -, hstands⟩ := hs.bootstrapOk he hsub
    exact text_of_stands hle hstands

/-- A symbol record is that of a symbol with the record's text. -/
theorem Inv.symbol_of_record {e : Entry} (he : e ∈ s.entries) {id : TraceId} {text : String}
    (hrec : e.record = .symbol id text) :
    ∃ n, e.subject = some (.symbol n) ∧ s.symbols.text? n = some text ∧
      (c.marks.isTagged (.symbol n) = true ∨
        c.marks.isSerialized (.symbol n) = false ∧ c.NeedsText text) := by
  cases hsub : e.subject with
  | none =>
      obtain ⟨-, name, -, hrec', -⟩ := hs.bootstrapOk he hsub
      rw [hrec] at hrec'
      cases hrec'
  | some a =>
      obtain ⟨k, n⟩ := a
      obtain ⟨-, htag⟩ := hs.ids e he _ hsub
      rw [hrec] at htag
      cases k <;> cases htag
      obtain ⟨id', text', hrec', htext, hwhy⟩ := hs.symbols e he n hsub
      rw [hrec] at hrec'
      cases hrec'
      exact ⟨n, rfl, htext, hwhy⟩

end Inv

/-! ## Nothing is written twice -/

/-- Entries of different symbols have different texts. -/
theorem texts_nodup {y : SymbolTable} {l : List Entry} (hl : (Entry.subjects l).Nodup)
    (hsymbol : ∀ e ∈ l, ∀ id text, e.record = .symbol id text →
      ∃ n, e.subject = some (.symbol n) ∧ y.text? n = some text) : (Entry.texts l).Nodup := by
  induction l with
  | nil => exact List.nodup_nil
  | cons e rest ih =>
      have hrest := fun b hb => hsymbol b (List.mem_cons_of_mem _ hb)
      have hnodup : (Entry.subjects rest).Nodup :=
        hl.sublist ((List.sublist_cons_self e rest).filterMap _)
      unfold Entry.texts
      rw [List.filterMap_cons]
      split
      · exact ih hnodup hrest
      · rename_i text htext
        refine List.nodup_cons.mpr ⟨?_, ih hnodup hrest⟩
        intro hmem
        split at htext
        · rename_i id t hrec
          cases htext
          obtain ⟨n, hsub, hn⟩ := hsymbol e List.mem_cons_self id text hrec
          obtain ⟨b, hb, id', hrec'⟩ := Entry.mem_texts.mp hmem
          obtain ⟨n', hsub', hn'⟩ := hrest b hb id' text hrec'
          obtain rfl := SymbolTable.text?_inj hn hn'
          unfold Entry.subjects at hl
          rw [List.filterMap_cons_some hsub] at hl
          exact (List.nodup_cons.mp hl).1 (Entry.mem_subjects.mpr ⟨b, hb, hsub'⟩)
        · cases htext

/-- Entries of different artifacts have different ids, and none has that of the bootstrap loader. -/
theorem ids_nodup {r : Registries} (hwf : r.WF) {l : List Entry} (hl : (Entry.subjects l).Nodup)
    (hids : ∀ e ∈ l, ∀ a, e.subject = some a → r.id? a = some e.record.id)
    (hbootstrap : ∀ e ∈ l, e.subject = none → e.record.id = bootstrapId)
    (honce : (l.filter fun e => e.subject.isNone).length ≤ 1) :
    (l.map fun e => e.record.id).Nodup := by
  induction l with
  | nil => exact List.nodup_nil
  | cons e rest ih =>
      have hrest := fun b hb => hids b (List.mem_cons_of_mem _ hb)
      have hbrest := fun b hb => hbootstrap b (List.mem_cons_of_mem _ hb)
      have hnodup : (Entry.subjects rest).Nodup :=
        hl.sublist ((List.sublist_cons_self e rest).filterMap _)
      have honce' : (rest.filter fun e => e.subject.isNone).length ≤ 1 :=
        Nat.le_trans ((List.sublist_cons_self e rest).filter _).length_le honce
      have hzero : ∀ b : Entry, ∀ a, r.id? a = some b.record.id → b.record.id ≠ bootstrapId :=
        fun b a h e => Nat.lt_irrefl _ (e ▸ (hwf.bounds a _ h).1)
      rw [List.map_cons, List.nodup_cons]
      refine ⟨?_, ih hnodup hrest hbrest honce'⟩
      intro hmem
      obtain ⟨b, hb, heq⟩ := List.mem_map.mp hmem
      cases hsub : e.subject with
      | none =>
          have he := hbootstrap e List.mem_cons_self hsub
          cases hsub' : b.subject with
          | none =>
              -- that would be a second entry without an artifact
              rw [List.filter_cons_of_pos (by rw [hsub]; rfl), List.length_cons] at honce
              have : b ∈ rest.filter fun e => e.subject.isNone :=
                List.mem_filter.mpr ⟨hb, by rw [hsub']; rfl⟩
              have := List.length_pos_of_mem this
              omega
          | some a' => exact hzero b a' (hrest b hb a' hsub') (heq.trans he)
      | some a =>
          have he := hids e List.mem_cons_self a hsub
          cases hsub' : b.subject with
          | none => exact hzero e a he (heq.symm.trans (hbrest b hb hsub'))
          | some a' =>
              have hb' := hrest b hb a' hsub'
              rw [heq] at hb'
              obtain rfl := hwf.id?_inj he hb'
              unfold Entry.subjects at hl
              rw [List.filterMap_cons_some hsub] at hl
              exact (List.nodup_cons.mp hl).1 (Entry.mem_subjects.mpr ⟨b, hb, hsub'⟩)

/-- The texts of a plan: those of tagged symbols, and those used without an earlier record. -/
theorem mem_texts_of_planAll (hready : Ready c r y) (h : planAll c r y = .ok () s) (text : String) :
    text ∈ Entry.texts s.entries ↔
      (∃ n, c.marks.isTagged (.symbol n) = true ∧ y.text? n = some text) ∨
      (c.NeedsText text ∧
        ∀ n, y.text? n = some text → c.marks.isSerialized (.symbol n) = false) := by
  obtain ⟨hs, htagged⟩ := planAll_ok hready h
  have hgrow {n : Handle} {t : String} (hn : y.text? n = some t) : s.symbols.text? n = some t :=
    SymbolTable.text?_of_prefix hs.grown.texts hn
  constructor
  · intro hmem
    obtain ⟨e, he, id, hrec⟩ := Entry.mem_texts.mp hmem
    obtain ⟨n, -, hn, htag | ⟨hser, hneed⟩⟩ := hs.symbol_of_record he hrec
    · -- a tagged symbol was interned before the pass
      obtain ⟨text', hn'⟩ := interned_of_tagged h htag
      have := hgrow hn'
      rw [hn] at this
      cases this
      exact .inl ⟨n, htag, hn'⟩
    · refine .inr ⟨hneed, ?_⟩
      intro n' hn'
      rw [SymbolTable.text?_inj (hgrow hn') hn]
      exact hser
  · rintro (⟨n, htag, hn⟩ | ⟨hneed, hser⟩)
    · obtain ⟨e, he, hsub⟩ := Entry.mem_subjects.mp (htagged _ htag)
      obtain ⟨id, text', hrec, hn', -⟩ := hs.symbols e he n hsub
      rw [hgrow hn] at hn'
      cases hn'
      exact Entry.mem_texts.mpr ⟨e, he, id, hrec⟩
    · rcases hs.text_of_needed htagged hneed with hmem | ⟨n, hn, hn'⟩
      · exact hmem
      · rw [hser n hn] at hn'
        cases hn'

/-- A plan that succeeds has the content that tags, marks and graph ask for. -/
theorem content_of_planAll (hready : Ready c r y) (h : planAll c r y = .ok () s) :
    PassContent c y s.entries := by
  obtain ⟨hs, htagged⟩ := planAll_ok hready h
  have hnodup : (Entry.subjects s.entries).Nodup := by
    have := hs.nodup
    rwa [List.append_nil] at this
  have honce : (s.entries.filter fun e => e.subject.isNone).length ≤ 1 := by
    rw [hs.bootstrap]
    split <;> decide
  have hbootstrap : ∀ e ∈ s.entries, e.subject = none →
      ∃ name, e.record = .classLoader bootstrapId (some name) name := by
    intro e he hsub
    obtain ⟨-, name, -, hrec, -⟩ := hs.bootstrapOk he hsub
    exact ⟨name, hrec⟩
  constructor
  case artifacts =>
    exact fun a hkind => ⟨fun ha => hs.needed a ha hkind, hs.mem_of_needed htagged⟩
  case texts => exact mem_texts_of_planAll hready h
  case bootstrap => exact hs.bootstrap_iff htagged
  case subjects_nodup => exact hnodup
  case texts_nodup =>
    refine texts_nodup (y := s.symbols) hnodup ?_
    intro e he id text hrec
    obtain ⟨n, hsub, hn, -⟩ := hs.symbol_of_record he hrec
    exact ⟨n, hsub, hn⟩
  case bootstrap_once => exact honce
  case ids_nodup =>
    refine ids_nodup (hs.grown.wf hready.wf) hnodup (fun e he a hsub => (hs.ids e he a hsub).1) ?_
      honce
    intro e he hsub
    obtain ⟨name, hrec⟩ := hbootstrap e he hsub
    rw [hrec]
    rfl
  case record_type => exact fun e he a hsub => (hs.ids e he a hsub).2
  case bootstrap_record => exact hbootstrap
  case unloading =>
    intro e he n hsub
    obtain ⟨before, -, hok⟩ := hs.grounded.mem he
    unfold EntryOk at hok
    rw [hsub] at hok
    obtain ⟨i, -, hok⟩ := hok (by simp)
    simpa using hok.unloading

end Pass

/-! ## The order of the tags does not matter -/

/-- The passes have the same tags and marks, whatever the order in which these were set, and read
the same graph under the same settings. -/
structure PassScope.Alike (c c' : PassScope) : Prop where
  graph : c'.graph = c.graph
  settings : c'.settings = c.settings
  bootstrapWritten : c'.bootstrapWritten = c.bootstrapWritten
  tagged : ∀ a, c'.marks.isTagged a = c.marks.isTagged a
  serialized : ∀ a, c'.marks.isSerialized a = c.marks.isSerialized a

namespace PassScope.Alike

variable {c c' : PassScope} (h : c.Alike c')

include h

theorem symm : c'.Alike c :=
  ⟨h.graph.symm, h.settings.symm, h.bootstrapWritten.symm, fun a => (h.tagged a).symm,
    fun a => (h.serialized a).symm⟩

theorem needed {a : Artifact} (ha : c.Needed a) : c'.Needed a := by
  -- need is a matter of graph, tags and marks alone
  unfold Needed stillValid
  rw [h.graph]
  simp only [h.tagged, h.serialized]
  exact ha

theorem needsBootstrap (hb : c.NeedsBootstrap) : c'.NeedsBootstrap := by
  obtain ⟨hemit, hwritten, n, i, hneed, hi, hloader⟩ := hb
  exact ⟨h.settings ▸ hemit, h.bootstrapWritten ▸ hwritten, n, i, h.needed hneed, h.graph ▸ hi,
    hloader⟩

theorem needsText {text : String} (ht : c.NeedsText text) : c'.NeedsText text := by
  rcases ht with ⟨a, i, hneed, hi, hmention⟩ | ⟨hboot, heq⟩
  · exact .inl ⟨a, i, h.needed hneed, h.graph ▸ hi, hmention⟩
  · exact .inr ⟨h.needsBootstrap hboot, h.settings ▸ heq⟩

end PassScope.Alike

/-- Passes that are alike write the same artifacts and the same texts. -/
theorem PassContent.subset {c c' : PassScope} {y : SymbolTable} {l l' : List Entry}
    (hl : PassContent c y l) (hl' : PassContent c' y l') (h : c.Alike c') :
    (∀ a, a.kind ≠ .symbol → a ∈ Entry.subjects l → a ∈ Entry.subjects l') ∧
    (∀ text, text ∈ Entry.texts l → text ∈ Entry.texts l') ∧
    ((∃ e ∈ l, e.subject = none) → ∃ e ∈ l', e.subject = none) := by
  refine ⟨fun a hkind ha => ?_, fun text htext => ?_, fun hb => ?_⟩
  · exact (hl'.artifacts a hkind).mpr (h.needed ((hl.artifacts a hkind).mp ha))
  · rw [hl'.texts]
    simp only [h.tagged, h.serialized]
    exact ((hl.texts text).mp htext).imp_right fun ⟨hneed, hser⟩ => ⟨h.needsText hneed, hser⟩
  · exact hl'.bootstrap.mpr (h.needsBootstrap (hl.bootstrap.mp hb))

end TraceTypes
