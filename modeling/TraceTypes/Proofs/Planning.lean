import TraceTypes.Proofs.Content
/-!
# Planning keeps its invariant

Each action that succeeds keeps `Pass.Inv` and only adds entries. What it
answers is an id with a meaning:

* `symbol_ok`, `bootstrap_ok`, `dependency_ok` — the id of a text, of the
  bootstrap loader and of an artifact stand for these;
* `buildRecord_ok` — a record shows the fields that the graph has;
* `emitAll_ok`, `visit_ok`, `visitAll_ok` — a placeable list, a tagged artifact
  and all of them get their entries.
-/

namespace TraceTypes

open Dependency

namespace Pass

variable {c : PassScope} {r : Registries} {y : SymbolTable} {pending : List Artifact}
  {s s' : Pass} {a : Artifact} {id : TraceId} {text : String}

theorem Stands.mono {before before' : List Entry} {x : Target} (h : Stands c r y before id x)
    (hle : before <+: before') : Stands c r y before' id x :=
  h.imp (fun ⟨e, he, hd⟩ => ⟨e, hle.subset he, hd⟩) fun hp => hp

theorem Means.mono {before before' : List Entry} {x : Target} (h : Means c r y a before id x)
    (hle : before <+: before') : Means c r y a before' id x :=
  h.imp (fun hs => hs.mono hle) fun hx => hx

/-- The entry of an artifact makes its id stand for it. -/
theorem Inv.stands_of_mem (hs : s.Inv c r y pending) (ha : a ∈ Entry.subjects s.entries)
    (hid : s.registries.id? a = some id) : Stands c r y s.entries id (.artifact a) := by
  obtain ⟨e, he, hsub⟩ := Entry.mem_subjects.mp ha
  obtain ⟨hid', htag⟩ := hs.ids e he a hsub
  rw [hid] at hid'
  cases hid'
  exact .inl ⟨e, he, hsub, rfl, htag⟩

/-- A symbol that is placed has its entry, since only other artifacts wait for theirs. -/
theorem Inv.mem_of_done (hs : s.Inv c r y pending) (ha : a ∈ s.plan.done)
    (hkind : a.kind = .symbol) : a ∈ Entry.subjects s.entries := by
  rcases (hs.done a).mp ha with h | h
  · exact h
  · exact absurd hkind (hs.pending a h).kind_ne

/-! ## One more entry -/

variable (c r y) in
/-- An entry that fits behind these entries, in a pass that ends in the state `s`. -/
structure Fits (before : List Entry) (s : Pass) (e : Entry) : Prop where
  ids : ∀ a, e.subject = some a →
    s.registries.id? a = some e.record.id ∧ e.record.tag = a.kind.index + 1
  needed : ∀ a, e.subject = some a → a.kind ≠ .symbol → c.Needed a
  symbols : ∀ h, e.subject = some (.symbol h) → ∃ id text,
    e.record = .symbol id text ∧ s.symbols.text? h = some text ∧
      (c.marks.isTagged (.symbol h) = true ∨
        c.marks.isSerialized (.symbol h) = false ∧ c.NeedsText text)
  unloaded : ∀ h, e.subject = some (.cls h) → c.classUnload = true →
    c.graph.isUnloading h = true → h ∈ s.unloading
  ok : EntryOk c r y before e

/-- To add an entry that fits keeps the invariant. What becomes of the artifacts that wait and of
the bootstrap loader's entry is not the same in each case. -/
theorem Inv.snoc {e : Entry} {pending' : List Artifact} (hs : s.Inv c r y pending)
    (hgrown : s'.Grown r y) (hentries : s'.entries = s.entries ++ [e])
    (hsymbols : s'.symbols = s.symbols) (hunloading : s'.unloading = s.unloading)
    (hkeeps : ∀ {a id}, s.registries.id? a = some id → s'.registries.id? a = some id)
    (hfits : Fits c r y s.entries s' e)
    (hfresh : ∀ a ∈ s'.fresh, a ∈ Entry.subjects s'.entries ∨ a ∈ pending')
    (hdone : ∀ a, a ∈ s'.plan.done ↔ a ∈ Entry.subjects s'.entries ∨ a ∈ pending')
    (hnodup : (Entry.subjects s'.entries ++ pending').Nodup)
    (hpending : ∀ a ∈ pending', c.Needed a)
    (hcount : (s'.entries.filter fun e => e.subject.isNone).length =
      if s'.bootstrapEmitted then 1 else 0)
    (hneeds : s'.bootstrapEmitted = true → c.NeedsBootstrap) : s'.Inv c r y pending' := by
  have hcases {P : Entry → Prop} (hold : ∀ e ∈ s.entries, P e) (hnew : P e) :
      ∀ e ∈ s'.entries, P e := by
    rw [hentries]
    exact List.forall_mem_append.mpr ⟨hold, List.forall_mem_singleton.mpr hnew⟩
  have hsubjects {P : Artifact → Prop} (hold : ∀ a ∈ Entry.subjects s.entries, P a)
      (hnew : ∀ a, e.subject = some a → P a) : ∀ a ∈ Entry.subjects s'.entries, P a := by
    intro a ha
    obtain ⟨x, hx, hsub⟩ := Entry.mem_subjects.mp ha
    exact hcases (fun e he a hsub => hold a (Entry.mem_subjects.mpr ⟨e, he, hsub⟩)) hnew x hx a hsub
  constructor
  case grown => exact hgrown
  case ids =>
    refine hcases ?_ hfits.ids
    intro x hx a hsub
    obtain ⟨hid, htag⟩ := hs.ids x hx a hsub
    exact ⟨hkeeps hid, htag⟩
  case fresh => exact hfresh
  case done => exact hdone
  case nodup => exact hnodup
  case pending => exact hpending
  case needed => exact hsubjects hs.needed hfits.needed
  case symbols =>
    refine hcases ?_ hfits.symbols
    intro x hx
    rw [hsymbols]
    exact hs.symbols x hx
  case bootstrap => exact hcount
  case bootstrap_needed => exact hneeds
  case unloading =>
    rw [hunloading]
    exact hs.unloading
  case unloaded =>
    intro h hh
    refine hsubjects (P := fun a => ∀ h, a = .cls h → _) (fun a ha h heq => ?_)
      (fun a hsub h heq => hfits.unloaded h (heq ▸ hsub)) _ hh h rfl
    rw [hunloading]
    exact hs.unloaded h (heq ▸ ha)
  case grounded =>
    rw [hentries]
    exact hs.grounded.snoc hfits.ok

/-! ## One symbol -/

/-- To intern a text answers a symbol that stands for it. -/
theorem intern_ok (hs : s.Inv c r y pending) (h : PassM.intern text s = .ok a s') :
    s'.Inv c r y pending ∧ s'.entries = s.entries ∧
      ∃ n, a = .symbol n ∧ s'.symbols.text? n = some text := by
  have hgrown := (PassM.keeps_grown_intern text).ok hs.grown h
  cases h
  refine ⟨{ hs with grown := hgrown, symbols := ?_ }, rfl, _, ?_, s.symbols.text?_intern text⟩
  · intro e he n hsub
    obtain ⟨id, t, hrec, htext, hwhy⟩ := hs.symbols e he n hsub
    exact ⟨id, t, hrec, SymbolTable.text?_of_prefix (s.symbols.prefix_intern text) htext, hwhy⟩
  · exact congrArg (Artifact.mk · _) (s.symbols.kind_intern text)

/-- All that the registration of an artifact does to a pass. -/
theorem register_eq_ok (h : PassM.register a s = .ok id s') :
    ∃ fresh r', s.registries.register a = .ok ((id, fresh), r') ∧
      s' = { s with registries := r', fresh := if fresh then s.fresh ++ [a] else s.fresh } := by
  unfold PassM.register at h
  cases hr : s.registries.register a with
  | error v => rw [hr] at h; cases h
  | ok p =>
      obtain ⟨⟨i, fresh⟩, r'⟩ := p
      rw [hr] at h
      cases h
      exact ⟨fresh, r', rfl, rfl⟩

/-- To register an artifact that has an id changes nothing. -/
theorem register_known {i : TraceId} (h : PassM.register a s = .ok id s')
    (ha : s.registries.id? a = some i) : id = i ∧ s' = s := by
  obtain ⟨fresh, r', hr, rfl⟩ := register_eq_ok h
  rcases Registries.register_cases hr with ⟨hid, rfl, rfl⟩ | ⟨hnone, _⟩
  · rw [ha] at hid
    cases hid
    exact ⟨rfl, rfl⟩
  · rw [ha] at hnone
    cases hnone

/-- A symbol without a record is registered and written. -/
theorem Inv.writeSymbol {h : Handle} {s₁ : Pass} (hs : s.Inv c r y pending)
    (hnew : .symbol h ∉ s.plan.done) (htext : s.symbols.text? h = some text)
    (hwhy : c.marks.isTagged (.symbol h) = true ∨
      c.marks.isSerialized (.symbol h) = false ∧ c.NeedsText text)
    (hr : PassM.register (.symbol h) s = .ok id s₁)
    (hw : PassM.writeSymbol (.symbol h) id text s₁ = .ok () s') :
    s'.Inv c r y pending ∧ s'.entries = s.entries ++ [⟨some (.symbol h), .symbol id text⟩] := by
  have hgrown := (PassM.keeps_grown_writeSymbol _ id text).ok
    ((PassM.keeps_grown_register _).ok hs.grown hr) hw
  obtain ⟨fresh, r', hreg, rfl⟩ := register_eq_ok hr
  cases hw
  have hout : .symbol h ∉ Entry.subjects s.entries ++ pending := by
    rw [List.mem_append]
    exact fun hmem => hnew ((hs.done _).mpr hmem)
  have hsubjects (l : List Entry) : Entry.subjects (l ++ [⟨some (.symbol h), .symbol id text⟩]) =
      Entry.subjects l ++ [.symbol h] := Entry.subjects_append ..
  refine ⟨hs.snoc hgrown rfl rfl rfl (Registries.id?_register_of_some hreg) ?_ ?_ ?_ ?_ hs.pending
    ?_ hs.bootstrap_needed, rfl⟩
  · constructor
    case ids =>
      rintro _ ⟨⟩
      exact ⟨Registries.id?_of_register hreg, rfl⟩
    case needed =>
      rintro _ ⟨⟩ hkind
      exact absurd rfl hkind
    case symbols =>
      rintro _ ⟨⟩
      exact ⟨id, text, rfl, htext, hwhy⟩
    case unloaded => exact fun _ hsub => by cases hsub
    case ok => exact fun hkind => absurd rfl hkind
  · -- only the symbol is new among the registered ones
    intro b hb
    dsimp only at hb ⊢
    rw [hsubjects, List.mem_append, List.mem_singleton]
    cases fresh with
    | false => exact (hs.fresh b hb).imp_left .inl
    | true =>
        rcases List.mem_append.mp hb with hb | hb
        · exact (hs.fresh b hb).imp_left .inl
        · exact .inl (.inr (List.mem_singleton.mp hb))
  · intro b
    show b ∈ List.insert _ _ ↔ _
    rw [List.mem_insert_iff, hs.done, hsubjects, List.mem_append, List.mem_singleton]
    constructor
    · rintro (rfl | hb | hb)
      · exact .inl (.inr rfl)
      · exact .inl (.inl hb)
      · exact .inr hb
    · rintro ((hb | rfl) | hb)
      · exact .inr (.inl hb)
      · exact .inl rfl
      · exact .inr (.inr hb)
  · rw [hsubjects, List.append_assoc, List.singleton_append]
    exact List.perm_middle.nodup_iff.mpr (List.nodup_cons.mpr ⟨hout, hs.nodup⟩)
  · dsimp only
    rw [List.filter_append]
    simpa using hs.bootstrap

/-- The id of a text stands for it, and the text gets an entry if it needs one. -/
theorem symbol_ok (hready : Ready c r y) (hs : s.Inv c r y pending) (hneed : c.NeedsText text)
    (h : PassM.symbol c text s = .ok id s') :
    s'.Inv c r y pending ∧ s.entries <+: s'.entries ∧ Stands c r y s'.entries id (.text text) := by
  obtain ⟨a, s₁, hintern, h⟩ := ok_of_bind h
  obtain ⟨i, s₂, hr, h⟩ := ok_of_bind h
  obtain ⟨_, s₃, hann, h⟩ := ok_of_bind h
  obtain ⟨rfl, rfl⟩ := ok_of_pure h
  obtain ⟨hs₁, hentries, n, rfl, htext⟩ := intern_ok hs hintern
  rw [← hentries]
  unfold PassM.announce at hann
  split at hann
  · rename_i hcond
    have hdone : s₂.plan.done = s₁.plan.done := by
      obtain ⟨_, _, -, rfl⟩ := register_eq_ok hr
      rfl
    cases hann
    rcases Bool.or_eq_true_iff.mp hcond with hcond | hser
    · -- the symbol has an entry in this pass
      have hmem := hs₁.mem_of_done (hdone ▸ List.contains_iff_mem.mp hcond) rfl
      obtain ⟨e, he, hsub⟩ := Entry.mem_subjects.mp hmem
      obtain ⟨hid, -⟩ := hs₁.ids e he _ hsub
      obtain ⟨rfl, rfl⟩ := register_known hr hid
      obtain ⟨j, t, hrec, ht, -⟩ := hs₁.symbols e he n hsub
      rw [htext] at ht
      cases ht
      exact ⟨hs₁, List.prefix_rfl, .inl ⟨e, he, ⟨n, hsub⟩, by rw [hrec]; rfl⟩⟩
    · -- the symbol has a record from an earlier pass
      obtain ⟨j, hj⟩ := hready.registered _ hser
      obtain ⟨rfl, rfl⟩ := register_known hr (hs₁.grown.registries.keeps hj)
      obtain ⟨t, ht⟩ := hready.interned n hser
      have := SymbolTable.text?_of_prefix hs₁.grown.texts ht
      rw [htext] at this
      cases this
      exact ⟨hs₁, List.prefix_rfl, .inr ⟨n, hser, ht, hj⟩⟩
  · rename_i hcond
    rw [Bool.or_eq_true, not_or] at hcond
    have hnew : .symbol n ∉ s₁.plan.done := by
      obtain ⟨_, _, -, rfl⟩ := register_eq_ok hr
      exact fun hmem => hcond.1 (List.contains_iff_mem.mpr hmem)
    obtain ⟨hs₃, heq⟩ :=
      hs₁.writeSymbol hnew htext (.inr ⟨by simpa using hcond.2, hneed⟩) hr hann
    refine ⟨hs₃, ?_, .inl ⟨⟨some (.symbol n), .symbol id text⟩, ?_, ⟨n, rfl⟩, rfl⟩⟩ <;> rw [heq]
    · exact List.prefix_append ..
    · exact List.mem_append_right _ List.mem_cons_self

/-- A tagged symbol gets an entry. -/
theorem taggedSymbol_ok (hs : s.Inv c r y pending) (hkind : a.kind = .symbol)
    (htag : c.marks.isTagged a = true) (h : PassM.taggedSymbol a s = .ok () s') :
    s'.Inv c r y pending ∧ s.entries <+: s'.entries ∧ a ∈ Entry.subjects s'.entries := by
  unfold PassM.taggedSymbol at h
  split at h
  · rename_i hdone
    cases h
    exact ⟨hs, List.prefix_rfl, hs.mem_of_done (List.contains_iff_mem.mp hdone) hkind⟩
  · rename_i hdone
    obtain ⟨k, n⟩ := a
    cases hkind
    cases htext : s.symbols.text? n with
    | none => rw [htext] at h; cases h
    | some text =>
        rw [htext] at h
        obtain ⟨id, s₁, hr, hw⟩ := ok_of_bind h
        have hnew : .symbol n ∉ s.plan.done := fun hmem => hdone (List.contains_iff_mem.mpr hmem)
        obtain ⟨hs', heq⟩ := hs.writeSymbol hnew htext (.inl htag) hr hw
        refine ⟨hs', ?_, ?_⟩ <;> rw [heq]
        · exact List.prefix_append ..
        · exact Entry.mem_subjects.mpr ⟨_, List.mem_append_right _ List.mem_cons_self, rfl⟩

/-! ## The bootstrap loader -/

/-- The entry of the bootstrap loader. -/
theorem Inv.writeBootstrap {name : TraceId} (hs : s.Inv c r y pending)
    (hnone : s.bootstrapEmitted = false) (hneed : c.NeedsBootstrap)
    (hname : Stands c r y s.entries name (.text c.settings.bootstrapLoaderName))
    (h : PassM.writeBootstrap name s = .ok () s') :
    s'.Inv c r y pending ∧
      s'.entries = s.entries ++ [⟨none, .classLoader bootstrapId (some name) name⟩] := by
  cases h
  have hsubjects (l : List Entry) :
      Entry.subjects (l ++ [⟨none, .classLoader bootstrapId (some name) name⟩]) =
        Entry.subjects l := by
    rw [Entry.subjects_append]
    exact List.append_nil _
  refine ⟨hs.snoc ⟨hs.grown.registries, hs.grown.wf, hs.grown.texts⟩ rfl rfl rfl (fun h => h) ?_
    ?_ ?_ ?_ hs.pending ?_ (fun _ => hneed), rfl⟩
  · -- the entry has no artifact
    exact ⟨fun _ h => (by cases h), fun _ h => (by cases h), fun _ h => (by cases h),
      fun _ h => (by cases h), name, rfl, hname⟩
  · simpa only [hsubjects] using hs.fresh
  · simpa only [hsubjects] using hs.done
  · simpa only [hsubjects] using hs.nodup
  · have hcount := hs.bootstrap
    rw [hnone, if_neg Bool.false_ne_true] at hcount
    dsimp only
    rw [List.filter_append, List.length_append, hcount]
    rfl

theorem keeps_bootstrapEmitted_symbol (b : Bool) (text : String) :
    Keeps (fun s => s.bootstrapEmitted = b) (PassM.symbol c text) := by
  refine .bind (fun s hs => hs) fun a => .bind (fun s hs => ?_) fun id => ?_
  · unfold PassM.register
    cases s.registries.register a <;> exact hs
  · refine .bind ?_ fun _ => .pure id
    intro s hs
    unfold PassM.announce
    split <;> exact hs

/-- The id of the bootstrap loader stands for it, and it gets an entry if it needs one. -/
theorem bootstrap_ok (hready : Ready c r y) (hs : s.Inv c r y pending) {h : Handle}
    {i : ClassInfo} (hneed : c.Needed (.cls h)) (hi : c.graph.cls h = some i)
    (hloader : i.loader = none) (hb : PassM.bootstrap c s = .ok id s') :
    s'.Inv c r y pending ∧ s.entries <+: s'.entries ∧ Stands c r y s'.entries id .bootstrap := by
  unfold PassM.bootstrap at hb
  split at hb
  · rename_i hcond
    simp only [Bool.and_eq_true, Bool.not_eq_eq_eq_not, Bool.not_true] at hcond
    obtain ⟨⟨hemit, hwritten⟩, hnone⟩ := hcond
    have hneeded : c.NeedsBootstrap := ⟨hemit, hwritten, h, i, hneed, hi, hloader⟩
    obtain ⟨name, s₁, hname, hb⟩ := ok_of_bind hb
    obtain ⟨_, s₂, hw, hb⟩ := ok_of_bind hb
    obtain ⟨rfl, rfl⟩ := ok_of_pure hb
    obtain ⟨hs₁, hle, hstands⟩ := symbol_ok hready hs (.inr ⟨hneeded, rfl⟩) hname
    have hnone₁ := (keeps_bootstrapEmitted_symbol false _).ok hnone hname
    obtain ⟨hs₂, heq⟩ := hs₁.writeBootstrap hnone₁ hneeded hstands hw
    refine ⟨hs₂, ?_, .inl ⟨⟨none, .classLoader bootstrapId (some name) name⟩, ?_, rfl, rfl, name,
      rfl⟩⟩ <;> rw [heq]
    · exact hle.trans (List.prefix_append ..)
    · exact List.mem_append_right _ List.mem_cons_self
  · rename_i hcond
    cases hb
    refine ⟨hs, List.prefix_rfl, ?_⟩
    -- no record now: there is one in this pass, or an earlier one, or it is switched off
    by_cases hemitted : s.bootstrapEmitted = true
    · obtain ⟨e, hmem, hsub⟩ := hs.bootstrapEmitted_iff.mp hemitted
      obtain ⟨before, -, hok⟩ := hs.grounded.mem hmem
      unfold EntryOk at hok
      rw [hsub] at hok
      obtain ⟨name, hrec, -⟩ := hok
      exact .inl ⟨e, hmem, hsub, rfl, name, hrec⟩
    · refine .inr ⟨rfl, ?_⟩
      intro hemit
      simp_all

/-! ## The parts of a record -/

variable (c r y pending a) in
/-- An artifact that waits for its record and can have it: its dependencies have theirs. -/
structure Building (i : ArtifactInfo) (s : Pass) : Prop where
  inv : s.Inv c r y pending
  mem : a ∈ pending
  fields : c.graph.describe? a = some i
  placed : ∃ l, direct c.graph a i = .ok l ∧
    ∀ d ∈ l, c.stillValid d = true ∨ d ∈ Entry.subjects s.entries

variable {i : ArtifactInfo}

theorem Building.step (hb : s.Building c r y pending a i) (hs : s'.Inv c r y pending)
    (hle : s.entries <+: s'.entries) : s'.Building c r y pending a i := by
  obtain ⟨l, hl, hplaced⟩ := hb.placed
  exact ⟨hs, hb.mem, hb.fields, l, hl,
    fun d hd => (hplaced d hd).imp_right fun h => Entry.subjects_subset hle h⟩

theorem Building.symbol (hready : Ready c r y) (hb : s.Building c r y pending a i)
    (htext : .text text ∈ i.mentions) (h : PassM.symbol c text s = .ok id s') :
    s'.Building c r y pending a i ∧ s.entries <+: s'.entries ∧
      Means c r y a s'.entries id (.text text) := by
  have hneed : c.NeedsText text := .inl ⟨a, i, hb.inv.pending a hb.mem, hb.fields, htext⟩
  obtain ⟨hs, hle, hstands⟩ := symbol_ok hready hb.inv hneed h
  exact ⟨hb.step hs hle, hle, .inl hstands⟩

theorem Building.optionalSymbol (hready : Ready c r y) (hb : s.Building c r y pending a i)
    {o : Option String} {id : Option TraceId} (htext : ∀ t ∈ o, .text t ∈ i.mentions)
    (h : PassM.optionalSymbol c o s = .ok id s') :
    s'.Building c r y pending a i ∧ s.entries <+: s'.entries ∧
      Option.Rel (Means c r y a s'.entries) id (o.map Target.text) := by
  cases o with
  | none =>
      obtain ⟨rfl, rfl⟩ := ok_of_pure h
      exact ⟨hb, List.prefix_rfl, .none⟩
  | some t =>
      obtain ⟨j, s₁, hsym, h⟩ := ok_of_bind h
      obtain ⟨rfl, rfl⟩ := ok_of_pure h
      obtain ⟨hb₁, hle, hmeans⟩ := hb.symbol hready (htext t rfl) hsym
      exact ⟨hb₁, hle, .some hmeans⟩

/-- An artifact that the fields point at is the artifact itself or has a record already. -/
theorem Building.dependency (hready : Ready c r y) (hb : s.Building c r y pending a i)
    {d : Artifact} (hd : .artifact d ∈ i.mentions) (h : PassM.dependency d s = .ok id s') :
    s' = s ∧ Means c r y a s.entries id (.artifact d) := by
  unfold PassM.dependency at h
  cases hid : s.registries.id? d with
  | none => rw [hid] at h; cases h
  | some j =>
      rw [hid] at h
      cases h
      refine ⟨rfl, ?_⟩
      obtain ⟨l, hl, hplaced⟩ := hb.placed
      obtain ⟨t, ht, hmem⟩ := direct_eq_ok hl
      -- a class can be its own superclass; all else was placed or is covered
      by_cases hda : d = a
      · exact .inr (by rw [hda])
      · rcases hplaced d ((hmem d).mpr ⟨mem_targets_of_mentions ht hd, hda⟩) with hvalid | hsub
        · have hser : c.marks.isSerialized d = true := (Bool.and_eq_true_iff.mp hvalid).1
          obtain ⟨k, hk⟩ := hready.registered d hser
          have := hb.inv.grown.registries.keeps hk
          rw [hid] at this
          cases this
          exact .inl (.inr ⟨hvalid, hk⟩)
        · exact .inl (hb.inv.stands_of_mem hsub hid)

theorem Building.optionalDependency (hready : Ready c r y) (hb : s.Building c r y pending a i)
    {o : Option Artifact} {id : Option TraceId} (hd : ∀ d ∈ o, .artifact d ∈ i.mentions)
    (h : PassM.optionalDependency o s = .ok id s') :
    s' = s ∧ Option.Rel (Means c r y a s.entries) id (o.map Target.artifact) := by
  cases o with
  | none =>
      obtain ⟨rfl, rfl⟩ := ok_of_pure h
      exact ⟨rfl, .none⟩
  | some d =>
      obtain ⟨j, s₁, hdep, h⟩ := ok_of_bind h
      obtain ⟨rfl, rfl⟩ := ok_of_pure h
      obtain ⟨rfl, hmeans⟩ := hb.dependency hready (hd d rfl) hdep
      exact ⟨rfl, .some hmeans⟩

theorem Building.loader (hready : Ready c r y) {i : ClassInfo}
    (hb : s.Building c r y pending a (.cls i)) (h : PassM.loader c i.loader s = .ok id s') :
    s'.Building c r y pending a (.cls i) ∧ s.entries <+: s'.entries ∧
      Means c r y a s'.entries id (.loader i.loader) := by
  cases hl : i.loader with
  | none =>
      rw [hl] at h
      obtain ⟨n, rfl, hn⟩ := MetadataGraph.cls_of_describe? hb.fields
      obtain ⟨hs, hle, hstands⟩ := bootstrap_ok hready hb.inv (hb.inv.pending _ hb.mem) hn hl h
      exact ⟨hb.step hs hle, hle, .inl hstands⟩
  | some l =>
      rw [hl] at h
      obtain ⟨rfl, hmeans⟩ :=
        hb.dependency hready (by simp [ArtifactInfo.mentions, hl, Target.loader]) h
      exact ⟨hb, List.prefix_rfl, hmeans⟩

theorem Building.register (hb : s.Building c r y pending a i)
    (h : PassM.register a s = .ok id s') :
    s'.Building c r y pending a i ∧ s'.entries = s.entries ∧ s'.unloading = s.unloading ∧
      s'.registries.id? a = some id := by
  have hgrown := (PassM.keeps_grown_register a).ok hb.inv.grown h
  obtain ⟨fresh, r', hr, rfl⟩ := register_eq_ok h
  refine ⟨hb.step { hb.inv with grown := hgrown, ids := ?_, fresh := ?_ } List.prefix_rfl, rfl,
    rfl, Registries.id?_of_register hr⟩
  · intro e he b hsub
    obtain ⟨hid, htag⟩ := hb.inv.ids e he b hsub
    exact ⟨Registries.id?_register_of_some hr hid, htag⟩
  · intro b hmem
    dsimp only at hmem
    split at hmem
    · rcases List.mem_append.mp hmem with hmem | hmem
      · exact hb.inv.fresh b hmem
      · exact .inr (List.mem_singleton.mp hmem ▸ hb.mem)
    · exact hb.inv.fresh b hmem

/-! ## One record -/

variable (c r y pending a) in
/-- A record was built for an artifact and is not written yet. -/
structure Built (i : ArtifactInfo) (record : Record) (s : Pass) : Prop where
  building : s.Building c r y pending a i
  id : s.registries.id? a = some record.id
  shows : record.Shows (Means c r y a s.entries) i
  unloading : record.saysUnloading =
    (c.classUnload && decide (a.kind = .cls) && c.graph.isUnloading a.handle)
  noted : a.kind = .cls → c.classUnload = true → c.graph.isUnloading a.handle = true →
    a.handle ∈ s.unloading

/-- A record without an unloading flag is built when its artifact is registered. -/
theorem Building.built {record : Record} (hb : s.Building c r y pending a i)
    (hid : s.registries.id? a = some record.id)
    (hshows : record.Shows (Means c r y a s.entries) i) (hi : i.kind ≠ .cls) :
    s.Built c r y pending a i record := by
  have hkind : a.kind ≠ .cls := by rwa [MetadataGraph.kind_of_describe? hb.fields]
  refine ⟨hb, hid, hshows, ?_, fun hk => absurd hk hkind⟩
  rw [decide_eq_false hkind, Bool.and_false, Bool.false_and]
  have htag := hshows.tag_eq
  cases i <;> cases record <;> first | rfl | exact absurd rfl hi | cases htag

theorem Building.noteUnloading {i : ClassInfo} (hb : s.Building c r y pending a (.cls i))
    (h : PassM.noteUnloading a.handle (c.classUnload && c.graph.isUnloading a.handle) s =
      .ok () s') :
    s'.Building c r y pending a (.cls i) ∧ s'.entries = s.entries ∧
      (c.classUnload = true → c.graph.isUnloading a.handle = true → a.handle ∈ s'.unloading) := by
  have hgrown := (PassM.keeps_grown_noteUnloading _ _).ok hb.inv.grown h
  cases h
  obtain ⟨n, rfl, hn⟩ := MetadataGraph.cls_of_describe? hb.fields
  refine ⟨hb.step { hb.inv with grown := hgrown, unloading := ?_, unloaded := ?_ } List.prefix_rfl,
    rfl, fun h1 h2 => by simp [h1, h2]⟩
  · intro h hmem
    dsimp only at hmem
    split at hmem
    · rename_i hflag
      rcases List.mem_append.mp hmem with hmem | hmem
      · exact hb.inv.unloading h hmem
      · rw [List.mem_singleton.mp hmem]
        obtain ⟨h1, h2⟩ := Bool.and_eq_true_iff.mp hflag
        exact ⟨h1, h2, hb.inv.pending _ hb.mem⟩
    · exact hb.inv.unloading h hmem
  · intro h hmem h1 h2
    have := hb.inv.unloaded h hmem h1 h2
    dsimp only
    split
    · exact List.mem_append_left _ this
    · exact this

theorem Building.noteOwner {i : MethodInfo} (hb : s.Building c r y pending a (.method i))
    (owner : Handle) (h : PassM.noteOwner a owner s = .ok () s') :
    s'.Building c r y pending a (.method i) ∧ s'.entries = s.entries ∧
      s'.registries.id? a = s.registries.id? a := by
  have hkind := MetadataGraph.kind_of_describe? hb.fields
  have hgrown := (PassM.keeps_grown_noteOwner hkind owner).ok hb.inv.grown h
  cases h
  refine ⟨hb.step { hb.inv with grown := hgrown, ids := ?_ } List.prefix_rfl, rfl,
    Registries.id?_setOwner ..⟩
  intro e he b hsub
  rw [Registries.id?_setOwner]
  exact hb.inv.ids e he b hsub

theorem classRecord_ok (hready : Ready c r y) {i : ClassInfo} {record : Record}
    (hb : s.Building c r y pending a (.cls i)) (h : PassM.classRecord c a i s = .ok record s') :
    s'.Built c r y pending a (.cls i) record ∧ s.entries <+: s'.entries := by
  obtain ⟨name, s₁, hname, h⟩ := ok_of_bind h
  obtain ⟨loader, s₂, hloader, h⟩ := ok_of_bind h
  obtain ⟨package, s₃, hpackage, h⟩ := ok_of_bind h
  obtain ⟨element, s₄, helement, h⟩ := ok_of_bind h
  obtain ⟨superclass, s₅, hsuper, h⟩ := ok_of_bind h
  obtain ⟨_, s₆, hnote, h⟩ := ok_of_bind h
  obtain ⟨id, s₇, hreg, h⟩ := ok_of_bind h
  obtain ⟨rfl, rfl⟩ := ok_of_pure h
  obtain ⟨hb₁, hle₁, hname⟩ := hb.symbol hready (by simp [ArtifactInfo.mentions]) hname
  obtain ⟨hb₂, hle₂, hloader⟩ := hb₁.loader hready hloader
  obtain ⟨rfl, hpackage⟩ := hb₂.optionalDependency hready
    (by simp +contextual [ArtifactInfo.mentions]) hpackage
  obtain ⟨rfl, helement⟩ := hb₂.optionalDependency hready
    (by simp +contextual [ArtifactInfo.mentions]) helement
  obtain ⟨rfl, hsuper⟩ := hb₂.optionalDependency hready
    (by simp +contextual [ArtifactInfo.mentions]) hsuper
  obtain ⟨hb₆, heq₆, hnoted⟩ := hb₂.noteUnloading hnote
  obtain ⟨hb₇, heq₇, hunl, hid⟩ := hb₆.register hreg
  rw [Option.map_map] at hpackage helement hsuper
  have heq : s'.entries = s₅.entries := heq₇.trans heq₆
  have hkind : a.kind = .cls := MetadataGraph.kind_of_describe? hb.fields
  refine ⟨⟨hb₇, hid, ?_, ?_, ?_⟩, heq ▸ hle₁.trans hle₂⟩
  · rw [heq]
    exact ⟨hname.mono hle₂, hloader, hpackage, hsuper, helement, rfl, rfl⟩
  · rw [decide_eq_true hkind, Bool.and_true]
    rfl
  · rw [hunl]
    exact fun _ => hnoted

theorem methodRecord_ok (hready : Ready c r y) {i : MethodInfo} {record : Record}
    (hb : s.Building c r y pending a (.method i))
    (h : PassM.methodRecord c a i s = .ok record s') :
    s'.Built c r y pending a (.method i) record ∧ s.entries <+: s'.entries := by
  obtain ⟨holder, s₁, hholder, h⟩ := ok_of_bind h
  obtain ⟨name, s₂, hname, h⟩ := ok_of_bind h
  obtain ⟨descriptor, s₃, hdesc, h⟩ := ok_of_bind h
  obtain ⟨id, s₄, hreg, h⟩ := ok_of_bind h
  obtain ⟨_, s₅, hnote, h⟩ := ok_of_bind h
  obtain ⟨rfl, rfl⟩ := ok_of_pure h
  obtain ⟨rfl, hholder⟩ := hb.dependency hready (by simp [ArtifactInfo.mentions]) hholder
  obtain ⟨hb₂, hle₂, hname⟩ := hb.symbol hready (by simp [ArtifactInfo.mentions]) hname
  obtain ⟨hb₃, hle₃, hdesc⟩ := hb₂.symbol hready (by simp [ArtifactInfo.mentions]) hdesc
  obtain ⟨hb₄, heq₄, -, hid⟩ := hb₃.register hreg
  obtain ⟨hb₅, heq₅, hid₅⟩ := hb₄.noteOwner _ hnote
  have heq : s'.entries = s₃.entries := heq₅.trans heq₄
  refine ⟨hb₅.built (hid₅.trans hid) ?_ (by simp [ArtifactInfo.kind]), heq ▸ hle₂.trans hle₃⟩
  rw [heq]
  exact ⟨hholder.mono (hle₂.trans hle₃), hname.mono hle₃, hdesc, rfl, rfl⟩

theorem packageRecord_ok (hready : Ready c r y) {i : PackageInfo} {record : Record}
    (hb : s.Building c r y pending a (.package i))
    (h : PassM.packageRecord c a i s = .ok record s') :
    s'.Built c r y pending a (.package i) record ∧ s.entries <+: s'.entries := by
  obtain ⟨name, s₁, hname, h⟩ := ok_of_bind h
  obtain ⟨owner, s₂, howner, h⟩ := ok_of_bind h
  obtain ⟨id, s₃, hreg, h⟩ := ok_of_bind h
  obtain ⟨rfl, rfl⟩ := ok_of_pure h
  obtain ⟨hb₁, hle₁, hname⟩ := hb.symbol hready (by simp [ArtifactInfo.mentions]) hname
  obtain ⟨rfl, howner⟩ := hb₁.optionalDependency hready
    (by simp +contextual [ArtifactInfo.mentions]) howner
  obtain ⟨hb₃, heq, -, hid⟩ := hb₁.register hreg
  rw [Option.map_map] at howner
  refine ⟨hb₃.built hid ?_ (by simp [ArtifactInfo.kind]), heq ▸ hle₁⟩
  rw [heq]
  exact ⟨hname, howner, rfl⟩

theorem moduleRecord_ok (hready : Ready c r y) {i : ModuleInfo} {record : Record}
    (hb : s.Building c r y pending a (.module i))
    (h : PassM.moduleRecord c a i s = .ok record s') :
    s'.Built c r y pending a (.module i) record ∧ s.entries <+: s'.entries := by
  obtain ⟨name, s₁, hname, h⟩ := ok_of_bind h
  obtain ⟨version, s₂, hversion, h⟩ := ok_of_bind h
  obtain ⟨location, s₃, hlocation, h⟩ := ok_of_bind h
  obtain ⟨id, s₄, hreg, h⟩ := ok_of_bind h
  obtain ⟨rfl, rfl⟩ := ok_of_pure h
  obtain ⟨hb₁, hle₁, hname⟩ := hb.symbol hready (by simp [ArtifactInfo.mentions]) hname
  obtain ⟨hb₂, hle₂, hversion⟩ := hb₁.optionalSymbol hready
    (by simp +contextual [ArtifactInfo.mentions]) hversion
  obtain ⟨hb₃, hle₃, hlocation⟩ := hb₂.optionalSymbol hready
    (by simp +contextual [ArtifactInfo.mentions]) hlocation
  obtain ⟨hb₄, heq, -, hid⟩ := hb₃.register hreg
  refine ⟨hb₄.built hid ?_ (by simp [ArtifactInfo.kind]), heq ▸ hle₁.trans (hle₂.trans hle₃)⟩
  rw [heq]
  exact ⟨hname.mono (hle₂.trans hle₃), optionRel_imp hversion fun _ _ _ hm => hm.mono hle₃,
    hlocation⟩

theorem loaderRecord_ok (hready : Ready c r y) {i : LoaderInfo} {record : Record}
    (hb : s.Building c r y pending a (.classLoader i))
    (h : PassM.loaderRecord c a i s = .ok record s') :
    s'.Built c r y pending a (.classLoader i) record ∧ s.entries <+: s'.entries := by
  obtain ⟨name, s₁, hname, h⟩ := ok_of_bind h
  obtain ⟨typeName, s₂, htype, h⟩ := ok_of_bind h
  obtain ⟨id, s₃, hreg, h⟩ := ok_of_bind h
  obtain ⟨rfl, rfl⟩ := ok_of_pure h
  obtain ⟨hb₁, hle₁, hname⟩ := hb.optionalSymbol hready
    (by simp +contextual [ArtifactInfo.mentions]) hname
  obtain ⟨hb₂, hle₂, htype⟩ := hb₁.symbol hready (by simp [ArtifactInfo.mentions]) htype
  obtain ⟨hb₃, heq, -, hid⟩ := hb₂.register hreg
  refine ⟨hb₃.built hid ?_ (by simp [ArtifactInfo.kind]), heq ▸ hle₁.trans hle₂⟩
  rw [heq]
  exact ⟨optionRel_imp hname fun _ _ _ hm => hm.mono hle₂, htype⟩

theorem threadRecord_ok (hready : Ready c r y) {i : ThreadInfo} {record : Record}
    (hb : s.Building c r y pending a (.thread i))
    (h : PassM.threadRecord c a i s = .ok record s') :
    s'.Built c r y pending a (.thread i) record ∧ s.entries <+: s'.entries := by
  obtain ⟨name, s₁, hname, h⟩ := ok_of_bind h
  obtain ⟨id, s₂, hreg, h⟩ := ok_of_bind h
  obtain ⟨rfl, rfl⟩ := ok_of_pure h
  obtain ⟨hb₁, hle₁, hname⟩ := hb.symbol hready (by simp [ArtifactInfo.mentions]) hname
  obtain ⟨hb₂, heq, -, hid⟩ := hb₁.register hreg
  refine ⟨hb₂.built hid ?_ (by simp [ArtifactInfo.kind]), heq ▸ hle₁⟩
  rw [heq]
  exact ⟨hname, rfl, rfl⟩

/-- Whatever its kind, the record of an artifact shows the fields that the graph has for it. -/
theorem buildRecord_ok (hready : Ready c r y) {record : Record}
    (hb : s.Building c r y pending a i) (h : PassM.buildRecord c a i s = .ok record s') :
    s'.Built c r y pending a i record ∧ s.entries <+: s'.entries := by
  cases i with
  | cls i => exact classRecord_ok hready hb h
  | method i => exact methodRecord_ok hready hb h
  | package i => exact packageRecord_ok hready hb h
  | module i => exact moduleRecord_ok hready hb h
  | classLoader i => exact loaderRecord_ok hready hb h
  | thread i => exact threadRecord_ok hready hb h

/-- To write the record that was built takes its artifact off the waiting ones. -/
theorem Built.write {rest : List Artifact} {record : Record}
    (hb : s.Built c r y (a :: rest) a i record)
    (h : PassM.write (some a) record s = .ok () s') :
    s'.Inv c r y rest ∧ s'.entries = s.entries ++ [⟨some a, record⟩] := by
  have hs := hb.building.inv
  have hfields := hb.building.fields
  have hgrown := (PassM.keeps_grown_write _ _).ok hs.grown h
  cases h
  have hsubjects (l : List Entry) : Entry.subjects (l ++ [⟨some a, record⟩]) =
      Entry.subjects l ++ [a] := Entry.subjects_append ..
  have hmove : ∀ b, b ∈ Entry.subjects s.entries ∨ b ∈ a :: rest ↔
      b ∈ Entry.subjects s.entries ++ [a] ∨ b ∈ rest := by
    intro b
    rw [List.mem_append, List.mem_singleton, List.mem_cons, or_assoc]
  refine ⟨hs.snoc hgrown rfl rfl rfl (fun h => h) ?_ ?_ ?_ ?_
    (fun b hmem => hs.pending b (List.mem_cons_of_mem _ hmem)) ?_ hs.bootstrap_needed, rfl⟩
  · constructor
    case ids =>
      rintro _ ⟨⟩
      refine ⟨hb.id, ?_⟩
      rw [MetadataGraph.kind_of_describe? hfields]
      exact hb.shows.tag_eq
    case needed =>
      rintro _ ⟨⟩ _
      exact hs.pending a List.mem_cons_self
    case symbols =>
      rintro _ ⟨⟩
      exact absurd rfl (hs.pending _ List.mem_cons_self).kind_ne
    case unloaded =>
      rintro _ ⟨⟩
      exact hb.noted rfl
    case ok => exact fun _ => ⟨i, hfields, hb.shows, hb.building.placed, hb.unloading⟩
  · intro b hmem
    rw [hsubjects]
    exact (hmove b).mp (hs.fresh b hmem)
  · intro b
    rw [hsubjects, ← hmove]
    exact hs.done b
  · rw [hsubjects, List.append_assoc, List.singleton_append]
    exact hs.nodup
  · dsimp only
    rw [List.filter_append]
    simpa using hs.bootstrap

/-! ## The expansion of a tag -/

theorem noteClass_ok (hs : s.Inv c r y pending) (h : PassM.noteClass a i s = .ok () s') :
    s'.Inv c r y pending ∧ s'.entries = s.entries := by
  have hgrown := (PassM.keeps_grown_noteClass a i).ok hs.grown h
  cases i <;> cases h <;> exact ⟨{ hs with grown := hgrown }, rfl⟩

/-- An artifact whose dependencies have their entries gets its own. -/
theorem emit_ok (hready : Ready c r y) {record : Record} {rest : List Artifact} {s₁ s₂ : Pass}
    (hs : s.Inv c r y (a :: rest)) (hfields : c.graph.describe? a = some i)
    (hdeps : ∃ l, direct c.graph a i = .ok l ∧
      ∀ d ∈ l, c.stillValid d = true ∨ d ∈ Entry.subjects s.entries)
    (hnote : PassM.noteClass a i s = .ok () s₁)
    (hbuild : PassM.buildRecord c a i s₁ = .ok record s₂)
    (hwrite : PassM.write (some a) record s₂ = .ok () s') :
    s'.Inv c r y rest ∧ s.entries <+: s'.entries ∧ a ∈ Entry.subjects s'.entries := by
  obtain ⟨hs₁, heq₁⟩ := noteClass_ok hs hnote
  rw [← heq₁] at hdeps ⊢
  obtain ⟨hbuilt, hle⟩ := buildRecord_ok hready ⟨hs₁, List.mem_cons_self, hfields, hdeps⟩ hbuild
  obtain ⟨hs', heq'⟩ := hbuilt.write hwrite
  rw [heq']
  exact ⟨hs', hle.trans (List.prefix_append ..), Entry.mem_subjects.mpr
    ⟨_, List.mem_append_right _ List.mem_cons_self, rfl⟩⟩

/-- The artifacts of a placeable list get their entries. -/
theorem emitAll_ok (hready : Ready c r y) {l : List (Artifact × ArtifactInfo)}
    {placed : Artifact → Prop} (hs : s.Inv c r y (l.map Prod.fst))
    (hl : Placeable c.graph (fun d => c.stillValid d = true) placed l)
    (hplaced : ∀ d, placed d → d ∈ Entry.subjects s.entries)
    (h : PassM.emitAll c l s = .ok () s') :
    s'.Inv c r y [] ∧ s.entries <+: s'.entries ∧
      ∀ d ∈ l.map Prod.fst, d ∈ Entry.subjects s'.entries := by
  induction l generalizing s placed with
  | nil =>
      obtain ⟨-, rfl⟩ := ok_of_pure h
      exact ⟨hs, List.prefix_rfl, fun d hd => absurd hd List.not_mem_nil⟩
  | cons p rest ih =>
      obtain ⟨a, i⟩ := p
      obtain ⟨hfields, -, ⟨deps, hdeps, hcovered⟩, hrest⟩ := hl
      obtain ⟨_, s₁, hnote, h⟩ := ok_of_bind h
      obtain ⟨record, s₂, hbuild, h⟩ := ok_of_bind h
      obtain ⟨_, s₃, hwrite, h⟩ := ok_of_bind h
      -- the artifact can have its record now: what stands before it in the list has its own
      obtain ⟨hs₃, hle₃, ha⟩ := emit_ok hready hs hfields
        ⟨deps, hdeps, fun d hd => (hcovered d hd).imp_right (hplaced d)⟩ hnote hbuild hwrite
      have hplaced₃ : ∀ d, placed d ∨ d = a → d ∈ Entry.subjects s₃.entries := by
        rintro d (hd | rfl)
        · exact Entry.subjects_subset hle₃ (hplaced d hd)
        · exact ha
      obtain ⟨hs', hle, hmem⟩ := ih hs₃ hrest hplaced₃ h
      refine ⟨hs', hle₃.trans hle, ?_⟩
      intro d hd
      rcases List.mem_cons.mp hd with rfl | hd
      · exact Entry.subjects_subset hle ha
      · exact hmem d hd

/-- What an expansion lists waits for its records, and the tagged artifact is among it unless it has
its record. -/
theorem expand_ok {order : List (Artifact × ArtifactInfo)} (hs : s.Inv c r y [])
    (hkind : a.kind ≠ .symbol) (htag : c.marks.isTagged a = true)
    (h : PassM.expand c a s = .ok order s') :
    s'.Inv c r y (order.map Prod.fst) ∧ s'.entries = s.entries ∧
      Placeable c.graph (fun d => c.stillValid d = true) (· ∈ Entry.subjects s.entries) order ∧
      (a ∈ Entry.subjects s.entries ∨ a ∈ order.map Prod.fst) := by
  have hgrown := (PassM.keeps_grown_expand c a).ok hs.grown h
  have hdone : ∀ b, b ∈ s.plan.done ↔ b ∈ Entry.subjects s.entries := fun b => by
    rw [hs.done, or_iff_left List.not_mem_nil]
  unfold PassM.expand at h
  cases he : s.plan.expand c.graph c.stillValid a with
  | error v p => rw [he] at h; cases h
  | ok l p =>
      rw [he] at h
      cases h
      rcases EmissionPlan.expand_cases he with
        ⟨hmem, rfl, rfl⟩ | ⟨-, hplace, hdone', hlast, hclosure⟩
      · exact ⟨hs, rfl, trivial, .inl ((hdone a).mp hmem)⟩
      · -- what the closure over the root lists, the tags need
        simp only [hdone] at hplace hdone' hclosure
        have hneeded : ∀ b ∈ order.map Prod.fst, c.Needed b := by
          intro b hb
          refine (hclosure b hb).mono ?_ fun d hd => .inl hd
          rintro d rfl
          exact .root ⟨htag, hkind⟩
        refine ⟨{ hs with
            grown := hgrown, fresh := ?_, done := hdone', nodup := ?_, pending := hneeded },
          rfl, hplace, .inr (List.mem_of_getLast? hlast)⟩
        · exact fun b hb => .inl ((hs.fresh b hb).resolve_right List.not_mem_nil)
        · have hnodup := hs.nodup
          rw [List.append_nil] at hnodup
          refine List.nodup_append.mpr ⟨hnodup, hplace.nodup, ?_⟩
          rintro b hb _ hmem rfl
          obtain ⟨⟨_, j⟩, hj, rfl⟩ := List.mem_map.mp hmem
          exact (hplace.mem hj).2 hb

/-- A tagged artifact gets its entry. -/
theorem visit_ok (hready : Ready c r y) (hs : s.Inv c r y []) (htag : c.marks.isTagged a = true)
    (h : PassM.visit c a s = .ok () s') :
    s'.Inv c r y [] ∧ s.entries <+: s'.entries ∧ a ∈ Entry.subjects s'.entries := by
  unfold PassM.visit at h
  split at h
  · rename_i hkind
    exact taggedSymbol_ok hs hkind htag h
  · rename_i hkind
    obtain ⟨order, s₁, hexp, h⟩ := ok_of_bind h
    obtain ⟨hs₁, heq, hplace, hmem⟩ := expand_ok hs hkind htag hexp
    rw [← heq] at hplace hmem ⊢
    obtain ⟨hs', hle, hall⟩ := emitAll_ok hready hs₁ hplace (fun _ hd => hd) h
    exact ⟨hs', hle, hmem.elim (fun ha => Entry.subjects_subset hle ha) (hall a)⟩

theorem visitAll_ok (hready : Ready c r y) {l : List Artifact} (hs : s.Inv c r y [])
    (htag : ∀ a ∈ l, c.marks.isTagged a = true) (h : PassM.visitAll c l s = .ok () s') :
    s'.Inv c r y [] ∧ s.entries <+: s'.entries ∧ ∀ a ∈ l, a ∈ Entry.subjects s'.entries := by
  induction l generalizing s with
  | nil =>
      obtain ⟨-, rfl⟩ := ok_of_pure h
      exact ⟨hs, List.prefix_rfl, fun a ha => absurd ha List.not_mem_nil⟩
  | cons a rest ih =>
      obtain ⟨_, s₁, hvisit, h⟩ := ok_of_bind h
      obtain ⟨hs₁, hle₁, ha⟩ := visit_ok hready hs (htag a List.mem_cons_self) hvisit
      obtain ⟨hs', hle, hall⟩ := ih hs₁ (fun b hb => htag b (List.mem_cons_of_mem _ hb)) h
      refine ⟨hs', hle₁.trans hle, ?_⟩
      intro b hb
      rcases List.mem_cons.mp hb with rfl | hb
      · exact Entry.subjects_subset hle ha
      · exact hall b hb

/-- A plan that succeeds has kept the invariant, and every tagged artifact has its entry. -/
theorem planAll_ok (hready : Ready c r y) (h : planAll c r y = .ok () s) :
    s.Inv c r y [] ∧ ∀ a, c.marks.isTagged a = true → a ∈ Entry.subjects s.entries := by
  obtain ⟨hs, -, hall⟩ := visitAll_ok hready (inv_start c r y)
    (fun a ha => MarkTable.mem_allTagged.mp ha) h
  exact ⟨hs, fun a ha => hall a (MarkTable.mem_allTagged.mpr ha)⟩

end Pass

end TraceTypes
