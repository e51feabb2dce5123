import TraceTypes.Proofs.Renaming
import TraceTypes.Proofs.Rollback
/-!
# A plan that is made again

When a pass is given up, the ids that its plan handed out stay used up, the
texts that it interned stay interned, and methods keep the owners that it noted.
To plan the same pass again comes to the same plan all the same: whatever was
registered first the first time is registered first again, so the fresh ids are
the old ones moved up by as many as were used up.

* `Registries.Shifted` — the registries of the two plans, artifact by artifact;
* `Replay.Matches` — the two plans at the same point. The second one has from the
  start the texts that the first one ends with, and a method has the owner that
  the first plan knows now or the one that it will have noted in the end;
* `Replay.Echoes` — an action of planning does the same in both plans. There is
  one lemma for each action, up to `Replay.planAll`;
* `LeakStream.replay_prepare` — so it is with a write to the leak stream.
-/

namespace TraceTypes

/-! ## Registries -/

namespace Registries

variable {first gap : Nat} {r r' q : Registries} {a : Artifact}

/-- The same artifacts are registered, with the ids from `first` on moved up by `gap`. Nothing is
said of owners. -/
structure Shifted (first gap : Nat) (r r' : Registries) : Prop where
  ids : ∀ a, r'.id? a = (r.id? a).map (shift first gap)
  next : r'.ids.next = r.ids.next + gap
  low : first ≤ r.ids.next
  wf : r'.WF

/-- Registries with the same look-ups, but for ids that were used up. -/
theorem shifted_of_similar (hwf : r.WF) (h : r.Similar r')
    (hnext : r'.ids.next = r.ids.next + gap) : Shifted r.ids.next gap r r' where
  ids a := by
    rw [h.ids]
    cases ha : r.id? a with
    | none => rfl
    | some id => rw [Option.map_some, shift_of_lt (hwf.bounds a id ha).2]
  next := hnext
  low := Nat.le_refl _
  wf := hwf.similar h

theorem Shifted.enroll (h : Shifted first gap r r') (ha : r.id? a = none) :
    Shifted first gap (r.enroll a) (r'.enroll a) where
  ids b := by
    rw [id?_enroll, id?_enroll, h.next]
    split
    · rw [Option.map_some, shift_of_le h.low]
    · exact h.ids b
  next := by
    show r'.ids.next + 1 = r.ids.next + 1 + gap
    rw [h.next]
    exact Nat.add_right_comm ..
  low := Nat.le_succ_of_le h.low
  wf := h.wf.enroll (by rw [h.ids, ha]; rfl)

/-- A registration finds an id in both, or hands out the next one in both. -/
theorem Shifted.register {id : TraceId} {fresh : Bool} (h : Shifted first gap r r')
    (hr : r.register a = .ok ((id, fresh), q)) :
    ∃ q', r'.register a = .ok ((shift first gap id, fresh), q') ∧ Shifted first gap q q' ∧
      ((q = r ∧ q' = r') ∨ (q = r.enroll a ∧ q' = r'.enroll a)) := by
  obtain ⟨id', fresh', q', hr'⟩ := h.wf.exists_register a
  have hid := h.ids a
  rcases register_cases hr with ⟨hsome, rfl, rfl⟩ | ⟨hnone, -, rfl, rfl, rfl⟩
  · rw [hsome, Option.map_some] at hid
    rcases register_cases hr' with ⟨hsome', rfl, rfl⟩ | ⟨hnone', -⟩
    · rw [hid] at hsome'
      cases hsome'
      exact ⟨_, hr', h, .inl ⟨rfl, rfl⟩⟩
    · rw [hid] at hnone'
      cases hnone'
  · rw [hnone, Option.map_none] at hid
    rcases register_cases hr' with ⟨hsome', -⟩ | ⟨-, -, rfl, rfl, rfl⟩
    · rw [hid] at hsome'
      cases hsome'
    · rw [h.next, ← shift_of_le h.low] at hr'
      exact ⟨_, hr', h.enroll hnone, .inr ⟨rfl, rfl⟩⟩

theorem Shifted.setOwner (h : Shifted first gap r r') (a : Artifact) (owner : Handle) :
    Shifted first gap (r.setOwner a owner) (r'.setOwner a owner) where
  ids b := by
    rw [id?_setOwner, id?_setOwner]
    exact h.ids b
  next := h.next
  low := h.low
  wf := h.wf.setOwner a owner

/-- An artifact has the same owner in both registries, or the one that it has in `last`. -/
def OwnersAmong (last r r' : Registries) : Prop :=
  ∀ a e e', r.entry? a = some e → r'.entry? a = some e' →
    e'.owner = e.owner ∨ (last.entry? a).map RegistryEntry.owner = some e'.owner

variable {last : Registries}

theorem OwnersAmong.enroll (h : OwnersAmong last r r') (a : Artifact) :
    OwnersAmong last (r.enroll a) (r'.enroll a) := by
  intro b e e' he he'
  rw [entry?_enroll] at he he'
  split at he
  · rename_i hb
    rw [if_pos hb] at he'
    cases he
    cases he'
    exact .inl rfl
  · rename_i hb
    rw [if_neg hb] at he'
    exact h b e e' he he'

/-- To note an owner in both registries settles it. -/
theorem OwnersAmong.setOwner (h : OwnersAmong last r r') (a : Artifact) (owner : Handle) :
    OwnersAmong last (r.setOwner a owner) (r'.setOwner a owner) := by
  intro b e e' he he'
  rw [entry?_setOwner] at he he'
  split at he
  · rename_i hb
    rw [if_pos hb] at he'
    obtain ⟨x, -, rfl⟩ := Option.map_eq_some_iff.mp he
    obtain ⟨x', -, rfl⟩ := Option.map_eq_some_iff.mp he'
    exact .inl rfl
  · rename_i hb
    rw [if_neg hb] at he'
    exact h b e e' he he'

/-- Where the first registries are the last ones, the owners are the same. -/
theorem Shifted.renamed (h : Shifted first gap r r') (howners : OwnersAmong r r r') :
    Renamed (shift first gap) r r' := by
  intro a
  have hid := h.ids a
  unfold id? at hid
  cases he : r.entry? a with
  | none =>
      rw [he] at hid
      exact Option.map_eq_none_iff.mp hid
  | some e =>
      rw [he] at hid
      obtain ⟨e', he', hid'⟩ := Option.map_eq_some_iff.mp hid
      rw [he']
      have howner : e'.owner = e.owner := by
        rcases howners a e e' he he' with h | h
        · exact h
        · rw [he] at h
          exact (Option.some.inj h).symm
      obtain ⟨id', owner'⟩ := e'
      cases howner
      cases hid'
      rfl

end Registries

/-! ## Symbols -/

/-- A text that is interned has the same symbol in a table with more texts behind. -/
theorem SymbolTable.intern_of_prefix {y z : SymbolTable} {text : String}
    (h : (y.intern text).2.texts <+: z.texts) : z.intern text = ((y.intern text).1, z) := by
  have hat := text?_of_prefix h (y.text?_intern text)
  have hmem : text ∈ z.texts := by
    cases hn : (y.intern text).1.handle with
    | zero => rw [hn] at hat; cases hat
    | succ i => rw [hn] at hat; exact List.mem_of_getElem? hat
  have hz : z.intern text = (.symbol (z.texts.idxOf text + 1), z) := by
    unfold intern
    rw [dif_pos hmem]
  have hat' := z.text?_intern text
  rw [hz] at hat'
  rw [hz]
  -- the texts of a table are distinct, so the two handles are the same
  have hhandle := text?_inj hat' hat
  have hkind := y.kind_intern text
  generalize (y.intern text).1 = a at hhandle hkind
  obtain ⟨k, n⟩ := a
  cases hkind
  cases hhandle
  rfl

/-! ## The two plans at one point -/

/-- What is fixed when a plan is made again: the next id before the first plan and how many ids it
used up, and the registries and symbols that it ended with. -/
structure Replay where
  first : TraceId
  gap : Nat
  registries : Registries
  symbols : SymbolTable
  pos : 0 < first

namespace Replay

variable {x : Replay} {s s' s₁ : Pass} {α β : Type}

/-- The second plan's id for an id of the first plan. -/
def rename (x : Replay) : TraceId → TraceId := shift x.first x.gap

theorem rename_bootstrap (x : Replay) : x.rename bootstrapId = bootstrapId := shift_of_lt x.pos

/-- The first plan in the state `s` and the second plan in the state `s'` have come equally far. -/
structure Matches (x : Replay) (s s' : Pass) : Prop where
  registries : s.registries.Shifted x.first x.gap s'.registries
  owners : Registries.OwnersAmong x.registries s.registries s'.registries
  symbols : s'.symbols = x.symbols
  plan : s'.plan = s.plan
  entries : s'.entries = s.entries.map (Entry.rename x.rename)
  fresh : s'.fresh = s.fresh
  unloading : s'.unloading = s.unloading
  classes : s'.classes = s.classes
  bootstrapEmitted : s'.bootstrapEmitted = s.bootstrapEmitted

/-- The action `m` of the first plan is answered by `m'` in the second one: as long as the first
plan has interned no other texts than it ends with, `m'` does the same and gives the renamed
answer. -/
structure Echoes (x : Replay) (rename : α → α) (m m' : PassM α) : Prop where
  grows : ∀ l, Keeps (fun s : Pass => l <+: s.symbols.texts) m
  echo : ∀ s s' a s₁, x.Matches s s' → m s = .ok a s₁ → s₁.symbols.texts <+: x.symbols.texts →
    ∃ s₁', m' s' = .ok (rename a) s₁' ∧ x.Matches s₁ s₁'

namespace Echoes

variable {ren : α → α} {ren' : β → β} {m m' n n' : PassM α} {f f' : α → PassM β}

theorem pure (a : α) : x.Echoes ren (pure a) (pure (ren a)) where
  grows _ := .pure a
  echo := by
    rintro s s' _ _ hs ⟨⟩ -
    exact ⟨s', rfl, hs⟩

theorem bind (hm : x.Echoes ren m m') (hf : ∀ a, x.Echoes ren' (f a) (f' (ren a))) :
    x.Echoes ren' (m >>= f) (m' >>= f') where
  grows l := .bind (hm.grows l) fun a => (hf a).grows l
  echo := by
    intro s s' b s₂ hs hok htexts
    obtain ⟨a, s₁, hfirst, hsecond⟩ := ok_of_bind hok
    -- what the second action interns is behind what the first one did
    have hmid := ((hf a).grows s₁.symbols.texts).ok List.prefix_rfl hsecond
    obtain ⟨s₁', hfirst', hs₁⟩ := hm.echo s s' a s₁ hs hfirst (hmid.trans htexts)
    obtain ⟨s₂', hsecond', hs₂⟩ := (hf a).echo s₁ s₁' b s₂ hs₁ hsecond htexts
    refine ⟨s₂', ?_, hs₂⟩
    show EStateM.bind m' f' s' = _
    unfold EStateM.bind
    rw [hfirst']
    exact hsecond'

/-- A change of the pass that both plans make. -/
theorem modify {change change' : Pass → Pass} (htexts : ∀ s, (change s).symbols = s.symbols)
    (h : ∀ s s', x.Matches s s' → x.Matches (change s) (change' s')) :
    x.Echoes id (modify change) (modify change') where
  grows l := .modify fun s hs => by rw [htexts]; exact hs
  echo := by
    rintro s s' _ _ hs ⟨⟩ -
    exact ⟨change' s', rfl, h s s' hs⟩

/-- Both plans take the same way. -/
theorem cond {p : Pass → Bool} (hp : ∀ s s', x.Matches s s' → p s' = p s)
    (hm : x.Echoes ren m m') (hn : x.Echoes ren n n') :
    x.Echoes ren (fun s => if p s then m s else n s) (fun s => if p s then m' s else n' s) where
  grows l s hs := by
    dsimp only
    split
    · exact hm.grows l s hs
    · exact hn.grows l s hs
  echo := by
    intro s s' a s₁ hs hok htexts
    change (if p s then m s else n s) = _ at hok
    show ∃ s₁', (if p s' then m' s' else n' s') = _ ∧ _
    rw [hp s s' hs]
    split at hok
    · rename_i h
      rw [if_pos h]
      exact hm.echo s s' a s₁ hs hok htexts
    · rename_i h
      rw [if_neg h]
      exact hn.echo s s' a s₁ hs hok htexts

end Echoes

/-! ## The actions -/

open PassM

theorem echoes_register (a : Artifact) : x.Echoes x.rename (register a) (register a) where
  grows l s hs := by
    unfold register
    split <;> exact hs
  echo := by
    intro s s' id s₁ hs hok _
    unfold register at hok ⊢
    split at hok
    · cases hok
    · rename_i fresh q hr
      cases hok
      obtain ⟨q', hr', hshift, hcase⟩ := hs.registries.register hr
      rw [hr']
      have howners : Registries.OwnersAmong x.registries q q' := by
        rcases hcase with ⟨rfl, rfl⟩ | ⟨rfl, rfl⟩
        · exact hs.owners
        · exact hs.owners.enroll a
      exact ⟨_, rfl, hshift, howners, hs.symbols, hs.plan, hs.entries, by rw [hs.fresh],
        hs.unloading, hs.classes, hs.bootstrapEmitted⟩

theorem echoes_dependency (a : Artifact) : x.Echoes x.rename (dependency a) (dependency a) where
  grows l := keeps_dependency a
  echo := by
    intro s s' id s₁ hs hok _
    unfold dependency at hok ⊢
    rw [hs.registries.ids]
    cases ha : s.registries.id? a with
    | none => rw [ha] at hok; cases hok
    | some i =>
        rw [ha] at hok
        cases hok
        exact ⟨s', rfl, hs⟩

theorem echoes_intern (text : String) : x.Echoes id (intern text) (intern text) where
  grows l s hs := hs.trans (s.symbols.prefix_intern text)
  echo := by
    rintro s s' _ _ hs ⟨⟩ htexts
    unfold intern
    rw [hs.symbols, SymbolTable.intern_of_prefix htexts]
    exact ⟨_, rfl, hs.registries, hs.owners, rfl, hs.plan, hs.entries, hs.fresh, hs.unloading,
      hs.classes, hs.bootstrapEmitted⟩

theorem echoes_write (subject : Option Artifact) (r : Record) :
    x.Echoes id (write subject r) (write subject (r.rename x.rename)) :=
  .modify (fun _ => rfl) fun s s' hs => { hs with
    entries := by
      dsimp only
      rw [hs.entries, List.map_append]
      rfl }

theorem echoes_expand (c : PassScope) (a : Artifact) : x.Echoes id (expand c a) (expand c a) where
  grows l s hs := by
    unfold expand
    split <;> exact hs
  echo := by
    intro s s' order s₁ hs hok _
    unfold expand at hok ⊢
    rw [hs.plan]
    split at hok
    · cases hok
      exact ⟨_, rfl, hs.registries, hs.owners, hs.symbols, rfl, hs.entries, hs.fresh, hs.unloading,
        hs.classes, hs.bootstrapEmitted⟩
    · cases hok

theorem echoes_writeSymbol (a : Artifact) (i : TraceId) (text : String) :
    x.Echoes id (writeSymbol a i text) (writeSymbol a (x.rename i) text) := by
  refine .bind (.modify (fun _ => rfl) fun s s' hs => { hs with plan := ?_ }) fun _ =>
    echoes_write _ _
  dsimp only
  rw [hs.plan]

theorem echoes_announce (c : PassScope) (a : Artifact) (i : TraceId) (text : String) :
    x.Echoes id (announce c a i text) (announce c a (x.rename i) text) := by
  refine .cond (fun s s' hs => ?_) (.pure ()) (echoes_writeSymbol a i text)
  rw [hs.plan]

theorem echoes_symbol (c : PassScope) (text : String) :
    x.Echoes x.rename (symbol c text) (symbol c text) :=
  .bind (echoes_intern text) fun a => .bind (echoes_register a) fun id =>
    .bind (echoes_announce c a id text) fun _ => .pure id

theorem echoes_optionalSymbol (c : PassScope) (text : Option String) :
    x.Echoes (Option.map x.rename) (optionalSymbol c text) (optionalSymbol c text) := by
  cases text with
  | none => exact .pure none
  | some text => exact .bind (echoes_symbol c text) fun id => .pure (some id)

theorem echoes_optionalDependency (a : Option Artifact) :
    x.Echoes (Option.map x.rename) (optionalDependency a) (optionalDependency a) := by
  cases a with
  | none => exact .pure none
  | some a => exact .bind (echoes_dependency a) fun id => .pure (some id)

theorem echoes_taggedSymbol (a : Artifact) :
    x.Echoes id (taggedSymbol a) (taggedSymbol a) := by
  have hwrite (text : String) : x.Echoes id (do writeSymbol a (← register a) text)
      (do writeSymbol a (← register a) text) :=
    .bind (echoes_register a) fun id => echoes_writeSymbol a id text
  refine .cond (fun s s' hs => by rw [hs.plan]) (.pure ()) ⟨fun l s hs => ?_, ?_⟩
  · dsimp only
    split
    · exact hs
    · exact (hwrite _).grows l s hs
  · intro s s' v s₁ hs hok htexts
    split at hok
    · cases hok
    · rename_i text htext
      -- the text is among those that the first plan ends with
      have hmid := ((hwrite text).grows s.symbols.texts).ok List.prefix_rfl hok
      have htext' := SymbolTable.text?_of_prefix (hmid.trans htexts) htext
      rw [← hs.symbols] at htext'
      obtain ⟨s₁', hok', hs₁⟩ := (hwrite text).echo s s' v s₁ hs hok htexts
      rw [htext']
      exact ⟨s₁', hok', hs₁⟩

theorem echoes_writeBootstrap (name : TraceId) :
    x.Echoes id (writeBootstrap name) (writeBootstrap (x.rename name)) := by
  refine .bind (.modify (fun _ => rfl) fun s s' hs => { hs with bootstrapEmitted := rfl })
    fun _ => ?_
  have hrecord : Record.rename x.rename (.classLoader bootstrapId (some name) name) =
      .classLoader bootstrapId (some (x.rename name)) (x.rename name) := by
    rw [Record.rename, x.rename_bootstrap]
    rfl
  rw [← hrecord]
  exact echoes_write none _

theorem echoes_bootstrap (c : PassScope) : x.Echoes x.rename (bootstrap c) (bootstrap c) := by
  have hpure : x.Echoes x.rename (Pure.pure bootstrapId) (Pure.pure bootstrapId) := by
    have h : x.Echoes x.rename (Pure.pure bootstrapId) (Pure.pure (x.rename bootstrapId)) :=
      .pure bootstrapId
    rwa [x.rename_bootstrap] at h
  refine .cond (fun s s' hs => by rw [hs.bootstrapEmitted]) ?_ hpure
  refine .bind (echoes_symbol c _) fun name => ?_
  exact .bind (echoes_writeBootstrap name) fun _ => hpure

theorem echoes_loader (c : PassScope) (l : Option Handle) :
    x.Echoes x.rename (loader c l) (loader c l) := by
  cases l with
  | none => exact echoes_bootstrap c
  | some l => exact echoes_dependency _

theorem echoes_noteUnloading (h : Handle) (unloading : Bool) :
    x.Echoes id (noteUnloading h unloading) (noteUnloading h unloading) :=
  .modify (fun _ => rfl) fun s s' hs => { hs with
    unloading := by
      dsimp only
      rw [hs.unloading] }

theorem echoes_noteOwner (a : Artifact) (owner : Handle) :
    x.Echoes id (noteOwner a owner) (noteOwner a owner) :=
  .modify (fun _ => rfl) fun _ _ hs => { hs with
    registries := hs.registries.setOwner a owner
    owners := hs.owners.setOwner a owner }

theorem echoes_noteClass (a : Artifact) (i : ArtifactInfo) :
    x.Echoes id (noteClass a i) (noteClass a i) := by
  cases i with
  | cls i =>
      refine .modify (fun _ => rfl) fun s s' hs => { hs with classes := ?_ }
      dsimp only
      rw [hs.classes]
  | classLoader | module | package | method | thread => exact .pure ()

theorem echoes_buildRecord (c : PassScope) (a : Artifact) (i : ArtifactInfo) :
    x.Echoes (Record.rename x.rename) (buildRecord c a i) (buildRecord c a i) := by
  cases i with
  | cls i =>
      refine .bind (echoes_symbol c i.name) fun name => ?_
      refine .bind (echoes_loader c i.loader) fun loader => ?_
      refine .bind (echoes_optionalDependency _) fun package => ?_
      refine .bind (echoes_optionalDependency _) fun element => ?_
      refine .bind (echoes_optionalDependency _) fun superclass => ?_
      refine .bind (echoes_noteUnloading _ _) fun _ => ?_
      exact .bind (echoes_register a) fun _ => .pure _
  | method i =>
      refine .bind (echoes_dependency _) fun holder => ?_
      refine .bind (echoes_symbol c i.name) fun name => ?_
      refine .bind (echoes_symbol c i.descriptor) fun descriptor => ?_
      refine .bind (echoes_register a) fun id => ?_
      exact .bind (echoes_noteOwner a i.holder) fun _ => .pure _
  | package i =>
      refine .bind (echoes_symbol c i.name) fun name => ?_
      refine .bind (echoes_optionalDependency _) fun owner => ?_
      exact .bind (echoes_register a) fun _ => .pure _
  | module i =>
      refine .bind (echoes_symbol c i.name) fun name => ?_
      refine .bind (echoes_optionalSymbol c i.version) fun version => ?_
      refine .bind (echoes_optionalSymbol c i.location) fun location => ?_
      exact .bind (echoes_register a) fun _ => .pure _
  | classLoader i =>
      refine .bind (echoes_optionalSymbol c i.name) fun name => ?_
      refine .bind (echoes_symbol c i.typeName) fun typeName => ?_
      exact .bind (echoes_register a) fun _ => .pure _
  | thread i =>
      refine .bind (echoes_symbol c i.name) fun name => ?_
      exact .bind (echoes_register a) fun _ => .pure _

theorem echoes_emitAll (c : PassScope) (l : List (Artifact × ArtifactInfo)) :
    x.Echoes id (emitAll c l) (emitAll c l) := by
  induction l with
  | nil => exact .pure ()
  | cons e rest ih =>
      obtain ⟨a, i⟩ := e
      refine .bind (echoes_noteClass a i) fun _ => ?_
      refine .bind (echoes_buildRecord c a i) fun r => ?_
      exact .bind (echoes_write (some a) r) fun _ => ih

theorem echoes_visit (c : PassScope) (a : Artifact) : x.Echoes id (visit c a) (visit c a) := by
  unfold visit
  split
  · exact echoes_taggedSymbol a
  · exact .bind (echoes_expand c a) fun l => echoes_emitAll c l

theorem echoes_visitAll (c : PassScope) (l : List Artifact) :
    x.Echoes id (visitAll c l) (visitAll c l) := by
  induction l with
  | nil => exact .pure ()
  | cons a rest ih => exact .bind (echoes_visit c a) fun _ => ih

/-- The second plan is the first one under other ids, and ends with the same symbols. -/
theorem planAll {c : PassScope} {r r' : Registries} {y : SymbolTable}
    (hplan : Pass.planAll c r y = .ok () s) (hregistries : x.registries = s.registries)
    (hsymbols : x.symbols = s.symbols) (hshift : r.Shifted x.first x.gap r')
    (howners : Registries.OwnersAmong s.registries r r') :
    ∃ s', Pass.planAll c r' s.symbols = .ok () s' ∧ x.Matches s s' := by
  have hstart : x.Matches (Pass.start r y c.settings) (Pass.start r' s.symbols c.settings) :=
    ⟨hshift, hregistries ▸ howners, hsymbols.symm, rfl, rfl, rfl, rfl, rfl, rfl⟩
  exact (echoes_visitAll c c.marks.allTagged).echo _ _ () s hstart hplan
    (hsymbols ▸ List.prefix_rfl)

end Replay

/-! ## The leak stream -/

namespace LeakStream

variable {g : MetadataGraph} {name : String} {generation first gap : Nat}
  {classes : List (Handle × ClassInfo)} {s s' q : LeakStream} {p p' : PendingLeak}

/-- A write is prepared on streams that differ in the ids from some on. -/
theorem replay_prepareOnto (h : s.ids.Shifted first gap s'.ids)
    (hok : prepareOnto g name generation classes p s = .ok p' q) :
    ∃ q', prepareOnto g name generation classes (p.rename (shift first gap)) s' =
        .ok (p'.rename (shift first gap)) q' ∧ q.ids.Shifted first gap q'.ids := by
  induction classes generalizing p s s' with
  | nil =>
      cases hok
      exact ⟨s', rfl, h⟩
  | cons e rest ih =>
      obtain ⟨n, c⟩ := e
      unfold prepareOnto at hok ⊢
      cases hr : s.ids.register (.cls n) with
      | error v => rw [hr] at hok; cases hok
      | ok a =>
          obtain ⟨⟨id, fresh⟩, ids⟩ := a
          rw [hr] at hok
          dsimp only at hok
          obtain ⟨ids', hr', hshift, -⟩ := h.register hr
          rw [hr']
          dsimp only
          cases hl : loaderName g name c with
          | error v => rw [hl] at hok; cases hok
          | ok loader =>
              rw [hl] at hok
              have := @ih { s with ids := ids } { s' with ids := ids' } _ hshift hok
              rw [PendingLeak.rename, List.map_append] at this
              exact this

/-- Prepared again, a write has the same entries under other ids. -/
theorem replay_prepare (h : s.ids.Shifted first gap s'.ids)
    (hok : prepare g name generation classes s = .ok p q) :
    ∃ q', prepare g name generation classes s' = .ok (p.rename (shift first gap)) q' ∧
      q.ids.Shifted first gap q'.ids :=
  replay_prepareOnto (p := {}) h hok

end LeakStream

end TraceTypes
