import TraceTypes.Proofs.Generations
/-!
# Symbols, their texts and their ids

Texts are interned for good, while the ids of symbols come and go with the
passes that fail. Both ways of naming a text are one-to-one:

* `SymbolTable.internAll` interns texts one after the other, and the table that
  it leaves has the texts under the handles that it answered;
* `Run.symbols_bijective` — so it is with any table that starts empty, and two
  symbol records on the main stream have the same id exactly if they have the
  same text, whatever happened between them.
-/

namespace TraceTypes

namespace SymbolTable

variable {t : SymbolTable} {a : Artifact} {s : String} {l : List String} {n : Handle}

/-- Intern texts one after the other. -/
def internAll (t : SymbolTable) : List String → List Artifact × SymbolTable
  | [] => ([], t)
  | s :: rest =>
      let p := t.intern s
      let q := p.2.internAll rest
      (p.1 :: q.1, q.2)

/-- The handles with a text are those up to the size of the table, from one on. -/
theorem text?_eq_none_iff : t.text? n = none ↔ n = 0 ∨ t.size < n := by
  cases n with
  | zero => simp [text?]
  | succ i =>
      show t.texts[i]? = none ↔ i + 1 = 0 ∨ t.texts.length < i + 1
      rw [List.getElem?_eq_none_iff]
      omega

theorem prefix_internAll (t : SymbolTable) (l : List String) :
    t.texts <+: (t.internAll l).2.texts := by
  induction l generalizing t with
  | nil => exact List.prefix_rfl
  | cons s rest ih => exact (t.prefix_intern s).trans (ih _)

/-- Each answer is a symbol, and the table has the text under it. -/
theorem text?_internAll (t : SymbolTable) {i : Nat} (hs : l[i]? = some s)
    (ha : (t.internAll l).1[i]? = some a) :
    a.kind = .symbol ∧ (t.internAll l).2.text? a.handle = some s := by
  induction l generalizing t i with
  | nil => cases hs
  | cons _ rest ih =>
      cases i with
      | zero =>
          cases hs
          cases ha
          exact ⟨t.kind_intern s, text?_of_prefix (prefix_internAll _ rest) (t.text?_intern s)⟩
      | succ i => exact ih _ hs ha

theorem length_internAll (t : SymbolTable) (l : List String) :
    (t.internAll l).1.length = l.length := by
  induction l generalizing t with
  | nil => rfl
  | cons s rest ih => exact congrArg (· + 1) (ih _)

/-- To intern a text adds its handle to those of the table, if it is not among them already. -/
theorem handles_intern (t : SymbolTable) (s : String) (n : Nat) :
    (1 ≤ n ∧ n ≤ (t.intern s).2.size) ↔
      (1 ≤ n ∧ n ≤ t.size) ∨ (t.intern s).1.handle = n := by
  by_cases hs : s ∈ t.texts
  · have hintern : t.intern s = (.symbol (t.texts.idxOf s + 1), t) := dif_pos hs
    have hlt : t.texts.idxOf s < t.size := List.idxOf_lt_length_of_mem hs
    rw [hintern]
    show (1 ≤ n ∧ n ≤ t.size) ↔ (1 ≤ n ∧ n ≤ t.size) ∨ t.texts.idxOf s + 1 = n
    omega
  · have hhandle : (t.intern s).1.handle = t.size + 1 := by rw [intern, dif_neg hs]
    have hsize : (t.intern s).2.size = t.size + 1 := by
      rw [intern, dif_neg hs]
      exact List.length_append
    rw [hhandle, hsize]
    show (1 ≤ n ∧ n ≤ t.size + 1) ↔ (1 ≤ n ∧ n ≤ t.size) ∨ t.size + 1 = n
    omega

/-- The handles behind a row of texts are those before it and the answers. -/
theorem handles_internAll (t : SymbolTable) (l : List String) (n : Nat) :
    (1 ≤ n ∧ n ≤ (t.internAll l).2.size) ↔
      (1 ≤ n ∧ n ≤ t.size) ∨ ∃ a ∈ (t.internAll l).1, a.handle = n := by
  induction l generalizing t with
  | nil => simp [internAll]
  | cons s rest ih =>
      unfold internAll
      rw [ih, handles_intern, or_assoc, List.exists_mem_cons_iff]

/-- Two answers are the same exactly if the texts are. -/
theorem answers_eq_iff (t : SymbolTable) {i j : Nat} {b : Artifact} {u : String}
    (hs : l[i]? = some s) (hu : l[j]? = some u) (ha : (t.internAll l).1[i]? = some a)
    (hb : (t.internAll l).1[j]? = some b) : a = b ↔ s = u := by
  obtain ⟨hka, hta⟩ := t.text?_internAll hs ha
  obtain ⟨hkb, htb⟩ := t.text?_internAll hu hb
  constructor
  · rintro rfl
    exact Option.some.inj (hta.symm.trans htb)
  · rintro rfl
    have hhandle := text?_inj hta htb
    cases a
    cases b
    cases hka
    cases hkb
    cases hhandle
    rfl

end SymbolTable

section Run

variable {settings : Settings} {t : TypeSet} {H : History} {i j : Nat} {header header' : Header}
  {e e' : Entry} {id id' : TraceId} {text text' : String}

/-- The record of a symbol is written for the symbol that has its text. -/
theorem Run.symbol_of_record (h : Run settings t H) (hi : H.MainAt i header e)
    (hkind : header.kind = .typeSet) (hrec : e.record = .symbol id text) :
    ∃ n, e.subject = some (.symbol n) ∧ t.symbols.text? n = some text := by
  have hshaped := h.recorded.marks.shaped i header e hi hkind
  cases hsub : e.subject with
  | none =>
      obtain ⟨name, hname⟩ := hshaped.bootstrap hsub
      rw [hrec] at hname
      cases hname
  | some a =>
      have htag := hshaped.tag a hsub
      obtain ⟨k, n⟩ := a
      rw [hrec] at htag
      cases k <;> cases htag
      obtain ⟨id', text', hrec', htext⟩ := hshaped.symbol n hsub
      rw [hrec] at hrec'
      cases hrec'
      exact ⟨n, rfl, htext⟩

/-- Of two records of symbols the ids are the same exactly if the texts are. The symbol of a text
stays the same, and since it is never forgotten it keeps its id. -/
theorem Run.symbol_id_iff (h : Run settings t H) (hij : i ≤ j) (hi : H.MainAt i header e)
    (hj : H.MainAt j header' e') (hkind : header.kind = .typeSet) (hkind' : header'.kind = .typeSet)
    (hrec : e.record = .symbol id text) (hrec' : e'.record = .symbol id' text') :
    id = id' ↔ text = text' := by
  obtain ⟨n, hsub, htext⟩ := h.symbol_of_record hi hkind hrec
  obtain ⟨n', hsub', htext'⟩ := h.symbol_of_record hj hkind' hrec'
  have hids := h.recorded.ids
  have hid : e.record.id = id := congrArg Record.id hrec
  have hid' : e'.record.id = id' := congrArg Record.id hrec'
  constructor
  · intro heq
    obtain ⟨a, ha, ha', -⟩ := hids.unique i j header header' e e' hij hi hj
      (by rw [hid, hid', heq]) (hids.used i header e _ hi hsub).1
    rw [hsub] at ha
    cases ha
    rw [hsub'] at ha'
    cases ha'
    exact Option.some.inj (htext.symm.trans htext')
  · rintro rfl
    obtain rfl := SymbolTable.text?_inj htext htext'
    rw [← hid, ← hid']
    exact hids.same i j header header' e e' _ hij hi hj hsub hsub' fun hforgot =>
      h.not_forgottenAfter_symbol i n hforgot.after

/-- Symbols and texts are one-to-one. Over any run, two symbol records of the main stream have the
same id exactly if they have the same text. In a table, any texts are interned under the same
symbol exactly if they are the same text; each of them is found under its symbol; and the handles
with a text are those that were answered, which are the numbers from one to the size. -/
theorem Run.symbols_bijective (h : Run settings t H) :
    (∀ header header' records records' id id' text text',
      (header, records) ∈ H.segments false → (header', records') ∈ H.segments false →
      header.kind = .typeSet → header'.kind = .typeSet →
      .symbol id text ∈ records → .symbol id' text' ∈ records' →
      (id = id' ↔ text = text')) ∧
    ∀ l : List String,
      let answers := (SymbolTable.internAll {} l).1
      let table := (SymbolTable.internAll {} l).2
      answers.length = l.length ∧
      (∀ (i j : Nat) s u a b, l[i]? = some s → l[j]? = some u → answers[i]? = some a →
        answers[j]? = some b → (a = b ↔ s = u)) ∧
      (∀ (i : Nat) s a, l[i]? = some s → answers[i]? = some a →
        a.kind = .symbol ∧ table.text? a.handle = some s) ∧
      (∀ n, (∃ a ∈ answers, a.handle = n) ↔ 1 ≤ n ∧ n ≤ table.size) ∧
      ∀ n, table.text? n = none ↔ n = 0 ∨ table.size < n := by
  constructor
  · intro header header' records records' id id' text text' hmem hmem' hkind hkind' hrec hrec'
    -- the records are those of entries, at places in the history
    have place {k : Header} {l : List Record} {r : Record} (hl : (k, l) ∈ H.segments false)
        (hr : r ∈ l) : ∃ i e, H.MainAt i k e ∧ e.record = r := by
      obtain ⟨entries, hevent, hmain, rfl⟩ := TypeSet.mem_segments.mp hl
      obtain ⟨i, hget⟩ := List.mem_iff_getElem?.mp hevent
      obtain ⟨e, he, rfl⟩ := List.mem_map.mp hr
      exact ⟨i, e, ⟨entries, hget, of_decide_eq_false hmain, he⟩, rfl⟩
    obtain ⟨i, e, hi, he⟩ := place hmem hrec
    obtain ⟨j, e', hj, he'⟩ := place hmem' hrec'
    rcases Nat.le_total i j with hij | hij
    · exact h.symbol_id_iff hij hi hj hkind hkind' he he'
    · rw [eq_comm, h.symbol_id_iff hij hj hi hkind' hkind he' he, eq_comm]
  · intro l
    refine ⟨SymbolTable.length_internAll _ l, ?_, ?_, fun n => ?_, ?_⟩
    · exact fun i j s u a b hs hu ha hb => SymbolTable.answers_eq_iff _ hs hu ha hb
    · exact fun i s a hs ha => SymbolTable.text?_internAll _ hs ha
    · rw [SymbolTable.handles_internAll]
      exact (or_iff_right fun h => Nat.not_succ_le_zero 0 (Nat.le_trans h.1 h.2)).symm
    · exact fun n => SymbolTable.text?_eq_none_iff

end Run

/-- The history of the sample with a pass, a rotation and one more pass. -/
def rotatedHistory : History :=
  sampleTypes.serializeEvents sampleGraph {} sampleLog ++ [.rotated] ++
    sampleNext.rotate.serializeEvents sampleGraph {} sampleLog

/-- The name of the superclass is written again behind the rotation, under the id that it had. -/
theorem symbols_bijective_rotated : ∃ records records',
    rotatedHistory.segments false =
      [(⟨.typeSet, 0, false⟩, records), (⟨.typeSet, 1, false⟩, records')] ∧
    .symbol 1 "A" ∈ records ∧ (∃ id, .symbol id "A" ∈ records') ∧
    ∀ id, .symbol id "A" ∈ records' → id = 1 := by
  have hrun : Run {} _ rotatedHistory :=
    .serialize sampleGraph {} sampleLog (.rotate run_sampleNext)
  have hsegments : rotatedHistory.segments false =
      [(⟨.typeSet, 0, false⟩,
          [.symbol 1 "A", .symbol 2 "bootstrap", .classLoader 0 (some 2) 2,
            .cls 3 1 0 none none none 1 false false]),
        (⟨.typeSet, 1, false⟩,
          [.symbol 1 "A", .symbol 2 "bootstrap", .classLoader 0 (some 2) 2,
            .cls 3 1 0 none none none 1 false false, .symbol 4 "B",
            .cls 5 4 0 none (some 3) none 1 false false])] := by
    decide +kernel
  refine ⟨_, _, hsegments, .head _, ⟨1, .head _⟩, fun id hid => ?_⟩
  have hids := hrun.symbols_bijective.1
  rw [hsegments] at hids
  exact (hids _ _ _ _ id 1 "A" "A" (.tail _ (.head _)) (.head _) rfl rfl hid (.head _)).mpr rfl

end TraceTypes
