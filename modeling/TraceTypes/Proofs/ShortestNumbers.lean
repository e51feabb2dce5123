import Mathlib.Data.Nat.Digits.Defs
import Mathlib.Order.Bounds.Defs
import TraceTypes.Proofs.Decoding
/-!
# The shortest form of a number

Bytes spell a number if all but the last are marked and their low seven bits are
its base-128 digits, lowest first. A number can be spelled at many lengths, for
zeros may stand at the high end, but at each length in one way only. `varint` gives
the shortest spelling, and that is what `pushVarint` adds to a buffer.

* `Spells` — the bytes are a spelling of the number, which is known from the first
  byte and the rest (`spells_singleton`, `spells_cons_cons`);
* `Spells.lt`, `length_varint_le` — so many bytes spell numbers below a power of two
  only, and `varint` needs no more bytes for any of these;
* `Spells.eq_of_length_eq` — two spellings of a number have different lengths.
-/

namespace TraceTypes.Checkpoint

/-! ## Spellings -/

/-- The low seven bits of a byte. -/
def digit (x : UInt8) : Nat := x.toNat % 128

/-- The bytes are a spelling of the number, be it the shortest or not. -/
structure Spells (bytes : List UInt8) (n : Nat) : Prop where
  /-- All bytes but the last have the high bit set. -/
  marked : ∀ x ∈ bytes.dropLast, 128 ≤ x.toNat
  /-- There is a last byte, and its high bit is clear. -/
  last : ∃ x ∈ bytes.getLast?, x.toNat < 128
  /-- The digits, each times its power of 128, add up to the number. -/
  value : Nat.ofDigits 128 (bytes.map digit) = n

variable {bytes bytes' : List UInt8} {n k : Nat} {x y : UInt8}

theorem not_spells_nil : ¬ Spells [] n := by
  rintro ⟨-, ⟨x, hx, -⟩, -⟩
  cases hx

theorem spells_singleton : Spells [x] n ↔ x.toNat < 128 ∧ n = x.toNat := by
  have hdigit (hx : x.toNat < 128) : Nat.ofDigits 128 ([x].map digit) = x.toNat := by
    rw [List.map_singleton, Nat.ofDigits_singleton, digit, Nat.mod_eq_of_lt hx]
  constructor
  · rintro ⟨-, ⟨z, hz, hlast⟩, rfl⟩
    obtain rfl : x = z := Option.some.inj hz
    exact ⟨hlast, hdigit hlast⟩
  · rintro ⟨hlast, rfl⟩
    exact ⟨fun z hz => absurd hz List.not_mem_nil, ⟨x, rfl, hlast⟩, hdigit hlast⟩

theorem spells_cons_cons : Spells (x :: y :: bytes) n ↔
    128 ≤ x.toNat ∧ ∃ m, Spells (y :: bytes) m ∧ n = digit x + 128 * m := by
  constructor
  · rintro ⟨hmarked, hlast, rfl⟩
    obtain ⟨hx, hrest⟩ := List.forall_mem_cons.mp hmarked
    exact ⟨hx, _, ⟨hrest, hlast, rfl⟩, Nat.ofDigits_cons⟩
  · rintro ⟨hx, m, ⟨hrest, hlast, rfl⟩, rfl⟩
    exact ⟨List.forall_mem_cons.mpr ⟨hx, hrest⟩, hlast, Nat.ofDigits_cons⟩

theorem Spells.length_pos (h : Spells bytes n) : 1 ≤ bytes.length := by
  apply List.length_pos_iff.mpr
  rintro rfl
  exact not_spells_nil h

/-- So many digits make a number below that power of the base. -/
theorem Spells.lt (h : Spells bytes n) : n < 2 ^ (7 * bytes.length) := by
  have hdigits : ∀ d ∈ bytes.map digit, d < 128 := by
    intro d hd
    obtain ⟨x, -, rfl⟩ := List.mem_map.mp hd
    exact Nat.mod_lt _ (by decide)
  have hlt := Nat.ofDigits_lt_base_pow_length (by decide) hdigits
  rw [h.value, List.length_map] at hlt
  rwa [pow_mul]

/-- The number settles the digits, and the length settles which bytes are marked. -/
theorem Spells.eq_of_length_eq (h : Spells bytes n) (h' : Spells bytes' n)
    (hlength : bytes.length = bytes'.length) : bytes = bytes' := by
  induction bytes generalizing bytes' n with
  | nil => exact absurd h not_spells_nil
  | cons x rest ih =>
      obtain ⟨x', rest', rfl⟩ := List.exists_cons_of_length_eq_add_one hlength.symm
      have hrests : rest.length = rest'.length := Nat.succ.inj hlength
      cases rest with
      | nil =>
          obtain rfl : rest' = [] := List.length_eq_zero_iff.mp hrests.symm
          have hx := (spells_singleton.mp h).2.symm.trans (spells_singleton.mp h').2
          rw [UInt8.toNat_inj.mp hx]
      | cons y rest =>
          obtain ⟨y', rest', rfl⟩ := List.exists_cons_of_length_eq_add_one hrests.symm
          obtain ⟨hx, m, hm, hn⟩ := spells_cons_cons.mp h
          obtain ⟨hx', m', hm', hn'⟩ := spells_cons_cons.mp h'
          -- both bytes are marked, and the digit is the remainder of the number
          have hlt := x.toNat_lt
          have hlt' := x'.toNat_lt
          rw [digit] at hn hn'
          obtain rfl : m = m' := by omega
          have hbyte : x.toNat = x'.toNat := by omega
          rw [UInt8.toNat_inj.mp hbyte, ih hm hm' hrests]

/-! ## The bytes of a number -/

theorem spells_varint (n : Nat) : Spells (varint n) n := by
  fun_induction varint n with
  | case1 n hn =>
      have hbyte : (UInt8.ofNat n).toNat = n :=
        UInt8.toNat_ofNat_of_lt' (show n < 256 by omega)
      rw [spells_singleton, hbyte]
      exact ⟨hn, rfl⟩
  | case2 n hn ih =>
      have hbyte : (UInt8.ofNat (n % 128 + 128)).toNat = n % 128 + 128 :=
        UInt8.toNat_ofNat_of_lt' (show n % 128 + 128 < 256 by omega)
      obtain ⟨y, rest, hrest⟩ := List.exists_cons_of_ne_nil (varint_ne_nil (n / 128))
      rw [hrest] at ih ⊢
      rw [spells_cons_cons, digit, hbyte]
      exact ⟨by omega, n / 128, ih, by omega⟩

/-- The highest digit of a number is not zero, unless the number is. -/
theorem eq_zero_of_getLast?_varint (h : (varint n).getLast? = some 0) : n = 0 := by
  fun_induction varint n with
  | case1 n hn =>
      have hbyte : (UInt8.ofNat n).toNat = n :=
        UInt8.toNat_ofNat_of_lt' (show n < 256 by omega)
      rw [List.getLast?_singleton, Option.some.injEq] at h
      rw [← hbyte, h, UInt8.toNat_zero]
  | case2 n hn ih =>
      obtain ⟨y, rest, hrest⟩ := List.exists_cons_of_ne_nil (varint_ne_nil (n / 128))
      rw [hrest, List.getLast?_cons_cons, ← hrest] at h
      have hzero : n / 128 = 0 := ih h
      omega

/-- A number below that power of the base takes so many bytes at most. -/
theorem length_varint_le (hk : 1 ≤ k) (h : n < 2 ^ (7 * k)) : (varint n).length ≤ k := by
  induction k, hk using Nat.le_induction generalizing n with
  | base => rw [varint_of_lt h, List.length_singleton]
  | succ k hk ih =>
      rcases Nat.lt_or_ge n 128 with hn | hn
      · rw [varint_of_lt hn, List.length_singleton]
        omega
      · have hrest : n / 128 < 2 ^ (7 * k) := by
          rw [Nat.div_lt_iff_lt_mul (by decide)]
          calc n < 2 ^ (7 * (k + 1)) := h
            _ = 2 ^ (7 * k) * 128 := by rw [Nat.mul_succ, pow_add]; rfl
        rw [varint_of_le hn, List.length_cons]
        exact Nat.succ_le_succ (ih hrest)

/-- No other spelling is as short. -/
theorem Spells.length_varint_lt (h : Spells bytes n) (hne : bytes ≠ varint n) :
    (varint n).length < bytes.length := by
  refine lt_of_le_of_ne (length_varint_le h.length_pos h.lt) fun heq => hne ?_
  exact h.eq_of_length_eq (spells_varint n) heq.symm

/-- The length is the least for which a number of this size has room. -/
theorem isLeast_length_varint (n : Nat) :
    IsLeast {k | 1 ≤ k ∧ n < 2 ^ (7 * k)} (varint n).length := by
  refine ⟨⟨(spells_varint n).length_pos, (spells_varint n).lt⟩, ?_⟩
  rintro k ⟨hk, hlt⟩
  exact length_varint_le hk hlt

/-! ## The bytes of a word -/

/-- A word is written behind what the buffer holds, in its shortest form: one to ten bytes that
spell it, the last of them not zero unless the word is, and fewer than in any other spelling; as few
as have room for a number of that size. They are read back whatever follows them. -/
theorem pushVarint_canonical (v : UInt64) (out : List UInt8) :
    pushVarint out v = out ++ varint v.toNat ∧
    (1 ≤ (varint v.toNat).length ∧ (varint v.toNat).length ≤ 10) ∧
    Spells (varint v.toNat) v.toNat ∧
    ((varint v.toNat).getLast? = some 0 → v = 0) ∧
    (∀ bytes, Spells bytes v.toNat → bytes ≠ varint v.toNat →
      (varint v.toNat).length < bytes.length) ∧
    IsLeast {k | 1 ≤ k ∧ v.toNat < 2 ^ (7 * k)} (varint v.toNat).length ∧
    ∀ rest, readVarint (varint v.toNat ++ rest) = some (v.toNat, rest) := by
  have hspells := spells_varint v.toNat
  have hten : v.toNat < 2 ^ (7 * 10) := v.toNat_lt.trans (by decide)
  refine ⟨pushVarint_eq out v, ⟨hspells.length_pos, length_varint_le (by decide) hten⟩, hspells, ?_,
    fun _ => Spells.length_varint_lt, isLeast_length_varint v.toNat, reads_varint v.toNat⟩
  intro hlast
  exact UInt64.toNat_inj.mp (eq_zero_of_getLast?_varint hlast)

/-- The largest word takes ten bytes; a spelling of it with a zero at the high end takes more. -/
theorem pushVarint_canonical_largest :
    pushVarint [0xC7] 0xFFFFFFFFFFFFFFFF =
      [0xC7, 255, 255, 255, 255, 255, 255, 255, 255, 255, 1] ∧
    Spells [255, 255, 255, 255, 255, 255, 255, 255, 255, 129, 0] 0xFFFFFFFFFFFFFFFF ∧
    [255, 255, 255, 255, 255, 255, 255, 255, 255, 129, 0] ≠ varint 0xFFFFFFFFFFFFFFFF ∧
    (varint 0xFFFFFFFFFFFFFFFF).length < 11 := by
  have hbytes : varint 0xFFFFFFFFFFFFFFFF = [255, 255, 255, 255, 255, 255, 255, 255, 255, 1] := by
    decide +kernel
  have hpadded : Spells [255, 255, 255, 255, 255, 255, 255, 255, 255, 129, 0]
      0xFFFFFFFFFFFFFFFF :=
    ⟨by simp, ⟨0, rfl, by decide⟩, by decide⟩
  have hne : [255, 255, 255, 255, 255, 255, 255, 255, 255, 129, 0] ≠
      varint 0xFFFFFFFFFFFFFFFF := by
    rw [hbytes]
    decide
  obtain ⟨hpush, -, -, -, hshortest, -, -⟩ := pushVarint_canonical 0xFFFFFFFFFFFFFFFF [0xC7]
  refine ⟨?_, hpadded, hne, hshortest _ hpadded hne⟩
  rw [hpush]
  exact congrArg ([0xC7] ++ ·) hbytes

end TraceTypes.Checkpoint
