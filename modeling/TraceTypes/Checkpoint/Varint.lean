/-!
# Variable-length numbers

Numbers are written in base 128, lowest digit first. Every byte but the last
has its high bit set, so a number ends at the first byte below 128. `varint` gives
the bytes of any number; `pushVarint` is the loop that writes a word of 64 bits.
-/

namespace TraceTypes.Checkpoint

/-- The bytes of a number: its base-128 digits from the lowest, all but the last marked. -/
def varint (n : Nat) : List UInt8 :=
  if n < 128 then [UInt8.ofNat n] else UInt8.ofNat (n % 128 + 128) :: varint (n / 128)

theorem varint_of_lt {n : Nat} (h : n < 128) : varint n = [UInt8.ofNat n] := by
  rw [varint, if_pos h]

theorem varint_of_le {n : Nat} (h : 128 ≤ n) :
    varint n = UInt8.ofNat (n % 128 + 128) :: varint (n / 128) := by
  rw [varint, if_neg (Nat.not_lt.mpr h)]

theorem varint_ne_nil (n : Nat) : varint n ≠ [] := by
  rw [varint]
  split <;> exact List.cons_ne_nil _ _

/-! ## Writing a word to a buffer -/

theorem toNat_shiftRight_seven (v : UInt64) : (v >>> 7).toNat = v.toNat / 128 := by
  rw [UInt64.toNat_shiftRight]
  exact Nat.shiftRight_eq_div_pow v.toNat 7

theorem shiftRight_seven_eq_zero {v : UInt64} : v >>> 7 = 0 ↔ v.toNat < 128 := by
  rw [← UInt64.toNat_inj, toNat_shiftRight_seven, UInt64.toNat_zero]
  omega

theorem toUInt8_and_low (v : UInt64) : (v &&& 0x7f).toUInt8 = UInt8.ofNat (v.toNat % 128) := by
  apply UInt8.toNat_inj.mp
  have hmask : v.toNat &&& 127 = v.toNat % 128 := Nat.and_two_pow_sub_one_eq_mod v.toNat 7
  have hbyte : (UInt8.ofNat (v.toNat % 128)).toNat = v.toNat % 128 :=
    UInt8.toNat_ofNat_of_lt' (show v.toNat % 128 < 256 by omega)
  rw [UInt64.toNat_toUInt8, UInt64.toNat_and, hbyte]
  show (v.toNat &&& 127) % 256 = _
  rw [hmask]
  omega

theorem ofNat_or_mark {n : Nat} (h : n < 128) :
    UInt8.ofNat n ||| 0x80 = UInt8.ofNat (n + 128) := by
  apply UInt8.toNat_inj.mp
  -- the mark is the one bit above the digit, so that setting it adds it
  have hmark : n ||| 128 = n + 128 := by
    rw [Nat.or_comm, Nat.add_comm]
    exact (Nat.two_pow_add_eq_or_of_lt (i := 7) h 1).symm
  rw [UInt8.toNat_or, UInt8.toNat_ofNat_of_lt' (show n < 256 by omega),
    UInt8.toNat_ofNat_of_lt' (show n + 128 < 256 by omega)]
  exact hmark

/-- Write a word at the end of a buffer: seven bits go out at a time, from the low end, until no
bit that is left is set. -/
def pushVarint (out : List UInt8) (v : UInt64) : List UInt8 :=
  let digit := (v &&& 0x7f).toUInt8
  let rest := v >>> 7
  if rest = 0 then out ++ [digit] else pushVarint (out ++ [digit ||| 0x80]) rest
  termination_by v.toNat
  decreasing_by
    rename_i hrest
    have hv := mt shiftRight_seven_eq_zero.mpr hrest
    rw [toNat_shiftRight_seven]
    omega

/-- The loop adds the bytes of the number. -/
theorem pushVarint_eq (out : List UInt8) (v : UInt64) :
    pushVarint out v = out ++ varint v.toNat := by
  fun_induction pushVarint out v with
  | case1 out v digit rest hrest =>
      have hv : v.toNat < 128 := shiftRight_seven_eq_zero.mp hrest
      have hdigit : digit = UInt8.ofNat (v.toNat % 128) := toUInt8_and_low v
      rw [varint_of_lt hv, hdigit, Nat.mod_eq_of_lt hv]
  | case2 out v digit rest hrest ih =>
      have hv : ¬ v.toNat < 128 := mt shiftRight_seven_eq_zero.mpr hrest
      have hdigit : digit = UInt8.ofNat (v.toNat % 128) := toUInt8_and_low v
      have hnext : rest.toNat = v.toNat / 128 := toNat_shiftRight_seven v
      rw [ih, varint_of_le (Nat.not_lt.mp hv), hdigit, ofNat_or_mark (Nat.mod_lt _ (by decide)),
        hnext, List.append_assoc, List.singleton_append]

end TraceTypes.Checkpoint
