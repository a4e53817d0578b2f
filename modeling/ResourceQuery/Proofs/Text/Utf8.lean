import Mathlib.Tactic.IntervalCases
import ResourceQuery.Text.Utf8

/-!
# Text — what is written as UTF-8 is read back

The bytes of a character are read back as that character, whatever bytes follow them
(`decodeFrom_encodeChar`): the first byte tells how many continue it, each of these adds six bits, and
the narrower bounds behind `E0`, `ED`, `F0` and `F4` exclude no character.  So reading undoes writing
(`decode_encode`).
-/

namespace ResourceQuery.Text.Utf8

variable {n payload more : Nat} {low high : UInt8} {bs : List UInt8}

/-! ### Single bytes -/

theorem toNat_byte (h : n < 256) : (UInt8.ofNat n).toNat = n := by
  rw [UInt8.toNat_ofNat', Nat.mod_eq_of_lt h]

/-- An ASCII byte is its own character. -/
theorem read_ascii (h : n ≤ 127) :
    decodeFrom .between (UInt8.ofNat n :: bs) = Char.ofNat n :: decodeFrom .between bs := by
  have hbyte : UInt8.ofNat n < 0x80 := by
    rw [UInt8.lt_iff_toNat_lt, toNat_byte (by omega)]
    exact Nat.lt_succ_of_le h
  rw [decodeFrom, step, start, if_pos hbyte, toNat_byte (by omega)]
  rfl

/-- A byte within the bounds adds six bits. -/
theorem step_inside (hn : n < 64) (hlow : low.toNat ≤ n + 128) (hhigh : n + 128 ≤ high.toNat) :
    step (.inside payload low high more) (UInt8.ofNat (n + 128)) =
      match more with
      | 0     => ([Char.ofNat (payload * 64 + n)], .between)
      | m + 1 => ([], .inside (payload * 64 + n) 0x80 0xBF m) := by
  have hbyte : (UInt8.ofNat (n + 128)).toNat = n + 128 := toNat_byte (by omega)
  have hwithin : low ≤ UInt8.ofNat (n + 128) ∧ UInt8.ofNat (n + 128) ≤ high := by
    rw [UInt8.le_iff_toNat_le, UInt8.le_iff_toNat_le, hbyte]
    exact ⟨hlow, hhigh⟩
  cases more with
  | zero => simp only [step, if_pos hwithin, hbyte, Nat.add_sub_cancel]
  | succ m => simp only [step, if_pos hwithin, hbyte, Nat.add_sub_cancel]

/-- The last byte of a character completes it. -/
theorem read_last (hn : n < 64) (hlow : low.toNat ≤ n + 128) (hhigh : n + 128 ≤ high.toNat) :
    decodeFrom (.inside payload low high 0) (UInt8.ofNat (n + 128) :: bs) =
      Char.ofNat (payload * 64 + n) :: decodeFrom .between bs := by
  rw [decodeFrom, step_inside hn hlow hhigh]
  rfl

/-- A byte in the middle of a character adds six bits to it. -/
theorem read_more (hn : n < 64) (hlow : low.toNat ≤ n + 128) (hhigh : n + 128 ≤ high.toNat) :
    decodeFrom (.inside payload low high (more + 1)) (UInt8.ofNat (n + 128) :: bs) =
      decodeFrom (.inside (payload * 64 + n) 0x80 0xBF more) bs := by
  rw [decodeFrom, step_inside hn hlow hhigh]
  rfl

theorem start_of_two (h : 2 ≤ n) (hn : n < 32) :
    start (UInt8.ofNat (n + 192)) = ([], .inside n 0x80 0xBF 0) := by
  interval_cases n <;> rfl

/-- The first byte of three narrows the second one, against characters of two bytes and surrogates. -/
theorem start_of_three (hn : n < 16) :
    start (UInt8.ofNat (n + 224)) =
      ([], .inside n (if n = 0 then 0xA0 else 0x80) (if n = 13 then 0x9F else 0xBF) 1) := by
  interval_cases n <;> rfl

/-- The first byte of four narrows the second one, against characters of three bytes and those beyond the
last. -/
theorem start_of_four (hn : n < 5) :
    start (UInt8.ofNat (n + 240)) =
      ([], .inside n (if n = 0 then 0x90 else 0x80) (if n = 4 then 0x8F else 0xBF) 2) := by
  interval_cases n <;> rfl

/-! ### Characters -/

/-- A character is read back from its bytes, of which there are one to four. -/
theorem decodeFrom_encodeChar (c : Char) (bs : List UInt8) :
    decodeFrom .between (String.utf8EncodeChar c ++ bs) = c :: decodeFrom .between bs := by
  have hchar : Char.ofNat c.val.toNat = c := Char.ofNat_toNat c
  have hvalid : c.val.toNat < 55296 ∨ 57343 < c.val.toNat ∧ c.val.toNat < 1114112 := c.valid
  rw [String.utf8EncodeChar]
  generalize c.val.toNat = v at hchar hvalid ⊢
  split
  · next hone => rw [List.cons_append, List.nil_append, read_ascii hone, hchar]
  · split
    · next hone htwo =>
      have hfirst : v / 64 % 32 = v / 64 := Nat.mod_eq_of_lt (by omega)
      have hvalue : v / 64 * 64 + v % 64 = v := by omega
      rw [hfirst, List.cons_append, decodeFrom, step, start_of_two (by omega) (by omega)]
      simp only [List.nil_append, List.cons_append]
      rw [read_last (by omega) (by simp) (by simp; omega), hvalue, hchar]
    · split
      · next htwo hthree =>
        have hfirst : v / 4096 % 16 = v / 4096 := Nat.mod_eq_of_lt (by omega)
        have hvalue : (v / 4096 * 64 + v / 64 % 64) * 64 + v % 64 = v := by omega
        -- the bounds of the second byte leave out short forms and surrogates alone
        have hlow : (if v / 4096 = 0 then (0xA0 : UInt8) else 0x80).toNat ≤ v / 64 % 64 + 128 := by
          split
          · simp
            omega
          · simp
        have hhigh : v / 64 % 64 + 128 ≤ (if v / 4096 = 13 then (0x9F : UInt8) else 0xBF).toNat := by
          split <;> simp <;> omega
        rw [hfirst, List.cons_append, decodeFrom, step, start_of_three (by omega)]
        simp only [List.nil_append, List.cons_append]
        rw [read_more (by omega) hlow hhigh, read_last (by omega) (by simp) (by simp; omega), hvalue,
          hchar]
      · next hthree =>
        have hfirst : v / 262144 % 8 = v / 262144 := Nat.mod_eq_of_lt (by omega)
        have hvalue : ((v / 262144 * 64 + v / 4096 % 64) * 64 + v / 64 % 64) * 64 + v % 64 = v := by
          omega
        have hlow : (if v / 262144 = 0 then (0x90 : UInt8) else 0x80).toNat ≤
            v / 4096 % 64 + 128 := by
          split
          · simp
            omega
          · simp
        have hhigh : v / 4096 % 64 + 128 ≤
            (if v / 262144 = 4 then (0x8F : UInt8) else 0xBF).toNat := by
          split <;> simp <;> omega
        rw [hfirst, List.cons_append, decodeFrom, step, start_of_four (by omega)]
        simp only [List.nil_append, List.cons_append]
        rw [read_more (by omega) hlow hhigh, read_more (by omega) (by simp) (by simp; omega),
          read_last (by omega) (by simp) (by simp; omega), hvalue, hchar]

/-- Reading undoes writing. -/
theorem decode_encode (cs : List Char) : decode (encode cs) = cs := by
  rw [decode, encode]
  induction cs with
  | nil => rfl
  | cons c cs ih => rw [List.flatMap_cons, decodeFrom_encodeChar, ih]

end ResourceQuery.Text.Utf8
