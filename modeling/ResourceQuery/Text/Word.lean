import ResourceQuery.Text.Blank

/-!
# Text — digits and 64-bit words

A word is written as one or more ASCII digits after an optional `+`; leading zeros are allowed and
a value of `2^64` or more is refused (`word?`).  The decimal text of a word denotes that word
(`word?_repr`), and it has no blanks to trim (`trimChars_repr`).
-/

namespace ResourceQuery.Text

/-- The value of an ASCII digit. -/
def digit? (c : Char) : Option Nat :=
  if '0' ≤ c ∧ c ≤ '9' then some (c.toNat - '0'.toNat) else none

/-- The value of an ASCII hexadecimal digit. -/
def hexDigit? (c : Char) : Option Nat :=
  if '0' ≤ c ∧ c ≤ '9' then some (c.toNat - 48)
  else if 'a' ≤ c ∧ c ≤ 'f' then some (c.toNat - 87)
  else if 'A' ≤ c ∧ c ≤ 'F' then some (c.toNat - 55)
  else none

/-- The value of a digit sequence read after the digits of `acc`. -/
def digitsFrom? (acc : Nat) : List Char → Option Nat
  | []      => some acc
  | c :: cs => (digit? c).bind fun d => digitsFrom? (10 * acc + d) cs

/-- The value of a nonempty sequence of ASCII digits. -/
def digits? (cs : List Char) : Option Nat :=
  if cs.isEmpty then none else digitsFrom? 0 cs

/-- A natural number below `2^64` as a word. -/
def wordOfNat? (n : Nat) : Option UInt64 :=
  if n < UInt64.size then some (UInt64.ofNat n) else none

/-- The word that a decimal text denotes: an optional `+`, then digits. -/
def word? (cs : List Char) : Option UInt64 :=
  let unsigned := match cs with
    | '+' :: rest => rest
    | _           => cs
  (digits? unsigned).bind wordOfNat?

/-! ### Decimal texts -/

variable {c : Char} {cs : List Char} {n : Nat}

theorem digit?_of_isDigit (h : c.isDigit = true) : digit? c = some (c.toNat - '0'.toNat) := by
  simp only [Char.isDigit, Bool.and_eq_true, decide_eq_true_eq] at h
  exact if_pos h

/-- Digits are read in decimal, whatever has been read before. -/
theorem digitsFrom?_of_isDigit (h : ∀ c ∈ cs, c.isDigit = true) (acc : Nat) :
    digitsFrom? acc cs = some (Nat.ofDigitChars 10 cs acc) := by
  induction cs generalizing acc with
  | nil => rfl
  | cons c cs ih =>
    obtain ⟨hc, hcs⟩ := List.forall_mem_cons.mp h
    rw [digitsFrom?, digit?_of_isDigit hc, Option.bind_some, ih hcs, Nat.ofDigitChars_cons]

theorem isDigit_of_mem_repr (h : c ∈ n.repr.toList) : c.isDigit = true := by
  rw [Nat.toList_repr] at h
  exact Nat.isDigit_of_mem_toDigits (by decide) (by decide) h

/-- A text of digits is a word if its number fits. -/
theorem word?_of_isDigit (h : ∀ c ∈ cs, c.isDigit = true) :
    word? cs = (digits? cs).bind wordOfNat? := by
  delta word?
  dsimp only
  split
  case h_1 rest =>
    -- A digit is no sign.
    exact absurd (h '+' List.mem_cons_self) (by decide)
  case h_2 => rfl

/-- A number is read back from its decimal form. -/
theorem digits?_repr (n : Nat) : digits? n.repr.toList = some n := by
  have hfull : n.repr.toList.isEmpty = false := by
    rw [Nat.toList_repr, List.isEmpty_eq_false_iff]
    exact Nat.toDigits_ne_nil
  rw [digits?, hfull, digitsFrom?_of_isDigit fun c hc => isDigit_of_mem_repr hc, Nat.toList_repr,
    Nat.ofDigitChars_toDigits (by decide) (by decide)]
  rfl

/-- A number below the limit is read back as a word from its decimal form. -/
theorem word?_repr (h : n < UInt64.size) : word? n.repr.toList = some (UInt64.ofNat n) := by
  rw [word?_of_isDigit fun c hc => isDigit_of_mem_repr hc, digits?_repr, Option.bind_some,
    wordOfNat?, if_pos h]

/-- There are no blanks to trim around the decimal form of a number. -/
theorem trimChars_repr (n : Nat) : trimChars n.repr.toList = n.repr.toList := by
  have hkeep (cs : List Char) (h : ∀ c ∈ cs, c.isDigit = true) : cs.dropWhile isBlank = cs := by
    cases cs with
    | nil => rfl
    | cons c cs =>
      have hc : isBlank c = false := by
        have hdigit := h c List.mem_cons_self
        simp [Char.isDigit, UInt32.le_iff_toNat_le, isBlank] at hdigit ⊢
        omega
      rw [List.dropWhile_cons, hc]
      rfl
  rw [trimChars, hkeep _ fun c hc => isDigit_of_mem_repr hc,
    hkeep _ fun c hc => isDigit_of_mem_repr (List.mem_reverse.mp hc), List.reverse_reverse]

end ResourceQuery.Text
