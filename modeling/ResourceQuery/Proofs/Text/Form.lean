import Mathlib.Tactic.IntervalCases
import ResourceQuery.Proofs.Text.Utf8
import ResourceQuery.Text.Form

/-!
# Text — what is form-encoded is read back

Form encoding writes a key and a value with `=` between them and pairs with `&` between them
(`encode`).  Letters, digits and `*-._` stand for themselves, a space is a `+`, and every other byte of
the UTF-8 form of a text is a `%` with two hexadecimal digits.

* `unescape_escapeByte`: each byte is read back.
* `isSafe_of_mem_escapeByte`: no byte is written with a delimiter.
* `pairs_encode`: reading undoes writing.
-/

namespace ResourceQuery.Text.Form

/-! ### Bytes -/

/-- The hexadecimal digit of a number below 16. -/
def hexDigit (n : Nat) : Char :=
  Char.ofNat (if n < 10 then 0x30 + n else 0x37 + n)

/-- The byte is written as the character that it stands for. -/
def isKept (b : UInt8) : Bool :=
  (0x30 ≤ b && b ≤ 0x39) || (0x41 ≤ b && b ≤ 0x5A) || (0x61 ≤ b && b ≤ 0x7A) ||
    b = 0x2A || b = 0x2D || b = 0x2E || b = 0x5F

/-- The characters that a byte is written with. -/
def escapeByte (b : UInt8) : List Char :=
  if b = 0x20 then ['+']
  else if isKept b then [Char.ofNat b.toNat]
  else ['%', hexDigit (b.toNat / 16), hexDigit (b.toNat % 16)]

/-- The bytes of a written text, a `+` read as a space. -/
def spaced (cs : List Char) : List UInt8 :=
  (Utf8.encode cs).map fun b => if b = 0x2B then 0x20 else b

theorem spaced_append (cs ds : List Char) : spaced (cs ++ ds) = spaced cs ++ spaced ds := by
  simp [spaced, Utf8.encode]

/-- A character that stands for itself wherever it is written. -/
def isSafe (c : Char) : Bool :=
  c ≠ '&' && c ≠ '=' && c ≠ '?'

/-- What holds of the bytes below 256 holds of all bytes. -/
theorem forall_byte {P : UInt8 → Prop} (h : ∀ n < 256, P (UInt8.ofNat n)) (b : UInt8) : P b := by
  have hb := h b.toNat b.toNat_lt
  rwa [UInt8.ofNat_toNat] at hb

theorem isSafe_of_mem_escapeByte (b : UInt8) : ∀ c ∈ escapeByte b, isSafe c = true := by
  have hall := forall_byte (P := fun b => (escapeByte b).all isSafe = true) (by decide +kernel) b
  exact List.all_eq_true.mp hall

/-- A byte that is kept is read as itself, and is no percent sign. -/
theorem spaced_kept (b : UInt8) :
    isKept b = true → spaced [Char.ofNat b.toNat] = [b] ∧ b ≠ 0x25 :=
  forall_byte (P := fun b => isKept b = true → spaced [Char.ofNat b.toNat] = [b] ∧ b ≠ 0x25)
    (by decide +kernel) b

/-- A hexadecimal digit is one byte, which is read as the digit. -/
theorem spaced_hexDigit {n : Nat} (h : n < 16) :
    ∃ b, spaced [hexDigit n] = [b] ∧ hexDigit? b = some (UInt8.ofNat n) := by
  interval_cases n <;> exact ⟨_, rfl, rfl⟩

/-- A byte other than the percent sign is itself. -/
theorem unescape_plain {b : UInt8} (h : b ≠ 0x25) (rest : List UInt8) :
    unescape (b :: rest) = b :: unescape rest := by
  match rest with
  | [] => rfl
  | [_] => rfl
  | _ :: _ :: _ => rw [unescape, if_neg h]

/-- A percent sign and two hexadecimal digits are the byte that they denote. -/
theorem unescape_percent {high low h l : UInt8} (hhigh : hexDigit? high = some h)
    (hlow : hexDigit? low = some l) (rest : List UInt8) :
    unescape (0x25 :: high :: low :: rest) = (16 * h + l) :: unescape rest := by
  rw [unescape, if_pos rfl, hhigh, hlow]

/-- Each byte is read back, whatever follows it. -/
theorem unescape_escapeByte (b : UInt8) (rest : List UInt8) :
    unescape (spaced (escapeByte b) ++ rest) = b :: unescape rest := by
  rw [escapeByte]
  split
  · next hspace =>
    subst hspace
    exact unescape_plain (by decide) rest
  · split
    · next hkept =>
      obtain ⟨hsame, hplain⟩ := spaced_kept b hkept
      rw [hsame]
      exact unescape_plain hplain rest
    -- what is neither a space nor kept is written as two hexadecimal digits
    · have hbyte := b.toNat_lt
      obtain ⟨high, hhigh, hhighDigit⟩ := spaced_hexDigit (n := b.toNat / 16) (by omega)
      obtain ⟨low, hlow, hlowDigit⟩ := spaced_hexDigit (n := b.toNat % 16) (by omega)
      have hdigits : spaced ['%', hexDigit (b.toNat / 16), hexDigit (b.toNat % 16)] =
          [0x25, high, low] := by
        have hparts := spaced_append [hexDigit (b.toNat / 16)] [hexDigit (b.toNat % 16)]
        rw [hhigh, hlow] at hparts
        exact (spaced_append ['%'] _).trans (congrArg (0x25 :: ·) hparts)
      have hvalue : 16 * UInt8.ofNat (b.toNat / 16) + UInt8.ofNat (b.toNat % 16) = b := by
        rw [← UInt8.toNat_inj, UInt8.toNat_add, UInt8.toNat_mul, Utf8.toNat_byte (by omega),
          Utf8.toNat_byte (by omega)]
        simp
        omega
      rw [hdigits]
      exact (unescape_percent hhighDigit hlowDigit rest).trans (by rw [hvalue])

/-! ### Texts -/

/-- A text as it is written in a key or a value. -/
def encodeText (cs : List Char) : List Char :=
  (Utf8.encode cs).flatMap escapeByte

/-- Encoding a text and decoding it gives the text back. -/
theorem decode_encodeText (cs : List Char) : decode (encodeText cs) = cs := by
  have hbytes (bs : List UInt8) : unescape (spaced (bs.flatMap escapeByte)) = bs := by
    induction bs with
    | nil => rfl
    | cons b bs ih => rw [List.flatMap_cons, spaced_append, unescape_escapeByte, ih]
  rw [decode]
  exact (congrArg Utf8.decode (hbytes (Utf8.encode cs))).trans (Utf8.decode_encode cs)

/-- A question mark that is written is read. -/
theorem decode_question (cs : List Char) : decode ('?' :: cs) = '?' :: decode cs := by
  have hmark : spaced ('?' :: cs) = UInt8.ofNat 0x3F :: spaced cs := spaced_append ['?'] cs
  calc decode ('?' :: cs)
    _ = Utf8.decode (unescape (UInt8.ofNat 0x3F :: spaced cs)) :=
        congrArg (fun bs => Utf8.decode (unescape bs)) hmark
    _ = Utf8.decode (UInt8.ofNat 0x3F :: unescape (spaced cs)) := by
        rw [unescape_plain (by decide)]
    _ = '?' :: decode cs := Utf8.read_ascii (by decide)

/-- An encoded text consists of harmless characters. -/
theorem isSafe_of_mem_encodeText {cs : List Char} {c : Char} (h : c ∈ encodeText cs) :
    isSafe c = true := by
  obtain ⟨b, -, hc⟩ := List.mem_flatMap.mp h
  exact isSafe_of_mem_escapeByte b c hc

/-! ### Pairs -/

/-- A key and a value with `=` between them. -/
def encodePair (p : List Char × List Char) : List Char :=
  encodeText p.1 ++ '=' :: encodeText p.2

/-- Pairs with `&` between neighbours. -/
def encode : List (List Char × List Char) → List Char
  | []           => []
  | [p]          => encodePair p
  | p :: q :: ps => encodePair p ++ '&' :: encode (q :: ps)

/-- A name and a value are read back from their encoded form. -/
theorem pair_encodePair (p : List Char × List Char) : pair (encodePair p) = p := by
  have hkey : '=' ∉ encodeText p.1 := fun h => by
    simpa [isSafe] using isSafe_of_mem_encodeText h
  rw [pair, encodePair, splitFirst_append hkey]
  simp only [decode_encodeText]

/-- Besides the harmless characters a pair has only its equals sign. -/
theorem isSafe_of_mem_encodePair {p : List Char × List Char} {c : Char} (h : c ∈ encodePair p) :
    isSafe c = true ∨ c = '=' := by
  rcases List.mem_append.mp h with h | h
  · exact .inl (isSafe_of_mem_encodeText h)
  · rcases List.mem_cons.mp h with rfl | h
    · exact .inr rfl
    · exact .inl (isSafe_of_mem_encodeText h)

theorem ampersand_not_mem_encodePair (p : List Char × List Char) : '&' ∉ encodePair p := fun h => by
  simpa [isSafe] using isSafe_of_mem_encodePair h

/-- There is no question mark in an encoded list of pairs. -/
theorem question_not_mem_encode (ps : List (List Char × List Char)) : '?' ∉ encode ps := by
  have hpair (p : List Char × List Char) : '?' ∉ encodePair p := fun h => by
    simpa [isSafe] using isSafe_of_mem_encodePair h
  induction ps using encode.induct with
  | case1 => exact List.not_mem_nil
  | case2 p => exact hpair p
  | case3 p q ps ih => simp [encode, hpair p, ih]

/-- An encoded list of pairs is cut into its pairs at the ampersands. -/
theorem splitOn_encode (p : List Char × List Char) (ps : List (List Char × List Char)) :
    splitOn '&' (encode (p :: ps)) = (p :: ps).map encodePair := by
  induction ps generalizing p with
  | nil => exact splitOn_of_not_mem (ampersand_not_mem_encodePair p)
  | cons q ps ih =>
      rw [encode, splitOn_append (ampersand_not_mem_encodePair p), ih]
      rfl

/-- Reading undoes writing. -/
theorem pairs_encode (ps : List (List Char × List Char)) : pairs (encode ps) = ps := by
  cases ps with
  | nil => rfl
  | cons p ps =>
      have hfull : ((p :: ps).map encodePair).filter (fun segment => !segment.isEmpty) =
          (p :: ps).map encodePair := by
        refine List.filter_eq_self.mpr fun segment hsegment => ?_
        obtain ⟨q, -, rfl⟩ := List.mem_map.mp hsegment
        simp [encodePair]
      rw [pairs, splitOn_encode, hfull, List.map_map]
      exact List.map_id'' pair_encodePair _

end ResourceQuery.Text.Form
