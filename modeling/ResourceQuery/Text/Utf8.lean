/-!
# Text — UTF-8 with replacement

Bytes are read as UTF-8 from left to right.  A byte sequence that cannot be the start of a
character is given up at the first byte that does not fit, and one replacement character stands for
what was read of it; the byte that did not fit is then read afresh.  This is the maximal subpart
rule of the Unicode standard.
-/

namespace ResourceQuery.Text.Utf8

/-- The character that stands for an ill-formed part. -/
def replacement : Char := '\uFFFD'

/-- Where a reader stands: between characters, or inside one that has the payload `payload` so far,
continues with a byte from `low` to `high` and needs `more` bytes after that. -/
inductive State where
  | between
  | inside (payload : Nat) (low high : UInt8) (more : Nat)

/-- Reads a byte between two characters. -/
def start (b : UInt8) : List Char × State :=
  if b < 0x80 then ([Char.ofNat b.toNat], .between)
  else if 0xC2 ≤ b ∧ b ≤ 0xDF then ([], .inside (b.toNat - 0xC0) 0x80 0xBF 0)
  else if b = 0xE0 then ([], .inside 0 0xA0 0xBF 1)
  else if b = 0xED then ([], .inside 13 0x80 0x9F 1)
  else if 0xE1 ≤ b ∧ b ≤ 0xEF then ([], .inside (b.toNat - 0xE0) 0x80 0xBF 1)
  else if b = 0xF0 then ([], .inside 0 0x90 0xBF 2)
  else if 0xF1 ≤ b ∧ b ≤ 0xF3 then ([], .inside (b.toNat - 0xF0) 0x80 0xBF 2)
  else if b = 0xF4 then ([], .inside 4 0x80 0x8F 2)
  else ([replacement], .between)

/-- Reads a byte in any state. -/
def step : State → UInt8 → List Char × State
  | .between, b => start b
  | .inside payload low high more, b =>
    if low ≤ b ∧ b ≤ high then
      let grown := payload * 64 + (b.toNat - 0x80)
      match more with
      | 0     => ([Char.ofNat grown], .between)
      | m + 1 => ([], .inside grown 0x80 0xBF m)
    else
      let (chars, next) := start b
      (replacement :: chars, next)

/-- The characters still to come, read from a given state. -/
def decodeFrom : State → List UInt8 → List Char
  | .between,    []      => []
  | .inside ..,  []      => [replacement]
  | state,       b :: bs =>
    let (chars, next) := step state b
    chars ++ decodeFrom next bs

/-- The characters of a byte sequence, ill-formed parts replaced. -/
def decode (bytes : List UInt8) : List Char :=
  decodeFrom .between bytes

/-- The bytes of a text. -/
def encode (cs : List Char) : List UInt8 :=
  cs.flatMap String.utf8EncodeChar

end ResourceQuery.Text.Utf8
