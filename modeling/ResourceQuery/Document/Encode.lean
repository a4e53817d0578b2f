import ResourceQuery.Document

/-!
# Document — encoding

A value with one obvious tree is written as that tree wherever a tree is asked for: a text, a truth
value, a number, a list.  An absent value is `null`, so that the decoder of an optional field reads it
back.
-/

namespace ResourceQuery.Document

/-- The tree of a value, `null` without one. -/
def ofOption {α : Type} (encode : α → Document) : Option α → Document
  | some a => encode a
  | none   => null

instance : Coe Bool Document := ⟨bool⟩
instance : Coe Nat Document := ⟨fun n => int n⟩
instance : Coe UInt64 Document := ⟨fun n => int n.toNat⟩
instance : Coe String Document := ⟨text⟩
instance : Coe (Option String) Document := ⟨ofOption text⟩
instance : Coe (List String) Document := ⟨fun names => list (names.map text)⟩
instance : Coe (List Document) Document := ⟨list⟩

end ResourceQuery.Document
