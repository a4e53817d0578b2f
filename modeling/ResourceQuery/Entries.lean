/-!
# Entries — maps that remember the order of their keys

A map from text to values is a list of entries in the order in which the keys first came.  Writing
a key that is present keeps its place and replaces its value; writing a new key appends it.

* `mem_of_find?`: what is found is an entry.
* `find?_isSome_iff`: something is found under the keys.
* `nodup_concat_iff`: keys are distinct if the last one is new and those before it are distinct.
* `find?_append_cons_of_ne`: an entry is not found under other keys.
* `find?_concat`: an entry with a new key is found under that key alone.
* `find?_update`: changing the value of a key changes what is found under that key alone.
* `mem_update`: the entries are then the old ones and the changed one.
* `find?_insert`: writing a key changes what is found under that key alone.
* `find?_insert_self`: what was written last is found.
* `find?_erase`: what was erased is not found; what is found under other keys stays.
* `keys_update`: changing the value of a key keeps the keys and their order, and appends a new key.
* `nodup_keys_update`: distinct keys stay distinct.
* `update_of_find?`: a change that leaves the value as it is leaves the entries as they are.
* `mem_ofList`: entries are among the pairs that they are made of.
* `ofList_of_nodup`: pairs with distinct keys are entries as they are.
-/

namespace ResourceQuery

/-- Values under text keys, in the order of the first occurrence of each key. -/
abbrev Entries (α : Type) := List (String × α)

namespace Entries

variable {α β : Type}

/-- The value of the first entry under `key`. -/
def find? (key : String) : Entries α → Option α
  | []          => none
  | (k, v) :: r => if k = key then some v else find? key r

/-- The keys in order. -/
def keys (es : Entries α) : List String :=
  es.map Prod.fst

/-- The values in order. -/
def values (es : Entries α) : List α :=
  es.map Prod.snd

/-- Replaces the value under `key` by what `change` makes of it, or appends an entry with what
`change` makes of nothing. -/
def update (key : String) (change : Option α → α) : Entries α → Entries α
  | []          => [(key, change none)]
  | (k, v) :: r => if k = key then (k, change (some v)) :: r else (k, v) :: update key change r

/-- Writes `value` under `key`. -/
def insert (key : String) (value : α) (es : Entries α) : Entries α :=
  update key (fun _ => value) es

/-- The entries of a list of pairs, written one after the other. -/
def ofList (pairs : List (String × α)) : Entries α :=
  pairs.foldl (fun es (k, v) => insert k v es) []

/-- The entries without those under `key`. -/
def erase (key : String) (es : Entries α) : Entries α :=
  es.filter fun (k, _) => k ≠ key

@[simp] theorem find?_nil (key : String) : find? key ([] : Entries α) = none := rfl

/-- A value that is found under a key stands among the entries. -/
theorem mem_of_find? {key : String} {value : α} {es : Entries α} (h : find? key es = some value) :
    (key, value) ∈ es := by
  induction es with
  | nil => cases h
  | cons e r ih =>
    obtain ⟨k, v⟩ := e
    rw [find?] at h
    split at h
    case isTrue hk =>
      obtain rfl : v = value := Option.some.inj h
      exact hk ▸ List.mem_cons_self
    case isFalse => exact List.mem_cons_of_mem _ (ih h)

/-- Something is found under a key exactly if it is one of the keys. -/
theorem find?_isSome_iff {key : String} {es : Entries α} :
    (find? key es).isSome ↔ key ∈ keys es := by
  induction es with
  | nil => simp [keys]
  | cons e r ih =>
    obtain ⟨k, v⟩ := e
    by_cases hk : k = key
    · simp [find?, keys, hk]
    · simpa [find?, keys, hk, Ne.symm hk] using ih

theorem find?_eq_none_iff {key : String} {es : Entries α} : find? key es = none ↔ key ∉ keys es := by
  rw [← find?_isSome_iff, Option.not_isSome_iff_eq_none]

/-- Keys stay distinct behind a new entry exactly if its key is new. -/
theorem nodup_concat_iff {key : String} {value : α} {es : Entries α} :
    (keys (es ++ [(key, value)])).Nodup ↔ (keys es).Nodup ∧ key ∉ keys es := by
  have hkeys : keys (es ++ [(key, value)]) = keys es ++ [key] := by simp [keys]
  rw [hkeys, List.nodup_append]
  constructor
  · rintro ⟨hes, -, hne⟩
    exact ⟨hes, fun hmem => hne key hmem key List.mem_cons_self rfl⟩
  · rintro ⟨hes, hkey⟩
    refine ⟨hes, List.pairwise_singleton _ key, fun a ha b hb e => hkey ?_⟩
    rwa [← List.mem_singleton.mp hb, ← e]

/-- An entry is passed over in the search for another key. -/
theorem find?_append_cons_of_ne {key other : String} (h : key ≠ other) (value : α)
    (before after : Entries α) :
    find? other (before ++ (key, value) :: after) = find? other (before ++ after) := by
  induction before with
  | nil => simp [find?, h]
  | cons e before ih => simp [find?, ih]

/-- An update changes what is found under its key and nothing else. -/
theorem find?_update (key other : String) (change : Option α → α) (es : Entries α) :
    find? other (update key change es) =
      if key = other then some (change (find? key es)) else find? other es := by
  induction es with
  | nil => simp [update, find?]
  | cons e r ih =>
    obtain ⟨k, v⟩ := e
    by_cases hk : k = key
    · subst hk
      by_cases ho : k = other <;> simp [update, find?, ho]
    · by_cases ho : k = other
      · subst ho
        simp [update, find?, hk, Ne.symm hk]
      · simp [update, find?, hk, ho, ih]

/-- What is among the entries after an update was there before or is the changed value. -/
theorem mem_update {key other : String} {value : α} {change : Option α → α} {es : Entries α}
    (h : (other, value) ∈ update key change es) :
    (other, value) ∈ es ∨ other = key ∧ value = change (find? key es) := by
  induction es with
  | nil =>
    obtain ⟨rfl, rfl⟩ := Prod.mk.inj (List.mem_singleton.mp h)
    exact .inr ⟨rfl, rfl⟩
  | cons e r ih =>
    obtain ⟨k, v⟩ := e
    rw [update] at h
    split at h
    case isTrue hk =>
      rcases List.mem_cons.mp h with h | h
      · obtain ⟨rfl, rfl⟩ := Prod.mk.inj h
        exact .inr ⟨hk, by rw [find?, if_pos hk]⟩
      · exact .inl (List.mem_cons_of_mem _ h)
    case isFalse hk =>
      rcases List.mem_cons.mp h with h | h
      · exact .inl (h ▸ List.mem_cons_self)
      · refine (ih h).imp (List.mem_cons_of_mem _) fun hchanged => ?_
        rwa [find?, if_neg hk]

/-- Behind an insertion the new value is found under its key, and what was found before under the others. -/
theorem find?_insert (key other : String) (value : α) (es : Entries α) :
    find? other (insert key value es) = if key = other then some value else find? other es :=
  find?_update key other (fun _ => value) es

theorem find?_insert_self (key : String) (value : α) (es : Entries α) :
    find? key (insert key value es) = some value := by
  rw [find?_insert, if_pos rfl]

/-- Behind an erasure nothing is found under its key, and what was found before under the others. -/
theorem find?_erase (key other : String) (es : Entries α) :
    find? other (erase key es) = if key = other then none else find? other es := by
  unfold erase
  induction es with
  | nil => simp
  | cons e r ih =>
    obtain ⟨k, v⟩ := e
    by_cases h : k = key
    · by_cases ho : key = other
      · simpa [h, ho] using ih
      · simpa [h, ho, find?] using ih
    · by_cases ho : k = other
      · simp [find?, h, ← ho, Ne.symm h]
      · simpa [find?, h, ho] using ih

/-- An update keeps the keys in place and puts a new one at the end. -/
theorem keys_update (key : String) (change : Option α → α) (es : Entries α) :
    keys (update key change es) = if key ∈ keys es then keys es else keys es ++ [key] := by
  induction es with
  | nil => simp [update, keys]
  | cons e r ih =>
    obtain ⟨k, v⟩ := e
    by_cases hk : k = key
    · simp [update, keys, hk]
    · have hkeys (v : α) (r : Entries α) : keys ((k, v) :: r) = k :: keys r := rfl
      rw [update, if_neg hk, hkeys, hkeys, ih]
      by_cases hr : key ∈ keys r <;> simp [hr, Ne.symm hk]

theorem keys_insert_of_mem {key : String} {es : Entries α} (value : α) (h : key ∈ keys es) :
    keys (insert key value es) = keys es :=
  (keys_update key _ es).trans (if_pos h)

theorem keys_insert_of_not_mem {key : String} {es : Entries α} (value : α) (h : key ∉ keys es) :
    keys (insert key value es) = keys es ++ [key] :=
  (keys_update key _ es).trans (if_neg h)

/-- An update that does not change the value that it finds changes nothing. -/
theorem update_of_find? {key : String} {value : α} {change : Option α → α} {es : Entries α}
    (h : find? key es = some value) (hsame : change (some value) = value) :
    update key change es = es := by
  induction es with
  | nil => cases h
  | cons e r ih =>
    obtain ⟨k, v⟩ := e
    rw [find?] at h
    split at h
    case isTrue hk =>
      obtain rfl : v = value := Option.some.inj h
      rw [update, if_pos hk, hsame]
    case isFalse hk => rw [update, if_neg hk, ih h]

/-- An update under a new key puts an entry at the end. -/
theorem update_of_not_mem {key : String} {es : Entries α} (change : Option α → α)
    (h : key ∉ keys es) : update key change es = es ++ [(key, change none)] := by
  induction es with
  | nil => rfl
  | cons e r ih =>
    obtain ⟨k, v⟩ := e
    simp only [keys, List.map_cons, List.mem_cons, not_or] at h
    rw [update, if_neg (Ne.symm h.1), ih h.2, List.cons_append]

/-- Keys stay distinct in an update. -/
theorem nodup_keys_update {key : String} {es : Entries α} (change : Option α → α)
    (h : (keys es).Nodup) : (keys (update key change es)).Nodup := by
  by_cases hkey : key ∈ keys es
  · rwa [keys_update, if_pos hkey]
  · rw [update_of_not_mem change hkey]
    exact nodup_concat_iff.mpr ⟨h, hkey⟩

/-- What is found among entries with a new one behind them. -/
theorem find?_concat {key : String} {es : Entries α} (value : α) (h : key ∉ keys es)
    (other : String) :
    find? other (es ++ [(key, value)]) = if key = other then some value else find? other es := by
  rw [← update_of_not_mem (fun _ => value) h, find?_update]

/-- Entries with new keys are taken over in their order, each changed as if nothing had been there, by
induction on them. -/
theorem foldl_update_append (change : α → Option β → β) {done : Entries β} {es : Entries α}
    (h : (keys done ++ keys es).Nodup) :
    es.foldl (fun r e => update e.1 (change e.2) r) done =
      done ++ es.map fun e => (e.1, change e.2 none) := by
  induction es generalizing done with
  | nil => simp
  | cons e es ih =>
    have hkey : e.1 ∉ keys done := fun hmem =>
      (List.nodup_append.mp h).2.2 e.1 hmem e.1 List.mem_cons_self rfl
    have hrest : (keys (done ++ [(e.1, change e.2 none)]) ++ keys es).Nodup := by
      simpa [keys] using h
    rw [List.foldl_cons, update_of_not_mem _ hkey, ih hrest]
    simp

/-- With distinct keys, each update makes an entry of its own. -/
theorem foldl_update_of_nodup (change : α → Option β → β) {es : Entries α} (h : (keys es).Nodup) :
    es.foldl (fun r e => update e.1 (change e.2) r) [] = es.map fun e => (e.1, change e.2 none) :=
  foldl_update_append change h

/-- Insertions leave only what was there or has been inserted. -/
theorem mem_foldl_insert {pairs es : Entries α} {e : String × α}
    (h : e ∈ pairs.foldl (fun es (k, v) => insert k v es) es) : e ∈ es ∨ e ∈ pairs := by
  induction pairs generalizing es with
  | nil => exact .inl h
  | cons p pairs ih =>
    rcases ih h with h | h
    · rcases mem_update h with h | ⟨hkey, hvalue⟩
      · exact .inl h
      · exact .inr (List.mem_cons.mpr (.inl (Prod.ext hkey hvalue)))
    · exact .inr (List.mem_cons_of_mem _ h)

theorem mem_ofList {pairs : List (String × α)} {e : String × α} (h : e ∈ ofList pairs) :
    e ∈ pairs :=
  (mem_foldl_insert h).resolve_left List.not_mem_nil

theorem ofList_of_nodup {es : Entries α} (h : (keys es).Nodup) : ofList es = es :=
  (foldl_update_of_nodup (fun value _ => value) h).trans (List.map_id _)

end Entries

end ResourceQuery
