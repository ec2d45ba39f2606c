import Mathlib.Data.List.Basic
import Mathlib.Order.Defs.Unbundled

/-! # Ordered maps as sorted association lists

    A map ordered by a comparator `lt` is a list of entries whose keys are
    strictly increasing in `lt`; the sortedness is a field, so an unsorted map
    cannot be built.  An iterator is the key of the entry it stands on (`none`
    is the end), which is exactly what survives insertions and erasures of
    OTHER entries: `first?` starts, `next?` advances to the least larger key
    in the map as it is now, `erase` removes one entry.

    The lemmas about `A ++ (k, v) :: B` are what a traversal needs: looking up
    `k`, stepping past it and erasing it, in terms of the two parts. -/

namespace SortedMap

/-- A map whose entries are listed in increasing order of their keys. -/
structure SMap (κ ν : Type) (lt : κ → κ → Prop) where
  entries : List (κ × ν)
  sorted  : entries.Pairwise (fun a b => lt a.1 b.1)

variable {κ ν : Type} {lt : κ → κ → Prop}

/-- Maps with the same entries are equal. -/
@[ext] theorem SMap.ext {m m' : SMap κ ν lt} (h : m.entries = m'.entries) :
    m = m' := by
  cases m; cases m'; cases h; rfl

/-- Around an entry of the map, all keys before it are smaller and all keys
    after it are larger. -/
theorem SMap.split_sorted {m : SMap κ ν lt} {k : κ} {v : ν}
    {A B : List (κ × ν)} (h : m.entries = A ++ (k, v) :: B) :
    (∀ e ∈ A, lt e.1 k) ∧ (∀ e ∈ B, lt k e.1) := by
  have hs := m.sorted
  rw [h] at hs
  obtain ⟨-, h2, h3⟩ := List.pairwise_append.mp hs
  exact ⟨fun e he => h3 e he _ List.mem_cons_self,
    (List.pairwise_cons.mp h2).1⟩

/-- The empty map. -/
def SMap.empty : SMap κ ν lt := ⟨[], List.Pairwise.nil⟩

/-- The key of the first entry: an iterator to the beginning. -/
def SMap.first? (m : SMap κ ν lt) : Option κ := m.entries.head?.map Prod.fst

/-- Put an entry at its place, replacing the value of an equal key. -/
def insertEntry (lt : κ → κ → Prop) [DecidableRel lt] [DecidableEq κ]
    (k : κ) (v : ν) :
    List (κ × ν) → List (κ × ν)
  | [] => [(k, v)]
  | (k', v') :: t =>
      if lt k k' then (k, v) :: (k', v') :: t
      else if k = k' then (k, v) :: t
      else (k', v') :: insertEntry lt k v t

/-- Every entry of the updated list is the new one or an old one. -/
theorem mem_of_mem_insertEntry [DecidableRel lt] [DecidableEq κ]
    {k : κ} {v : ν} {L : List (κ × ν)} {e : κ × ν}
    (h : e ∈ insertEntry lt k v L) : e = (k, v) ∨ e ∈ L := by
  induction L with
  | nil => exact Or.inl (List.mem_singleton.mp h)
  | cons hd t ih =>
      obtain ⟨k', v'⟩ := hd
      rw [insertEntry] at h
      split at h
      · exact List.mem_cons.mp h
      · split at h
        · rcases List.mem_cons.mp h with rfl | h
          · exact Or.inl rfl
          · exact Or.inr (List.mem_cons_of_mem _ h)
        · rcases List.mem_cons.mp h with rfl | h
          · exact Or.inr List.mem_cons_self
          · exact (ih h).imp_right (List.mem_cons_of_mem _)

section Order

variable [IsStrictTotalOrder κ lt]

/-- Two keys neither of which comes first are equal. -/
theorem key_eq {k k' : κ} (h : ¬ lt k k') (h' : ¬ lt k' k) : k = k' :=
  Std.Trichotomous.trichotomous (r := lt) k k' h h'

/-- Putting an entry at its place keeps the list sorted. -/
theorem sorted_insertEntry [DecidableRel lt] [DecidableEq κ]
    (k : κ) (v : ν) {L : List (κ × ν)}
    (h : L.Pairwise (fun a b => lt a.1 b.1)) :
    (insertEntry lt k v L).Pairwise (fun a b => lt a.1 b.1) := by
  induction L with
  | nil => exact List.pairwise_singleton _ _
  | cons hd t ih =>
      obtain ⟨k', v'⟩ := hd
      obtain ⟨h1, h2⟩ := List.pairwise_cons.mp h
      rw [insertEntry]
      split
      · rename_i hlt
        refine List.pairwise_cons.mpr ⟨?_, h⟩
        intro e he
        rcases List.mem_cons.mp he with rfl | he
        · exact hlt
        · exact trans_of lt hlt (h1 e he)
      · rename_i hnlt
        split
        · rename_i heq
          subst heq
          exact List.pairwise_cons.mpr ⟨h1, h2⟩
        · rename_i hne
          refine List.pairwise_cons.mpr ⟨?_, ih h2⟩
          intro e he
          rcases mem_of_mem_insertEntry he with rfl | he
          · by_contra hn
            exact hne (key_eq hnlt hn)
          · exact h1 e he

/-- `m[k] = v`. -/
def SMap.insert [DecidableRel lt] [DecidableEq κ] (m : SMap κ ν lt)
    (k : κ) (v : ν) : SMap κ ν lt :=
  ⟨insertEntry lt k v m.entries, sorted_insertEntry k v m.sorted⟩

end Order

section Lookup

variable [DecidableEq κ]

/-- The value stored under a key. -/
def SMap.find? (m : SMap κ ν lt) (k : κ) : Option ν :=
  (m.entries.find? (fun e => e.1 = k)).map Prod.snd

/-- Remove the entry of a key. -/
def SMap.erase (m : SMap κ ν lt) (k : κ) : SMap κ ν lt :=
  ⟨m.entries.filter (fun e => e.1 ≠ k), m.sorted.filter _⟩

/-- The least key of the map that comes after `k`: the next iterator. -/
def SMap.next? [DecidableRel lt] (m : SMap κ ν lt) (k : κ) : Option κ :=
  (m.entries.find? (fun e => lt k e.1)).map Prod.fst

theorem SMap.find?_eq_none {m : SMap κ ν lt} {k : κ} :
    m.find? k = none ↔ ∀ e ∈ m.entries, e.1 ≠ k := by
  simp [SMap.find?]

theorem SMap.mem_of_find? {m : SMap κ ν lt} {k : κ} {v : ν}
    (h : m.find? k = some v) : (k, v) ∈ m.entries := by
  obtain ⟨e, he, hv⟩ := Option.map_eq_some_iff.mp h
  have hk : e.1 = k := by simpa using List.find?_some he
  have hmem := List.mem_of_find?_eq_some he
  rw [← hk, ← hv]
  exact hmem

section Split

variable [IsStrictTotalOrder κ lt] {m : SMap κ ν lt} {k : κ} {v : ν}
  {A B : List (κ × ν)}

theorem SMap.find?_split (h : m.entries = A ++ (k, v) :: B) :
    m.find? k = some v := by
  obtain ⟨hA, -⟩ := SMap.split_sorted h
  have hnone : A.find? (fun e => e.1 = k) = none := by
    rw [List.find?_eq_none]
    intro e he hk
    have hk' : e.1 = k := by simpa using hk
    exact irrefl_of lt k (hk' ▸ hA e he)
  rw [SMap.find?, h, List.find?_append, hnone]
  simp

omit [DecidableEq κ] in
theorem SMap.next?_split [DecidableRel lt]
    (h : m.entries = A ++ (k, v) :: B) :
    m.next? k = B.head?.map Prod.fst := by
  obtain ⟨hA, hB⟩ := SMap.split_sorted h
  have hnone : A.find? (fun e => lt k e.1) = none := by
    rw [List.find?_eq_none]
    intro e he hk
    exact asymm_of lt (hA e he) (by simpa using hk)
  have hkk : ¬ lt k k := irrefl_of lt k
  rw [SMap.next?, h, List.find?_append, hnone]
  cases B with
  | nil => simp [hkk]
  | cons e B => simp [hkk, hB e List.mem_cons_self]

theorem SMap.erase_split (h : m.entries = A ++ (k, v) :: B) :
    (m.erase k).entries = A ++ B := by
  obtain ⟨hA, hB⟩ := SMap.split_sorted h
  have hne : ∀ {e : κ × ν}, lt e.1 k ∨ lt k e.1 → e.1 ≠ k := by
    rintro e (he | he) rfl <;> exact irrefl_of lt _ he
  show m.entries.filter _ = A ++ B
  rw [h, List.filter_append, List.filter_cons]
  rw [List.filter_eq_self.mpr (fun e he => by simpa using hne (.inl (hA e he))),
    List.filter_eq_self.mpr (fun e he => by simpa using hne (.inr (hB e he)))]
  simp

/-- Where the key is new, inserting splits the entries at its place. -/
theorem SMap.insert_split [DecidableRel lt] (hnew : m.find? k = none) (v : ν) :
    ∃ A B, m.entries = A ++ B ∧ (m.insert k v).entries = A ++ (k, v) :: B
      ∧ (∀ e ∈ A, lt e.1 k) ∧ (∀ e ∈ B, lt k e.1) := by
  have hnew' := SMap.find?_eq_none.mp hnew
  obtain ⟨L, hL⟩ := m
  show ∃ A B, L = A ++ B ∧ insertEntry lt k v L = A ++ (k, v) :: B
      ∧ (∀ e ∈ A, lt e.1 k) ∧ (∀ e ∈ B, lt k e.1)
  induction L with
  | nil => exact ⟨[], [], rfl, rfl, by simp, by simp⟩
  | cons hd t ih =>
      obtain ⟨k', v'⟩ := hd
      obtain ⟨h1, h2⟩ := List.pairwise_cons.mp hL
      have hne : k ≠ k' := fun he => hnew' _ List.mem_cons_self he.symm
      rw [insertEntry]
      by_cases hlt : lt k k'
      · rw [if_pos hlt]
        refine ⟨[], _, rfl, rfl, by simp, ?_⟩
        intro e he
        rcases List.mem_cons.mp he with rfl | he
        · exact hlt
        · exact trans_of lt hlt (h1 e he)
      · rw [if_neg hlt, if_neg hne]
        obtain ⟨A, B, hAB, hins, hA, hB⟩ := ih h2
          (SMap.find?_eq_none.mpr fun e he => hnew' e (List.mem_cons_of_mem _ he))
          (fun e he => hnew' e (List.mem_cons_of_mem _ he))
        refine ⟨(k', v') :: A, B, by rw [hAB]; rfl, by rw [hins]; rfl, ?_, hB⟩
        intro e he
        rcases List.mem_cons.mp he with rfl | he
        · by_contra hn
          exact hne (key_eq hlt hn)
        · exact hA e he

end Split

end Lookup

end SortedMap
