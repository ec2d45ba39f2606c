import Mathlib.Data.List.Basic
import Mathlib.Data.List.Nodup

/-! # Doubly linked segments over link functions

    A doubly linked list in memory is two partial link functions `nx` and `pv`
    on nodes.  `Seg nx pv b L a` says that the nodes of `L` are linked in that
    order, that the node before the first one is `b` and the node after the
    last one is `a`.  Leaving the two ends open makes the predicate split at
    every position (`seg_append`), so linking a node at the end and unlinking
    a node in the middle are both: split, change one end of each part, join.

    Nothing here mentions what the nodes hold. -/

namespace LinkedSegment

variable {α : Type}

/-- The nodes of a list are linked forwards by `nx` and backwards by `pv`,
    between the outer neighbours `b` (before) and `a` (after). -/
def Seg (nx pv : α → Option α) : Option α → List α → Option α → Prop
  | _, [], _ => True
  | b, x :: L, a => pv x = b ∧ nx x = L.head?.or a ∧ Seg nx pv (some x) L a

variable {nx pv nx' pv' : α → Option α} {b a a' : Option α} {x : α}

@[simp] theorem seg_nil : Seg nx pv b [] a := trivial

@[simp] theorem seg_cons {L : List α} :
    Seg nx pv b (x :: L) a
      ↔ pv x = b ∧ nx x = L.head?.or a ∧ Seg nx pv (some x) L a := Iff.rfl

/-- A segment only reads the links of its own nodes. -/
theorem Seg.congr {L : List α} (h : Seg nx pv b L a)
    (hnx : ∀ y ∈ L, nx' y = nx y) (hpv : ∀ y ∈ L, pv' y = pv y) :
    Seg nx' pv' b L a := by
  induction L generalizing b with
  | nil => trivial
  | cons y L ih =>
      obtain ⟨h1, h2, h3⟩ := h
      refine ⟨?_, ?_, ?_⟩
      · rw [hpv y List.mem_cons_self, h1]
      · rw [hnx y List.mem_cons_self, h2]
      · exact ih h3 (fun z hz => hnx z (List.mem_cons_of_mem _ hz))
          (fun z hz => hpv z (List.mem_cons_of_mem _ hz))

/-- A segment splits at every position: each part sees the other one's
    nearest node as its outer neighbour. -/
theorem seg_append {L M : List α} :
    Seg nx pv b (L ++ M) a
      ↔ Seg nx pv b L (M.head?.or a) ∧ Seg nx pv (L.getLast?.or b) M a := by
  induction L generalizing b with
  | nil => simp
  | cons y L ih =>
      rw [List.cons_append, seg_cons, seg_cons, ih]
      have hhead : (L ++ M).head?.or a = L.head?.or (M.head?.or a) := by
        cases L <;> simp
      have hlast : (y :: L).getLast?.or b = L.getLast?.or (some y) := by
        cases L <;> simp [List.getLast?_cons]
      rw [hhead, hlast]
      constructor
      · rintro ⟨h1, h2, h3, h4⟩
        exact ⟨⟨h1, h2, h3⟩, h4⟩
      · rintro ⟨⟨h1, h2, h3⟩, h4⟩
        exact ⟨h1, h2, h3, h4⟩

/-- The links of a node are its neighbours in the list. -/
theorem Seg.links {L M : List α} (h : Seg nx pv b (L ++ x :: M) a) :
    pv x = L.getLast?.or b ∧ nx x = M.head?.or a := by
  obtain ⟨-, h2, h3, -⟩ := seg_append.mp h
  exact ⟨h2, h3⟩

/-- Moving the node after the end: only the last node's forward link
    changes. -/
theorem Seg.retarget {L : List α} (h : Seg nx pv b L a) (hnd : L.Nodup)
    (hlast : ∀ y, L.getLast? = some y → nx' y = a')
    (hnx : ∀ y ∈ L, L.getLast? ≠ some y → nx' y = nx y)
    (hpv : ∀ y ∈ L, pv' y = pv y) : Seg nx' pv' b L a' := by
  rcases List.eq_nil_or_concat L with rfl | ⟨M, y, rfl⟩
  · trivial
  · rw [List.concat_eq_append] at *
    obtain ⟨h1, h2, -, -⟩ := seg_append.mp h
    have hyM : y ∉ M := by
      have := List.nodup_append.mp hnd
      intro hy
      exact this.2.2 y hy y (by simp) rfl
    refine seg_append.mpr ⟨h1.congr ?_ ?_, ?_, ?_, trivial⟩
    · intro z hz
      refine hnx z (by simp [hz]) ?_
      rw [List.getLast?_concat]
      intro he
      exact hyM (Option.some.inj he ▸ hz)
    · intro z hz
      exact hpv z (by simp [hz])
    · rw [hpv y (by simp), h2]
    · simpa using hlast y (by simp)

/-- **LINKING AT THE END.** A node that is not in the list, linked behind its
    last node, extends the list by that node. -/
theorem Seg.snoc {L : List α} (h : Seg nx pv none L none) (hnd : L.Nodup)
    (hlast : ∀ y, L.getLast? = some y → nx' y = some x)
    (hnx : ∀ y ∈ L, L.getLast? ≠ some y → nx' y = nx y)
    (hpv : ∀ y ∈ L, pv' y = pv y)
    (hxn : nx' x = none) (hxp : pv' x = L.getLast?) :
    Seg nx' pv' none (L ++ [x]) none := by
  refine seg_append.mpr ⟨h.retarget hnd hlast hnx hpv, ?_, ?_, trivial⟩
  · simpa using hxp
  · simpa using hxn

/-- **UNLINKING.** Where every node whose neighbour was `x` now skips to
    `x`'s other neighbour, the list has lost exactly `x`. -/
theorem Seg.erase {L M : List α} (h : Seg nx pv none (L ++ x :: M) none)
    (hnd : (L ++ x :: M).Nodup)
    (hnxx : ∀ y ∈ L, L.getLast? = some y → nx' y = nx x)
    (hnx : ∀ y ∈ L ++ M, L.getLast? ≠ some y → nx' y = nx y)
    (hpvx : ∀ y ∈ M, M.head? = some y → pv' y = pv x)
    (hpv : ∀ y ∈ L ++ M, M.head? ≠ some y → pv' y = pv y) :
    Seg nx' pv' none (L ++ M) none := by
  obtain ⟨hL, hpx, hnxt, hM⟩ := seg_append.mp h
  have hdisj : ∀ y ∈ L, ∀ z ∈ x :: M, y ≠ z := (List.nodup_append.mp hnd).2.2
  have hndL : L.Nodup := (List.nodup_append.mp hnd).1
  have hndM : (x :: M).Nodup := (List.nodup_append.mp hnd).2.1
  refine seg_append.mpr ⟨?_, ?_⟩
  · -- the left part now ends where `x` pointed to
    refine hL.retarget hndL ?_ ?_ ?_
    · intro y hy
      rw [hnxx y (List.mem_of_getLast? hy) hy, hnxt]
    · intro y hy hne
      exact hnx y (List.mem_append_left _ hy) hne
    · intro y hy
      refine hpv y (List.mem_append_left _ hy) ?_
      intro he
      exact hdisj y hy y (List.mem_cons_of_mem _ (List.mem_of_head? he)) rfl
  · -- the right part now starts behind what was before `x`
    cases M with
    | nil => trivial
    | cons m M =>
        obtain ⟨-, hm2, hm3⟩ := hM
        have hlast : ∀ y ∈ m :: M, L.getLast? ≠ some y := by
          intro y hy he
          exact hdisj y (List.mem_of_getLast? he) y (List.mem_cons_of_mem _ hy) rfl
        refine ⟨?_, ?_, hm3.congr ?_ ?_⟩
        · rw [hpvx m List.mem_cons_self rfl, hpx]
        · rw [hnx m (by simp) (hlast m List.mem_cons_self), hm2]
        · intro y hy
          exact hnx y (by simp [hy]) (hlast y (List.mem_cons_of_mem _ hy))
        · intro y hy
          refine hpv y (by simp [hy]) ?_
          rw [List.head?_cons]
          intro he
          have hmM : m ∉ M := (List.nodup_cons.mp (List.nodup_cons.mp hndM).2).1
          exact hmM (Option.some.inj he ▸ hy)

/-- A node can be reached from a pointer along the forward links. -/
inductive Reaches (nx : α → Option α) : Option α → α → Prop
  | here (x : α) : Reaches nx (some x) x
  | next {x y : α} (h : Reaches nx (nx x) y) : Reaches nx (some x) y

/-- From the head, only the nodes of the list can be reached. -/
theorem Seg.mem_of_reaches {L : List α} (h : Seg nx pv b L none) {p : Option α} {y : α}
    (hr : Reaches nx p y) (hp : p = L.head?) : y ∈ L := by
  induction hr generalizing b L with
  | here x =>
      exact List.mem_of_head? hp.symm
  | next _ ih =>
      cases L with
      | nil => cases hp
      | cons z L =>
          obtain rfl := Option.some.inj hp
          obtain ⟨-, h2, h3⟩ := h
          exact List.mem_cons_of_mem _ (ih h3 (by simpa using h2))

/-- Collect at most `n` nodes by following the forward links. -/
def walk (nx : α → Option α) : Nat → Option α → List α
  | 0, _ => []
  | _ + 1, none => []
  | n + 1, some x => x :: walk nx n (nx x)

/-- Following the links from the head visits exactly the nodes of the list. -/
theorem walk_eq {L : List α} (h : Seg nx pv b L none) :
    ∀ n, L.length ≤ n → walk nx n L.head? = L := by
  induction L generalizing b with
  | nil =>
      intro n _
      cases n <;> rfl
  | cons y L ih =>
      intro n hn
      obtain ⟨-, h2, h3⟩ := h
      cases n with
      | zero => simp at hn
      | succ n =>
          have hnx : nx y = L.head? := by simpa using h2
          rw [List.head?_cons, walk, hnx, ih h3 n (by simpa using hn)]

end LinkedSegment
