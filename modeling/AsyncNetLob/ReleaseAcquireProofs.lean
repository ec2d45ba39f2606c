import Mathlib.Order.Lattice

/-! # Release and acquire

    A memory of atomic locations and of plain cells, shared by threads that do not see
    each other's stores at once.  Each atomic location has one thread that writes it
    and keeps all messages ever stored; a load may read any message that is not older
    than the last one the thread knows of.

    What a thread knows is a `View`: how far each thread had come, and how far each
    location.  A release store leaves the writer's view in its message, an acquire load
    takes it over.  An access to a cell is a race if the thread does not know of the last
    access to that cell.

    `Coherent` is kept by every operation but a relaxed load of another thread's location.
    In a coherent memory, who has seen a message knows everything that was done before it
    (`Coherent.not_race`). -/

namespace ReleaseAcquire

variable {Tid Loc Cell V : Type}

/-- How far each thread and each location had come. -/
abbrev View (Tid Loc : Type) := (Tid → ℕ) × (Loc → ℕ)

structure Memory (Tid Loc Cell V : Type) where
  /-- The messages stored in a location, oldest first. -/
  history : Loc → List (V × View Tid Loc)
  /-- Who accessed a cell last, and when. -/
  access  : Cell → Tid × ℕ
  view    : Tid → View Tid Loc

namespace Memory

/-- Each location holds one message, and nobody has done anything. -/
def start (initial : Loc → V) (t : Tid) : Memory Tid Loc Cell V where
  history := fun l => [(initial l, (fun _ => 0, fun _ => 0))]
  access := fun _ => (t, 0)
  view := fun _ => (fun _ => 0, fun _ => 0)

variable [DecidableEq Tid] [DecidableEq Loc] [DecidableEq Cell]
variable (m : Memory Tid Loc Cell V) (t : Tid) (l : Loc) (k : ℕ) (c : Cell)

/-- A view that knows of message `k`. -/
def see (v : View Tid Loc) : View Tid Loc := (v.1, Function.update v.2 l k)

def setView (v : View Tid Loc) : Memory Tid Loc Cell V :=
  { m with view := Function.update m.view t v }

/-- The message that a load reads, if it may read message `k`. -/
def readable : Option (V × View Tid Loc) :=
  if (m.view t).2 l ≤ k then (m.history l)[k]? else none

def loadRelaxed : Option (V × Memory Tid Loc Cell V) :=
  (m.readable t l k).map fun x => (x.1, m.setView t (see l k (m.view t)))

def loadAcquire : Option (V × Memory Tid Loc Cell V) :=
  (m.readable t l k).map fun x => (x.1, m.setView t (see l k (m.view t) ⊔ x.2))

def storeRelease (x : V) : Memory Tid Loc Cell V :=
  let v := see l (m.history l).length (m.view t)
  { m.setView t v with history := Function.update m.history l (m.history l ++ [(x, v)]) }

/-- An access to a plain cell that may write it. -/
def touch : Memory Tid Loc Cell V :=
  let now := (m.view t).1 t + 1
  { m.setView t (Function.update (m.view t).1 t now, (m.view t).2) with
    access := Function.update m.access c (t, now) }

/-- The thread does not know of the last access to the cell. -/
def Race : Prop := (m.view t).1 (m.access c).1 < (m.access c).2

/-- A thread learns what another one knows, by other means. -/
def learn (u : Tid) : Memory Tid Loc Cell V := m.setView t (m.view t ⊔ m.view u)

/-- Who knows of a message knows what its writer knew. -/
def Closed (v : View Tid Loc) : Prop :=
  ∀ l (k : ℕ) x, (m.history l)[k]? = some x → k ≤ v.2 l → x.2 ≤ v

/-- This message was stored by one who knew of the last access to the cell. -/
def Published : Prop :=
  ∃ x, (m.history l)[k]? = some x ∧ (m.access c).2 ≤ x.2.1 (m.access c).1

/-- Nobody forgets, and no message is lost. -/
structure Later (m' : Memory Tid Loc Cell V) : Prop where
  view    : ∀ t, m.view t ≤ m'.view t
  history : ∀ l (k : ℕ) x, (m.history l)[k]? = some x → (m'.history l)[k]? = some x

end Memory

open Memory

/-- A memory whose views are consistent, for the writer of each location. -/
structure Coherent (owner : Loc → Tid) (m : Memory Tid Loc Cell V) : Prop where
  newest  : ∀ l, (m.view (owner l)).2 l + 1 = (m.history l).length
  stamped : ∀ l (k : ℕ) x, (m.history l)[k]? = some x → x.2.2 l = k
  threads : ∀ t, m.Closed (m.view t)
  written : ∀ l (k : ℕ) x, (m.history l)[k]? = some x → m.Closed x.2
  /-- Nobody knows of a message that was not stored. -/
  stored  : ∀ t l, (m.view t).2 l < (m.history l).length
  carried : ∀ l (k : ℕ) x, (m.history l)[k]? = some x → ∀ l', x.2.2 l' < (m.history l').length
  /-- A thread knows its own accesses. -/
  own     : ∀ c, (m.access c).2 ≤ (m.view (m.access c).1).1 (m.access c).1

section Coherent

variable {owner : Loc → Tid} {m : Memory Tid Loc Cell V}

theorem Coherent.start (owner : Loc → Tid) (initial : Loc → V) (t : Tid) :
    Coherent owner (Memory.start initial t : Memory Tid Loc Cell V) := by
  have hone : ∀ {l} {k : ℕ} {x : V × View Tid Loc},
      ((Memory.start initial t : Memory Tid Loc Cell V).history l)[k]? = some x →
      k = 0 ∧ x.2 = (fun _ => 0, fun _ => 0) := by
    intro l k x hx
    cases k with
    | zero => exact ⟨rfl, congrArg Prod.snd (Option.some.inj hx).symm⟩
    | succ k => cases hx
  refine ⟨fun l => rfl, ?_, ?_, ?_, fun t l => Nat.one_pos, ?_, fun c => Nat.le_refl _⟩
  · intro l k x hx
    rw [(hone hx).1, (hone hx).2]
  · intro t l k x hx _
    rw [(hone hx).2]
    exact le_refl _
  · intro l k x hx l' k' y hy _
    rw [(hone hx).2, (hone hy).2]
  · intro l k x hx l'
    rw [(hone hx).2]
    exact Nat.one_pos

theorem Memory.Closed.sup {v w : View Tid Loc} (hv : m.Closed v) (hw : m.Closed w) :
    m.Closed (v ⊔ w) := by
  intro l k x hx hk
  rcases le_sup_iff.mp hk with hk | hk
  · exact (hv l k x hx hk).trans le_sup_left
  · exact (hw l k x hx hk).trans le_sup_right

/-- To know more of the threads does no harm. -/
theorem Memory.Closed.mono {v w : View Tid Loc} (hv : m.Closed v) (hle : v ≤ w)
    (hsame : w.2 = v.2) : m.Closed w := by
  intro l k x hx hk
  rw [hsame] at hk
  exact (hv l k x hx hk).trans hle

/-- **MESSAGE PASSING**: who has seen the message that publishes the last access to a cell
    knows of the access. -/
theorem Coherent.not_race (h : Coherent owner m) {t : Tid} {l : Loc} {k : ℕ} {c : Cell}
    (hpub : m.Published l k c) (hseen : k ≤ (m.view t).2 l) : ¬ m.Race t c := by
  obtain ⟨x, hx, hafter⟩ := hpub
  exact Nat.not_lt_of_le (hafter.trans ((h.threads t l k x hx hseen).1 _))

theorem Memory.Published.later {m' : Memory Tid Loc Cell V} {l : Loc} {k : ℕ} {c : Cell}
    (hpub : m.Published l k c) (hlater : m.Later m') (hsame : m'.access c = m.access c) :
    m'.Published l k c := by
  obtain ⟨x, hx, hafter⟩ := hpub
  exact ⟨x, hlater.history l k x hx, hsame ▸ hafter⟩

theorem Memory.Later.refl (m : Memory Tid Loc Cell V) : m.Later m :=
  ⟨fun _ => le_refl _, fun _ _ _ hx => hx⟩

/-- A load finds a message, no older than the last one known. -/
theorem Memory.readable_eq {t : Tid} {l : Loc} {k : ℕ} {x : V × View Tid Loc}
    (h : m.readable t l k = some x) : (m.view t).2 l ≤ k ∧ (m.history l)[k]? = some x := by
  rw [readable] at h
  split at h
  · next hle => exact ⟨hle, h⟩
  · cases h

/-- The newest message can be read. -/
theorem Coherent.readable_newest (h : Coherent owner m) (t : Tid) (l : Loc) :
    ∃ x, m.readable t l ((m.history l).length - 1) = some x := by
  have hstored := h.stored t l
  rw [readable, if_pos (by omega)]
  exact ⟨_, List.getElem?_eq_getElem (by omega)⟩

/-- The writer of a location reads its newest message. -/
theorem Coherent.readable_owner (h : Coherent owner m) {l : Loc} {k : ℕ} {x : V × View Tid Loc}
    (hx : m.readable (owner l) l k = some x) : k + 1 = (m.history l).length := by
  obtain ⟨hle, hget⟩ := readable_eq hx
  have hlast := h.newest l
  have hlt := (List.getElem?_eq_some_iff.mp hget).1
  omega

section See

variable [DecidableEq Loc]

theorem Memory.see_seen (l : Loc) (k : ℕ) (v : View Tid Loc) (l' : Loc) :
    (see l k v).2 l' = if l' = l then k else v.2 l' := Function.update_apply _ _ _ _

theorem Memory.see_self {v : View Tid Loc} {l : Loc} {k : ℕ} (hk : v.2 l = k) : see l k v = v :=
  Prod.ext rfl (Function.update_eq_self_iff.mpr hk.symm)

/-- A message says which one it is. -/
theorem Memory.see_sup {v w : View Tid Loc} {l : Loc} {k : ℕ} (hv : v.2 l ≤ k) (hw : w.2 l = k) :
    see l k v ⊔ w = v ⊔ w := by
  refine Prod.ext rfl (funext fun l' => ?_)
  show (see l k v).2 l' ⊔ w.2 l' = v.2 l' ⊔ w.2 l'
  rw [see_seen]
  split
  · next heq =>
      rw [heq, hw, sup_idem, sup_eq_right.mpr hv]
  · rfl

theorem Memory.le_see {v : View Tid Loc} {l : Loc} {k : ℕ} (hv : v.2 l ≤ k) : v ≤ see l k v := by
  refine ⟨le_refl _, fun l' => ?_⟩
  rw [see_seen]
  split
  · next heq => exact heq ▸ hv
  · exact Nat.le_refl _

end See

section View

variable [DecidableEq Tid]

theorem Memory.setView_view (m : Memory Tid Loc Cell V) (t u : Tid) (v : View Tid Loc) :
    (m.setView t v).view u = if u = t then v else m.view u := Function.update_apply _ _ _ _

theorem Memory.setView_later {t : Tid} {v : View Tid Loc} (hle : m.view t ≤ v) :
    m.Later (m.setView t v) := by
  refine ⟨fun u => ?_, fun _ _ _ hx => hx⟩
  rw [setView_view]
  split
  · next heq => exact heq ▸ hle
  · exact le_refl _

theorem Memory.learn_later (m : Memory Tid Loc Cell V) (t u : Tid) : m.Later (m.learn t u) :=
  setView_later le_sup_left

/-- A thread whose view grows, to a closed view that knows of no other messages. -/
theorem Coherent.setView (h : Coherent owner m) {t : Tid} {v : View Tid Loc}
    (hle : m.view t ≤ v) (hclosed : m.Closed v) (hstored : ∀ l, v.2 l < (m.history l).length) :
    Coherent owner (m.setView t v) where
  newest := by
    intro l
    rw [setView_view]
    split
    · next hown =>
        have hlast := h.newest l
        have hgrows : (m.view t).2 l ≤ v.2 l := hle.2 l
        have hlt := hstored l
        rw [hown] at hlast
        show v.2 l + 1 = (m.history l).length
        omega
    · exact h.newest l
  stamped := h.stamped
  threads := by
    intro u
    rw [setView_view]
    split
    · exact hclosed
    · exact h.threads u
  written := h.written
  stored := by
    intro u l
    rw [setView_view]
    split
    · exact hstored l
    · exact h.stored u l
  carried := h.carried
  own := by
    intro c
    refine (h.own c).trans ?_
    rw [setView_view]
    show (m.view (m.access c).1).1 (m.access c).1
      ≤ (if (m.access c).1 = t then v else m.view (m.access c).1).1 (m.access c).1
    split
    · next hown =>
        rw [hown]
        exact hle.1 t
    · exact Nat.le_refl _

/-- To learn from another thread keeps a memory coherent. -/
theorem Coherent.learn (h : Coherent owner m) (t u : Tid) : Coherent owner (m.learn t u) :=
  h.setView le_sup_left ((h.threads t).sup (h.threads u)) fun l =>
    max_lt (h.stored t l) (h.stored u l)

theorem Memory.le_touched (m : Memory Tid Loc Cell V) (t : Tid) :
    m.view t ≤ (Function.update (m.view t).1 t ((m.view t).1 t + 1), (m.view t).2) := by
  refine ⟨fun u => ?_, le_refl _⟩
  show (m.view t).1 u ≤ Function.update (m.view t).1 t ((m.view t).1 t + 1) u
  rw [Function.update_apply]
  split
  · next heq => exact heq ▸ Nat.le_succ _
  · exact Nat.le_refl _

section Touch

variable [DecidableEq Cell]

theorem Memory.touch_access (m : Memory Tid Loc Cell V) (t : Tid) (c c' : Cell) :
    (m.touch t c).access c' = if c' = c then (t, (m.view t).1 t + 1) else m.access c' :=
  Function.update_apply _ _ _ _

theorem Memory.touch_view (m : Memory Tid Loc Cell V) (t : Tid) (c : Cell)
    (u : Tid) : (m.touch t c).view u = if u = t
      then (Function.update (m.view t).1 t ((m.view t).1 t + 1), (m.view t).2) else m.view u :=
  Function.update_apply _ _ _ _

theorem Memory.touch_later (m : Memory Tid Loc Cell V) (t : Tid) (c : Cell) :
    m.Later (m.touch t c) :=
  ⟨(setView_later (m.le_touched t)).view, fun _ _ _ hx => hx⟩

/-- **ACCESSES** are known to who makes them. -/
theorem Coherent.touch (h : Coherent owner m) (t : Tid) (c : Cell) :
    Coherent owner (m.touch t c) := by
  have hle := m.le_touched t
  have hgrown := h.setView hle ((h.threads t).mono hle rfl) (h.stored t)
  refine { hgrown with own := fun c' => ?_ }
  have hown := hgrown.own c'
  rw [m.touch_access]
  split
  · show _ ≤ ((m.touch t c).view t).1 t
    rw [m.touch_view, if_pos rfl]
    exact (Function.update_self (f := (m.view t).1) t ((m.view t).1 t + 1)).ge
  · exact hown

/-- A thread that has not heard of an access races with it. -/
example : ((Memory.start (fun _ : Unit => 0) 0 : Memory ℕ Unit Unit ℕ).touch 0 ()).Race 1 () :=
  Nat.one_pos

end Touch

variable [DecidableEq Loc]

/-- **ACQUIRE LOADS** take over what the writer knew. -/
theorem Coherent.loadAcquire (h : Coherent owner m) {t : Tid} {l : Loc} {k : ℕ} {x : V}
    {m' : Memory Tid Loc Cell V} (hload : m.loadAcquire t l k = some (x, m')) :
    ∃ w, (m.view t).2 l ≤ k ∧ (m.history l)[k]? = some (x, w) ∧ m' = m.setView t (m.view t ⊔ w)
      ∧ k ≤ (m'.view t).2 l ∧ m.Later m' ∧ Coherent owner m' := by
  obtain ⟨y, hread, heq⟩ := Option.map_eq_some_iff.mp hload
  obtain ⟨rfl, rfl⟩ := Prod.mk.inj heq
  obtain ⟨hle, hget⟩ := readable_eq hread
  have hstamp := h.stamped l k y hget
  rw [see_sup hle hstamp]
  refine ⟨y.2, hle, hget, rfl, ?_, setView_later le_sup_left,
    h.setView le_sup_left ((h.threads t).sup (h.written l k y hget)) ?_⟩
  · rw [setView_view, if_pos rfl]
    exact hstamp.symm.le.trans le_sup_right
  · exact fun l' => max_lt (h.stored t l') (h.carried l k y hget l')

/-- **A RELAXED LOAD** by the writer of the location reads its own last store. -/
theorem Coherent.loadRelaxed_owner (h : Coherent owner m) {l : Loc} {k : ℕ} {x : V}
    {m' : Memory Tid Loc Cell V} (hload : m.loadRelaxed (owner l) l k = some (x, m')) :
    m' = m ∧ k + 1 = (m.history l).length ∧ ∃ w, (m.history l)[k]? = some (x, w) := by
  obtain ⟨y, hread, heq⟩ := Option.map_eq_some_iff.mp hload
  obtain ⟨rfl, rfl⟩ := Prod.mk.inj heq
  have hlast := h.readable_owner hread
  have hnewest := h.newest l
  refine ⟨?_, hlast, y.2, (readable_eq hread).2⟩
  rw [see_self (by omega), Memory.setView, Function.update_eq_self]

theorem Memory.storeRelease_history (m : Memory Tid Loc Cell V) (t : Tid) (l : Loc) (x : V)
    (l' : Loc) : (m.storeRelease t l x).history l'
      = if l' = l then m.history l ++ [(x, see l (m.history l).length (m.view t))]
        else m.history l' := Function.update_apply _ _ _ _

theorem Memory.storeRelease_view (m : Memory Tid Loc Cell V) (t : Tid) (l : Loc) (x : V)
    (u : Tid) : (m.storeRelease t l x).view u
      = if u = t then see l (m.history l).length (m.view t) else m.view u :=
  Function.update_apply _ _ _ _

/-- The messages after a store. -/
theorem Memory.storeRelease_get (m : Memory Tid Loc Cell V) (t : Tid) (l : Loc) (x : V) {l' : Loc}
    {k : ℕ} {y : V × View Tid Loc} (hy : ((m.storeRelease t l x).history l')[k]? = some y) :
    (m.history l')[k]? = some y ∨ l' = l ∧ k = (m.history l).length
      ∧ y = (x, see l (m.history l).length (m.view t)) := by
  rw [storeRelease_history] at hy
  by_cases hl : l' = l
  · rw [if_pos hl] at hy
    rw [hl]
    rcases Nat.lt_trichotomy k (m.history l).length with hlt | heq | hgt
    · rw [List.getElem?_append_left hlt] at hy
      exact Or.inl hy
    · rw [heq, List.getElem?_concat_length] at hy
      exact Or.inr ⟨rfl, heq, (Option.some.inj hy).symm⟩
    · rw [List.getElem?_eq_none (by rw [List.length_append, List.length_singleton]; omega)] at hy
      cases hy
  · rw [if_neg hl] at hy
    exact Or.inl hy

theorem Memory.storeRelease_length (m : Memory Tid Loc Cell V) (t : Tid) (l : Loc) (x : V)
    (l' : Loc) : ((m.storeRelease t l x).history l').length
      = (m.history l').length + if l' = l then 1 else 0 := by
  rw [storeRelease_history]
  split
  · next hl => rw [hl, List.length_append, List.length_singleton]
  · rfl

/-- A store by a writer that knows of the newest message. -/
theorem Coherent.storeRelease_later (h : Coherent owner m) (l : Loc) (x : V) :
    m.Later (m.storeRelease (owner l) l x) := by
  have hlast := h.newest l
  refine ⟨fun u => ?_, fun l' k y hy => ?_⟩
  · rw [storeRelease_view]
    split
    · next heq =>
        rw [heq]
        exact le_see (by omega)
    · exact le_refl _
  · rw [storeRelease_history]
    split
    · next hl =>
        rw [hl] at hy
        rw [List.getElem?_append_left (List.getElem?_eq_some_iff.mp hy).1]
        exact hy
    · exact hy

/-- **PUBLICATION**: a store publishes what its writer accessed. -/
theorem Coherent.publishes (h : Coherent owner m) {l : Loc} {c : Cell} (x : V)
    (haccess : (m.access c).1 = owner l) :
    (m.storeRelease (owner l) l x).Published l (m.history l).length c := by
  refine ⟨(x, see l (m.history l).length (m.view (owner l))), ?_, ?_⟩
  · rw [storeRelease_history, if_pos rfl, List.getElem?_concat_length]
  · have hown := h.own c
    show (m.access c).2 ≤ (m.view (owner l)).1 (m.access c).1
    rw [haccess] at hown ⊢
    exact hown

/-- **RELEASE STORES** leave what the writer knows. -/
theorem Coherent.storeRelease (h : Coherent owner m) (l : Loc) (x : V) :
    Coherent owner (m.storeRelease (owner l) l x) := by
  have hlast := h.newest l
  have hle : m.view (owner l) ≤ see l (m.history l).length (m.view (owner l)) := le_see (by omega)
  have hview := m.storeRelease_view (owner l) l x
  have hseen := see_seen l (m.history l).length (m.view (owner l))
  -- a view that was there before does not know of the new message
  have hold : ∀ v : View Tid Loc, m.Closed v → v.2 l < (m.history l).length →
      (m.storeRelease (owner l) l x).Closed v := by
    intro v hv hlt l' k y hy hk
    rcases m.storeRelease_get _ _ _ hy with hy | ⟨rfl, rfl, -⟩
    · exact hv l' k y hy hk
    · exact absurd hk (Nat.not_le_of_lt hlt)
  have hnew : (m.storeRelease (owner l) l x).Closed
      (see l (m.history l).length (m.view (owner l))) := by
    intro l' k y hy hk
    rcases m.storeRelease_get _ _ _ hy with hy | ⟨rfl, rfl, hw⟩
    · refine (h.threads (owner l) l' k y hy ?_).trans hle
      rw [hseen] at hk
      split at hk
      · next hl =>
          have hlt := (List.getElem?_eq_some_iff.mp hy).1
          rw [hl] at hlt ⊢
          omega
      · exact hk
    · exact (congrArg Prod.snd hw).le
  refine ⟨fun l' => ?_, fun l' k y hy => ?_, fun u => ?_, fun l' k y hy => ?_, fun u l' => ?_,
    fun l' k y hy l'' => ?_, fun c => ?_⟩
  · have hlast' := h.newest l'
    rw [hview, m.storeRelease_length]
    by_cases hl : l' = l
    · rw [hl, if_pos rfl, if_pos rfl, hseen, if_pos rfl]
    · rw [if_neg hl]
      split
      · next hown =>
          rw [hseen, if_neg hl, ← hown]
          exact hlast'
      · exact hlast'
  · rcases m.storeRelease_get _ _ _ hy with hy | ⟨rfl, rfl, hw⟩
    · exact h.stamped l' k y hy
    · rw [hw]
      exact (hseen l').trans (if_pos rfl)
  · rw [hview]
    split
    · exact hnew
    · exact hold _ (h.threads u) (h.stored u l)
  · rcases m.storeRelease_get _ _ _ hy with hy | ⟨rfl, rfl, hw⟩
    · exact hold _ (h.written l' k y hy) (h.carried l' k y hy l)
    · exact hw ▸ hnew
  · have hlt := h.stored u l'
    rw [hview, m.storeRelease_length]
    split
    · have howner := h.stored (owner l) l'
      rw [hseen]
      split
      · next hl =>
          rw [hl]
          omega
      · omega
    · omega
  · rw [m.storeRelease_length]
    rcases m.storeRelease_get _ _ _ hy with hy | ⟨rfl, rfl, hw⟩
    · have hlt := h.carried l' k y hy l''
      omega
    · have howner := h.stored (owner l') l''
      rw [hw]
      refine Nat.lt_of_le_of_lt (hseen l'').le ?_
      split
      · next hl =>
          rw [hl]
          omega
      · omega
  · refine (h.own c).trans ?_
    rw [hview]
    show (m.view (m.access c).1).1 (m.access c).1
      ≤ (if (m.access c).1 = owner l then _ else m.view (m.access c).1).1 (m.access c).1
    split
    · next hown =>
        rw [hown]
        exact hle.1 _
    · exact Nat.le_refl _

end View

end Coherent

end ReleaseAcquire
