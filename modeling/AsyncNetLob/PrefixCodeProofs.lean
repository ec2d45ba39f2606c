import Mathlib.Data.List.Basic

/-! # Streams of frames

    A code encodes the valid frames such that no encoding begins another one.  A
    stream of symbols then has at most one reading:

    * `Code.comparable`: of two frame lists that a stream begins with, one begins
      the other (up to the encodings);
    * `Code.exists_longest`, `Longest.unique`: there is one longest such list;
    * `Code.longest_of_stuck`: a list that no valid frame continues is the
      longest. -/

namespace PrefixCode

variable {φ β : Type} {valid : φ → Prop} {enc : φ → List β} {s : List β} {xs ys : List φ}

/-- Encodings of valid frames are not empty, and only one begins a stream. -/
structure Code (valid : φ → Prop) (enc : φ → List β) : Prop where
  nonempty : ∀ {x}, valid x → enc x ≠ []
  unique   : ∀ {x y s}, valid x → valid y → enc x <+: s → enc y <+: s → enc x = enc y

/-- The list of frames is valid, and its encoding begins the stream. -/
structure Reads (valid : φ → Prop) (enc : φ → List β) (s : List β) (xs : List φ) : Prop where
  frames : ∀ x ∈ xs, valid x
  begins : xs.flatMap enc <+: s

/-- No longer list of frames begins the stream. -/
structure Longest (valid : φ → Prop) (enc : φ → List β) (s : List β) (xs : List φ) : Prop
    extends Reads valid enc s xs where
  longest : ∀ ys, Reads valid enc s ys → ys.length ≤ xs.length

theorem Reads.nil : Reads valid enc s [] := ⟨fun _ h => absurd h List.not_mem_nil, List.nil_prefix⟩

theorem Reads.head {x : φ} (h : Reads valid enc s (x :: xs)) : valid x ∧ enc x <+: s :=
  ⟨h.frames x List.mem_cons_self, (List.prefix_append _ _).trans h.begins⟩

theorem Reads.tail {x : φ} (h : Reads valid enc (enc x ++ s) (x :: xs)) : Reads valid enc s xs :=
  ⟨fun y hy => h.frames y (List.mem_cons_of_mem _ hy), (List.prefix_append_right_inj _).mp h.begins⟩

namespace Code

/-- **ONE READING**: of two readings of a stream, one begins the other. -/
theorem comparable (hc : Code valid enc) (hx : Reads valid enc s xs) (hy : Reads valid enc s ys)
    (hle : xs.length ≤ ys.length) : xs.map enc <+: ys.map enc := by
  induction xs generalizing s ys with
  | nil => exact List.nil_prefix
  | cons x xs ih =>
      cases ys with
      | nil => exact absurd hle (Nat.not_succ_le_zero _)
      | cons y ys =>
          obtain ⟨hvx, hpx⟩ := hx.head
          obtain ⟨hvy, hpy⟩ := hy.head
          have hxy := hc.unique hvx hvy hpx hpy
          obtain ⟨s', rfl⟩ := hpx
          have hy' : Reads valid enc (enc y ++ s') (y :: ys) := hxy ▸ hy
          rw [List.map_cons, List.map_cons, hxy]
          exact (List.prefix_cons_inj _).mpr
            (ih hx.tail hy'.tail (Nat.le_of_succ_le_succ hle))

/-- A reading has at most as many frames as the stream has symbols. -/
theorem length_le (hc : Code valid enc) (h : Reads valid enc s xs) : xs.length ≤ s.length := by
  induction xs generalizing s with
  | nil => exact Nat.zero_le _
  | cons x xs ih =>
      obtain ⟨hvx, s', rfl⟩ := h.head
      have hpos := List.length_pos_iff.mpr (hc.nonempty hvx)
      have htail := ih h.tail
      rw [List.length_cons, List.length_append]
      omega

theorem exists_longest (hc : Code valid enc) (s : List β) : ∃ xs, Longest valid enc s xs := by
  have hmax : ∀ n, ∀ xs, Reads valid enc s xs → s.length ≤ xs.length + n →
      ∃ ys, Longest valid enc s ys := by
    intro n
    induction n with
    | zero =>
        intro xs hxs hn
        exact ⟨xs, hxs, fun ys hys => Nat.le_trans (hc.length_le hys) hn⟩
    | succ n ih =>
        intro xs hxs hn
        by_cases hlong : ∀ ys, Reads valid enc s ys → ys.length ≤ xs.length
        · exact ⟨xs, hxs, hlong⟩
        · obtain ⟨ys, hys, hlt⟩ : ∃ ys, Reads valid enc s ys ∧ xs.length < ys.length := by
            by_contra hno
            exact hlong fun ys hys => Nat.le_of_not_lt fun hlt => hno ⟨ys, hys, hlt⟩
          exact ih ys hys (by omega)
  exact hmax s.length [] .nil (Nat.le_add_left _ _)

/-- A reading that no frame continues is the longest. -/
theorem longest_of_stuck (hc : Code valid enc) (hvalid : ∀ x ∈ xs, valid x) {rest : List β}
    (hstuck : ∀ x, valid x → ¬ enc x <+: rest) : Longest valid enc (xs.flatMap enc ++ rest) xs where
  frames := hvalid
  begins := List.prefix_append _ _
  longest := by
    induction xs with
    | nil =>
        intro ys hys
        cases ys with
        | nil => exact Nat.le_refl _
        | cons y ys => exact absurd hys.head.2 (hstuck y hys.head.1)
    | cons x xs ih =>
        intro ys hys
        cases ys with
        | nil => exact Nat.zero_le _
        | cons y ys =>
            have hvx := hvalid x List.mem_cons_self
            rw [List.flatMap_cons, List.append_assoc] at hys
            obtain ⟨hvy, hpy⟩ := hys.head
            have hxy := hc.unique hvx hvy (List.prefix_append _ _) hpy
            rw [hxy] at hys
            exact Nat.succ_le_succ
              (ih (fun z hz => hvalid z (List.mem_cons_of_mem _ hz)) ys hys.tail)

end Code

/-- Readings begin the longest one. -/
theorem Longest.reads (hc : Code valid enc) (h : Longest valid enc s xs)
    (hy : Reads valid enc s ys) : ys.map enc <+: xs.map enc :=
  hc.comparable hy h.toReads (h.longest ys hy)

/-- **UNIQUENESS** of the longest reading, up to the encodings. -/
theorem Longest.unique (hc : Code valid enc) (h : Longest valid enc s xs)
    (h' : Longest valid enc s ys) : xs.map enc = ys.map enc := by
  have hle := h.longest ys h'.toReads
  have hle' := h'.longest xs h.toReads
  refine (hc.comparable h.toReads h'.toReads hle').eq_of_length ?_
  rw [List.length_map, List.length_map]
  omega

end PrefixCode
