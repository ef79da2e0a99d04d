import Mathlib

/-!
# Words that end in a mark

Words over any alphabet, as lists.  A word in which a mark stands at the end and nowhere
else does not repeat inside itself, so that the words that commute with it are its copies
(`append_comm_iff_copies`).

A text of lines is such a word: `CR LF` closes a line, and a blank line the text
(`onlyAtEnd_lines`).
-/

namespace Words

variable {α : Type}

/-- `w` is made of copies of `h`. -/
def Copies (h w : List α) : Prop := ∃ k, w = (List.replicate k h).flatten

/-- The mark `t` ends `h`, and is found nowhere else in it. -/
structure OnlyAtEnd (t h : List α) : Prop where
  ends : t <:+ h
  only : ∀ u v, h = u ++ v → t <:+ u → v = []

theorem Copies.comm {h w : List α} (hw : Copies h w) : w ++ h = h ++ w := by
  obtain ⟨k, rfl⟩ := hw
  induction k with
  | zero => simp
  | succ k ih => rw [List.replicate_succ, List.flatten_cons, List.append_assoc, ih]

/-- **A word that commutes with one that ends in its only mark is made of copies of it**, unless
the word could begin inside the mark. -/
theorem copies_of_append_comm {t h : List α} (hend : OnlyAtEnd t h) (hne : h ≠ [])
    (hhead : ∀ c ∈ t, h.head? ≠ some c) {w : List α} (hcomm : w ++ h = h ++ w) : Copies h w := by
  induction hlen : w.length using Nat.strong_induction_on generalizing w with
  | _ n ih =>
    by_cases hnil : w = []
    · exact ⟨0, hnil⟩
    have hw : w <+: h ++ w := ⟨h, hcomm⟩
    rcases le_total h.length w.length with hle | hle
    · -- one copy comes off
      obtain ⟨w', rfl⟩ := List.prefix_of_prefix_length_le (List.prefix_append h w) hw hle
      have hpos : 0 < h.length := List.length_pos_iff.2 hne
      have hcomm' : w' ++ h = h ++ w' := by
        rw [List.append_assoc] at hcomm
        exact List.append_cancel_left hcomm
      obtain ⟨k, hk⟩ := ih w'.length (by rw [← hlen, List.length_append]; omega) hcomm' rfl
      exact ⟨k + 1, by rw [List.replicate_succ, List.flatten_cons, ← hk]⟩
    · -- `h` begins and ends with `w`
      obtain ⟨r, rfl⟩ := List.prefix_of_prefix_length_le hw (List.prefix_append h w) hle
      have hrot : w ++ r = r ++ w := by
        rw [List.append_assoc] at hcomm
        exact List.append_cancel_left hcomm
      have hsuffix : w <:+ w ++ r := ⟨r, hrot.symm⟩
      rcases le_total t.length w.length with hlt | hlt
      · have hr := hend.only w r rfl (List.suffix_of_suffix_length_le hend.ends hsuffix hlt)
        exact ⟨1, by simp [hr]⟩
      · obtain ⟨c, w', rfl⟩ := List.exists_cons_of_ne_nil hnil
        have hmark := (List.suffix_of_suffix_length_le hsuffix hend.ends hlt).subset
        exact absurd rfl (hhead c (hmark List.mem_cons_self))

theorem append_comm_iff_copies {t h : List α} (hend : OnlyAtEnd t h) (hne : h ≠ [])
    (hhead : ∀ c ∈ t, h.head? ≠ some c) {w : List α} : w ++ h = h ++ w ↔ Copies h w :=
  ⟨copies_of_append_comm hend hne hhead, Copies.comm⟩

/-! ## Lines -/

variable {cr lf : α}

/-- A line with a text, closed by `CR LF`. -/
def IsLine (cr lf : α) (line : List α) : Prop :=
  ∃ text, line = text ++ [cr, lf] ∧ lf ∉ text ∧ text ≠ [] ∧ text.head? ≠ some cr

theorem blank_at_end {lines : List (List α)} (hcr : cr ≠ lf)
    (hlines : ∀ line ∈ lines, line = [] ∨ IsLine cr lf line) {w v : List α}
    (h : lf :: (lines.flatten ++ [cr, lf]) = w ++ ([lf, cr, lf] ++ v)) : v = [] := by
  induction lines generalizing w with
  | nil =>
    have hlen := congrArg List.length h
    simp only [List.flatten_nil, List.nil_append, List.length_cons, List.length_append,
      List.length_nil] at hlen
    exact List.length_eq_zero_iff.1 (by omega)
  | cons line lines ih =>
    have hlines' : ∀ l ∈ lines, l = [] ∨ IsLine cr lf l := fun l hl => hlines l (by simp [hl])
    rcases hlines line (by simp) with rfl | ⟨text, rfl, hlf, hne, hhead⟩
    · exact ih hlines' h
    -- the text of the line, and what follows it with the line feed in front
    obtain ⟨c, text, rfl⟩ := List.exists_cons_of_ne_nil hne
    have hsplit : (lf :: c :: (text ++ [cr])) ++ (lf :: (lines.flatten ++ [cr, lf])) =
        w ++ ([lf, cr, lf] ++ v) := by
      rw [← h]
      simp
    rcases List.append_eq_append_iff.1 hsplit with ⟨x, rfl, hx⟩ | ⟨x, hp, hx⟩
    · exact ih hlines' hx
    · -- the mark would begin inside the line
      cases x with
      | nil => exact ih (w := []) hlines' hx.symm
      | cons d x =>
        obtain rfl : d = lf := (List.cons.inj hx).1.symm
        cases w with
        | nil =>
          obtain ⟨-, rfl⟩ := List.cons.inj hp
          exact absurd (List.cons.inj (List.cons.inj hx).2).1 fun hc => hhead (by simp [hc])
        | cons e w =>
          have hmem : d ∈ c :: (text ++ [cr]) := by
            rw [(List.cons.inj hp).2]
            simp
          rcases List.mem_cons.1 hmem with rfl | hmem
          · exact absurd List.mem_cons_self hlf
          · rcases List.mem_append.1 hmem with hmem | hmem
            · exact absurd (List.mem_cons_of_mem c hmem) hlf
            · exact absurd (List.mem_singleton.1 hmem).symm hcr

/-- **A text of lines has its blank line at the end only.** -/
theorem onlyAtEnd_lines {lines : List (List α)} (hcr : cr ≠ lf)
    (hlines : ∀ line ∈ lines, line = [] ∨ IsLine cr lf line) (hsome : ∃ line ∈ lines, line ≠ []) :
    OnlyAtEnd [lf, cr, lf] (lines.flatten ++ [cr, lf]) := by
  refine ⟨?_, ?_⟩
  · induction lines with
    | nil => simp at hsome
    | cons line lines ih =>
      have hlines' : ∀ l ∈ lines, l = [] ∨ IsLine cr lf l := fun l hl => hlines l (by simp [hl])
      rw [List.flatten_cons, List.append_assoc]
      by_cases hmore : ∃ l ∈ lines, l ≠ []
      · exact (ih hlines' hmore).trans (List.suffix_append _ _)
      · have hnil : lines.flatten = [] := by
          refine List.flatten_eq_nil_iff.2 fun l hl => ?_
          by_contra hne
          exact hmore ⟨l, hl, hne⟩
        obtain ⟨l, hl, hne⟩ := hsome
        rcases List.mem_cons.1 hl with rfl | hl
        · rcases hlines l (by simp) with rfl | ⟨text, rfl, -⟩
          · exact absurd rfl hne
          · exact ⟨text ++ [cr], by simp [hnil]⟩
        · exact absurd ⟨l, hl, hne⟩ hmore
  · rintro u v huv ⟨w, rfl⟩
    exact blank_at_end hcr hlines (w := lf :: w) (by rw [huv]; simp)

end Words
