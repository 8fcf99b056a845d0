import ExperienceCurves.Formula.Token
import Mathlib.Data.List.Basic

/-!
The case of letters. Words that differ in the case of basic letters have the same capital and the
same small form. The other way round, a form in basic capitals comes from a word in basic letters or
from one with a look-alike: a ligature, a sharp or long s, or an i without a dot.
-/
namespace ExperienceCurves.Text

/-- A character of the basic Latin block. -/
def IsBasic (c : Char) : Prop := c.toNat < 128

instance (c : Char) : Decidable (IsBasic c) := inferInstanceAs (Decidable (_ < _))

def AllBasic (word : List Char) : Prop := ∀ c ∈ word, IsBasic c

instance (word : List Char) : Decidable (AllBasic word) := List.decidableBAll IsBasic word

/-- What is tested for the characters of the basic block one by one holds for all of them. -/
theorem IsBasic.of_ofNat {p : Char → Prop} (h : ∀ n < 128, p (Char.ofNat n)) {c : Char}
    (hc : IsBasic c) : p c := by
  have hp := h c.toNat hc
  rwa [Char.ofNat_toNat] at hp

/-- What is tested for the basic capitals one by one holds for all of them. -/
theorem forall_capital {p : Char → Prop} (h : ∀ n < 26, p (Char.ofNat (65 + n))) {c : Char}
    (hc : 'A' ≤ c ∧ c ≤ 'Z') : p c := by
  have hlow : 65 ≤ c.toNat := UInt32.le_iff_toNat_le.1 hc.1
  have hhigh : c.toNat ≤ 90 := UInt32.le_iff_toNat_le.1 hc.2
  have hp := h (c.toNat - 65) (by omega)
  rwa [Nat.add_sub_cancel' hlow, Char.ofNat_toNat] at hp

/-- Only basic capitals have another small form. -/
theorem toLower_of_not_capital {c : Char} (h : ¬('A' ≤ c ∧ c ≤ 'Z')) : c.toLower = c := dif_neg h

/-- What does not tell a basic capital from its small form never does. -/
theorem apply_toLower {α : Type} {f : Char → α}
    (h : ∀ n < 26, f (Char.ofNat (65 + n)).toLower = f (Char.ofNat (65 + n))) (c : Char) :
    f c.toLower = f c := by
  by_cases hc : 'A' ≤ c ∧ c ≤ 'Z'
  · exact forall_capital (p := fun c => f c.toLower = f c) h hc
  · rw [toLower_of_not_capital hc]

theorem isBasic_toLower (c : Char) : IsBasic c.toLower ↔ IsBasic c :=
  iff_of_eq (apply_toLower (f := IsBasic) (fun n hn => propext (by revert n; decide)) c)

theorem small_toLower (c : Char) : small c.toLower = small c :=
  apply_toLower (by decide +kernel) c

theorem capital_toLower (c : Char) : capital c.toLower = capital c :=
  apply_toLower (by decide +kernel) c

/-- The words agree up to the case of basic letters. -/
def SameLetters (first second : List Char) : Prop :=
  first.map Char.toLower = second.map Char.toLower

instance (first second : List Char) : Decidable (SameLetters first second) :=
  inferInstanceAs (Decidable (_ = _))

namespace SameLetters

variable {first second : List Char}

/-- A word and its letters in small form. -/
theorem map_toLower (word : List Char) : SameLetters (word.map Char.toLower) word := by
  rw [SameLetters, List.map_map]
  exact List.map_congr_left fun c _ => apply_toLower (by decide +kernel) c

theorem smalls_eq (h : SameLetters first second) : smalls first = smalls second := by
  have hmap : ∀ word : List Char, smalls (word.map Char.toLower) = smalls word := by
    intro word
    simp [smalls, small_toLower]
  rw [← hmap first, h, hmap]

theorem capitals_eq (h : SameLetters first second) : capitals first = capitals second := by
  have hmap : ∀ word : List Char, capitals (word.map Char.toLower) = capitals word := by
    intro word
    simp [capitals, List.flatMap_map, capital_toLower]
  rw [← hmap first, h, hmap]

/-- The case of letters does not lead out of the basic block. -/
theorem allBasic_iff (h : SameLetters first second) : AllBasic first ↔ AllBasic second := by
  have hmap : ∀ word : List Char, AllBasic (word.map Char.toLower) ↔ AllBasic word := by
    intro word
    simp [AllBasic, isBasic_toLower]
  rw [← hmap first, h, hmap]

end SameLetters

/-- Only the sign of kelvins has a small form other than that of the basic block. -/
theorem small_eq_toLower {c : Char} (h : small c ≠ 'k') : small c = c.toLower := by
  by_cases hc : 'A' ≤ c ∧ c ≤ 'Z'
  · exact forall_capital (p := fun c => small c = c.toLower) (by decide +kernel) hc
  · rw [toLower_of_not_capital hc]
    unfold small at h ⊢
    rw [if_neg hc] at h ⊢
    split at h
    · exact absurd rfl h
    · next hkelvin => rw [if_neg hkelvin]

theorem sameLetters_of_smalls {word name : List Char} (h : smalls word = name)
    (hk : 'k' ∉ name) (hname : name.map Char.toLower = name) : SameLetters word name := by
  rw [SameLetters, hname, ← h, smalls]
  refine List.map_congr_left fun c hc => (small_eq_toLower ?_).symm
  rintro hkelvin
  exact hk (h ▸ hkelvin ▸ List.mem_map_of_mem hc)

/-- The characters beyond the basic block whose capital form is made of basic letters. -/
def lookAlikes : List (Char × List Char) :=
  [('ß', ['S', 'S']), ('ı', ['I']), ('ſ', ['S']), ('ﬀ', ['F', 'F']), ('ﬁ', ['F', 'I']),
    ('ﬂ', ['F', 'L']), ('ﬃ', ['F', 'F', 'I']), ('ﬄ', ['F', 'F', 'L']), ('ﬅ', ['S', 'T']),
    ('ﬆ', ['S', 'T'])]

theorem lookAlikes_ne_nil : ∀ look ∈ lookAlikes, look.2 ≠ [] := by decide

theorem capital_cases (c : Char) :
    (∃ d, capital c = [d] ∧ d.toLower = c.toLower) ∨ (c, capital c) ∈ lookAlikes ∧ c.toLower = c := by
  by_cases hc : IsBasic c
  · refine Or.inl ?_
    have hhead : capital c = [(capital c).headD c] ∧ ((capital c).headD c).toLower = c.toLower :=
      hc.of_ofNat (p := fun c => capital c = [(capital c).headD c] ∧
        ((capital c).headD c).toLower = c.toLower) (by decide +kernel)
    exact ⟨_, hhead⟩
  · have hsmall : ¬('a' ≤ c ∧ c ≤ 'z') := by
      intro hsmall
      have hhigh : c.toNat ≤ 122 := UInt32.le_iff_toNat_le.1 hsmall.2
      rw [IsBasic] at hc
      omega
    unfold capital
    rw [if_neg hsmall]
    split
    case h_11 => exact Or.inl ⟨c, rfl, rfl⟩
    all_goals exact Or.inr (by decide)

/-- The words that have the rest of a text, after the given number of characters, as their capital
form. They are given in small basic letters and look-alikes. -/
def readings : Nat → List Char → List (List Char)
  | 0, [] => [[]]
  | 0, d :: rest =>
      (readings 0 rest).map (d.toLower :: ·) ++
        (lookAlikes.filter fun look => look.2.isPrefixOf (d :: rest)).flatMap fun look =>
          (readings (look.2.length - 1) rest).map (look.1 :: ·)
  | _ + 1, [] => []
  | skip + 1, _ :: rest => readings skip rest

theorem readings_append (before rest : List Char) :
    readings before.length (before ++ rest) = readings 0 rest := by
  induction before with
  | nil => rfl
  | cons d before ih => exact ih

theorem map_toLower_mem_readings (word : List Char) :
    word.map Char.toLower ∈ readings 0 (capitals word) := by
  induction word with
  | nil => decide
  | cons c word ih =>
    have hcapitals : capitals (c :: word) = capital c ++ capitals word := rfl
    rw [hcapitals]
    rcases capital_cases c with ⟨d, hd, hlower⟩ | ⟨hlook, hlower⟩
    · rw [hd, List.map_cons, List.singleton_append, readings, ← hlower]
      exact List.mem_append_left _ (List.mem_map_of_mem ih)
    · obtain ⟨d, before, hbefore⟩ := List.exists_cons_of_ne_nil (lookAlikes_ne_nil _ hlook)
      dsimp only at hbefore
      rw [hbefore] at hlook
      rw [hbefore, List.cons_append, List.map_cons, readings, hlower]
      refine List.mem_append_right _ (List.mem_flatMap.2 ⟨_, List.mem_filter.2 ⟨hlook, ?_⟩, ?_⟩)
      · exact List.isPrefixOf_iff_prefix.2 ⟨capitals word, rfl⟩
      · have hskip := readings_append before (capitals word)
        exact List.mem_map_of_mem (hskip ▸ ih)

end ExperienceCurves.Text
