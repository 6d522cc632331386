import Mathlib.Data.String.Basic
import ReviewRota.Instant.Text
import ReviewRota.Proofs.Sorting

/-!
# The order of stored times

A database compares times by their text. For years of four digits this is the order of time, though
the fraction of a second has no fixed width: the sign of the offset after it comes before its point
and before every digit.

* `Text.fixed_lt_fixed`: numbers of one width compare as their texts.
* `Instant.fractionText_lt`: fractions of a second compare as their texts with an offset.
* `Instant.isPreorder_le`: the order of time is total and transitive.
* **`Instant.storedText_lt`**, **`Instant.storedText_le_iff`**: stored times compare as their texts.
-/

namespace ReviewRota

/-! ## Digits -/

namespace Text

theorem fixed_add (w k n : Nat) : fixed (w + k) n = fixed w (n / 10 ^ k) ++ fixed k n := by
  induction k generalizing n with
  | zero => simp [fixed]
  | succ k ih =>
    rw [← Nat.add_assoc, fixed, ih, fixed, Nat.div_div_eq_div_mul, ← Nat.pow_succ',
      List.append_assoc]

theorem digit_lt_digit {m n : Nat} (h : m % 10 < n % 10) : digit m < digit n := by
  have hall : ∀ a < 10, ∀ b < 10, a < b → digit a < digit b := by decide
  have hmod : ∀ n, digit n = digit (n % 10) := fun n => by simp [digit]
  rw [hmod m, hmod n]
  exact hall _ (Nat.mod_lt _ (by decide)) _ (Nat.mod_lt _ (by decide)) h

/-- **Numbers of one width compare as their texts**, whatever comes after them. -/
theorem fixed_lt_fixed {w m n : Nat} (hmn : m < n) (hn : n < 10 ^ w) (a b : List Char) :
    fixed w m ++ a < fixed w n ++ b := by
  induction w generalizing m n a b with
  | zero => omega
  | succ w ih =>
    rw [fixed, fixed, List.append_assoc, List.append_assoc]
    rw [Nat.pow_succ] at hn
    rcases Nat.lt_or_ge (m / 10) (n / 10) with hlt | hge
    · exact ih hlt (by omega) _ _
    · have he : m / 10 = n / 10 := by omega
      rw [he]
      refine List.append_left_lt (List.cons_lt_cons_iff.mpr (.inl (digit_lt_digit ?_)))
      omega

theorem fixed_append_lt {w m n : Nat} (hn : n < 10 ^ w) {a b : List Char}
    (h : m < n ∨ m = n ∧ a < b) : fixed w m ++ a < fixed w n ++ b := by
  rcases h with hlt | ⟨rfl, hab⟩
  · exact fixed_lt_fixed hlt hn a b
  · exact List.append_left_lt hab

theorem plus_lt_fixed {k : Nat} (hk : 0 < k) (n : Nat) (a b : List Char) :
    '+' :: a < fixed k n ++ b := by
  obtain ⟨k, rfl⟩ := Nat.exists_eq_add_of_le' hk
  rw [Nat.add_comm, fixed_add]
  have hall : ∀ d < 10, '+' < digit d := by decide
  have hmod : digit (n / 10 ^ k) = digit (n / 10 ^ k % 10) := by simp [digit]
  refine List.cons_lt_cons_iff.mpr (.inl ?_)
  rw [hmod]
  exact hall _ (Nat.mod_lt _ (by decide))

end Text

open Text

namespace Instant

/-! ## Fractions of a second -/

/-- The fraction has the first digits of nine, of which the rest are zeros. -/
theorem fractionText_eq {n : Nat} (hn : 0 < n) :
    ∃ w k, w + k = 9 ∧ 10 ^ k ∣ n ∧ fractionText n = '.' :: fixed w (n / 10 ^ k) := by
  unfold fractionText
  rw [if_neg (by omega)]
  split
  · exact ⟨3, 6, rfl, Nat.dvd_of_mod_eq_zero ‹_›, rfl⟩
  split
  · exact ⟨6, 3, rfl, Nat.dvd_of_mod_eq_zero ‹_›, rfl⟩
  · exact ⟨9, 0, rfl, Nat.one_dvd n, by simp⟩

/-- **Fractions compare as their texts** if a plus sign follows. Either the digits of the shorter
one decide, or it is over where the longer one goes on. -/
theorem fractionText_lt {m n : Nat} (hmn : m < n) (hn : n < 1000000000) (a b : List Char) :
    fractionText m ++ '+' :: a < fractionText n ++ '+' :: b := by
  obtain ⟨v, l, hvl, hdvd, hn'⟩ := fractionText_eq (Nat.zero_lt_of_lt hmn)
  rw [hn']
  rcases Nat.eq_zero_or_pos m with rfl | hm
  · exact List.cons_lt_cons_iff.mpr (.inl (by decide))
  obtain ⟨w, k, hwk, hdvd', hm'⟩ := fractionText_eq hm
  rw [hm', List.cons_append, List.cons_append]
  refine List.cons_lt_cons_iff.mpr (.inr ⟨rfl, ?_⟩)
  have hbound : ∀ {w k : Nat}, w + k = 9 → n / 10 ^ k < 10 ^ w := fun {w k} h => by
    refine Nat.div_lt_of_lt_mul ?_
    rw [← Nat.pow_add, Nat.add_comm, h]
    exact hn
  rcases Nat.le_total w v with hle | hle
  · obtain ⟨j, rfl⟩ := Nat.exists_eq_add_of_le hle
    obtain rfl : k = l + j := by omega
    rw [fixed_add, Nat.div_div_eq_div_mul, ← Nat.pow_add, List.append_assoc]
    rcases Nat.lt_or_eq_of_le (Nat.div_le_div_right (c := 10 ^ (l + j)) hmn.le) with hlt | he
    · exact fixed_lt_fixed hlt (hbound hwk) _ _
    · rw [he]
      refine List.append_left_lt (plus_lt_fixed (Nat.pos_of_ne_zero ?_) _ _ _)
      rintro rfl
      exact hmn.ne ((Nat.div_left_inj hdvd' hdvd).mp he)
  · obtain ⟨j, rfl⟩ := Nat.exists_eq_add_of_le hle
    obtain rfl : l = k + j := by omega
    rw [fixed_add, Nat.div_div_eq_div_mul, ← Nat.pow_add, List.append_assoc]
    exact fixed_lt_fixed (Nat.div_lt_div_of_lt_of_dvd hdvd hmn) (hbound hvl) _ _

/-! ## Times -/

/-- A time whose year is written with four digits. -/
def IsPlain (t : Instant) : Prop :=
  0 ≤ t.date.year ∧ t.date.year < 10000

instance : DecidablePred IsPlain :=
  fun t => inferInstanceAs (Decidable (0 ≤ t.date.year ∧ t.date.year < 10000))

theorem cmp_eq_lt_iff {s t : Instant} :
    cmp s t = .lt ↔
      s.date.year < t.date.year ∨ s.date.year = t.date.year ∧
        (s.date.month < t.date.month ∨ s.date.month = t.date.month ∧
          (s.date.day < t.date.day ∨ s.date.day = t.date.day ∧
            (s.second < t.second ∨ s.second = t.second ∧ s.nano < t.nano))) := by
  simp only [cmp, Date.cmp, compareLex, compareOn, Ordering.then_eq_lt, Ordering.then_eq_eq,
    compare_lt_iff_lt, compare_eq_iff_eq]
  omega

theorem toList_storedText {t : Instant} (ht : t.IsPlain) :
    t.storedText.toList =
      fixed 4 t.date.year.natAbs ++ '-' :: (fixed 2 t.date.month ++ '-' :: (fixed 2 t.date.day ++
        'T' :: (fixed 2 (t.second / 3600) ++ ':' :: (fixed 2 (t.second / 60 % 60) ++
          ':' :: (fixed 2 (t.second % 60 + t.nano / 1000000000) ++
            (fractionText (t.nano % 1000000000) ++ ['+', '0', '0', ':', '0', '0'])))))) := by
  have hyear : 0 ≤ t.date.year ∧ t.date.year < 10000 := ht
  rw [storedText, String.toList_ofList, civilText, yearText, if_pos hyear]
  simp only [List.append_assoc, List.cons_append]

/-- The time of day compares field by field: a leap second belongs to the last second of a minute,
and is written as one more. -/
theorem clock_lt {s t : Instant} (h : s.second < t.second ∨ s.second = t.second ∧ s.nano < t.nano) :
    s.second / 3600 < t.second / 3600 ∨ s.second / 3600 = t.second / 3600 ∧
      (s.second / 60 % 60 < t.second / 60 % 60 ∨ s.second / 60 % 60 = t.second / 60 % 60 ∧
        (s.second % 60 + s.nano / 1000000000 < t.second % 60 + t.nano / 1000000000 ∨
          s.second % 60 + s.nano / 1000000000 = t.second % 60 + t.nano / 1000000000 ∧
            s.nano % 1000000000 < t.nano % 1000000000)) := by
  have hleap := s.isLeap
  have hs := s.nano_lt
  have ht := t.nano_lt
  omega

/-- **A time before another is before it as text.** -/
theorem storedText_lt {s t : Instant} (hs : s.IsPlain) (ht : t.IsPlain) (h : cmp s t = .lt) :
    s.storedText < t.storedText := by
  rw [String.lt_iff_toList_lt, toList_storedText hs, toList_storedText ht]
  rw [cmp_eq_lt_iff] at h
  obtain ⟨hyear, -⟩ := hs
  obtain ⟨hyear', hlast⟩ := ht
  obtain ⟨-, ⟨-, hmonth⟩, -, hday⟩ := t.date.isValid
  have hdays : t.date.day < 10 ^ 2 := hday.trans_lt (by unfold daysInMonth; split <;> grind)
  have hsecond := t.second_lt
  have hsep : ∀ {c : Char} {a b : List Char}, a < b → c :: a < c :: b := fun hab =>
    List.cons_lt_cons_iff.mpr (.inr ⟨rfl, hab⟩)
  refine fixed_append_lt (by omega) (h.imp (by omega) fun ⟨hy, h⟩ => ⟨by omega, hsep ?_⟩)
  refine fixed_append_lt (by omega) (h.imp_right fun ⟨hm, h⟩ => ⟨hm, hsep ?_⟩)
  refine fixed_append_lt hdays (h.imp_right fun ⟨hd, h⟩ => ⟨hd, hsep ?_⟩)
  have h := clock_lt h
  refine fixed_append_lt (by omega) (h.imp_right fun ⟨hh, h⟩ => ⟨hh, hsep ?_⟩)
  refine fixed_append_lt (by omega) (h.imp_right fun ⟨hi, h⟩ => ⟨hi, hsep ?_⟩)
  refine fixed_append_lt ?_ (h.imp_right fun ⟨hc, h⟩ => ⟨hc, ?_⟩)
  · have := t.nano_lt
    have := t.isLeap
    omega
  · exact fractionText_lt h (Nat.mod_lt _ (by decide)) _ _

theorem cmp_eq_gt_iff {s t : Instant} : cmp s t = .gt ↔ cmp t s = .lt := by
  simp only [cmp, Date.cmp, compareLex, compareOn, Ordering.then_eq_lt, Ordering.then_eq_gt,
    Ordering.then_eq_eq, compare_lt_iff_lt, compare_gt_iff_gt, compare_eq_iff_eq]
  omega

theorem cmp_eq_eq_iff {s t : Instant} : cmp s t = .eq ↔ s = t := by
  rcases s with ⟨⟨_, _, _, _⟩, _, _, _, _, _⟩
  rcases t with ⟨⟨_, _, _, _⟩, _, _, _, _, _⟩
  simp only [cmp, Date.cmp, compareLex, compareOn, Ordering.then_eq_eq, compare_eq_iff_eq,
    Instant.mk.injEq, Date.mk.injEq, and_assoc]

theorem le_iff {s t : Instant} : le s t = true ↔ ¬ cmp t s = .lt := by
  rw [← cmp_eq_gt_iff, le, Ordering.isLE_iff_ne_gt]

theorem isPreorder_le : IsPreorder le where
  total a b := by
    rw [le_iff, le_iff, cmp_eq_lt_iff, cmp_eq_lt_iff]
    omega
  trans hab hbc := by
    rw [le_iff, cmp_eq_lt_iff] at *
    omega

/-- **Stored times compare as their texts.** -/
theorem storedText_le_iff {s t : Instant} (hs : s.IsPlain) (ht : t.IsPlain) :
    s.storedText ≤ t.storedText ↔ le s t = true := by
  unfold le
  cases h : cmp s t with
  | lt => exact iff_of_true (storedText_lt hs ht h).le rfl
  | eq => exact iff_of_true (cmp_eq_eq_iff.mp h ▸ le_rfl) rfl
  | gt => exact iff_of_false (storedText_lt ht hs (cmp_eq_gt_iff.mp h)).not_ge (by decide)

end Instant

end ReviewRota
