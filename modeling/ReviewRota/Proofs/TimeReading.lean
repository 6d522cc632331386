import ReviewRota.Proofs.Calendar
import ReviewRota.Proofs.TextOrder

/-!
# Reading written times

Every time is read back from its text, with any year, any fraction of a second and in leap seconds.

* `Text.leading_fixed`: a number of a fixed width is read up to what comes after it.
* `Instant.readField_fixed`, `Instant.readYear_yearText`, `Instant.readFraction_fractionText`: the
  fields of a time, one by one.
* `Instant.ofFields?_utc`: the fields of a time at no offset are those of its instant.
* **`Instant.ofText?_toText`**: the text of an instant is read as the instant.
-/

namespace ReviewRota

/-! ## Digits -/

namespace Text

theorem isDigit_digit (n : Nat) : (digit n).isDigit = true := by
  have hall : ∀ d < 10, (digit d).isDigit = true := by decide
  have hmod : digit n = digit (n % 10) := by simp [digit]
  rw [hmod]
  exact hall _ (Nat.mod_lt _ (by decide))

theorem isDigit_of_mem_fixed {w n : Nat} {c : Char} (h : c ∈ fixed w n) : c.isDigit = true := by
  induction w generalizing n with
  | zero => nomatch h
  | succ w ih =>
    rw [fixed, List.mem_append, List.mem_singleton] at h
    rcases h with h | rfl
    · exact ih h
    · exact isDigit_digit n

theorem not_isSpace_of_isDigit {c : Char} (h : c.isDigit = true) : isSpace c = false := by
  have hlow : 48 ≤ c.toNat ∧ c.toNat ≤ 57 := by
    simpa [Char.isDigit, UInt32.le_iff_toNat_le] using h
  simp [isSpace]
  omega

theorem fixed_eq_cons {w : Nat} (hw : 0 < w) (n : Nat) :
    ∃ c s, fixed w n = c :: s ∧ c.isDigit = true := by
  obtain ⟨c, s, he⟩ := List.exists_cons_of_length_pos ((length_fixed w n).symm ▸ hw)
  exact ⟨c, s, he, isDigit_of_mem_fixed (he ▸ List.mem_cons_self)⟩

theorem dropBlank_fixed {w : Nat} (hw : 0 < w) (n : Nat) (rest : List Char) :
    dropBlank (fixed w n ++ rest) = fixed w n ++ rest := by
  obtain ⟨c, s, he, hc⟩ := fixed_eq_cons hw n
  rw [he]
  exact dropBlank_cons_of_not_isSpace (not_isSpace_of_isDigit hc) _

/-- A number is read up to the limit, or up to what is no digit. -/
theorem leading_fixed {limit w n : Nat} {rest : List Char} (hw : 0 < w) (hle : w ≤ limit)
    (hn : n < 10 ^ w) (hrest : w = limit ∨ rest.takeWhile Char.isDigit = []) :
    leading limit (fixed w n ++ rest) = some (n, rest) := by
  have hnext : (rest.take (limit - w)).takeWhile Char.isDigit = [] := by
    rcases hrest with rfl | hrest
    · rw [Nat.sub_self, List.take_zero, List.takeWhile_nil]
    · rw [← List.take_takeWhile, hrest, List.take_nil]
  have hdigits : ((fixed w n ++ rest).take limit).takeWhile Char.isDigit = fixed w n := by
    rw [List.take_append, length_fixed, List.take_of_length_le ((length_fixed w n).trans_le hle),
      List.takeWhile_append_of_pos fun c => isDigit_of_mem_fixed, hnext, List.append_nil]
  have hvalue : value (fixed w n) = n := (value_fixed w n).trans (Nat.mod_eq_of_lt hn)
  obtain ⟨c, s, he, -⟩ := fixed_eq_cons hw n
  rw [leading, hdigits]
  simp only [he]
  rw [← he, hvalue, length_fixed, List.drop_left' (length_fixed w n)]

end Text

open Text

namespace Instant

/-! ## Fields -/

section

variable {w n : Nat} {rest : List Char}

theorem readField_fixed (hw : 0 < w) (hn : n < 10 ^ w) :
    readField w (fixed w n ++ rest) = some (n, rest) := by
  rw [readField, dropBlank_fixed hw]
  exact leading_fixed hw le_rfl hn (.inl rfl)

theorem readMark_cons {c : Char} (hc : isSpace c = false) : readMark c (c :: rest) = some rest := by
  rw [readMark, dropBlank_cons_of_not_isSpace hc]
  exact if_pos rfl

theorem readSeparator_cons : readSeparator ('T' :: rest) = some rest :=
  rfl

theorem readYear_fixed (hn : n < 10000) :
    readYear (fixed 4 n ++ rest) = some ((n : Int), rest) := by
  obtain ⟨c, s, he, hc⟩ := fixed_eq_cons (show 0 < 4 by decide) n
  have hread : leading 4 (fixed 4 n ++ rest) = some (n, rest) :=
    leading_fixed (by decide) le_rfl hn (.inl rfl)
  rw [readYear, dropBlank_fixed (by decide)]
  rw [he, List.cons_append] at hread ⊢
  split
  · next h => exact absurd (List.cons.inj h).1 (by rintro rfl; exact absurd hc (by decide))
  · next h => exact absurd (List.cons.inj h).1 (by rintro rfl; exact absurd hc (by decide))
  · rw [hread, Option.map_some]

theorem leading_length_fixed (hw : 0 < w) (hn : n < 10 ^ w)
    (hrest : rest.takeWhile Char.isDigit = []) :
    leading (fixed w n ++ rest).length (fixed w n ++ rest) = some (n, rest) := by
  refine leading_fixed hw ?_ hn (.inr hrest)
  rw [List.length_append, length_fixed]
  exact Nat.le_add_right w _

theorem readYear_minus (s : List Char) :
    readYear ('-' :: s) = (leading s.length s).map fun (n, rest) => (-(n : Int), rest) :=
  rfl

theorem readYear_plus (s : List Char) :
    readYear ('+' :: s) = (leading s.length s).map fun (n, rest) => ((n : Int), rest) :=
  rfl

theorem readYear_yearText {year : Int} (hyear : Date.minYear ≤ year ∧ year ≤ Date.maxYear)
    (hrest : rest.takeWhile Char.isDigit = []) :
    readYear (yearText year ++ rest) = some (year, rest) := by
  obtain ⟨hmin, hmax⟩ : -262143 ≤ year ∧ year ≤ 262142 := hyear
  unfold yearText
  dsimp only
  split
  · have hsize : (year.natAbs : Int) = year := by omega
    rw [readYear_fixed (by omega), hsize]
  · generalize hw : (if year.natAbs < 10000 then 4 else if year.natAbs < 100000 then 5 else 6) = w
    have hdigits : 0 < w ∧ year.natAbs < 10 ^ w := by
      split_ifs at hw <;> subst hw <;> omega
    have hread := leading_length_fixed hdigits.1 hdigits.2 hrest
    split
    · have hsize : -(year.natAbs : Int) = year := by omega
      rw [List.cons_append, readYear_minus, hread]
      exact congrArg (fun y => some (y, rest)) hsize
    · have hsize : (year.natAbs : Int) = year := by omega
      rw [List.cons_append, readYear_plus, hread]
      exact congrArg (fun y => some (y, rest)) hsize

/-- The fraction of a second is read to the nanosecond, since the digits left out are zeros. -/
theorem readFraction_fractionText (hn : n < 1000000000) :
    readFraction (fractionText n ++ ['Z']) = some (n, ['Z']) := by
  rcases Nat.eq_zero_or_pos n with rfl | hpos
  · rfl
  obtain ⟨w, k, hwk, hdvd, he⟩ := fractionText_eq hpos
  have hw : 0 < w := by
    rw [Nat.pos_iff_ne_zero]
    rintro rfl
    obtain rfl : k = 9 := by omega
    exact absurd (Nat.le_of_dvd hpos hdvd) (by omega)
  have hlt : n / 10 ^ k < 10 ^ w := by
    refine Nat.div_lt_of_lt_mul ?_
    rw [← Nat.pow_add, Nat.add_comm, hwk]
    exact hn
  have hread : leading 9 (fixed w (n / 10 ^ k) ++ ['Z']) = some (n / 10 ^ k, ['Z']) :=
    leading_fixed hw (by omega) hlt (.inr rfl)
  have hk : 9 - ((fixed w (n / 10 ^ k) ++ ['Z']).length - ['Z'].length) = k := by
    rw [List.length_append, length_fixed, Nat.add_sub_cancel]
    omega
  rw [he, List.cons_append, readFraction, hread, Option.map_some]
  dsimp only
  rw [hk]
  exact congrArg (fun n => some (n, ['Z'])) (Nat.div_mul_cancel hdvd)

end

/-! ## Instants -/

theorem ofFields?_utc (t : Instant) :
    ofFields? t.date (t.second / 3600) (t.second / 60 % 60)
      (t.second % 60 + t.nano / 1000000000) (t.nano % 1000000000) 0 = some t := by
  have hsecond := t.second_lt
  have hnano := t.nano_lt
  have hleap := t.isLeap
  have hclock : t.second / 3600 * 3600 + t.second / 60 % 60 * 60 + t.second % 60 = t.second := by
    omega
  have hlimit : t.second % 60 + t.nano / 1000000000 ≤ 60 := by omega
  rw [ofFields?, if_pos ⟨by omega, by omega, hlimit⟩]
  by_cases hl : t.nano < 1000000000
  · have hlast : ¬ t.second % 60 + t.nano / 1000000000 = 60 := by omega
    have hwhole : t.nano / 1000000000 = 0 := by omega
    rw [if_neg hlast, hwhole, Nat.add_zero, Nat.mod_eq_of_lt hl]
    dsimp only
    rw [hclock, of?_eq]
    exact t.addSeconds?_zero
  · have hlast : t.second % 60 + t.nano / 1000000000 = 60 := by omega
    have hfull : t.second % 60 = 59 := by omega
    have hover : 1000000000 + t.nano % 1000000000 = t.nano := by omega
    rw [hfull] at hclock
    rw [if_pos hlast, hover]
    dsimp only
    rw [hclock, of?_eq]
    exact t.addSeconds?_zero

theorem toList_toText (t : Instant) :
    t.toText.toList =
      yearText t.date.year ++ '-' :: (fixed 2 t.date.month ++ '-' :: (fixed 2 t.date.day ++
        'T' :: (fixed 2 (t.second / 3600) ++ ':' :: (fixed 2 (t.second / 60 % 60) ++
          ':' :: (fixed 2 (t.second % 60 + t.nano / 1000000000) ++
            (fractionText (t.nano % 1000000000) ++ ['Z'])))))) := by
  rw [toText, String.toList_ofList, civilText]
  simp only [List.append_assoc, List.cons_append]

/-- **The text of an instant is read as the instant.** -/
theorem ofText?_toText (t : Instant) : ofText? t.toText = some t := by
  obtain ⟨hyear, hmonth, hday⟩ := t.date.isValid
  have hmonth' : t.date.month < 10 ^ 2 := by omega
  have hday' : t.date.day < 10 ^ 2 := t.date.day_le.1.trans_lt (by decide)
  have hlt := t.second_lt
  have hhour : t.second / 3600 < 10 ^ 2 := by omega
  have hminute : t.second / 60 % 60 < 10 ^ 2 := by omega
  have hsecond : t.second % 60 + t.nano / 1000000000 < 10 ^ 2 := by
    have hnano := t.nano_lt
    omega
  have hfraction := readFraction_fractionText (Nat.mod_lt t.nano (show 0 < 1000000000 by decide))
  have hdash : isSpace '-' = false := by decide
  have hcolon : isSpace ':' = false := by decide
  rw [ofText?, toList_toText, readYear_yearText hyear (by rfl)]
  dsimp only [Option.bind_eq_bind, Option.bind_some]
  -- each field is read up to the mark after it
  rw [readMark_cons hdash, Option.bind_some, readField_fixed two_pos hmonth', Option.bind_some,
    readMark_cons hdash, Option.bind_some, readField_fixed two_pos hday', Option.bind_some,
    t.date.of?_eq, Option.bind_some, readSeparator_cons, Option.bind_some,
    readField_fixed two_pos hhour, Option.bind_some, readMark_cons hcolon, Option.bind_some,
    readField_fixed two_pos hminute, Option.bind_some, readMark_cons hcolon, Option.bind_some,
    readField_fixed two_pos hsecond, Option.bind_some, hfraction, Option.bind_some]
  exact t.ofFields?_utc

end Instant

end ReviewRota
