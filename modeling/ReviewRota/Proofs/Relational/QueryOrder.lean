import ReviewRota.Proofs.Equivalence

/-!
# Queries in the order of stored times

A database compares stored times byte by byte, and rows of equal times by their numbers, which grow
with each insertion. The two keys determine the order of the rows, and for plain times it is that
of a stable sort by time.

* `Text.compare_bytes`: texts compare as their bytes.
* `Instant.compare_storedText`: plain times compare as their stored texts.
* `Ascending`, `Descending`: rows as a query orders them by both keys.
* `map_snd_of_ascending`, `map_snd_of_descending`: such rows are the sorted list of the store.
* `Repository.ListedAlike`: stores that list the same.
* **`queries_in_time_order`**: for plain times, queries give what the in-memory store lists.
-/

namespace ReviewRota

/-! ## Bytes -/

namespace Text

/-- The bytes of a text. -/
def bytes (s : String) : List UInt8 :=
  s.toByteArray.data.toList

theorem bytes_eq (s : String) : bytes s = s.toList.flatMap String.utf8EncodeChar := by
  rw [bytes, ← String.ofList_toList (s := s), String.toByteArray_ofList, List.utf8Encode]
  simp

theorem compare_ofNat_cons {m n : Nat} {a b : List UInt8} (hm : m < 256) (hn : n < 256) :
    compare (UInt8.ofNat m :: a) (UInt8.ofNat n :: b) = .lt ↔
      m < n ∨ m = n ∧ compare a b = .lt := by
  rw [List.compare_cons_cons, Ordering.then_eq_lt, Std.compare_eq_lt,
    Std.LawfulEqOrd.compare_eq_iff_eq, UInt8.lt_iff_toNat_lt, ← UInt8.toNat_inj, UInt8.toNat_ofNat',
    UInt8.toNat_ofNat', Nat.mod_eq_of_lt hm, Nat.mod_eq_of_lt hn]

/-- The bytes of a character decide as the character does, whatever comes after them. -/
theorem compare_utf8EncodeChar {c d : Char} (h : c < d) (a b : List UInt8) :
    compare (String.utf8EncodeChar c ++ a) (String.utf8EncodeChar d ++ b) = .lt := by
  have hlt : c.val.toNat < d.val.toNat := h
  have hd : d.val.toNat < 1114112 := by
    have hvalid := d.valid
    simp only [UInt32.isValidChar, Nat.isValidChar] at hvalid
    omega
  unfold String.utf8EncodeChar
  generalize c.val.toNat = v at hlt
  generalize d.val.toNat = w at hlt hd
  -- the six bits of each byte after the first
  have hdigits : ∀ n < 1114112,
      n = 262144 * (n / 262144 % 8) + 4096 * (n / 4096 % 64) + 64 * (n / 64 % 64) + n % 64 := by
    omega
  have hv := hdigits v (hlt.trans hd)
  have hw := hdigits w hd
  clear hdigits
  dsimp only
  -- the first byte tells how many there are, and grows with their number
  split_ifs <;> first | omega | skip
  all_goals
    simp (disch := omega) only [List.cons_append, List.nil_append, compare_ofNat_cons]
    omega

theorem compare_append_left (x a b : List UInt8) : compare (x ++ a) (x ++ b) = compare a b := by
  induction x with
  | nil => rfl
  | cons c x ih =>
    rw [List.cons_append, List.cons_append, List.compare_cons_cons, ih,
      Std.LawfulEqOrd.compare_eq_iff_eq.mpr rfl, Ordering.eq_then]

theorem compare_bytes_of_lt {s t : String} (h : s < t) : compare (bytes s) (bytes t) = .lt := by
  rw [bytes_eq, bytes_eq]
  rw [String.lt_iff_toList_lt] at h
  generalize s.toList = l at h
  generalize t.toList = l' at h
  induction l generalizing l' with
  | nil =>
    cases l' with
    | nil => exact absurd h (List.not_lt_nil _)
    | cons d l' =>
      rw [List.flatMap_cons, List.flatMap_nil]
      cases hd : String.utf8EncodeChar d with
      | nil => exact absurd hd String.utf8EncodeChar_ne_nil
      | cons byte rest => exact List.compare_nil_cons
  | cons c l ih =>
    cases l' with
    | nil => exact absurd h (List.not_lt_nil _)
    | cons d l' =>
      rw [List.flatMap_cons, List.flatMap_cons]
      rcases List.cons_lt_cons_iff.mp h with hlt | ⟨rfl, hlt⟩
      · exact compare_utf8EncodeChar hlt _ _
      · rw [compare_append_left]
        exact ih l' hlt

/-- **Texts compare as their bytes.** -/
theorem compare_bytes (s t : String) : compare (bytes s) (bytes t) = compare s t := by
  cases h : compare s t with
  | lt => exact compare_bytes_of_lt (compare_lt_iff_lt.mp h)
  | eq => rw [compare_eq_iff_eq.mp h, Std.LawfulEqOrd.compare_eq_iff_eq]
  | gt =>
    rw [Std.OrientedOrd.eq_swap, compare_bytes_of_lt (compare_gt_iff_gt.mp h)]
    rfl

end Text

open Text (bytes)

namespace Instant

/-- **Plain times compare as their stored texts.** -/
theorem compare_storedText {s t : Instant} (hs : s.IsPlain) (ht : t.IsPlain) :
    compare s.storedText t.storedText = cmp s t := by
  cases h : cmp s t with
  | lt => exact compare_lt_iff_lt.mpr (storedText_lt hs ht h)
  | eq => rw [cmp_eq_eq_iff.mp h, compare_eq_iff_eq]
  | gt => exact compare_gt_iff_gt.mpr (storedText_lt ht hs (cmp_eq_gt_iff.mp h))

end Instant

/-! ## Rows by two keys -/

section

variable {α : Type}

/-- Rows with their numbers, in the order of insertion. -/
def Numbered (table : List (Nat × α)) : Prop :=
  table.Pairwise fun r s => r.1 < s.1

/-- The order of rows by the bytes of the stored time, then by number. -/
def rowOrder (time : α → Instant) (r s : Nat × α) : Ordering :=
  (compare (bytes (time r.2).storedText) (bytes (time s.2).storedText)).then (compare r.1 s.1)

/-- Rows with both keys ascending. -/
def Ascending (time : α → Instant) (rows : List (Nat × α)) : Prop :=
  rows.Pairwise fun r s => (rowOrder time r s).isLE

/-- Rows with both keys descending. -/
def Descending (time : α → Instant) (rows : List (Nat × α)) : Prop :=
  rows.Pairwise fun r s => (rowOrder time s r).isLE

theorem isLE_rowOrder {time : α → Instant} {r s : Nat × α} :
    (rowOrder time r s).isLE ↔
      Instant.textLe (time r.2) (time s.2) = true ∧
        (Instant.textLe (time s.2) (time r.2) = true → r.1 ≤ s.1) := by
  rw [rowOrder, Text.compare_bytes, Instant.textLe, Instant.textLe, decide_eq_true_iff,
    decide_eq_true_iff]
  cases h : compare (time r.2).storedText (time s.2).storedText with
  | lt =>
    have hlt := compare_lt_iff_lt.mp h
    exact iff_of_true rfl ⟨hlt.le, fun hle => absurd hlt hle.not_gt⟩
  | eq =>
    rw [compare_eq_iff_eq.mp h, Ordering.eq_then, Nat.isLE_compare]
    exact ⟨fun hle => ⟨le_rfl, fun _ => hle⟩, fun hle => hle.2 le_rfl⟩
  | gt =>
    have hlt := compare_gt_iff_gt.mp h
    exact iff_of_false Bool.false_ne_true fun hle => hlt.not_ge hle.1

theorem eq_sortBy_of_stable {le : α → α → Bool} (h : IsPreorder le) {R : α → α → Prop}
    {l out : List α} (hperm : out.Perm l) (hl : l.Pairwise R)
    (hanti : ∀ a ∈ l, ∀ b ∈ l, R a b → R b a → a = b)
    (hout : out.Pairwise fun a b => le a b = true ∧ (le b a = true → R a b)) :
    out = sortBy le l := by
  refine (hperm.trans (perm_sortBy le l).symm).eq_of_pairwise (fun a b ha hb hab hba => ?_) hout
    (pairwise_sortBy_stable h hl)
  exact hanti a (hperm.subset ha) b (mem_sortBy.mp hb) (hab.2 hba.1) (hba.2 hab.1)

namespace Numbered

variable {table : List (Nat × α)} (h : Numbered table)
include h

theorem eq_of_fst {r s : Nat × α} (hr : r ∈ table) (hs : s ∈ table) (he : r.1 = s.1) : r = s :=
  List.inj_on_of_nodup_map (List.pairwise_map.mpr (h.imp Nat.ne_of_lt)) hr hs he

/-- **Rows with both keys ascending** are those sorted by stored time, if equal ones keep the order
of insertion. -/
theorem map_snd_of_ascending {time : α → Instant} {out : List (Nat × α)} (hperm : out.Perm table)
    (hout : Ascending time out) :
    out.map Prod.snd = Memory.oldestFirst Instant.textLe time (table.map Prod.snd) := by
  have he : out = sortBy (fun r s => Instant.textLe (time r.2) (time s.2)) table :=
    eq_sortBy_of_stable (Instant.isPreorder_textLe.comap fun r : Nat × α => time r.2) hperm
      (h.imp Nat.le_of_lt)
      (fun r hr s hs hrs hsr => h.eq_of_fst hr hs (Nat.le_antisymm hrs hsr))
      (hout.imp isLE_rowOrder.mp)
  rw [he, Memory.oldestFirst, sortBy_map]

/-- **Rows with both keys descending** are those sorted against stored time, if equal ones have the
order of insertion reversed. -/
theorem map_snd_of_descending {time : α → Instant} {out : List (Nat × α)} (hperm : out.Perm table)
    (hout : Descending time out) :
    out.map Prod.snd =
      sortBy (fun a b => Instant.textLe (time b) (time a)) (table.map Prod.snd).reverse := by
  have he : out = sortBy (fun r s => Instant.textLe (time s.2) (time r.2)) table.reverse :=
    eq_sortBy_of_stable (R := fun r s => s.1 ≤ r.1)
      (Instant.isPreorder_textLe.swap.comap fun r : Nat × α => time r.2)
      (hperm.trans (List.reverse_perm table).symm)
      (List.pairwise_reverse.mpr (h.imp Nat.le_of_lt))
      (fun r hr s hs hrs hsr =>
        h.eq_of_fst (List.mem_reverse.mp hr) (List.mem_reverse.mp hs) (Nat.le_antisymm hsr hrs))
      (hout.imp isLE_rowOrder.mp)
  rw [he, ← List.map_reverse, sortBy_map]

end Numbered

end

/-! ## Listings -/

/-- Stores that list the same for every filter. -/
structure Repository.ListedAlike {σ τ : Type} [Repository σ] [Repository τ] (d : σ) (m : τ) :
    Prop where
  teams : Repository.teams d = Repository.teams m
  users : ∀ team active, Repository.users team active d = Repository.users team active m
  usersByIds : ∀ ids, Repository.usersByIds ids d = Repository.usersByIds ids m
  activeMembers : ∀ team except,
    Repository.activeMembers team except d = Repository.activeMembers team except m
  pullRequests : ∀ status, Repository.pullRequests status d = Repository.pullRequests status m
  assignedTo : ∀ user status,
    Repository.assignedTo user status d = Repository.assignedTo user status m

theorem Relational.Database.Sound.listedAlike {d : Relational.Database} (h : d.Sound)
    (hplain : d.records.Plain) : Repository.ListedAlike d d.records := by
  have hd : d.Holds d.records := ⟨h, rfl⟩
  have hm : d.records.Plain ∧ (d.records : Ledger Instant.textLe) = d.records := ⟨hplain, rfl⟩
  have hd' := Relational.Database.mirrored
  have hm' := Memory.mirrored_textLe
  exact
    { teams := (hd'.teams hd).trans (hm'.teams hm).symm
      users := fun team active => (hd'.users hd team active).trans (hm'.users hm team active).symm
      usersByIds := fun ids => (hd'.usersByIds hd ids).trans (hm'.usersByIds hm ids).symm
      activeMembers := fun team except =>
        (hd'.activeMembers hd team except).trans (hm'.activeMembers hm team except).symm
      pullRequests := fun status =>
        (hd'.pullRequests hd status).trans (hm'.pullRequests hm status).symm
      assignedTo := fun user status =>
        (hd'.assignedTo hd user status).trans (hm'.assignedTo hm user status).symm }

/-- **The order of stored times is the order of time.** Plain times compare as the bytes of their
stored texts. So rows in ascending order of these bytes and of their numbers are the stable sort of
the table by time, pull requests in descending order of both are the listing of the in-memory store,
and a database lists what the in-memory store with its records does. -/
theorem queries_in_time_order :
    (∀ s t : Instant, s.IsPlain → t.IsPlain →
      compare (bytes s.storedText) (bytes t.storedText) = Instant.cmp s t) ∧
    (∀ (α : Type) (time : α → Instant) (table out : List (Nat × α)), Numbered table →
      (∀ r ∈ table, (time r.2).IsPlain) → out.Perm table → Ascending time out →
        out.map Prod.snd = Memory.oldestFirst Instant.le time (table.map Prod.snd)) ∧
    (∀ table out : List (Nat × PullRequest), Numbered table →
      (∀ r ∈ table, r.2.createdAt.IsPlain) → out.Perm table →
        Descending PullRequest.createdAt out →
          out.map Prod.snd = Memory.newestFirst Instant.le (table.map Prod.snd)) ∧
    ∀ d : Relational.Database, d.Sound → d.records.Plain → Repository.ListedAlike d d.records := by
  refine ⟨?bytes, ?ascending, ?descending, ?listings⟩
  case bytes =>
    intro s t hs ht
    rw [Text.compare_bytes, Instant.compare_storedText hs ht]
  case ascending =>
    intro α time table out htable hplain hperm hout
    rw [htable.map_snd_of_ascending hperm hout, Memory.oldestFirst_textLe fun a ha => ?_]
    obtain ⟨r, hr, rfl⟩ := List.mem_map.mp ha
    exact hplain r hr
  case descending =>
    intro table out htable hplain hperm hout
    rw [htable.map_snd_of_descending hperm hout, Memory.newestFirst_textLe fun p hp => ?_]
    · rfl
    obtain ⟨r, hr, rfl⟩ := List.mem_map.mp hp
    exact hplain r hr
  case listings => exact fun d hd hplain => hd.listedAlike hplain

/-- Three pull requests, the second of them half a second earlier than the others: it comes first
in ascending order and last in descending order, and the order of the others turns round. -/
theorem queries_in_time_order_halfSecond :
    let late : Instant := { Sources.still.time with
      nano := 500000000, nano_lt := by decide, isLeap := by decide }
    let first : PullRequest := { smallPullRequest with id := "q", createdAt := late }
    let third : PullRequest := { smallPullRequest with id := "r", createdAt := late }
    compare (bytes Sources.still.time.storedText) (bytes late.storedText) = .lt ∧
      Memory.oldestFirst Instant.le PullRequest.createdAt [first, smallPullRequest, third] =
        [smallPullRequest, first, third] ∧
      Memory.newestFirst Instant.le [first, smallPullRequest, third] =
        [third, first, smallPullRequest] ∧
      Repository.teams (smallRun .relational).data =
        Repository.teams (Relational.Database.records (smallRun .relational).data) := by
  intro late first third
  obtain ⟨hbytes, holdest, hnewest, hlisted⟩ := queries_in_time_order
  have htable : Numbered [(1, first), (2, smallPullRequest), (3, third)] := by
    unfold Numbered
    decide
  have hplain : ∀ r ∈ [(1, first), (2, smallPullRequest), (3, third)], r.2.createdAt.IsPlain := by
    decide
  refine ⟨(hbytes _ _ (by decide) (by decide)).trans (by decide), ?ascending, ?descending, ?listing⟩
  case ascending =>
    exact (holdest PullRequest PullRequest.createdAt _
      [(2, smallPullRequest), (1, first), (3, third)] htable hplain (by decide +kernel)
      (by unfold Ascending; decide +kernel)).symm
  case descending =>
    exact (hnewest _ [(3, third), (1, first), (2, smallPullRequest)] htable hplain
      (by decide +kernel) (by unfold Descending; decide +kernel)).symm
  case listing =>
    exact (hlisted _ (sound_smallRun .relational) (by decide +kernel)).teams

end ReviewRota
