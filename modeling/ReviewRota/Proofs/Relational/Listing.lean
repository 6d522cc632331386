import ReviewRota.Proofs.ReadBack
import ReviewRota.Proofs.Stranded
import ReviewRota.Proofs.Traffic

/-!
# Listings of damaged tables

A database lists what it can read one by one, in a fixed order. Of the schema no more than the keys
is used, so that this holds of tables with any status codes and slot numbers, too.

* `Database.Keyed`: tables with the keys of the schema; `Keyed.forceStatus` and `Keyed.forceSlot`:
  damage does not touch them.
* `Database.selected`: the rows that a listing asks for, with a join for the slots of a user;
  `Keyed.joined_eq`: by the keys, no row comes twice.
* `Database.Newer`: the order of a listing; `Keyed.pairwise_newer`.
* `Keyed.assemble_congr`: what belongs to no row that is asked for does not count.
* **`listing_one_by_one`**: a listing is the list of its single reads, and fails if one of them
  does.
-/

namespace ReviewRota.Relational

namespace Database

variable {d : Database}

/-! ## Keys -/

/-- Tables in which no two pull requests have the same id, and no two slots of one pull request the
same number or the same user. -/
structure Keyed (d : Database) : Prop where
  ids : (d.pullRequests.map PullRequestRow.id).Nodup
  numbers : (d.slots.map fun r => (r.pullRequestId, r.number)).Nodup
  holders : (d.slots.map fun r => (r.pullRequestId, r.userId)).Nodup

theorem Sound.keyed (h : d.Sound) : d.Keyed :=
  ⟨h.ids, h.numbers, h.holders⟩

namespace Keyed

variable (h : d.Keyed)
include h

theorem forceStatus (id : String) (code : Int) : (d.forceStatus id code).2.Keyed := by
  refine ⟨?_, h.numbers, h.holders⟩
  have hids : (d.forceStatus id code).2.pullRequests.map PullRequestRow.id =
      d.pullRequests.map PullRequestRow.id := by
    refine List.map_map.trans (List.map_congr_left fun row _ => ?_)
    rw [Function.comp_apply]
    split <;> rfl
  rw [hids]
  exact h.ids

/-- A slot gets no number that another one of its pull request has. -/
theorem forceSlot (id : String) (number target : Int) : (d.forceSlot id number target).2.Keyed := by
  unfold Database.forceSlot
  dsimp only
  split
  · exact h
  rename_i hfree
  refine ⟨h.ids, ?_, ?_⟩
  case refine_1 =>
    dsimp only
    rw [List.map_map]
    refine List.Nodup.map_on (fun r hr s hs he => ?_) (List.Nodup.of_map _ h.numbers)
    have hinj : ∀ {r s : SlotRow}, r ∈ d.slots → s ∈ d.slots → r.pullRequestId = s.pullRequestId →
        r.number = s.number → r = s := fun hr hs he hn =>
      List.inj_on_of_nodup_map h.numbers hr hs (Prod.ext he hn)
    -- whoever has the target number already would be in the way
    have hother : ∀ {r s : SlotRow}, r ∈ d.slots → s ∈ d.slots → r.pullRequestId = id →
        s.pullRequestId = id → r.number = number → s.number = target → r = s := by
      intro r s hr hs hrid hsid hrn hsn
      by_cases hsame : number = target
      · exact hinj hr hs (hrid.trans hsid.symm) (hrn.trans (hsame.trans hsn.symm))
      · refine absurd ?_ hfree
        simp only [Bool.and_eq_true, Bool.not_eq_true', List.isEmpty_eq_false_iff_exists_mem,
          List.mem_filter, beq_iff_eq, bne_iff_ne, List.any_eq_true]
        exact ⟨⟨⟨r, hr, hrid, hrn⟩, hsame⟩, s, hs, hsid, hsn⟩
    have hof : ∀ {r s : SlotRow}, (r.pullRequestId, r.number) = (s.pullRequestId, s.number) →
        r.pullRequestId = s.pullRequestId ∧ r.number = s.number := Prod.mk.inj
    simp only [Function.comp_apply] at he
    by_cases hrc : r.pullRequestId = id ∧ r.number = number <;>
      by_cases hsc : s.pullRequestId = id ∧ s.number = number
    · exact hinj hr hs (hrc.1.trans hsc.1.symm) (hrc.2.trans hsc.2.symm)
    · rw [if_pos hrc, if_neg hsc] at he
      obtain ⟨he, hn⟩ := hof he
      exact hother hr hs hrc.1 (he.symm.trans hrc.1) hrc.2 hn.symm
    · rw [if_neg hrc, if_pos hsc] at he
      obtain ⟨he, hn⟩ := hof he
      exact (hother hs hr hsc.1 (he.trans hsc.1) hsc.2 hn).symm
    · rw [if_neg hrc, if_neg hsc] at he
      obtain ⟨he, hn⟩ := hof he
      exact hinj hr hs he hn
  case refine_2 =>
    have hholders : (d.slots.map fun r =>
        if r.pullRequestId = id ∧ r.number = number then { r with number := target } else r).map
          (fun r => (r.pullRequestId, r.userId)) =
        d.slots.map fun r => (r.pullRequestId, r.userId) := by
      refine List.map_map.trans (List.map_congr_left fun r _ => ?_)
      rw [Function.comp_apply]
      split <;> rfl
    dsimp only
    rw [hholders]
    exact h.holders

end Keyed

/-! ## Rows that are asked for -/

/-- The rows of pull requests joined with the slots of a user: a row comes once for each of them. -/
def joined (d : Database) (user : String) : List PullRequestRow :=
  d.pullRequests.flatMap fun row =>
    ((d.slotRows row.id).filter (·.userId == user)).map fun _ => row

/-- The rows that a listing asks for: all of them or those joined with a user, with one stored code
if a status is given. -/
def selected (d : Database) (user : Option String) (status : Option Status) :
    List PullRequestRow :=
  (match user with
    | none => d.pullRequests
    | some user => d.joined user).filter fun row => passes (status.map Status.code) row.statusCode

/-- The listing of all pull requests, or of those that a user reviews. -/
def listing (d : Database) (user : Option String) (status : Option Status) :
    Except Fault (List PullRequest) :=
  match user with
  | none => Repository.pullRequests status d
  | some user => Repository.assignedTo user status d

/-! ## Order -/

/-- The place of a row in the order of insertion. -/
def rowNumber (d : Database) (row : PullRequestRow) : Nat :=
  d.pullRequests.idxOf row

/-- The order of a listing: the text of the creation time decides, the greater one first, and
between equal ones the order of insertion, the later one first. -/
def Newer (d : Database) (a b : PullRequestRow) : Prop :=
  b.createdAt.storedText < a.createdAt.storedText ∨
    b.createdAt.storedText = a.createdAt.storedText ∧ d.rowNumber b < d.rowNumber a

namespace Keyed

variable (h : d.Keyed)
include h

theorem length_filter_slotRows_le (id user : String) :
    ((d.slotRows id).filter (·.userId == user)).length ≤ 1 := by
  have hsame : ∀ r ∈ (d.slotRows id).filter (·.userId == user),
      (r.pullRequestId, r.userId) = (id, user) := by
    intro r hr
    obtain ⟨hr, hu⟩ := List.mem_filter.mp hr
    exact Prod.ext (mem_slotRows.mp hr).2 (beq_iff_eq.mp hu)
  have hnodup : (((d.slotRows id).filter (·.userId == user)).map
      fun r => (r.pullRequestId, r.userId)).Nodup :=
    h.holders.sublist ((List.filter_sublist.trans List.filter_sublist).map _)
  rw [List.map_eq_replicate_iff.mpr hsame] at hnodup
  exact List.nodup_replicate.mp hnodup

/-- **By the keys, a join with the slots of a user repeats no row.** -/
theorem joined_eq (user : String) :
    d.joined user = d.pullRequests.filter fun row =>
      d.slots.any fun r => r.pullRequestId == row.id && r.userId == user := by
  have hone : ∀ row : PullRequestRow, ((d.slotRows row.id).filter (·.userId == user)).map
      (fun _ => row) = if (d.slots.any fun r => r.pullRequestId == row.id && r.userId == user)
        then [row] else [] := by
    intro row
    have hany : (d.slots.any fun r => r.pullRequestId == row.id && r.userId == user) =
        ((d.slotRows row.id).filter (·.userId == user)).any fun _ => true := by
      rw [slotRows, List.any_filter, List.any_filter]
      simp
    have hlen := h.length_filter_slotRows_le row.id user
    rw [hany]
    generalize (d.slotRows row.id).filter (·.userId == user) = rows at hlen
    cases rows with
    | nil => rfl
    | cons r rest =>
      obtain rfl := List.eq_nil_of_length_eq_zero (Nat.le_zero.mp (Nat.le_of_succ_le_succ hlen))
      rfl
  rw [joined, List.flatMap_congr fun row _ => hone row]
  induction d.pullRequests with
  | nil => rfl
  | cons row rows ih =>
    rw [List.flatMap_cons, List.filter_cons, ih]
    split <;> rfl

theorem sublist_selected (user : Option String) (status : Option Status) :
    (d.selected user status).Sublist d.pullRequests := by
  unfold selected
  cases user with
  | none => exact List.filter_sublist
  | some user =>
    dsimp only
    rw [h.joined_eq]
    exact List.filter_sublist.trans List.filter_sublist

theorem listing_eq (user : Option String) (status : Option Status) :
    d.listing user status = seen (d.assemble (newestFirst (d.selected user status))) := by
  unfold listing selected
  cases user with
  | none => rfl
  | some user =>
    dsimp only
    rw [h.joined_eq, List.filter_filter]
    refine congrArg (fun keep => seen (d.assemble (newestFirst (d.pullRequests.filter keep)))) ?_
    exact funext fun row => Bool.and_comm ..

/-- **Rows come in the order of a listing**, each of them once. -/
theorem pairwise_newer {rows : List PullRequestRow} (hrows : rows.Sublist d.pullRequests) :
    (newestFirst rows).Pairwise d.Newer := by
  have hplaces : d.pullRequests.Pairwise fun a b => d.rowNumber a < d.rowNumber b :=
    pairwise_idxOf (List.Nodup.of_map _ h.ids)
  have hsorted := pairwise_sortBy_stable
    (Instant.isPreorder_textLe.swap.comap PullRequestRow.createdAt)
    (List.pairwise_reverse.mpr (hplaces.sublist hrows))
  refine hsorted.imp fun {a b} hab => ?_
  simp only [Instant.textLe, decide_eq_true_eq] at hab
  by_cases hlt : b.createdAt.storedText < a.createdAt.storedText
  · exact .inl hlt
  · have hle := String.not_lt.mp hlt
    exact .inr ⟨String.le_antisymm hab.1 hle, hab.2 hle⟩

/-! ## Reads -/

theorem pullRequest_eq_ok {row : PullRequestRow} (hrow : row ∈ d.pullRequests) {p : PullRequest} :
    Repository.pullRequest false row.id d = .ok p ↔ d.load row = .ok p := by
  have hfind : d.pullRequests.find? (·.id == row.id) = some row :=
    (find?_key_eq_some_iff h.ids).mpr ⟨hrow, rfl⟩
  refine seen_eq_ok.trans ((findPullRequest_eq_ok).trans ?_)
  rw [hfind]
  simp

theorem reviewers_of_load {row : PullRequestRow} {p : PullRequest} (hp : d.load row = .ok p) :
    p.Ranked ∧ (p.reviewers.map SlotRow.ofSlot).Perm (d.slotRows p.id) := by
  obtain ⟨hread, hp⟩ := load_eq_ok.mp hp
  obtain ⟨status, -, rfl⟩ := PullRequestRow.toPullRequest_eq_ok hp
  refine ⟨pairwise_slotsOf h.numbers hread, ?_⟩
  have hback : (d.slotRows row.id).map (SlotRow.ofSlot ∘ SlotRow.slot) = d.slotRows row.id := by
    refine (List.map_congr_left fun r hr => ?_).trans (List.map_id _)
    rw [Function.comp_apply, SlotRow.ofSlot, toNat_number_slot (hread r hr)]
    rfl
  have hperm := (perm_slotsOf (d := d) row.id).map SlotRow.ofSlot
  rwa [List.map_map, hback] at hperm

/-- **What belongs to no row that is asked for does not count**, not even for the failure. -/
theorem assemble_congr {d' : Database} (h' : d'.Keyed) {rows : List PullRequestRow}
    (hslots : ∀ row ∈ rows, (d'.slotRows row.id).Perm (d.slotRows row.id)) :
    d'.assemble rows = d.assemble rows := by
  have hperm : (d'.chosenSlots rows).Perm (d.chosenSlots rows) := by
    refine (List.perm_ext_iff_of_nodup ?_ ?_).mpr fun r => ?_
    · exact (List.Nodup.of_map _ h'.numbers).filter _
    · exact (List.Nodup.of_map _ h.numbers).filter _
    · rw [mem_chosenSlots, mem_chosenSlots]
      exact exists_congr fun row => and_congr_right fun hrow => (hslots row hrow).mem_iff
  have hsort : sortBy slotOrder (d'.chosenSlots rows) = sortBy slotOrder (d.chosenSlots rows) := by
    refine sortBy_congr_perm isPreorder_slotOrder hperm fun r hr s hs hrs hsr => ?_
    have he := eq_of_slotOrder hrs hsr
    obtain ⟨_, -, hr⟩ := mem_chosenSlots.mp hr
    obtain ⟨_, -, hs⟩ := mem_chosenSlots.mp hs
    exact List.inj_on_of_nodup_map h'.numbers (mem_slotRows.mp hr).1 (mem_slotRows.mp hs).1 he
  unfold assemble
  exact congrArg (fun rows' => rows'.mapM SlotRow.toSlot >>= fun slots => rows.mapM fun row =>
    row.toPullRequest (slots.filter (·.pullRequestId == row.id))) hsort

theorem listing_eq_ok {user : Option String} {status : Option Status} {ps : List PullRequest} :
    d.listing user status = .ok ps ↔
      (newestFirst (d.selected user status)).mapM d.load = .ok ps := by
  rw [h.listing_eq, seen_eq_ok, assemble_eq_ok]

end Keyed

/-! ## Listings and single reads -/

/-- **A listing is the list of its single reads**, over damaged rows, too. It is there if and only
if each pull request that it asks for can be read by its id, and then it consists of what is read:
each of them once, the one with the greater text of the creation time first and of several such the
one that was inserted later, with all its slots by number. Rows that it does not ask for do not
count, whatever they hold. -/
theorem listing_one_by_one (h : d.Keyed) (user : Option String) (status : Option Status) :
    ∃ rows : List PullRequestRow, rows.Perm (d.selected user status) ∧ rows.Pairwise d.Newer ∧
      ((∃ ps, d.listing user status = .ok ps) ↔
        ∀ row ∈ rows, ∃ p, Repository.pullRequest false row.id d = .ok p) ∧
      (∀ ps, d.listing user status = .ok ps →
        ps.map .ok = rows.map (fun row => Repository.pullRequest false row.id d) ∧
          ∀ p ∈ ps, p.Ranked ∧ (p.reviewers.map SlotRow.ofSlot).Perm (d.slotRows p.id)) ∧
      ∀ d' : Database, d'.Keyed → d'.selected user status = d.selected user status →
        (∀ row ∈ rows, (d'.slotRows row.id).Perm (d.slotRows row.id)) →
          d'.listing user status = d.listing user status := by
  have hperm : (newestFirst (d.selected user status)).Perm (d.selected user status) :=
    (perm_sortBy _ _).trans (List.reverse_perm _)
  have hsub := h.sublist_selected user status
  -- by the keys, a single read finds the row that the listing loads
  have hread : ∀ row ∈ newestFirst (d.selected user status), ∀ p,
      Repository.pullRequest false row.id d = .ok p ↔ d.load row = .ok p := fun row hrow p =>
    h.pullRequest_eq_ok (hsub.subset (hperm.subset hrow))
  refine ⟨_, hperm, h.pairwise_newer hsub, ?succeeds, ?result, ?frame⟩
  case succeeds =>
    simp only [h.listing_eq_ok, exists_mapM_eq_ok]
    exact forall₂_congr fun row hrow => exists_congr fun p => (hread row hrow p).symm
  case result =>
    intro ps hps
    have hps := h.listing_eq_ok.mp hps
    have hloads : (newestFirst (d.selected user status)).map d.load = ps.map .ok :=
      mapM_eq_ok_iff.mp hps
    refine ⟨?_, fun p hp => ?_⟩
    · have hreads : ∀ row ∈ newestFirst (d.selected user status),
          Repository.pullRequest false row.id d = seen (d.load row) := fun row hrow => by
        obtain ⟨p, hp⟩ := exists_mapM_eq_ok.mp ⟨ps, hps⟩ row hrow
        rw [hp, (hread row hrow p).mpr hp]
        rfl
      calc ps.map .ok
        _ = (ps.map .ok).map seen := by
          rw [List.map_map]
          rfl
        _ = (newestFirst (d.selected user status)).map (seen ∘ d.load) := by
          rw [← hloads, List.map_map]
        _ = _ := (List.map_congr_left hreads).symm
    · have hmem : Except.ok p ∈ (newestFirst (d.selected user status)).map d.load :=
        hloads ▸ List.mem_map_of_mem hp
      obtain ⟨row, -, hrow⟩ := List.mem_map.mp hmem
      exact h.reviewers_of_load hrow
  case frame =>
    intro d' h' hsel hslots
    rw [h'.listing_eq, h.listing_eq, hsel, h.assemble_congr h' hslots]

/-- The tables of the busy team, where the newer pull request has got a status code that stands for
nothing and its slot a number below 0. The older one is read as it was. -/
def chippedTables : Database :=
  ((Database.forceStatus (busyRun .relational).data "q" 9).2.forceSlot "q" 1 (-7)).2

theorem keyed_chippedTables : chippedTables.Keyed :=
  ((sound_busyRun .relational).keyed.forceStatus "q" 9).forceSlot "q" 1 (-7)

/-- The third member reviews the older pull request alone: it is listed as before the damage, which
makes the listing of both fail. -/
theorem listing_one_by_one_chippedTables :
    (¬ ∃ ps, chippedTables.listing none none = .ok ps) ∧
      ∃ p, Repository.pullRequest false "p" chippedTables = .ok p ∧ p.Ranked ∧
        chippedTables.listing (some "c") none = .ok [p] ∧
        Database.listing (busyRun .relational).data (some "c") none = .ok [p] := by
  constructor
  · obtain ⟨rows, hperm, -, hsucceeds, -⟩ := listing_one_by_one keyed_chippedTables none none
    rw [hsucceeds]
    intro hall
    obtain ⟨row, hrow, hid⟩ : ∃ row ∈ chippedTables.selected none none, row.id = "q" := by
      decide +kernel
    obtain ⟨p, hp⟩ := hall row (hperm.mem_iff.mpr hrow)
    rw [hid] at hp
    have hfault : (Repository.pullRequest false "q" chippedTables).toOption = none := by
      decide +kernel
    rw [hp] at hfault
    cases hfault
  · obtain ⟨rows, hperm, -, hsucceeds, hresult, hframe⟩ :=
      listing_one_by_one keyed_chippedTables (some "c") none
    have hselected : chippedTables.selected (some "c") none =
        [⟨"p", "Fix", "a", 1, Sources.still.time, none⟩] := by decide +kernel
    rw [hselected, List.perm_singleton] at hperm
    subst hperm
    obtain ⟨p, hp⟩ : ∃ p, Repository.pullRequest false "p" chippedTables = .ok p :=
      ⟨⟨"p", "Fix", "a", .opened, Sources.still.time, none,
        [⟨"p", 1, "b", Sources.still.time⟩, ⟨"p", 2, "c", Sources.still.time⟩]⟩, by decide +kernel⟩
    rw [List.forall_mem_singleton] at hsucceeds
    obtain ⟨ps, hps⟩ := hsucceeds.mpr ⟨p, hp⟩
    obtain ⟨hreads, hslots⟩ := hresult ps hps
    rw [List.map_singleton, hp] at hreads
    obtain ⟨q, rfl, hq⟩ := List.map_eq_singleton_iff.mp hreads
    obtain rfl := Except.ok.inj hq
    have hsame : Database.slotRows (busyRun .relational).data "p" = chippedTables.slotRows "p" := by
      decide +kernel
    have hbefore := hframe (busyRun .relational).data (Sound.keyed (sound_busyRun .relational))
      (by rw [hselected]; decide +kernel) fun row hrow => by
        rw [List.mem_singleton.mp hrow]
        exact .of_eq hsame
    exact ⟨q, hp, (hslots q (List.mem_singleton_self q)).1, hps, hbefore.trans hps⟩

end Database

end ReviewRota.Relational
