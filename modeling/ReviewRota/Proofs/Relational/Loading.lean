import Mathlib.Data.Set.List
import ReviewRota.Proofs.Relational.Records

/-!
# Loading pull requests

Many pull requests are loaded by two queries: all their slots are decoded first, and then dealt out
to the rows. A single one is loaded in the same way from one row.

* `bind_eq_ok`, `mapM_eq_ok_iff`: a computation of several steps succeeds if each of them does.
* `Database.load`: a pull request from its row and from the slot rows that name it.
* **`Database.assemble_eq_ok`**: loading many succeeds if and only if each can be loaded on its own,
  and gives the same.
* `Database.findPullRequest_eq_ok`: a single pull request.
* **`Database.Sound.assemble_eq`**: in sound tables every row can be loaded, as its record.
-/

namespace ReviewRota.Relational

/-! ## Several steps -/

section

variable {ε α β : Type}

theorem bind_eq_ok {x : Except ε α} {f : α → Except ε β} {b : β} :
    (x >>= f) = .ok b ↔ ∃ a, x = .ok a ∧ f a = .ok b := by
  cases x <;> simp [bind, Except.bind]

theorem mapM_eq_ok_iff {f : α → Except ε β} {l : List α} {bs : List β} :
    l.mapM f = .ok bs ↔ l.map f = bs.map .ok := by
  induction l generalizing bs with
  | nil =>
    rw [List.mapM_nil, List.map_nil]
    change Except.ok [] = Except.ok bs ↔ _
    rw [Except.ok.injEq, eq_comm, eq_comm (a := []), List.map_eq_nil_iff]
  | cons a l ih =>
    rw [List.mapM_cons, List.map_cons, bind_eq_ok]
    constructor
    · rintro ⟨b, hb, he⟩
      obtain ⟨bs, hbs, he⟩ := bind_eq_ok.mp he
      cases he
      rw [hb, ih.mp hbs, List.map_cons]
    · intro h
      cases bs with
      | nil => cases h
      | cons b bs =>
        obtain ⟨hb, hbs⟩ := List.cons.inj h
        exact ⟨b, hb, bind_eq_ok.mpr ⟨bs, ih.mpr hbs, rfl⟩⟩

theorem mapM_congr {f g : α → Except ε β} {l : List α} (h : ∀ a ∈ l, f a = g a) :
    l.mapM f = l.mapM g := by
  induction l with
  | nil => rfl
  | cons a l ih =>
    rw [List.forall_mem_cons] at h
    rw [List.mapM_cons, List.mapM_cons, h.1, ih h.2]

theorem mapM_eq_ok {f : α → Except ε β} {g : α → β} {l : List α} (h : ∀ a ∈ l, f a = .ok (g a)) :
    l.mapM f = .ok (l.map g) := by
  rw [mapM_eq_ok_iff, List.map_map]
  exact List.map_congr_left h

theorem exists_mapM_eq_ok {f : α → Except ε β} {l : List α} :
    (∃ bs, l.mapM f = .ok bs) ↔ ∀ a ∈ l, ∃ b, f a = .ok b := by
  have hrange : l.map f ∈ Set.range (List.map Except.ok) ↔
      ∀ a ∈ l, f a ∈ Set.range (Except.ok : β → Except ε β) := by
    rw [Set.range_list_map, ← List.forall_mem_map]
    rfl
  calc (∃ bs, l.mapM f = .ok bs)
    _ ↔ l.map f ∈ Set.range (List.map Except.ok) :=
      exists_congr fun bs => mapM_eq_ok_iff.trans eq_comm
    _ ↔ ∀ a ∈ l, f a ∈ Set.range (Except.ok : β → Except ε β) := hrange
    _ ↔ ∀ a ∈ l, ∃ b, f a = .ok b := forall₂_congr fun a _ => exists_congr fun b => eq_comm

end

/-! ## Rows -/

theorem SlotRow.toSlot_eq_ok {row : SlotRow} {slot : ReviewerSlot} :
    row.toSlot = .ok slot ↔ row.Readable ∧ row.slot = slot := by
  unfold SlotRow.toSlot
  split
  · rename_i h
    rw [Except.ok.injEq]
    exact (and_iff_right h).symm
  · rename_i h
    exact iff_of_false nofun fun hr => h hr.1

theorem SlotRow.readable_ofSlot (slot : ReviewerSlot) : (SlotRow.ofSlot slot).Readable :=
  ⟨Int.natCast_nonneg _, Int.ofNat_lt.mpr slot.number.toNat_lt⟩

theorem mapM_toSlot_eq_ok {rows : List SlotRow} {slots : List ReviewerSlot} :
    rows.mapM SlotRow.toSlot = .ok slots ↔
      (∀ r ∈ rows, r.Readable) ∧ slots = rows.map SlotRow.slot := by
  have hall : (∀ r ∈ rows, r.Readable) → rows.mapM SlotRow.toSlot = .ok (rows.map SlotRow.slot) :=
    fun hread => mapM_eq_ok fun r hr => SlotRow.toSlot_eq_ok.mpr ⟨hread r hr, rfl⟩
  constructor
  · intro h
    have hread : ∀ r ∈ rows, r.Readable := fun r hr => by
      obtain ⟨slot, hslot⟩ := exists_mapM_eq_ok.mp ⟨slots, h⟩ r hr
      exact (SlotRow.toSlot_eq_ok.mp hslot).1
    exact ⟨hread, Except.ok.inj (h.symm.trans (hall hread))⟩
  · rintro ⟨hread, rfl⟩
    exact hall hread

theorem PullRequestRow.toPullRequest_eq_ok {row : PullRequestRow} {slots : List ReviewerSlot}
    {p : PullRequest} (h : row.toPullRequest slots = .ok p) :
    ∃ status, statusOfCode row.statusCode = .ok status ∧
      p = ⟨row.id, row.title, row.authorId, status, row.createdAt, row.mergedAt, slots⟩ := by
  obtain ⟨status, hstatus, hp⟩ := bind_eq_ok.mp h
  exact ⟨status, hstatus, (Except.ok.inj hp).symm⟩

theorem PullRequestRow.toPullRequest_ofPullRequest (p : PullRequest) (slots : List ReviewerSlot) :
    (PullRequestRow.ofPullRequest p).toPullRequest slots = .ok { p with reviewers := slots } := by
  unfold PullRequestRow.toPullRequest PullRequestRow.ofPullRequest
  dsimp only
  rw [statusOfCode_code]
  rfl

/-! ## Many pull requests and single ones -/

namespace Database

variable {d : Database}

/-- A pull request from its row and from the slot rows that name it. -/
def load (d : Database) (row : PullRequestRow) : Except Failure PullRequest := do
  let slots ← (sortBy slotOrder (d.slotRows row.id)).mapM SlotRow.toSlot
  row.toPullRequest slots

/-- The slot rows that name one of some rows. -/
def chosenSlots (d : Database) (rows : List PullRequestRow) : List SlotRow :=
  d.slots.filter fun r => rows.any (·.id == r.pullRequestId)

theorem mem_chosenSlots {rows : List PullRequestRow} {r : SlotRow} :
    r ∈ d.chosenSlots rows ↔ ∃ row ∈ rows, r ∈ d.slotRows row.id := by
  simp only [chosenSlots, List.mem_filter, List.any_eq_true, beq_iff_eq, mem_slotRows]
  constructor
  · rintro ⟨hr, row, hrow, he⟩
    exact ⟨row, hrow, hr, he.symm⟩
  · rintro ⟨row, hrow, hr, he⟩
    exact ⟨hr, row, hrow, he.symm⟩

/-- The slots of one row, picked out of the slots of all rows: they are sorted by pull request
first, which sorts those of each by number. -/
theorem filter_chosenSlots {rows : List PullRequestRow} {row : PullRequestRow} (hrow : row ∈ rows) :
    ((sortBy slotOrder (d.chosenSlots rows)).map SlotRow.slot).filter
        (·.pullRequestId == row.id) = d.slotsOf row.id := by
  rw [List.filter_map]
  change ((sortBy slotOrder _).filter fun r => r.pullRequestId == row.id).map _ = _
  rw [filter_sortBy isPreorder_slotOrder, chosenSlots, List.filter_filter]
  have hfilter : (d.slots.filter fun r =>
      r.pullRequestId == row.id && rows.any (·.id == r.pullRequestId)) = d.slotRows row.id := by
    refine List.filter_congr fun r _ => ?_
    by_cases hr : r.pullRequestId = row.id
    · have hany : (rows.any (·.id == r.pullRequestId)) = true :=
        List.any_eq_true.mpr ⟨row, hrow, by simp [hr]⟩
      rw [hany, Bool.and_true]
    · simp [hr]
  rw [hfilter, sortBy_slotOrder, slotsOf]

theorem load_of_readable {row : PullRequestRow} (h : ∀ r ∈ d.slotRows row.id, r.Readable) :
    d.load row = row.toPullRequest (d.slotsOf row.id) := by
  have hslots : (sortBy slotOrder (d.slotRows row.id)).mapM SlotRow.toSlot =
      .ok ((sortBy slotOrder (d.slotRows row.id)).map SlotRow.slot) :=
    mapM_toSlot_eq_ok.mpr ⟨fun r hr => h r (mem_sortBy.mp hr), rfl⟩
  rw [load, hslots, sortBy_slotOrder]
  rfl

theorem load_eq_ok {row : PullRequestRow} {p : PullRequest} :
    d.load row = .ok p ↔ (∀ r ∈ d.slotRows row.id, r.Readable) ∧
      row.toPullRequest (d.slotsOf row.id) = .ok p := by
  constructor
  · intro hp
    obtain ⟨slots, hslots, -⟩ := bind_eq_ok.mp hp
    have hread := (mapM_toSlot_eq_ok.mp hslots).1
    simp only [mem_sortBy] at hread
    exact ⟨hread, load_of_readable hread ▸ hp⟩
  · rintro ⟨hread, hp⟩
    exact (load_of_readable hread).trans hp

theorem pairwise_slotsOf (hkeys : (d.slots.map fun r => (r.pullRequestId, r.number)).Nodup)
    {id : String} (hread : ∀ r ∈ d.slotRows id, r.Readable) :
    ((d.slotsOf id).map ReviewerSlot.number).Pairwise (· < ·) := by
  have hdistinct : ((d.slotRows id).map SlotRow.number).Nodup := by
    refine List.Nodup.map_on (fun r hr s hs he => ?_) ((List.Nodup.of_map _ hkeys).filter _)
    obtain ⟨hr, hrid⟩ := mem_slotRows.mp hr
    obtain ⟨hs, hsid⟩ := mem_slotRows.mp hs
    exact List.inj_on_of_nodup_map hkeys hr hs (Prod.ext (hrid.trans hsid.symm) he)
  have hle := pairwise_sortBy (isPreorder_key SlotRow.number) (d.slotRows id)
  have hne := List.pairwise_map.mp (((perm_sortBy
    (fun a b : SlotRow => a.number ≤ b.number) (d.slotRows id)).map _).nodup_iff.mpr hdistinct)
  rw [slotsOf, List.map_map]
  refine List.pairwise_map.mpr ((hle.and hne).imp_of_mem fun {r s} hr hs hrs => ?_)
  have hr := toNat_number_slot (hread r (mem_sortBy.mp hr))
  have hs := toNat_number_slot (hread s (mem_sortBy.mp hs))
  have hle := of_decide_eq_true hrs.1
  have hne := hrs.2
  rw [Function.comp_apply, Function.comp_apply, UInt32.lt_iff_toNat_lt]
  omega

/-- **Loading many pull requests succeeds if and only if each can be loaded on its own**, and gives
the same. Only the first failure may be a different one. -/
theorem assemble_eq_ok {rows : List PullRequestRow} {ps : List PullRequest} :
    d.assemble rows = .ok ps ↔ rows.mapM d.load = .ok ps := by
  have hdeal : (∀ r ∈ d.chosenSlots rows, r.Readable) →
      (rows.mapM fun row => row.toPullRequest
        (((sortBy slotOrder (d.chosenSlots rows)).map SlotRow.slot).filter
          (·.pullRequestId == row.id))) = rows.mapM d.load := by
    intro hread
    refine mapM_congr fun row hrow => ?_
    rw [filter_chosenSlots hrow, load_of_readable fun r hr =>
      hread r (mem_chosenSlots.mpr ⟨row, hrow, hr⟩)]
  have hsteps : d.assemble rows = .ok ps ↔
      ∃ slots, (sortBy slotOrder (d.chosenSlots rows)).mapM SlotRow.toSlot = .ok slots ∧
        (rows.mapM fun row => row.toPullRequest (slots.filter (·.pullRequestId == row.id))) =
          .ok ps := bind_eq_ok
  simp only [hsteps, mapM_toSlot_eq_ok, mem_sortBy]
  constructor
  · rintro ⟨_, ⟨hread, rfl⟩, hps⟩
    rwa [← hdeal hread]
  · intro hps
    have hread : ∀ r ∈ d.chosenSlots rows, r.Readable := by
      intro r hr
      obtain ⟨row, hrow, hr⟩ := mem_chosenSlots.mp hr
      obtain ⟨p, hp⟩ := exists_mapM_eq_ok.mp ⟨ps, hps⟩ row hrow
      exact (load_eq_ok.mp hp).1 r hr
    exact ⟨_, ⟨hread, rfl⟩, (hdeal hread).trans hps⟩

theorem findPullRequest_eq_ok {id : String} {p : PullRequest} :
    d.findPullRequest id = .ok p ↔
      ∃ row, d.pullRequests.find? (·.id == id) = some row ∧ d.load row = .ok p := by
  unfold findPullRequest
  cases d.pullRequests.find? (·.id == id) with
  | none => exact iff_of_false nofun fun ⟨_, hrow, _⟩ => nomatch hrow
  | some row =>
    simp only [Option.some.injEq, exists_eq_left']
    rw [bind_eq_ok]
    simp only [assemble_eq_ok, mapM_eq_ok_iff]
    constructor
    · rintro ⟨ps, hps, he⟩
      obtain ⟨q, rfl, hq⟩ := List.map_eq_singleton_iff.mp hps.symm
      cases he
      exact hq.symm
    · intro hp
      exact ⟨[p], congrArg (fun x => [x]) hp, rfl⟩

/-! ## Sound tables -/

namespace Sound

variable (h : d.Sound)
include h

theorem toPullRequest_eq {row : PullRequestRow} (hrow : row ∈ d.pullRequests)
    (slots : List ReviewerSlot) :
    row.toPullRequest slots =
      .ok ⟨row.id, row.title, row.authorId, row.status, row.createdAt, row.mergedAt, slots⟩ := by
  unfold PullRequestRow.toPullRequest PullRequestRow.status statusOfCode
  rcases h.codes row hrow with hc | hc <;> rw [hc] <;> rfl

theorem load_eq {row : PullRequestRow} (hrow : row ∈ d.pullRequests) :
    d.load row = .ok (d.record row) := by
  rw [load_of_readable fun r hr => h.readable (mem_slotRows.mp hr).1, h.toPullRequest_eq hrow]
  rfl

/-- **The queries for rows and slots give the records of the rows.** -/
theorem assemble_eq {rows : List PullRequestRow} (hrows : ∀ row ∈ rows, row ∈ d.pullRequests) :
    d.assemble rows = .ok (rows.map d.record) :=
  assemble_eq_ok.mpr (mapM_eq_ok fun row hrow => h.load_eq (hrows row hrow))

end Sound

end Database

end ReviewRota.Relational
