import Mathlib.Data.List.Nodup
import ReviewRota.Proofs.Integrity
import ReviewRota.Relational.Store

/-!
# The records in a database

A database whose rows satisfy the schema is a way to write down the records of a ledger: each pull
request is a row, and its slots are the rows that name it, read by number.

* `Database.Sound`: the schema, with codes and numbers that can be read back.
* `Database.records`: the records that a database holds; **`Database.Sound.integrity`**.
* `Database.Sound.userLoad_eq`: the join for the load of a user counts the records.
-/

namespace ReviewRota

/-- Not later, by the text of a database column. -/
def Instant.textLe (s t : Instant) : Bool :=
  s.storedText ≤ t.storedText

theorem Instant.isPreorder_textLe : IsPreorder Instant.textLe :=
  isPreorder_key Instant.storedText

namespace Relational

open Memory (Fits)

/-- The slot of a row whose number can be read. -/
def SlotRow.slot (row : SlotRow) : ReviewerSlot :=
  ⟨row.pullRequestId, UInt32.ofNat row.number.toNat, row.userId, row.assignedAt⟩

/-- A row whose number can be read. -/
def SlotRow.Readable (row : SlotRow) : Prop :=
  0 ≤ row.number ∧ row.number < 4294967296

/-- The status of a row whose code can be read. -/
def PullRequestRow.status (row : PullRequestRow) : Status :=
  if row.statusCode = 1 then .opened else .merged

/-- Tables as the schema keeps them. -/
structure Database.Sound (d : Database) : Prop where
  teamIds : (d.teams.map Team.id).Nodup
  teamNames : (d.teams.map Team.name).Nodup
  userIds : (d.users.map User.id).Nodup
  userTeams : ∀ user ∈ d.users, ∃ team ∈ d.teams, team.id = user.teamId
  ids : (d.pullRequests.map PullRequestRow.id).Nodup
  authors : ∀ row ∈ d.pullRequests, ∃ user ∈ d.users, user.id = row.authorId
  codes : ∀ row ∈ d.pullRequests, row.statusCode = 1 ∨ row.statusCode = 2
  numbers : (d.slots.map fun r => (r.pullRequestId, r.number)).Nodup
  holders : (d.slots.map fun r => (r.pullRequestId, r.userId)).Nodup
  range : ∀ r ∈ d.slots, 1 ≤ r.number ∧ r.number < 4294967296
  owned : ∀ r ∈ d.slots, ∃ row ∈ d.pullRequests, row.id = r.pullRequestId
  held : ∀ r ∈ d.slots, ∃ user ∈ d.users, user.id = r.userId

namespace Database

variable (d : Database)

/-- The slot rows of a pull request. -/
def slotRows (id : String) : List SlotRow :=
  d.slots.filter (·.pullRequestId == id)

/-- The slots of a pull request, by number. -/
def slotsOf (id : String) : List ReviewerSlot :=
  (sortBy (fun a b => a.number ≤ b.number) (d.slotRows id)).map SlotRow.slot

/-- The pull request of a row. -/
def record (row : PullRequestRow) : PullRequest :=
  ⟨row.id, row.title, row.authorId, row.status, row.createdAt, row.mergedAt, d.slotsOf row.id⟩

/-- The records of a database. -/
def records : Memory :=
  ⟨d.teams, d.users, d.pullRequests.map d.record⟩

/-! ## Orders -/

theorem slotOrder_iff {a b : SlotRow} :
    slotOrder a b = true ↔
      a.pullRequestId < b.pullRequestId ∨
        a.pullRequestId = b.pullRequestId ∧ a.number ≤ b.number := by
  simp [slotOrder]

theorem isPreorder_slotOrder : IsPreorder slotOrder where
  total a b := by
    simp only [slotOrder_iff]
    by_cases hab : a.pullRequestId < b.pullRequestId
    · exact .inl (.inl hab)
    by_cases hba : b.pullRequestId < a.pullRequestId
    · exact .inr (.inl hba)
    have he : a.pullRequestId = b.pullRequestId :=
      String.le_antisymm (String.not_lt.mp hba) (String.not_lt.mp hab)
    rcases Int.le_total a.number b.number with hn | hn
    · exact .inl (.inr ⟨he, hn⟩)
    · exact .inr (.inr ⟨he.symm, hn⟩)
  trans {a b c} hab hbc := by
    rw [slotOrder_iff] at *
    rcases hab with hab | ⟨he, hn⟩ <;> rcases hbc with hbc | ⟨he', hn'⟩
    · exact .inl (String.lt_trans hab hbc)
    · exact .inl (he' ▸ hab)
    · exact .inl (he ▸ hbc)
    · exact .inr ⟨he.trans he', Int.le_trans hn hn'⟩

theorem eq_of_slotOrder {r s : SlotRow} (hrs : slotOrder r s = true) (hsr : slotOrder s r = true) :
    (r.pullRequestId, r.number) = (s.pullRequestId, s.number) := by
  rw [slotOrder_iff] at hrs hsr
  have hirr : ∀ {a b : String}, a < b → ¬ b < a := fun hab hba =>
    String.lt_irrefl _ (String.lt_trans hab hba)
  rcases hrs with hlt | ⟨he, hle⟩ <;> rcases hsr with hlt' | ⟨he', hle'⟩
  · exact absurd hlt' (hirr hlt)
  · exact absurd (he' ▸ hlt) (String.lt_irrefl _)
  · exact absurd (he ▸ hlt') (String.lt_irrefl _)
  · exact Prod.ext he (Int.le_antisymm hle hle')

/-! ## Rows of one pull request -/

variable {d}

theorem mem_slotRows {id : String} {r : SlotRow} :
    r ∈ d.slotRows id ↔ r ∈ d.slots ∧ r.pullRequestId = id := by
  simp [slotRows]

theorem sortBy_slotOrder (id : String) :
    sortBy slotOrder (d.slotRows id) =
      sortBy (fun a b => a.number ≤ b.number) (d.slotRows id) := by
  refine sortBy_congr fun r hr s hs => ?_
  have he := (mem_slotRows.mp hr).2.trans (mem_slotRows.mp hs).2.symm
  rw [Bool.eq_iff_iff, slotOrder_iff, decide_eq_true_iff, he]
  simp

theorem perm_slotsOf (id : String) : (d.slotsOf id).Perm ((d.slotRows id).map SlotRow.slot) :=
  (perm_sortBy _ _).map _

theorem hasReviewer_record {row : PullRequestRow} {user : String} :
    (d.record row).hasReviewer user =
      d.slots.any fun r => r.pullRequestId == row.id && r.userId == user := by
  rw [Bool.eq_iff_iff, PullRequest.hasReviewer_iff]
  change user ∈ (d.slotsOf row.id).map ReviewerSlot.userId ↔ _
  rw [((perm_slotsOf row.id).map _).mem_iff, List.map_map]
  simp [mem_slotRows, SlotRow.slot, and_assoc]

theorem length_reviewers_record (row : PullRequestRow) :
    (d.record row).reviewers.length = (d.slotRows row.id).length := by
  change (d.slotsOf row.id).length = _
  rw [(perm_slotsOf row.id).length_eq, List.length_map]

theorem toNat_number_slot {r : SlotRow} (h : r.Readable) :
    (r.slot.number.toNat : Int) = r.number := by
  obtain ⟨hle, hlt⟩ := h
  simp only [SlotRow.slot, UInt32.toNat_ofNat']
  omega

namespace Sound

variable (h : d.Sound)
include h

theorem readable {r : SlotRow} (hr : r ∈ d.slots) : r.Readable :=
  ⟨Int.le_trans (by decide) (h.range r hr).1, (h.range r hr).2⟩

theorem fits_slotsOf (id : String) : Fits d.records id (d.slotsOf id) := by
  have hrows : ∀ r ∈ d.slotRows id, r ∈ d.slots ∧ r.pullRequestId = id := fun r hr =>
    mem_slotRows.mp hr
  refine Fits.perm ?_ (perm_slotsOf id)
  constructor
  case own =>
    intro slot hslot
    obtain ⟨r, hr, rfl⟩ := List.mem_map.mp hslot
    exact (hrows r hr).2
  case positive =>
    intro slot hslot
    obtain ⟨r, hr, rfl⟩ := List.mem_map.mp hslot
    have hrange := h.range r (hrows r hr).1
    have hn := toNat_number_slot (h.readable (hrows r hr).1)
    rw [UInt32.le_iff_toNat_le]
    change 1 ≤ r.slot.number.toNat
    omega
  case known =>
    intro slot hslot
    obtain ⟨r, hr, rfl⟩ := List.mem_map.mp hslot
    exact h.held r (hrows r hr).1
  case numbers =>
    rw [List.map_map]
    refine List.Nodup.map_on (fun r hr s hs he => ?_)
      ((List.Nodup.of_map _ h.numbers).filter _)
    have hr' := hrows r hr
    have hs' := hrows s hs
    have hn : r.number = s.number := by
      rw [← toNat_number_slot (h.readable hr'.1), ← toNat_number_slot (h.readable hs'.1)]
      exact congrArg (fun n : UInt32 => (n.toNat : Int)) he
    exact List.inj_on_of_nodup_map h.numbers hr'.1 hs'.1
      (Prod.ext (hr'.2.trans hs'.2.symm) hn)
  case users =>
    rw [List.map_map]
    refine List.Nodup.map_on (fun r hr s hs he => ?_)
      ((List.Nodup.of_map _ h.numbers).filter _)
    exact List.inj_on_of_nodup_map h.holders (hrows r hr).1 (hrows s hs).1
      (Prod.ext ((hrows r hr).2.trans (hrows s hs).2.symm) he)

/-- **The records of sound tables have integrity.** -/
theorem integrity : d.records.Integrity where
  teamIds := h.teamIds
  teamNames := h.teamNames
  userIds := h.userIds
  userTeams := h.userTeams
  ids := by
    have hids : d.records.pullRequests.map PullRequest.id =
        d.pullRequests.map PullRequestRow.id := List.map_map
    rw [hids]
    exact h.ids
  authors p hp := by
    obtain ⟨row, hrow, rfl⟩ := List.mem_map.mp hp
    exact h.authors row hrow
  slots p hp := by
    obtain ⟨row, hrow, rfl⟩ := List.mem_map.mp hp
    exact h.fits_slotsOf row.id

/-! ## The load of a user -/

theorem perm_reviewed (user : String) :
    ((d.slots.filter (·.userId == user)).filterMap fun r =>
        d.pullRequests.find? (·.id == r.pullRequestId)).Perm
      (d.pullRequests.filter fun row => (d.record row).hasReviewer user) := by
  have hfind : ∀ r ∈ d.slots, ∃ row ∈ d.pullRequests, row.id = r.pullRequestId ∧
      d.pullRequests.find? (·.id == r.pullRequestId) = some row := by
    intro r hr
    obtain ⟨row, hrow, he⟩ := h.owned r hr
    have hsome : (d.pullRequests.find? (·.id == r.pullRequestId)).isSome := by
      rw [List.find?_isSome]
      exact ⟨row, hrow, by simp [he]⟩
    obtain ⟨found, hfound⟩ := Option.isSome_iff_exists.mp hsome
    exact ⟨found, List.mem_of_find?_eq_some hfound, by simpa using List.find?_some hfound, hfound⟩
  refine (List.perm_ext_iff_of_nodup ?_ ((List.Nodup.of_map _ h.ids).filter _)).mpr fun row => ?_
  · refine List.Nodup.of_map PullRequestRow.id ?_
    have hids : ((d.slots.filter (·.userId == user)).filterMap fun r =>
          d.pullRequests.find? (·.id == r.pullRequestId)).map PullRequestRow.id =
        (d.slots.filter (·.userId == user)).map SlotRow.pullRequestId := by
      rw [List.map_filterMap, ← List.filterMap_eq_map]
      refine List.filterMap_congr fun r hr => ?_
      obtain ⟨row, -, he, hf⟩ := hfind r (List.mem_filter.mp hr).1
      rw [hf, Option.map_some, he]
      rfl
    rw [hids]
    -- a user holds one slot of each pull request at most
    refine List.Nodup.map_on (fun r hr s hs he => ?_) ((List.Nodup.of_map _ h.numbers).filter _)
    have hr := List.mem_filter.mp hr
    have hs := List.mem_filter.mp hs
    exact List.inj_on_of_nodup_map h.holders hr.1 hs.1
      (Prod.ext he ((beq_iff_eq.mp hr.2).trans (beq_iff_eq.mp hs.2).symm))
  · rw [List.mem_filterMap, List.mem_filter, hasReviewer_record, List.any_eq_true]
    simp only [List.mem_filter, beq_iff_eq, Bool.and_eq_true]
    constructor
    · rintro ⟨r, ⟨hr, hu⟩, hf⟩
      have hid : row.id = r.pullRequestId := by simpa using List.find?_some hf
      exact ⟨List.mem_of_find?_eq_some hf, r, hr, hid.symm, hu⟩
    · rintro ⟨hrow, r, hr, he, hu⟩
      obtain ⟨found, hfound, hid, hf⟩ := hfind r hr
      have : found = row := List.inj_on_of_nodup_map h.ids hfound hrow (hid.trans he)
      exact ⟨r, ⟨hr, hu⟩, this ▸ hf⟩

theorem status_beq {row : PullRequestRow} (hrow : row ∈ d.pullRequests) (status : Status) :
    (row.statusCode == status.code) = (row.status == status) := by
  rcases h.codes row hrow with hc | hc <;> cases status <;>
    simp [PullRequestRow.status, Status.code, hc]

theorem userLoad_eq (user : User) : d.userLoad user = d.records.userLoad user := by
  have hcount : ∀ status : Status,
      (((d.slots.filter (·.userId == user.id)).filterMap fun r =>
          d.pullRequests.find? (·.id == r.pullRequestId)).filter
            (·.statusCode == status.code)).length =
        ((d.records.pullRequests.filter (·.hasReviewer user.id)).filter
          (·.status == status)).length := by
    intro status
    rw [((h.perm_reviewed user.id).filter _).length_eq, records, List.filter_map, List.filter_map,
      List.length_map]
    congr 1
    exact List.filter_congr fun row hrow => h.status_beq (List.mem_filter.mp hrow).1 status
  unfold userLoad Memory.userLoad
  refine UserLoad.mk.injEq .. |>.mpr ⟨rfl, ?_, hcount .opened, hcount .merged⟩
  rw [(h.perm_reviewed user.id).length_eq, records, List.filter_map, List.length_map]
  rfl

end Sound

end Database

end Relational

end ReviewRota
