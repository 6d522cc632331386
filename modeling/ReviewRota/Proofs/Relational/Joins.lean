import Mathlib.Data.List.Dedup
import ReviewRota.Proofs.Relational.Listing

/-!
# Reports as queries

The load reports, as a database computes them: rows of several tables joined, grouped by the id that
is reported, and counted within each group. A left join has a row without a partner for a record
that nothing joins, so that this record has a group as well, in which the missing partner must not
count.

* `leftJoin`, `innerJoin`, `groups`: the parts of a query.
* `groups_flatMap`: rows made record by record have one group for each record.
* `Database.joinedLoads`, `Database.joinedCounts`: the two reports as queries.
* **`Keyed.userLoads_eq_joined`**, **`Keyed.reviewerCounts_eq_joined`**: they are the reports of the
  store, whatever status codes and slot numbers the rows have.
-/

namespace ReviewRota.Relational

/-! ## Joins -/

section

variable {α β : Type}

/-- A left row with each right row that it joins, or alone if there is none. -/
def joinRow (on : α → β → Bool) (bs : List β) (a : α) : List (α × Option β) :=
  match bs.filter (on a) with
  | [] => [(a, none)]
  | b :: rest => (b :: rest).map fun b => (a, some b)

/-- All left rows joined with right rows. -/
def leftJoin (on : α → β → Bool) (as : List α) (bs : List β) : List (α × Option β) :=
  as.flatMap (joinRow on bs)

/-- Left rows with each right row that they join. -/
def innerJoin (on : α → β → Bool) (as : List α) (bs : List β) : List (α × β) :=
  as.flatMap fun a => (bs.filter (on a)).map fun b => (a, b)

variable {on : α → β → Bool} {bs : List β} {a : α}

theorem joinRow_ne_nil : joinRow on bs a ≠ [] := by
  unfold joinRow
  split <;> exact nofun

theorem fst_of_mem_joinRow {row : α × Option β} (h : row ∈ joinRow on bs a) : row.1 = a := by
  unfold joinRow at h
  split at h
  · rw [List.mem_singleton.mp h]
  · obtain ⟨b, -, rfl⟩ := List.mem_map.mp h
    rfl

theorem filterMap_joinRow : (joinRow on bs a).filterMap Prod.snd = bs.filter (on a) := by
  unfold joinRow
  cases bs.filter (on a) with
  | nil => rfl
  | cons b rest =>
    dsimp only
    rw [List.filterMap_map]
    exact List.filterMap_some

theorem countP_partner (q : β → Bool) (rows : List (α × Option β)) :
    rows.countP (·.2.any q) = (rows.filterMap Prod.snd).countP q := by
  rw [List.countP_filterMap]
  refine List.countP_congr fun row _ => ?_
  cases row.2 <;> simp

theorem countP_isSome (rows : List (α × Option β)) :
    rows.countP (·.2.isSome) = (rows.filterMap Prod.snd).length := by
  have hany : (fun row : α × Option β => row.2.isSome) = fun row => row.2.any fun _ => true :=
    funext fun row => by cases row.2 <;> rfl
  rw [hany, countP_partner]
  exact List.countP_eq_length.mpr fun _ _ => rfl

end

/-! ## Groups -/

section

variable {α β : Type}

/-- Rows by key, one group for each key, the keys in ascending order. -/
def groups (key : α → String) (rows : List α) : List (String × List α) :=
  (sortBy (fun a b => a ≤ b) (rows.map key).dedup).map fun k => (k, rows.filter (key · == k))

/-- Keys that differ pick out the rows of one record. -/
theorem filter_flatMap_key {key : α → String} {k : β → String} {part : β → List α}
    {records : List β} (hnodup : (records.map k).Nodup)
    (hkey : ∀ b ∈ records, ∀ a ∈ part b, key a = k b) {b : β} (hb : b ∈ records) :
    (records.flatMap part).filter (key · == k b) = part b := by
  -- no other record has a row with this key
  have hnone : ∀ rest : List β, rest ⊆ records → k b ∉ rest.map k →
      (rest.flatMap part).filter (key · == k b) = [] := by
    refine fun rest hrest hnot => List.filter_eq_nil_iff.mpr fun a ha he => hnot ?_
    obtain ⟨c, hc, ha⟩ := List.mem_flatMap.mp ha
    exact List.mem_map.mpr ⟨c, hc, (hkey c (hrest hc) a ha).symm.trans (beq_iff_eq.mp he)⟩
  obtain ⟨before, after, rfl⟩ := List.append_of_mem hb
  rw [List.map_append, List.map_cons, List.nodup_middle, List.nodup_cons, List.mem_append,
    not_or] at hnodup
  obtain ⟨⟨hbefore, hafter⟩, -⟩ := hnodup
  have hall : (part b).filter (key · == k b) = part b :=
    List.filter_eq_self.mpr fun a ha => beq_iff_eq.mpr (hkey b hb a ha)
  rw [List.flatMap_append, List.flatMap_cons, List.filter_append, List.filter_append, hall,
    hnone before (List.subset_append_left ..) hbefore,
    hnone after (List.subset_append_of_subset_right _ (List.subset_cons_self ..)) hafter,
    List.nil_append, List.append_nil]

/-- **Rows made record by record have one group for each record**, if each record has a row. -/
theorem groups_flatMap {key : α → String} {k : β → String} {part : β → List α} {records : List β}
    (hnodup : (records.map k).Nodup) (hne : ∀ b ∈ records, part b ≠ [])
    (hkey : ∀ b ∈ records, ∀ a ∈ part b, key a = k b) :
    groups key (records.flatMap part) =
      (sortBy (fun b c => k b ≤ k c) records).map fun b => (k b, part b) := by
  -- the keys of all rows, each once, are those of the records
  have hperm : ((records.flatMap part).map key).dedup.Perm (records.map k) := by
    refine (List.perm_ext_iff_of_nodup (List.nodup_dedup _) hnodup).mpr fun id => ?_
    simp only [List.mem_dedup, List.mem_map, List.mem_flatMap]
    constructor
    · rintro ⟨a, ⟨b, hb, ha⟩, rfl⟩
      exact ⟨b, hb, (hkey b hb a ha).symm⟩
    · rintro ⟨b, hb, rfl⟩
      obtain ⟨a, ha⟩ := List.exists_mem_of_ne_nil _ (hne b hb)
      exact ⟨a, ⟨b, hb, ha⟩, hkey b hb a ha⟩
  have hpre : IsPreorder fun a b : String => decide (a ≤ b) := isPreorder_key id
  rw [groups, sortBy_congr_perm hpre hperm fun a _ b _ hab hba =>
    String.le_antisymm (of_decide_eq_true hab) (of_decide_eq_true hba), sortBy_map, List.map_map]
  refine List.map_congr_left fun b hb => ?_
  exact congrArg (k b, ·) (filter_flatMap_key hnodup hkey (mem_sortBy.mp hb))

end

theorem filter_key_eq {α : Type} {key : α → String} {l : List α} (h : (l.map key).Nodup)
    (id : String) : l.filter (fun a => id == key a) = (l.find? (key · == id)).toList := by
  induction l with
  | nil => rfl
  | cons a l ih =>
    rw [List.map_cons, List.nodup_cons] at h
    by_cases ha : key a = id
    · have hrest : l.filter (fun b => id == key b) = [] :=
        List.filter_eq_nil_iff.mpr fun b hb he =>
          h.1 (List.mem_map.mpr ⟨b, hb, (beq_iff_eq.mp he).symm.trans ha.symm⟩)
      rw [List.filter_cons, if_pos (beq_iff_eq.mpr ha.symm), hrest, List.find?_cons,
        beq_iff_eq.mpr ha]
      rfl
    · rw [List.filter_cons, if_neg fun he => ha (beq_iff_eq.mp he).symm, ih h.2, List.find?_cons,
        beq_false_of_ne ha]

/-! ## Reports -/

namespace Database

variable (d : Database)

/-- The rows of the load report: each user asked for with the pull request of each of the user's
slots, or without one. -/
def loadRows (team : Option String) : List (User × Option PullRequestRow) :=
  let members := d.users.filter fun u => passes team u.teamId
  let withSlots := leftJoin (fun u r => r.userId == u.id) members d.slots
  (leftJoin (fun row p => row.2.any (·.pullRequestId == p.id)) withSlots d.pullRequests).map
    fun row => (row.1.1, row.2)

/-- The load report as a query: grouped by user, a row counts where there is a pull request, with
one of the two codes for the open and the merged ones. -/
def joinedLoads (team : Option String) : List UserLoad :=
  (groups (·.1.id) (d.loadRows team)).map fun group =>
    { userId := group.1
      total := group.2.countP (·.2.isSome)
      opened := group.2.countP (·.2.any (·.statusCode == 1))
      merged := group.2.countP (·.2.any (·.statusCode == 2)) }

/-- The rows of the report of reviewers: each pull request whose author is asked for, with each of
its slots or without one. -/
def countRows (team : Option String) : List ((PullRequestRow × User) × Option SlotRow) :=
  let authored := (innerJoin (fun p u => p.authorId == u.id) d.pullRequests d.users).filter
    fun row => passes team row.2.teamId
  leftJoin (fun row r => r.pullRequestId == row.1.id) authored d.slots

/-- The report of reviewers as a query. -/
def joinedCounts (team : Option String) : List ReviewerCount :=
  (groups (·.1.1.id) (d.countRows team)).map fun group =>
    { pullRequestId := group.1
      count := group.2.countP (·.2.isSome) }

variable {d}

/-- The rows of one user in the load report. -/
def rowsOfUser (d : Database) (u : User) : List (User × Option PullRequestRow) :=
  ((joinRow (fun (u : User) (r : SlotRow) => r.userId == u.id) d.slots u).flatMap
    (joinRow (fun (row : User × Option SlotRow) (p : PullRequestRow) =>
      row.2.any (·.pullRequestId == p.id)) d.pullRequests)).map fun row => (row.1.1, row.2)

theorem loadRows_eq (team : Option String) :
    d.loadRows team = (d.users.filter fun u => passes team u.teamId).flatMap d.rowsOfUser := by
  rw [loadRows, leftJoin, leftJoin, List.flatMap_assoc, List.map_flatMap]
  rfl

theorem rowsOfUser_ne_nil (u : User) : d.rowsOfUser u ≠ [] := by
  intro hnil
  rw [rowsOfUser, List.map_eq_nil_iff, List.flatMap_eq_nil_iff] at hnil
  obtain ⟨row, hrow⟩ := List.exists_mem_of_ne_nil _ joinRow_ne_nil
  exact joinRow_ne_nil (hnil row hrow)

theorem fst_of_mem_rowsOfUser {u : User} {row : User × Option PullRequestRow}
    (h : row ∈ d.rowsOfUser u) : row.1 = u := by
  obtain ⟨row', hrow', rfl⟩ := List.mem_map.mp h
  obtain ⟨withSlot, hslot, hrow'⟩ := List.mem_flatMap.mp hrow'
  rw [fst_of_mem_joinRow hrow', fst_of_mem_joinRow hslot]

theorem Keyed.filterMap_rowsOfUser (h : d.Keyed) (u : User) :
    (d.rowsOfUser u).filterMap Prod.snd =
      (d.slots.filter (·.userId == u.id)).filterMap fun r =>
        d.pullRequests.find? (·.id == r.pullRequestId) := by
  have hsplit : ∀ rows : List (User × Option SlotRow),
      (rows.flatMap fun row =>
          d.pullRequests.filter fun p => row.2.any (·.pullRequestId == p.id)) =
        (rows.filterMap Prod.snd).filterMap fun r =>
          d.pullRequests.find? (·.id == r.pullRequestId) := by
    intro rows
    induction rows with
    | nil => rfl
    | cons row rows ih =>
      rw [List.flatMap_cons, ih]
      obtain ⟨user, _ | r⟩ := row
      · simp
      · have hone : (d.pullRequests.filter fun p => (some r).any (·.pullRequestId == p.id)) =
            (d.pullRequests.find? (·.id == r.pullRequestId)).toList :=
          filter_key_eq h.ids r.pullRequestId
        change _ = (r :: rows.filterMap Prod.snd).filterMap _
        rw [hone, List.filterMap_cons]
        cases d.pullRequests.find? (·.id == r.pullRequestId) <;> rfl
  have hslots : (joinRow (fun (u : User) (r : SlotRow) => r.userId == u.id) d.slots u).filterMap
      Prod.snd = d.slots.filter (·.userId == u.id) := filterMap_joinRow
  rw [rowsOfUser, List.filterMap_map, ← hslots, ← hsplit, List.filterMap_flatMap]
  refine List.flatMap_congr fun row _ => ?_
  exact filterMap_joinRow

/-- **The load report is a query**: three tables joined, grouped by user and counted by code. -/
theorem Keyed.userLoads_eq_joined (h : d.Keyed) (husers : (d.users.map User.id).Nodup)
    (team : Option String) : Repository.userLoads team d = .ok (d.joinedLoads team) := by
  change Except.ok (sortBy _ (((d.users.filter fun u => passes team u.teamId)).map d.userLoad)) = _
  rw [joinedLoads, loadRows_eq, groups_flatMap (k := User.id)
    (husers.sublist (List.filter_sublist.map _)) (fun u _ => rowsOfUser_ne_nil u)
    fun u _ row hrow => congrArg User.id (fst_of_mem_rowsOfUser hrow), List.map_map, sortBy_map]
  refine congrArg Except.ok (List.map_congr_left fun u _ => ?_)
  rw [Function.comp_apply, countP_isSome, countP_partner, countP_partner,
    h.filterMap_rowsOfUser, List.countP_eq_length_filter, List.countP_eq_length_filter]
  rfl

theorem map_fst_authored (husers : (d.users.map User.id).Nodup) (team : Option String) :
    (((innerJoin (fun (p : PullRequestRow) (u : User) => p.authorId == u.id) d.pullRequests
        d.users).filter fun row => passes team row.2.teamId)).map Prod.fst =
      d.pullRequests.filter fun row =>
        (d.users.find? (·.id == row.authorId)).any fun author => passes team author.teamId := by
  rw [innerJoin]
  induction d.pullRequests with
  | nil => rfl
  | cons row rows ih =>
    rw [List.flatMap_cons, List.filter_append, List.map_append, ih, filter_key_eq husers,
      List.filter_cons]
    cases d.users.find? (·.id == row.authorId) with
    | none => rfl
    | some author =>
      rw [Option.toList_some, List.map_cons, List.map_nil, List.filter_cons, Option.any_some]
      split <;> rfl

/-- **The report of reviewers is a query**: each pull request joined with its author and its slots,
grouped by pull request and counted. -/
theorem Keyed.reviewerCounts_eq_joined (h : d.Keyed) (husers : (d.users.map User.id).Nodup)
    (team : Option String) : Repository.reviewerCounts team d = .ok (d.joinedCounts team) := by
  change Except.ok (sortBy _ ((d.pullRequests.filter fun row =>
    (d.users.find? (·.id == row.authorId)).any fun author => passes team author.teamId).map
      fun row => ReviewerCount.mk row.id (d.slots.filter (·.pullRequestId == row.id)).length)) = _
  have hids : ((((innerJoin (fun (p : PullRequestRow) (u : User) => p.authorId == u.id)
      d.pullRequests d.users).filter fun row => passes team row.2.teamId)).map
        fun row => row.1.id).Nodup := by
    have hmap := congrArg (List.map PullRequestRow.id) (map_fst_authored husers team)
    rw [List.map_map] at hmap
    exact hmap ▸ h.ids.sublist (List.filter_sublist.map _)
  rw [joinedCounts, countRows, leftJoin, groups_flatMap (k := fun row => row.1.id) hids
    (fun _ _ => joinRow_ne_nil) fun row _ joined hjoined => by rw [fst_of_mem_joinRow hjoined],
    ← map_fst_authored husers, List.map_map, List.map_map, sortBy_map]
  refine congrArg Except.ok (List.map_congr_left fun row _ => ?_)
  rw [Function.comp_apply, Function.comp_apply, countP_isSome, filterMap_joinRow]

end Database

end ReviewRota.Relational
