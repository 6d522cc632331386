import ReviewRota.Proofs.Mirroring
import ReviewRota.Proofs.Relational.Loading

/-!
# A database mirrors its records

Every statement on a sound database does to the tables what the same change does to the records.

* `Database.Holds d m`: sound tables with the records `m`.
* `Database.sound_of_integrity`: the schema holds of tables whose records have integrity.
* `Database.insertSlots_eq`: slots inserted one by one are accepted like a list, and those before
  the first that is refused stay.
* **`Database.mirrored`**: a database is mirrored by the ledger of its records, listed by the text
  of creation times.
-/

namespace ReviewRota.Relational.Database

variable {d : Database}

/-- Sound tables with these records. -/
def Holds (d : Database) (m : Ledger Instant.textLe) : Prop :=
  d.Sound ∧ m = d.records

/-! ## Soundness by the records -/

theorem pairwise_of_filter {α : Type} {R : α → α → Prop} {f : α → String} {l : List α}
    (h : ∀ k, (l.filter (f · == k)).Pairwise R) :
    l.Pairwise fun a b => f a = f b → R a b := by
  induction l with
  | nil => exact .nil
  | cons a l ih =>
    refine List.pairwise_cons.mpr ⟨fun b hb he => ?_, ih fun k => ?_⟩
    · have ha := h (f a)
      rw [List.filter_cons, if_pos (beq_self_eq_true _)] at ha
      exact (List.pairwise_cons.mp ha).1 b (List.mem_filter.mpr ⟨hb, beq_iff_eq.mpr he.symm⟩)
    · exact (h k).sublist ((List.sublist_cons_self a l).filter _)

/-- **Tables whose records have integrity satisfy the schema**, as soon as codes and numbers can be
read and no slot is left without its pull request. -/
theorem sound_of_integrity (hint : d.records.Integrity)
    (codes : ∀ row ∈ d.pullRequests, row.statusCode = 1 ∨ row.statusCode = 2)
    (range : ∀ r ∈ d.slots, 1 ≤ r.number ∧ r.number < 4294967296)
    (owned : ∀ r ∈ d.slots, ∃ row ∈ d.pullRequests, row.id = r.pullRequestId) : d.Sound := by
  have hfits : ∀ id, (∃ row ∈ d.pullRequests, row.id = id) →
      d.records.Fits id ((d.slotRows id).map SlotRow.slot) := by
    rintro _ ⟨row, hrow, rfl⟩
    exact (hint.slots (d.record row) (List.mem_map_of_mem hrow)).perm (perm_slotsOf row.id).symm
  -- what differs within each pull request differs in the whole table, taken with the id
  have hdistinct : ∀ {β : Type} (f : SlotRow → β),
      (∀ id, (∃ row ∈ d.pullRequests, row.id = id) → ((d.slotRows id).map f).Nodup) →
      (d.slots.map fun r => (r.pullRequestId, f r)).Nodup := by
    intro β f hf
    refine List.pairwise_map.mpr ((pairwise_of_filter (R := fun r s => f r ≠ f s)
      (f := SlotRow.pullRequestId) fun id => ?_).imp fun hrs he => ?_)
    · by_cases hid : ∃ row ∈ d.pullRequests, row.id = id
      · exact List.pairwise_map.mp (hf id hid)
      · have hnone : d.slotRows id = [] := List.filter_eq_nil_iff.mpr fun r hr he =>
          hid (beq_iff_eq.mp he ▸ owned r hr)
        change (d.slotRows id).Pairwise _
        rw [hnone]
        exact .nil
    · exact hrs (Prod.mk.inj he).1 (Prod.mk.inj he).2
  constructor
  case teamIds => exact hint.teamIds
  case teamNames => exact hint.teamNames
  case userIds => exact hint.userIds
  case userTeams => exact hint.userTeams
  case ids =>
    have hids : d.records.pullRequests.map PullRequest.id =
        d.pullRequests.map PullRequestRow.id := List.map_map
    exact hids ▸ hint.ids
  case authors => exact fun row hrow => hint.authors (d.record row) (List.mem_map_of_mem hrow)
  case codes => exact codes
  case numbers =>
    refine hdistinct SlotRow.number fun id hid => ?_
    have hn := (hfits id hid).numbers
    rw [List.map_map] at hn
    have hn' : ((d.slotRows id).map SlotRow.number).map
        (fun n => UInt32.ofNat n.toNat) =
          (d.slotRows id).map (ReviewerSlot.number ∘ SlotRow.slot) :=
      List.map_map
    exact List.Nodup.of_map _ (hn' ▸ hn)
  case holders =>
    refine hdistinct SlotRow.userId fun id hid => ?_
    have hu := (hfits id hid).users
    rwa [List.map_map] at hu
  case range => exact range
  case owned => exact owned
  case held =>
    intro r hr
    exact (hfits r.pullRequestId (owned r hr)).known r.slot
      (List.mem_map_of_mem (mem_slotRows.mpr ⟨hr, rfl⟩))

/-! ## Reading -/

theorem hasTeam_eq (id : String) : d.hasTeam id = (d.records.findTeam id).isSome := by
  rw [Bool.eq_iff_iff, Memory.isSome_findTeam, hasTeam, List.any_eq_true]
  simp [records]

theorem hasUser_eq (id : String) : d.hasUser id = (d.records.findUser id).isSome := by
  rw [Bool.eq_iff_iff, Memory.isSome_findUser, hasUser, List.any_eq_true]
  simp [records]

theorem findPullRequest_records (id : String) :
    d.records.findPullRequest id = (d.pullRequests.find? (·.id == id)).map d.record :=
  List.find?_map

theorem hasPullRequest_eq (id : String) :
    d.hasPullRequest id = (d.records.findPullRequest id).isSome := by
  rw [Bool.eq_iff_iff, findPullRequest_records, Option.isSome_map, List.find?_isSome,
    hasPullRequest, List.any_eq_true]

theorem newestFirst_records (rows : List PullRequestRow) :
    Memory.newestFirst Instant.textLe (rows.map d.record) = (newestFirst rows).map d.record := by
  rw [Memory.newestFirst, ← List.map_reverse, sortBy_map]
  rfl

namespace Sound

variable (h : d.Sound)
include h

theorem pullRequest_eq (lock : Bool) (id : String) :
    Repository.pullRequest lock id d = orNotFound (d.records.findPullRequest id) := by
  have htouch : d.touchPullRequest id = .ok () := by
    refine if_neg fun hany => ?_
    obtain ⟨row, hrow, hbad⟩ := List.any_eq_true.mp hany
    rcases h.codes row hrow with hc | hc <;> simp [hc] at hbad
  have hfind : seen (d.findPullRequest id) = orNotFound (d.records.findPullRequest id) := by
    rw [findPullRequest_records]
    unfold findPullRequest
    rcases hf : d.pullRequests.find? (·.id == id) with _ | row
    · rw [hf]
      rfl
    · rw [hf]
      have hrow : ∀ r ∈ [row], r ∈ d.pullRequests := fun r hr =>
        List.mem_singleton.mp hr ▸ List.mem_of_find?_eq_some hf
      dsimp only
      rw [h.assemble_eq hrow]
      rfl
  cases lock with
  | true =>
    change seen (d.touchPullRequest id >>= fun _ => d.findPullRequest id) = _
    rw [htouch]
    exact hfind
  | false => exact hfind

theorem passes_code {row : PullRequestRow} (hrow : row ∈ d.pullRequests)
    (status : Option Status) :
    passes (status.map Status.code) row.statusCode = passes status row.status := by
  cases status with
  | none => rfl
  | some status => exact h.status_beq hrow status

theorem listed_eq {keep : PullRequestRow → Bool} {keep' : PullRequest → Bool}
    (hk : ∀ row ∈ d.pullRequests, keep row = keep' (d.record row)) :
    seen (d.assemble (newestFirst (d.pullRequests.filter keep))) =
      .ok (Memory.newestFirst Instant.textLe (d.records.pullRequests.filter keep')) := by
  have hrows : ∀ row ∈ newestFirst (d.pullRequests.filter keep), row ∈ d.pullRequests :=
    fun row hrow => (List.mem_filter.mp (List.mem_reverse.mp (mem_sortBy.mp hrow))).1
  rw [h.assemble_eq hrows, records, List.filter_map, newestFirst_records, List.filter_congr hk]
  rfl

theorem reviewerCounts_eq (team : Option String) :
    Repository.reviewerCounts team d =
      Repository.reviewerCounts team (Ledger.of Instant.textLe d.records) := by
  change Except.ok (sortBy _ _) = Except.ok (sortBy _ _)
  congr 2
  rw [records, List.filter_map, List.map_map]
  have hkeep : ∀ row ∈ d.pullRequests,
      ((d.users.find? (·.id == row.authorId)).any fun author => passes team author.teamId) =
        (d.records.authorPasses team ∘ d.record) row := by
    intro row hrow
    change _ = (team.isNone || (d.users.find? (·.id == row.authorId)).any fun author =>
      passes team author.teamId)
    cases team with
    | none =>
      have hsome : (d.users.find? (·.id == row.authorId)).isSome := by
        rw [List.find?_isSome]
        obtain ⟨user, huser, he⟩ := h.authors row hrow
        exact ⟨user, huser, by simp [he]⟩
      obtain ⟨user, hu⟩ := Option.isSome_iff_exists.mp hsome
      rw [hu]
      rfl
    | some team => rfl
  rw [List.filter_congr hkeep]
  refine List.map_congr_left fun row _ => ?_
  exact congrArg (ReviewerCount.mk row.id) (length_reviewers_record row).symm

end Sound

/-! ## Inserting slots -/

theorem slotRows_eq_nil (owned : ∀ r ∈ d.slots, ∃ row ∈ d.pullRequests, row.id = r.pullRequestId)
    {id : String} (hnew : ¬ d.hasPullRequest id = true) : d.slotRows id = [] := by
  refine List.filter_eq_nil_iff.mpr fun r hr he => hnew ?_
  obtain ⟨row, hrow, hid⟩ := owned r hr
  exact List.any_eq_true.mpr ⟨row, hrow, beq_iff_eq.mpr (hid.trans (beq_iff_eq.mp he))⟩

theorem slotRows_deleteSlots (id : String) : (d.deleteSlots id).slotRows id = [] :=
  List.filter_eq_nil_iff.mpr fun _ hr he =>
    bne_iff_ne.mp (List.mem_filter.mp hr).2 (beq_iff_eq.mp he)

theorem slot_ofSlot (slot : ReviewerSlot) : (SlotRow.ofSlot slot).slot = slot := by
  simp [SlotRow.slot, SlotRow.ofSlot]

theorem any_slots_ofSlot {id : String} {seen : List ReviewerSlot}
    (hseen : d.slotRows id = seen.map SlotRow.ofSlot) {slot : ReviewerSlot}
    (hid : slot.pullRequestId = id) :
    (d.slots.any fun r => r.pullRequestId == (SlotRow.ofSlot slot).pullRequestId &&
        (r.number == (SlotRow.ofSlot slot).number || r.userId == (SlotRow.ofSlot slot).userId)) =
      (seen.any (·.number == slot.number) || seen.any (·.userId == slot.userId)) := by
  have hany : (d.slots.any fun r => r.pullRequestId == (SlotRow.ofSlot slot).pullRequestId &&
        (r.number == (SlotRow.ofSlot slot).number || r.userId == (SlotRow.ofSlot slot).userId)) =
      (d.slotRows id).any fun r =>
        r.number == (SlotRow.ofSlot slot).number || r.userId == (SlotRow.ofSlot slot).userId := by
    rw [slotRows, List.any_filter, ← hid]
    rfl
  rw [hany, hseen, List.any_map, Bool.eq_iff_iff]
  simp only [List.any_eq_true, Bool.or_eq_true, Function.comp_apply, SlotRow.ofSlot, beq_iff_eq,
    Int.natCast_inj, UInt32.toNat_inj]
  constructor
  · rintro ⟨r, hr, hn | hu⟩
    · exact .inl ⟨r, hr, hn⟩
    · exact .inr ⟨r, hr, hu⟩
  · rintro (⟨r, hr, hn⟩ | ⟨r, hr, hu⟩)
    · exact ⟨r, hr, .inl hn⟩
    · exact ⟨r, hr, .inr hu⟩

theorem insertSlot_cases {m : Memory} {id : String} {seen : List ReviewerSlot}
    (hseen : d.slotRows id = seen.map SlotRow.ofSlot) (hid : d.hasPullRequest id = true)
    (husers : m.users = d.users) {slot : ReviewerSlot} (hown : slot.pullRequestId = id) :
    (m.acceptsSlot id seen slot = true ∧
        d.insertSlot (.ofSlot slot) = .ok { d with slots := d.slots ++ [.ofSlot slot] }) ∨
      m.acceptsSlot id seen slot = false ∧
        ∃ failure, failure.fault = .constraintViolation ∧
          d.insertSlot (.ofSlot slot) = .error failure := by
  have huser : d.hasUser slot.userId = (m.findUser slot.userId).isSome := by
    rw [hasUser_eq, Memory.findUser, Memory.findUser, husers]
    rfl
  have hpos : (1 ≤ slot.number) ↔ ¬ (SlotRow.ofSlot slot).number < 1 := by
    rw [UInt32.le_iff_toNat_le]
    change 1 ≤ slot.number.toNat ↔ ¬ ((slot.number.toNat : Int) < 1)
    omega
  have hpr : d.hasPullRequest (SlotRow.ofSlot slot).pullRequestId = true := by
    change d.hasPullRequest slot.pullRequestId = true
    rw [hown]
    exact hid
  unfold Memory.acceptsSlot insertSlot
  rw [any_slots_ofSlot hseen hown, ← huser, hpr]
  by_cases hn : (SlotRow.ofSlot slot).number < 1
  · rw [if_pos hn]
    exact .inr ⟨by simp [hpos, hn], _, rfl, rfl⟩
  rw [if_neg hn]
  by_cases hd : (seen.any (·.number == slot.number) || seen.any (·.userId == slot.userId)) = true
  · rw [if_pos hd]
    rw [Bool.or_eq_true] at hd
    refine .inr ⟨?_, _, rfl, rfl⟩
    rcases hd with hd | hd <;> simp [hd]
  rw [if_neg hd]
  rw [Bool.not_eq_true, Bool.or_eq_false_iff] at hd
  have hown' : (slot.pullRequestId == id) = true := beq_iff_eq.mpr hown
  rw [hd.1, hd.2, hown', decide_eq_true (hpos.mpr hn)]
  change _ ∧ (if (!(true && d.hasUser slot.userId)) = true then _ else _) = _ ∨
    _ ∧ ∃ failure, _ ∧ (if (!(true && d.hasUser slot.userId)) = true then _ else _) = _
  cases d.hasUser slot.userId with
  | false => exact .inr ⟨rfl, _, rfl, rfl⟩
  | true => exact .inl ⟨rfl, rfl⟩

/-- **Slots inserted one by one are accepted like a list**, and the rows that are there after a
refusal are the accepted part of the list: the slots stored already are those that the check of a
list has seen. -/
theorem insertSlots_eq {m : Memory} {id : String} {slots : List ReviewerSlot}
    (husers : m.users = d.users) (hown : ∀ slot ∈ slots, slot.pullRequestId = id)
    (hid : d.hasPullRequest id = true) (before : List ReviewerSlot)
    (hbefore : d.slotRows id = before.map SlotRow.ofSlot) :
    seenChange (d.insertSlots (slots.map .ofSlot)) =
      (if m.acceptsAfter id before slots then .ok () else .error .constraintViolation,
        { d with slots := d.slots ++ (m.acceptedPart id before slots).map .ofSlot }) := by
  -- the slots inserted so far are those that the check has seen
  induction slots generalizing d before with
  | nil =>
    rw [Memory.acceptedPart, List.map_nil, List.append_nil]
    rfl
  | cons slot rest ih =>
    rw [List.forall_mem_cons] at hown
    rw [Memory.acceptsAfter, Memory.acceptedPart, List.map_cons, insertSlots]
    rcases insertSlot_cases hbefore hid husers hown.1 with ⟨ha, hs⟩ | ⟨ha, failure, hf, hs⟩
    · have hbefore' : slotRows { d with slots := d.slots ++ [.ofSlot slot] } id =
          (before ++ [slot]).map SlotRow.ofSlot := by
        rw [slotRows, List.filter_append, List.map_append]
        refine congrArg₂ _ hbefore ?_
        exact List.filter_cons_of_pos (beq_iff_eq.mpr hown.1)
      have hrest := ih (d := { d with slots := d.slots ++ [.ofSlot slot] }) husers hown.2 hid _
        hbefore'
      rw [ha, hs, Bool.true_and, if_pos rfl, List.map_cons]
      refine hrest.trans (congrArg (Prod.mk _) ?_)
      rw [List.append_assoc]
      rfl
    · rw [ha, hs, Bool.false_and, if_neg Bool.false_ne_true, if_neg Bool.false_ne_true,
        List.map_nil, List.append_nil]
      exact Prod.ext (congrArg Except.error hf) rfl

theorem slotsOf_append {id : String} (other : String) {slots : List ReviewerSlot}
    (hnone : d.slotRows id = []) (hown : ∀ slot ∈ slots, slot.pullRequestId = id) :
    slotsOf { d with slots := d.slots ++ slots.map .ofSlot } other =
      if other = id then Memory.sortSlots slots else d.slotsOf other := by
  have hrows : slotRows { d with slots := d.slots ++ slots.map .ofSlot } other =
      d.slotRows other ++ (slots.map .ofSlot).filter (·.pullRequestId == other) :=
    List.filter_append ..
  rw [slotsOf, hrows]
  split
  · rename_i he
    subst he
    have hall : (slots.map SlotRow.ofSlot).filter (·.pullRequestId == other) =
        slots.map SlotRow.ofSlot := by
      refine List.filter_eq_self.mpr fun r hr => ?_
      obtain ⟨slot, hslot, rfl⟩ := List.mem_map.mp hr
      exact beq_iff_eq.mpr (hown slot hslot)
    rw [hnone, hall, List.nil_append, sortBy_map, List.map_map]
    have hid : SlotRow.slot ∘ SlotRow.ofSlot = id := funext slot_ofSlot
    rw [hid, List.map_id]
    refine sortBy_congr fun a _ b _ => ?_
    simp [SlotRow.ofSlot, UInt32.le_iff_toNat_le]
  · rename_i hne
    have hempty : (slots.map SlotRow.ofSlot).filter (·.pullRequestId == other) = [] := by
      refine List.filter_eq_nil_iff.mpr fun r hr he => ?_
      obtain ⟨slot, hslot, rfl⟩ := List.mem_map.mp hr
      exact hne ((beq_iff_eq.mp he).symm.trans (hown slot hslot))
    rw [hempty, List.append_nil, slotsOf]

theorem range_append {slots : List ReviewerSlot}
    (hrange : ∀ r ∈ d.slots, 1 ≤ r.number ∧ r.number < 4294967296)
    (hpos : ∀ slot ∈ slots, 1 ≤ slot.number) :
    ∀ r ∈ d.slots ++ slots.map .ofSlot, 1 ≤ r.number ∧ r.number < 4294967296 := by
  intro r hr
  rcases List.mem_append.mp hr with hr | hr
  · exact hrange r hr
  · obtain ⟨slot, hslot, rfl⟩ := List.mem_map.mp hr
    have hpos := UInt32.le_iff_toNat_le.mp (hpos slot hslot)
    have hlt := slot.number.toNat_lt
    change 1 ≤ (slot.number.toNat : Int) ∧ (slot.number.toNat : Int) < 4294967296
    exact ⟨by exact_mod_cast hpos, by omega⟩

/-- Slots that are inserted take the place of the slots of their pull request, which has none. -/
theorem records_insertSlots {id : String} {slots : List ReviewerSlot}
    (hnone : d.slotRows id = []) (hown : ∀ slot ∈ slots, slot.pullRequestId = id) :
    records { d with slots := d.slots ++ slots.map .ofSlot } = d.records.withSlots id slots := by
  refine congrArg (Memory.mk d.teams d.users) ?_
  change List.map _ d.pullRequests = List.map _ (List.map d.record _)
  rw [List.map_map]
  refine List.map_congr_left fun row _ => ?_
  have hslots := slotsOf_append row.id hnone hown
  refine (congrArg (PullRequest.mk row.id row.title row.authorId _ _ _) hslots).trans ?_
  change _ = if row.id = id then _ else _
  split <;> rfl

/-! ## Changes -/

section

variable (h : d.Sound)
include h

theorem follows_refused (failure : Failure) :
    Follows Holds (seenChange (.error failure, d)) (.error failure.fault, d.records) :=
  ⟨rfl, fun _ => ⟨h, rfl⟩⟩

omit h in
theorem holds_of_integrity {m : Memory} (hm : d.records = m) (hint : m.Integrity)
    (codes : ∀ row ∈ d.pullRequests, row.statusCode = 1 ∨ row.statusCode = 2)
    (range : ∀ r ∈ d.slots, 1 ≤ r.number ∧ r.number < 4294967296)
    (owned : ∀ r ∈ d.slots, ∃ row ∈ d.pullRequests, row.id = r.pullRequestId) : d.Holds m :=
  ⟨sound_of_integrity (hm ▸ hint) codes range owned, hm.symm⟩

omit h in
/-- **Slots inserted one by one follow the change of a slot list.** -/
theorem follows_insertSlots {m after : Memory} {id : String} {slots : List ReviewerSlot}
    (husers : m.users = d.users) (hid : d.hasPullRequest id = true)
    (hnone : d.slotRows id = []) (hown : ∀ slot ∈ slots, slot.pullRequestId = id)
    (codes : ∀ row ∈ d.pullRequests, row.statusCode = 1 ∨ row.statusCode = 2)
    (range : ∀ r ∈ d.slots, 1 ≤ r.number ∧ r.number < 4294967296)
    (owned : ∀ r ∈ d.slots, ∃ row ∈ d.pullRequests, row.id = r.pullRequestId)
    (hafter : d.records.withSlots id slots = after)
    (hint : m.acceptsSlots id slots = true → after.Integrity) :
    Follows Holds (seenChange (d.insertSlots (slots.map .ofSlot)))
      (if !m.acceptsSlots id slots then (.error .constraintViolation, m) else (.ok (), after)) := by
  rw [insertSlots_eq husers hown hid [] hnone]
  change Follows Holds (if m.acceptsSlots id slots then _ else _, _) _
  cases ha : m.acceptsSlots id slots with
  | true =>
    rw [Memory.acceptedPart_eq_self ha]
    refine ⟨rfl, fun _ => holds_of_integrity ((records_insertSlots hnone hown).trans hafter)
      (hint ha) codes (range_append range (Memory.acceptsSlots_iff.mp ha).positive) fun r hr => ?_⟩
    rcases List.mem_append.mp hr with hr | hr
    · exact owned r hr
    · obtain ⟨slot, hslot, rfl⟩ := List.mem_map.mp hr
      obtain ⟨row, hrow, he⟩ := List.any_eq_true.mp hid
      exact ⟨row, hrow, (beq_iff_eq.mp he).trans (hown slot hslot).symm⟩
  | false => exact ⟨rfl, fun hne => absurd rfl hne⟩

theorem follows_createTeam (team : Team) :
    Follows Holds (seenChange (d.statement (d.insertTeam team))) (d.records.createTeam team) := by
  have hint := (Ledger.keeps_integrity Instant.textLe).createTeam team d.records h.integrity
  change (Memory.createTeam d.records team).2.Integrity at hint
  have hcond : (d.records.teams.any fun t => t.id == team.id || t.name == team.name) =
      (d.hasTeam team.id || d.teams.any (·.name == team.name)) := by
    rw [Bool.eq_iff_iff, hasTeam, Bool.or_eq_true]
    simp only [List.any_eq_true, Bool.or_eq_true, records, and_or_left, exists_or]
  unfold insertTeam
  unfold Memory.createTeam at hint ⊢
  rw [hcond] at hint ⊢
  split
  · exact follows_refused h .duplicateKey
  · rename_i hc
    rw [if_neg hc] at hint
    exact ⟨rfl, fun _ => holds_of_integrity rfl hint h.codes h.range h.owned⟩

theorem follows_createUser (user : User) :
    Follows Holds (seenChange (d.statement (d.insertUser user))) (d.records.createUser user) := by
  have hint := (Ledger.keeps_integrity Instant.textLe).createUser user d.records h.integrity
  change (Memory.createUser d.records user).2.Integrity at hint
  unfold insertUser
  unfold Memory.createUser at hint ⊢
  rw [hasUser_eq, hasTeam_eq, Option.not_isSome]
  split
  · exact follows_refused h .duplicateKey
  split
  · exact follows_refused h .missingReference
  · rename_i hid hteam
    rw [if_neg hid, if_neg hteam] at hint
    exact ⟨rfl, fun _ => holds_of_integrity rfl hint h.codes h.range h.owned⟩

theorem follows_updateUser (user : User) :
    Follows Holds (seenChange (d.statement (d.updateUser user))) (d.records.updateUser user) := by
  have hint := (Ledger.keeps_integrity Instant.textLe).updateUser user d.records h.integrity
  change (Memory.updateUser d.records user).2.Integrity at hint
  unfold updateUser
  unfold Memory.updateUser at hint ⊢
  rw [hasUser_eq, Option.not_isSome]
  split
  · exact follows_refused h .rowMissing
  · rename_i hid
    rw [if_neg hid] at hint
    exact ⟨rfl, fun _ => holds_of_integrity rfl hint h.codes h.range h.owned⟩

theorem follows_setStatus (id : String) (status : Status) (time : Option Instant) :
    Follows Holds (seenChange (d.statement (d.updateStatus id status.code time)))
      (d.records.changePullRequest id fun p => { p with status, mergedAt := time }) := by
  have hint :=
    (Ledger.keeps_integrity Instant.textLe).setStatus id status time d.records h.integrity
  change (Memory.changePullRequest d.records id _).2.Integrity at hint
  unfold updateStatus
  unfold Memory.changePullRequest at hint ⊢
  rw [hasPullRequest_eq, Option.not_isSome]
  split
  · exact follows_refused h .rowMissing
  rename_i hid
  rw [if_neg hid] at hint
  refine ⟨rfl, fun _ => holds_of_integrity ?_ hint ?_ h.range ?_⟩
  · refine congrArg (Memory.mk d.teams d.users) ?_
    change List.map d.record (List.map _ _) = List.map _ (List.map d.record _)
    rw [List.map_map, List.map_map]
    refine List.map_congr_left fun row _ => ?_
    simp only [Function.comp_apply]
    change d.record _ = if row.id = id then _ else _
    split
    · cases status <;> rfl
    · rfl
  · intro row hrow
    obtain ⟨old, hold, rfl⟩ := List.mem_map.mp hrow
    split
    · cases status
      · exact .inl rfl
      · exact .inr rfl
    · exact h.codes old hold
  · intro r hr
    obtain ⟨row, hrow, he⟩ := h.owned r hr
    exact ⟨_, List.mem_map_of_mem hrow, by split <;> exact he⟩

omit h in
theorem insertPullRequest_eq (p : PullRequest) :
    d.insertPullRequest (.ofPullRequest p) =
      if (d.records.findPullRequest p.id).isSome then .error .duplicateKey
      else if (d.records.findUser p.authorId).isNone then .error .missingReference
      else .ok { d with pullRequests := d.pullRequests ++ [.ofPullRequest p] } := by
  have hcode : ¬ ((PullRequestRow.ofPullRequest p).statusCode ≠ 1 ∧
      (PullRequestRow.ofPullRequest p).statusCode ≠ 2) := by
    change ¬ (p.status.code ≠ 1 ∧ p.status.code ≠ 2)
    cases p.status <;> decide
  unfold insertPullRequest
  rw [if_neg hcode, hasPullRequest_eq, hasUser_eq, Option.not_isSome]
  rfl

theorem follows_createPullRequest (p : PullRequest)
    (hown : ∀ slot ∈ p.reviewers, slot.pullRequestId = p.id) :
    Follows Holds (seenChange (d.createPullRequest p)) (d.records.createPullRequest p) := by
  have hint := (Ledger.keeps_integrity Instant.textLe).createPullRequest p d.records h.integrity
  change (Memory.createPullRequest d.records p).2.Integrity at hint
  unfold createPullRequest
  unfold Memory.createPullRequest at hint ⊢
  rw [insertPullRequest_eq]
  by_cases hid : (d.records.findPullRequest p.id).isSome = true
  · rw [if_pos hid, if_pos hid]
    exact follows_refused h .duplicateKey
  by_cases hauthor : (d.records.findUser p.authorId).isNone = true
  · rw [if_neg hid, if_neg hid, if_pos hauthor, if_pos hauthor]
    exact follows_refused h .missingReference
  rw [if_neg hid, if_neg hauthor] at hint ⊢
  rw [if_neg hid, if_neg hauthor]
  have hnew : ∀ row ∈ d.pullRequests, row.id ≠ p.id := fun row hrow he => hid (by
    rw [← hasPullRequest_eq, hasPullRequest, List.any_eq_true]
    exact ⟨row, hrow, beq_iff_eq.mpr he⟩)
  have hnone : d.slotRows p.id = [] := slotRows_eq_nil h.owned (by rwa [hasPullRequest_eq])
  have hstored : hasPullRequest
      { d with pullRequests := d.pullRequests ++ [.ofPullRequest p] } p.id = true := by
    rw [hasPullRequest, List.any_append]
    exact Bool.or_eq_true_iff.mpr (.inr (by simp [PullRequestRow.ofPullRequest]))
  refine follows_insertSlots rfl hstored hnone hown (fun row hrow => ?_) h.range
    (fun r hr => ?_) ?_ fun ha => by rwa [ha] at hint
  · rcases List.mem_append.mp hrow with hrow | hrow
    · exact h.codes row hrow
    · rw [List.mem_singleton.mp hrow]
      change p.status.code = 1 ∨ p.status.code = 2
      cases p.status <;> decide
  · obtain ⟨row, hrow, he⟩ := h.owned r hr
    exact ⟨row, List.mem_append_left _ hrow, he⟩
  · refine congrArg (Memory.mk d.teams d.users) ?_
    change List.map _ (List.map d.record (d.pullRequests ++ [.ofPullRequest p])) =
      List.map d.record d.pullRequests ++ _
    rw [List.map_append, List.map_append, List.map_map, List.map_singleton, List.map_singleton]
    refine congrArg₂ _ (List.map_congr_left fun row hrow => if_neg (hnew row hrow)) ?_
    have hstatus : (PullRequestRow.ofPullRequest p).status = p.status := by
      unfold PullRequestRow.status PullRequestRow.ofPullRequest
      cases p.status <;> rfl
    refine congrArg (fun q => [q]) ((if_pos rfl).trans ?_)
    exact congrArg (fun status => PullRequest.mk p.id p.title p.authorId status _ _ _) hstatus

theorem follows_setReviewers (id : String) (slots : List ReviewerSlot)
    (hknown : (d.records.findPullRequest id).isSome = true) :
    Follows Holds (seenChange (d.setReviewers id slots)) (d.records.setReviewers id slots) := by
  have hint := (Ledger.keeps_integrity Instant.textLe).setReviewers id slots d.records h.integrity
  change (Memory.setReviewers d.records id slots).2.Integrity at hint
  have hstored : d.hasPullRequest id = true := hasPullRequest_eq id ▸ hknown
  have hgone : ¬ (d.records.findPullRequest id).isNone = true := by
    rw [Bool.not_eq_true, Option.isNone_eq_false_iff]
    exact hknown
  unfold setReviewers
  unfold Memory.setReviewers Memory.changePullRequest at hint ⊢
  rw [hstored, if_neg (by decide)]
  rw [if_neg hgone] at hint ⊢
  by_cases hown : ∀ slot ∈ slots, slot.pullRequestId = id
  · have hforeign : ¬ (slots.any (·.pullRequestId != id)) = true := by
      rw [List.any_eq_true]
      rintro ⟨slot, hslot, hne⟩
      exact bne_iff_ne.mp hne (hown slot hslot)
    rw [if_neg hforeign]
    refine follows_insertSlots (d := d.deleteSlots id) rfl hstored (slotRows_deleteSlots id) hown
      h.codes (fun r hr => h.range r (List.mem_filter.mp hr).1)
      (fun r hr => h.owned r (List.mem_filter.mp hr).1) ?_ fun ha => by rwa [ha] at hint
    refine congrArg (Memory.mk d.teams d.users) ?_
    change List.map _ (List.map _ d.pullRequests) = List.map _ (List.map _ d.pullRequests)
    rw [List.map_map, List.map_map]
    refine List.map_congr_left fun row _ => ?_
    change (if row.id = id then _ else _) = if row.id = id then _ else _
    split
    · rfl
    · rename_i hne
      have hkept : (d.deleteSlots id).slotRows row.id = d.slotRows row.id := by
        rw [slotRows, deleteSlots, List.filter_filter, slotRows]
        refine List.filter_congr fun r _ => ?_
        by_cases he : r.pullRequestId = row.id
        · simp [he, hne]
        · simp [he]
      exact congrArg (PullRequest.mk row.id row.title row.authorId _ _ _)
        (congrArg (fun rows => (sortBy _ rows).map SlotRow.slot) hkept)
  · have hforeign : (slots.any (·.pullRequestId != id)) = true := by
      push Not at hown
      obtain ⟨slot, hslot, hne⟩ := hown
      exact List.any_eq_true.mpr ⟨slot, hslot, bne_iff_ne.mpr hne⟩
    have ha' : (!d.records.acceptsSlots id slots) = true := by
      rw [Bool.not_eq_true', ← Bool.not_eq_true, Memory.acceptsSlots_iff]
      exact fun hfits => hown hfits.own
    rw [if_pos hforeign, if_pos ha']
    exact follows_refused h .failedCheck

end

/-- **A database is mirrored by the ledger of its records.** -/
theorem mirrored : Repository.Mirrored Holds Holds where
  weaken := le_rfl
  team h _ := h.2 ▸ rfl
  teams h := h.2 ▸ rfl
  user h _ := h.2 ▸ rfl
  users h _ _ := h.2 ▸ rfl
  usersByIds h _ := h.2 ▸ rfl
  activeMembers {d m} h team except := by
    obtain ⟨-, rfl⟩ := h
    change Except.ok (oldestFirst _ _) = Except.ok (Memory.oldestFirst _ _ _)
    have hfilter : (d.users.filter fun u =>
          u.isActive && u.teamId == team && !except.contains u.id) =
        d.users.filter fun u => u.teamId == team && u.isActive && !except.contains u.id :=
      List.filter_congr fun u _ => by rw [Bool.and_comm u.isActive]
    rw [hfilter]
    rfl
  pullRequest h lock id := h.2 ▸ h.1.pullRequest_eq lock id
  pullRequests h status := h.2 ▸ h.1.listed_eq fun row hrow => h.1.passes_code hrow status
  assignedTo h user status := by
    obtain ⟨hd, rfl⟩ := h
    refine hd.listed_eq fun row hrow => ?_
    rw [hasReviewer_record, hd.passes_code hrow status]
    rfl
  userLoads {d m} h team := by
    obtain ⟨hd, rfl⟩ := h
    refine congrArg (fun loads => Except.ok (sortBy _ loads)) ?_
    exact List.map_congr_left fun user _ => hd.userLoad_eq user
  reviewerCounts h team := h.2 ▸ h.1.reviewerCounts_eq team
  createTeam h team := h.2 ▸ follows_createTeam h.1 team
  createUser h user := h.2 ▸ follows_createUser h.1 user
  updateUser h user := h.2 ▸ follows_updateUser h.1 user
  createPullRequest h p hown := h.2 ▸ follows_createPullRequest h.1 p hown
  setStatus h id status time := h.2 ▸ follows_setStatus h.1 id status time
  setReviewers h id slots hknown := by
    obtain ⟨hd, rfl⟩ := h
    exact follows_setReviewers hd id slots hknown

end ReviewRota.Relational.Database
