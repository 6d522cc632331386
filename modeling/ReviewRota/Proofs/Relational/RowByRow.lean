import ReviewRota.Proofs.ReadBack
import ReviewRota.Proofs.Traffic

/-!
# A slot list as a whole and row by row

The in-memory store checks a slot list before it stores anything. A database inserts the slots one
by one, and its keys, range checks and references find out about each of them in turn. Both accept
the same lists, and a database that refuses one has stored what the other would still have accepted.

* `Repository.ReadAlike`: two stores in which every id reads the same.
* `Repository.Places`: a pull request is read with a slot list, and the others as before.
* `Memory.LongestAccepted`: the longest beginning of a slot list that can stand on a pull request.
* `Database.createPullRequest_eq`, `Database.setReviewers_eq`: what is left after any list is what
  its accepted part would have given.
* **`whole_list_row_by_row`**: both stores side by side.
-/

namespace ReviewRota

/-! ## Reading -/

/-- Two stores in which every id reads the same. -/
structure Repository.ReadAlike {σ τ : Type} [Repository σ] [Repository τ] (a : σ) (b : τ) :
    Prop where
  team : ∀ id, Repository.team id a = Repository.team id b
  user : ∀ id, Repository.user id a = Repository.user id b
  pullRequest : ∀ lock id, Repository.pullRequest lock id a = Repository.pullRequest lock id b

/-- From one state to the next, the pull request `p` has come to be read with some slots, by number,
and every other one is read as before. -/
structure Repository.Places {σ : Type} [Repository σ] (p : PullRequest)
    (slots : List ReviewerSlot) (before after : σ) : Prop where
  placed : ∀ lock, Repository.pullRequest lock p.id after =
    .ok { p with reviewers := Memory.sortSlots slots }
  ranked : ((Memory.sortSlots slots).map ReviewerSlot.number).Pairwise (· < ·)
  others : ∀ lock id, id ≠ p.id →
    Repository.pullRequest lock id after = Repository.pullRequest lock id before

open Repository (ReadAlike Places)

/-! ## The in-memory store -/

namespace Memory

variable {m m' : Memory} {p : PullRequest} {slots : List ReviewerSlot}

/-- The longest beginning of a slot list that can stand on pull request `id`. -/
structure LongestAccepted (m : Memory) (id : String) (slots part : List ReviewerSlot) : Prop where
  initial : part <+: slots
  accepted : m.acceptsSlots id part = true
  longest : ∀ other, other <+: slots → m.acceptsSlots id other = true → other <+: part

theorem longestAccepted_acceptedPart (id : String) (slots : List ReviewerSlot) :
    m.LongestAccepted id slots (m.acceptedPart id [] slots) where
  initial := acceptedPart_initial [] slots
  accepted := acceptsAfter_acceptedPart [] slots
  longest _ := acceptedPart_longest

theorem acceptsSlots_congr (hu : ∀ id, (∃ u ∈ m.users, u.id = id) ↔ ∃ u ∈ m'.users, u.id = id)
    (id : String) (slots : List ReviewerSlot) :
    m.acceptsSlots id slots = m'.acceptsSlots id slots := by
  rw [Bool.eq_iff_iff, acceptsSlots_iff, acceptsSlots_iff]
  exact ⟨fun h => h.of_users fun u hmem => (hu u.id).mp ⟨u, hmem, rfl⟩,
    fun h => h.of_users fun u hmem => (hu u.id).mpr ⟨u, hmem, rfl⟩⟩

theorem places_createPullRequest (hown : ∀ slot ∈ p.reviewers, slot.pullRequestId = p.id)
    (h : Repository.createPullRequest p m = (.ok (), m')) : Places p p.reviewers m m' := by
  have hplaced := (Memory.readsBack.createPullRequest trivial hown h).2
  change m.createPullRequest p = _ at h
  rcases createPullRequest_cases (m := m) p with ⟨_, he⟩ | ⟨⟨-, -, hfits⟩, he⟩ <;> rw [he] at h <;>
    cases h
  refine ⟨fun _ => hplaced, hfits.ranked_sortSlots, fun lock id hne => ?_⟩
  exact congrArg orNotFound (find?_concat_of_ne PullRequest.id m.pullRequests hne.symm)

theorem places_setReviewers (hp : Repository.pullRequest false p.id m = .ok p)
    (h : Repository.setReviewers p.id slots m = (.ok (), m')) : Places p slots m m' := by
  have hplaced := (Memory.readsBack.setReviewers hp h).2
  change m.setReviewers p.id slots = _ at h
  rcases setReviewers_cases (m := m) p.id slots with ⟨_, he⟩ | ⟨⟨-, hfits⟩, he⟩ <;> rw [he] at h <;>
    cases h
  refine ⟨fun _ => hplaced, hfits.ranked_sortSlots, fun lock id hne => congrArg orNotFound ?_⟩
  refine (find?_map_key (fun q => by split <;> rfl) m.pullRequests id).trans ?_
  change (m.findPullRequest id).map _ = m.findPullRequest id
  cases hq : m.findPullRequest id with
  | none => rfl
  | some q =>
    have hid := (mem_of_findPullRequest hq).2
    rw [Option.map_some, if_neg fun he => hne (hid.symm.trans he)]

end Memory

/-! ## The relational store -/

namespace Relational.Database

variable {d d' : Database} {p : PullRequest} {slots : List ReviewerSlot}

theorem Sound.readAlike (h : d.Sound) : ReadAlike d.records d where
  team _ := rfl
  user _ := rfl
  pullRequest lock id := (h.pullRequest_eq lock id).symm

/-- What is accepted is stored in a database as it is among its records. -/
theorem places_of_follows (h : d.Sound) {r : Except Fault Unit × Memory}
    (hfollows : Follows Holds (.ok (), d') r)
    (hplaces : ∀ m', r = (.ok (), m') → Places p slots d.records m') : Places p slots d d' := by
  obtain ⟨h', hrecords⟩ := hfollows.2 nofun
  have hrec : Places p slots d.records d'.records :=
    hplaces _ (Prod.ext hfollows.1.symm hrecords)
  refine ⟨fun lock => ?_, hrec.ranked, fun lock id hne => ?_⟩
  · exact (h'.pullRequest_eq lock p.id).trans (hrec.placed lock)
  · rw [h'.pullRequest_eq, h.pullRequest_eq]
    exact hrec.others lock id hne

theorem places_createPullRequest (h : d.Sound)
    (hown : ∀ slot ∈ p.reviewers, slot.pullRequestId = p.id)
    (hok : Repository.createPullRequest p d = (.ok (), d')) : Places p p.reviewers d d' := by
  have hfollows := follows_createPullRequest h p hown
  change Follows Holds (Repository.createPullRequest p d) _ at hfollows
  rw [hok] at hfollows
  exact places_of_follows h hfollows fun m' => Memory.places_createPullRequest hown

theorem places_setReviewers (h : d.Sound) (hp : Repository.pullRequest false p.id d = .ok p)
    (hok : Repository.setReviewers p.id slots d = (.ok (), d')) : Places p slots d d' := by
  have hp : Repository.pullRequest false p.id d.records = .ok p :=
    (h.pullRequest_eq false p.id).symm.trans hp
  have hfollows := follows_setReviewers h p.id slots
    (Option.isSome_of_mem (orNotFound_eq_ok.mp hp))
  change Follows Holds (Repository.setReviewers p.id slots d) _ at hfollows
  rw [hok] at hfollows
  exact places_of_follows h hfollows fun m' => Memory.places_setReviewers hp

/-! ## Refusals half way -/

theorem createPullRequest_eq (h : d.Sound) (hown : ∀ slot ∈ p.reviewers, slot.pullRequestId = p.id)
    (hnew : ¬ (d.records.findPullRequest p.id).isSome = true)
    (hauthor : ¬ (d.records.findUser p.authorId).isNone = true) :
    Repository.createPullRequest p d =
      (if d.records.acceptsSlots p.id p.reviewers then .ok () else .error .constraintViolation,
        { d with
          pullRequests := d.pullRequests ++ [.ofPullRequest p]
          slots := d.slots ++ (d.records.acceptedPart p.id [] p.reviewers).map .ofSlot }) := by
  have hnone : d.slotRows p.id = [] := slotRows_eq_nil h.owned (by rwa [hasPullRequest_eq])
  have hstored : hasPullRequest
      { d with pullRequests := d.pullRequests ++ [.ofPullRequest p] } p.id = true :=
    List.any_eq_true.mpr ⟨.ofPullRequest p, List.mem_append_right _ (List.mem_singleton_self _),
      beq_self_eq_true _⟩
  change seenChange (d.createPullRequest p) = _
  rw [createPullRequest, insertPullRequest_eq, if_neg hnew, if_neg hauthor]
  exact insertSlots_eq (d := { d with pullRequests := d.pullRequests ++ [.ofPullRequest p] })
    (m := d.records) rfl hown hstored [] hnone

theorem setReviewers_eq {id : String} (hown : ∀ slot ∈ slots, slot.pullRequestId = id)
    (hknown : d.hasPullRequest id = true) :
    Repository.setReviewers id slots d =
      (if d.records.acceptsSlots id slots then .ok () else .error .constraintViolation,
        { d.deleteSlots id with
          slots := (d.deleteSlots id).slots ++
            (d.records.acceptedPart id [] slots).map .ofSlot }) := by
  have hforeign : ¬ (slots.any (·.pullRequestId != id)) = true := by
    rw [List.any_eq_true]
    rintro ⟨slot, hslot, hne⟩
    exact bne_iff_ne.mp hne (hown slot hslot)
  change seenChange (d.setReviewers id slots) = _
  rw [setReviewers, hknown, if_neg (by decide), if_neg hforeign]
  exact insertSlots_eq (d := d.deleteSlots id) (m := d.records) rfl hown hknown []
    (slotRows_deleteSlots id)

theorem places_acceptedPart_create (h : d.Sound)
    (hown : ∀ slot ∈ p.reviewers, slot.pullRequestId = p.id)
    (hnew : ¬ (d.records.findPullRequest p.id).isSome = true)
    (hauthor : ¬ (d.records.findUser p.authorId).isNone = true) :
    Places p (d.records.acceptedPart p.id [] p.reviewers) d
      (Repository.createPullRequest p d).2 := by
  have hpart := Memory.longestAccepted_acceptedPart (m := d.records) p.id p.reviewers
  let q : PullRequest := { p with reviewers := d.records.acceptedPart p.id [] p.reviewers }
  have hownq : ∀ slot ∈ q.reviewers, slot.pullRequestId = q.id := fun slot hslot =>
    hown slot (hpart.initial.subset hslot)
  have hq : Repository.createPullRequest q d =
      (.ok (), (Repository.createPullRequest p d).2) := by
    rw [createPullRequest_eq h hown hnew hauthor, createPullRequest_eq h hownq hnew hauthor]
    rw [if_pos hpart.accepted, Memory.acceptedPart_eq_self hpart.accepted]
    rfl
  have hplaces := places_createPullRequest h hownq hq
  exact ⟨hplaces.placed, hplaces.ranked, hplaces.others⟩

theorem places_acceptedPart_set (h : d.Sound) (hown : ∀ slot ∈ slots, slot.pullRequestId = p.id)
    (hp : Repository.pullRequest false p.id d = .ok p) (hknown : d.hasPullRequest p.id = true) :
    Places p (d.records.acceptedPart p.id [] slots) d
      (Repository.setReviewers p.id slots d).2 := by
  have hpart := Memory.longestAccepted_acceptedPart (m := d.records) p.id slots
  refine places_setReviewers h hp ?_
  rw [setReviewers_eq hown hknown,
    setReviewers_eq (fun slot hslot => hown slot (hpart.initial.subset hslot)) hknown,
    if_pos hpart.accepted, Memory.acceptedPart_eq_self hpart.accepted]

end Relational.Database

/-! ## Both stores side by side -/

open Relational (Database)

/-- One slot list for pull request `p`, handed to the in-memory store `m` as a whole and to the
database `d` row by row. Both give the same verdict. A list that is accepted is read from both; one
that is refused leaves the records as they were, and the database with its longest accepted
beginning. Other pull requests stay as they are. -/
structure TakenAlike (m : Memory) (d : Database) (p : PullRequest) (slots : List ReviewerSlot)
    (whole : Except Fault Unit × Memory) (rows : Except Fault Unit × Database) : Prop where
  verdict : whole.1 =
    if m.acceptsSlots p.id slots then .ok () else .error .constraintViolation
  alike : rows.1 = whole.1
  accepted : whole.1 = .ok () → Places p slots m whole.2 ∧ Places p slots d rows.2
  refused : whole.1 ≠ .ok () → whole.2 = m ∧
    ∃ part, m.LongestAccepted p.id slots part ∧ Places p part d rows.2

theorem takenAlike_of_part {m after : Memory} {d : Database} {p : PullRequest}
    {slots : List ReviewerSlot} {whole : Except Fault Unit × Memory}
    {rows : Except Fault Unit × Database}
    (haccepts : ∀ l, m.acceptsSlots p.id l = d.records.acceptsSlots p.id l)
    (hwhole : whole =
      if m.acceptsSlots p.id slots then (.ok (), after) else (.error .constraintViolation, m))
    (hplaces : whole = (.ok (), after) → Places p slots m after)
    (hrows : rows.1 =
      if d.records.acceptsSlots p.id slots then .ok () else .error .constraintViolation)
    (hpart : Places p (d.records.acceptedPart p.id [] slots) d rows.2) :
    TakenAlike m d p slots whole rows := by
  have hlongest : m.LongestAccepted p.id slots (d.records.acceptedPart p.id [] slots) := by
    obtain ⟨hinitial, haccepted, hlongest⟩ :=
      Memory.longestAccepted_acceptedPart (m := d.records) p.id slots
    exact ⟨hinitial, (haccepts _).trans haccepted, fun l hl ha =>
      hlongest l hl ((haccepts l).symm.trans ha)⟩
  rw [← haccepts] at hrows
  cases ha : m.acceptsSlots p.id slots with
  | true =>
    rw [ha, if_pos rfl] at hwhole hrows
    subst hwhole
    refine ⟨by rw [ha]; rfl, hrows, fun _ => ⟨hplaces rfl, ?_⟩, fun hne => absurd rfl hne⟩
    rw [haccepts] at ha
    rwa [Memory.acceptedPart_eq_self ha] at hpart
  | false =>
    rw [ha, if_neg Bool.false_ne_true] at hwhole hrows
    subst hwhole
    exact ⟨by rw [ha]; rfl, hrows, nofun, fun _ => ⟨rfl, _, hlongest, hpart⟩⟩

/-- **Checking a slot list as a whole and row by row comes to the same**, for lists of any length
with slots of one pull request. It holds of a new pull request with a known author, and of new slots
for one that is stored. -/
theorem whole_list_row_by_row {m : Memory} {d : Database} (hd : d.Sound) (halike : ReadAlike m d)
    (p : PullRequest) :
    ((∀ slot ∈ p.reviewers, slot.pullRequestId = p.id) →
      Repository.pullRequest false p.id m = .error .notFound →
      (∃ author, Repository.user p.authorId m = .ok author) →
        TakenAlike m d p p.reviewers (Repository.createPullRequest p m)
          (Repository.createPullRequest p d)) ∧
      ∀ slots, (∀ slot ∈ slots, slot.pullRequestId = p.id) →
        Repository.pullRequest false p.id m = .ok p →
          TakenAlike m d p slots (Repository.setReviewers p.id slots m)
            (Repository.setReviewers p.id slots d) := by
  have huser : ∀ id, m.findUser id = d.records.findUser id := fun id =>
    orNotFound_inj.mp (halike.user id)
  have hpr : ∀ id, m.findPullRequest id = d.records.findPullRequest id := fun id =>
    orNotFound_inj.mp ((halike.pullRequest false id).trans (hd.pullRequest_eq false id))
  have haccepts : ∀ slots, m.acceptsSlots p.id slots = d.records.acceptsSlots p.id slots := by
    refine Memory.acceptsSlots_congr (fun id => ?_) p.id
    rw [← Memory.isSome_findUser, ← Memory.isSome_findUser, huser]
  constructor
  · intro hown hnew ⟨author, hauthor⟩
    have hnew : ¬ (m.findPullRequest p.id).isSome = true := by
      rw [orNotFound_eq_error.mp hnew]
      exact Bool.false_ne_true
    have hauthor : ∃ u ∈ m.users, u.id = p.authorId :=
      ⟨author, Memory.mem_of_findUser (orNotFound_eq_ok.mp hauthor)⟩
    have hwhole : Repository.createPullRequest p m =
        if m.acceptsSlots p.id p.reviewers then (.ok (), { m with
          pullRequests :=
            m.pullRequests ++ [{ p with reviewers := Memory.sortSlots p.reviewers }] })
        else (.error .constraintViolation, m) :=
      (Memory.createPullRequest_eq hauthor).trans (if_neg hnew)
    have hauthor := Memory.not_isNone_findUser.mpr hauthor
    rw [hpr] at hnew
    rw [huser] at hauthor
    refine takenAlike_of_part haccepts hwhole (Memory.places_createPullRequest hown) ?_
      (Database.places_acceptedPart_create hd hown hnew hauthor)
    rw [Database.createPullRequest_eq hd hown hnew hauthor]
  · intro slots hown hp
    have hknown : m.findPullRequest p.id = some p := orNotFound_eq_ok.mp hp
    have hwhole : Repository.setReviewers p.id slots m =
        if m.acceptsSlots p.id slots then (.ok (), m.withSlots p.id slots)
        else (.error .constraintViolation, m) :=
      Memory.setReviewers_eq slots ⟨p, Memory.mem_of_findPullRequest hknown⟩
    have hpd : Repository.pullRequest false p.id d = .ok p :=
      (halike.pullRequest false p.id).symm.trans hp
    have hknown : d.hasPullRequest p.id = true := by
      rw [Database.hasPullRequest_eq, ← hpr, hknown]
      rfl
    refine takenAlike_of_part haccepts hwhole (Memory.places_setReviewers hp) ?_
      (Database.places_acceptedPart_set hd hown hpd hknown)
    rw [Database.setReviewers_eq hown hknown]

/-- Of three slots for the pull request of the small team, the last repeats a number. -/
theorem whole_list_row_by_row_smallTeam :
    let time := Sources.still.time
    let slots : List ReviewerSlot := [⟨"p", 2, "c", time⟩, ⟨"p", 1, "b", time⟩, ⟨"p", 2, "a", time⟩]
    let q : PullRequest := ⟨"q", "Next", "b", .opened, time, none, [⟨"q", 3, "c", time⟩]⟩
    let m : Memory := smallRecords.records
    let d : Database := (smallRun .relational).data
    TakenAlike m d q q.reviewers (Repository.createPullRequest q m)
        (Repository.createPullRequest q d) ∧
      TakenAlike m d smallPullRequest slots (Repository.setReviewers "p" slots m)
        (Repository.setReviewers "p" slots d) := by
  intro time slots q m d
  have hd : d.Sound := sound_smallRun .relational
  have halike : ReadAlike m d := by
    have hsame : smallRecords.records = Database.records (smallRun .relational).data := by
      decide +kernel
    exact (congrArg (ReadAlike · d) hsame).mpr hd.readAlike
  exact ⟨(whole_list_row_by_row hd halike q).1 (by decide) (by decide +kernel)
    ⟨⟨"b", "Ben", "t", true, time⟩, by decide +kernel⟩,
    (whole_list_row_by_row hd halike smallPullRequest).2 slots (by decide) (by decide +kernel)⟩

end ReviewRota
