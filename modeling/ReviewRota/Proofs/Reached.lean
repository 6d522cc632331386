import ReviewRota.Proofs.Atomicity
import ReviewRota.Proofs.Stores
import ReviewRota.Proofs.Upkeep

/-!
# States that service calls reach

What holds on both stores after any calls of the services, starting from the empty store.

* **`reached_slots`**: slot lists are numbered without a gap and hold different reviewers, none of
  them the author; a creation with too many reviewers for the numbers is refused.
* **`reached_reviewers`**: reviewers are of the author's team, and those of open pull requests are
  active; whoever has been deactivated reviews no open pull request.
-/

set_option linter.unusedSectionVars false

namespace ReviewRota

variable {π : Type} [Collaborators π] [Collaborators.Lawful π]

/-! ## Orderly stores -/

/-- Sound data with orderly records. -/
structure StoreKind.Orderly (kind : StoreKind) (d : kind.Data) : Prop where
  sound : kind.Sound d
  orderly : Memory.Orderly (kind.ledger d)

theorem orderly_empty : Memory.Orderly ⟨[], [], []⟩ where
  toIntegrity := StoreKind.sound_empty .memory
  proper _ hp := absurd hp List.not_mem_nil
  manned _ hp := absurd hp List.not_mem_nil

omit [Collaborators.Lawful π] in
/-- **Runs from the empty store stay orderly.** -/
theorem StoreKind.reached_orderly (kind : StoreKind) (settings : AssignmentSettings)
    (calls : List Call) (p : π) :
    kind.Orderly (performAll settings calls (.start (Repository.empty : kind.Data) p)).2.data := by
  obtain ⟨hsound, hledger⟩ := kind.reached settings calls p
  refine ⟨hsound, ?_⟩
  have hkeep := (Ledger.keeps_orderly (π := π) kind.older).performAll settings calls
    (.start (Repository.empty : Ledger kind.older) p) orderly_empty
  rw [← hledger] at hkeep
  exact hkeep

/-! ## Slot lists -/

theorem createPullRequest_refused {kind : StoreKind} {s : Session kind.Data π}
    (hsound : kind.Sound s.data) (settings : AssignmentSettings) (title authorId : String)
    (id : Option String) {author : User} (ha : Repository.user authorId s.data = .ok author)
    {pool : List User}
    (hpool : Repository.activeMembers author.teamId [author.id] s.data = .ok pool)
    (hmax : 4294967296 ≤ settings.maxReviewers) (hlen : 4294967296 ≤ pool.length) :
    ∃ fault, ((Service.createPullRequest settings title authorId id).exec s).1 = .error fault := by
  rcases he : (Service.createPullRequest settings title authorId id).exec s with ⟨r, s'⟩
  cases r with
  | error fault => exact ⟨fault, rfl⟩
  | ok p =>
    obtain ⟨-, he⟩ := StoreKind.exec_onLedger
      (kind.mirrored.service_createPullRequest settings title authorId id) hsound he
    obtain ⟨-, he⟩ := Service.require_bind_eq_ok.mp he
    obtain ⟨newId, s₁, hid, he⟩ := Work.exec_bind_eq_ok.mp he
    have hdata : s₁.data = kind.ledger s.data := (resolveId_eq_ok hid).1
    obtain ⟨author', pool', chosen, time, ha', hpool', -, hcount, hr, hfits, -⟩ :=
      Ledger.createPullRequestIn_eq_ok (exec_transact_eq_ok.mp he)
    rw [hdata, ← kind.mirrored.user hsound.holds, ha, Except.ok.injEq] at ha'
    subst ha'
    rw [hdata, ← kind.mirrored.activeMembers hsound.holds, hpool, Except.ok.injEq] at hpool'
    subst hpool'
    -- the slots are numbered without a gap up to their count, for which there is no number
    rw [hr] at hfits
    have hlt := hfits.length_chosen_lt
    rw [hcount] at hlt
    omega

/-- **Slot lists in every state that calls of the services reach**, on both stores: the reviewers
of a pull request differ from each other and from its author, and its slots are its own, numbered
from 1 without a gap. A creation that would choose `2 ^ 32` reviewers or more is refused. -/
theorem reached_slots (kind : StoreKind) (settings : AssignmentSettings) (calls : List Call)
    (p : π) :
    let s := (performAll settings calls (.start (Repository.empty : kind.Data) p)).2
    (∃ ps, Repository.pullRequests none s.data = .ok ps ∧
      ∀ pr ∈ ps, pr.reviewerIds.Nodup ∧ pr.authorId ∉ pr.reviewerIds ∧
        (∀ slot ∈ pr.reviewers, slot.pullRequestId = pr.id) ∧
        pr.reviewers.map (·.number.toNat) = List.range' 1 pr.reviewers.length) ∧
    ∀ title authorId id author pool, Repository.user authorId s.data = .ok author →
      Repository.activeMembers author.teamId [author.id] s.data = .ok pool →
      4294967296 ≤ settings.maxReviewers → 4294967296 ≤ pool.length →
        ∃ fault after, ((Call.createPullRequest title authorId id).perform settings).exec s =
          (.error fault, after) ∧ after.data = s.data := by
  intro s
  have h : kind.Orderly s.data := kind.reached_orderly settings calls p
  constructor
  · obtain ⟨ps, hps, hmem⟩ := h.sound.exists_pullRequests
    refine ⟨ps, hps, fun pr hpr => ?_⟩
    have hproper := h.orderly.proper pr ((hmem pr).mp hpr)
    exact ⟨hproper.fits.users, hproper.author_notMem, hproper.fits.own, hproper.dense⟩
  · intro title authorId id author pool ha hpool hmax hlen
    obtain ⟨fault, hf⟩ :=
      createPullRequest_refused h.sound settings title authorId id ha hpool hmax hlen
    have hcall : (((Call.createPullRequest title authorId id).perform settings).exec s).1 =
        .error fault := by
      rw [Call.perform, Work.exec_map, hf]
      rfl
    exact ⟨fault, _, Prod.ext hcall rfl, Call.atomic settings _ s fault hcall⟩

/-- The small team in the tables. -/
theorem reached_slots_smallTeam :
    ∃ ps, Repository.pullRequests none (smallRun .relational).data = .ok ps ∧
      ∀ pr ∈ ps, pr.reviewerIds.Nodup ∧ pr.authorId ∉ pr.reviewerIds ∧
        (∀ slot ∈ pr.reviewers, slot.pullRequestId = pr.id) ∧
        pr.reviewers.map (·.number.toNat) = List.range' 1 pr.reviewers.length := by
  unfold smallRun
  exact (reached_slots .relational smallSettings smallTeam Sources.still).1

/-! ## Reviewers -/

/-- As the store tells, the user is inactive and reviews no open pull request. -/
def Retired {σ : Type} [Repository σ] (id : String) (d : σ) : Prop :=
  (∃ u, Repository.user id d = .ok u ∧ u.isActive = false) ∧
    ∃ ps, Repository.pullRequests none d = .ok ps ∧
      ∀ p ∈ ps, p.isOpen = true → id ∉ p.reviewerIds

theorem StoreKind.Orderly.retired {kind : StoreKind} {d : kind.Data} (h : kind.Orderly d)
    {u : User} (hu : u ∈ Memory.users (kind.ledger d)) (hinactive : u.isActive = false) :
    Retired u.id d := by
  obtain ⟨ps, hps, hmem⟩ := h.sound.exists_pullRequests
  refine ⟨⟨u, h.sound.user_iff.mpr ⟨hu, rfl⟩, hinactive⟩, ps, hps, fun p hp hopen hrev => ?_⟩
  rcases h.orderly.manned p ((hmem p).mp hp) hopen u hu hrev with hactive | hnil
  · rw [hinactive] at hactive
    cases hactive
  · exact List.not_mem_nil hnil

omit [Collaborators.Lawful π] in
theorem StoreKind.Orderly.deactivate {kind : StoreKind} {s s' : Session kind.Data π}
    (h : kind.Orderly s.data) {team : String} {ids : List String} {r : Deactivation}
    (he : (Service.deactivate team ids).exec s = (.ok r, s')) {id : String} (hid : id ∈ ids) :
    Retired id s'.data := by
  obtain ⟨hsound, he⟩ :=
    StoreKind.exec_onLedger (kind.mirrored.service_deactivate team ids) h.sound he
  obtain ⟨-, he⟩ := Service.require_bind_eq_ok.mp he
  obtain ⟨horderly, hall⟩ :=
    Ledger.deactivate_ok (Service.nodup_distinct ids) h.orderly (exec_transact_eq_ok.mp he)
  obtain ⟨u, hu, rfl, hinactive⟩ := hall id (Service.mem_distinct.mpr hid)
  exact StoreKind.Orderly.retired ⟨hsound, horderly⟩ hu hinactive

omit [Collaborators.Lawful π] in
theorem StoreKind.Orderly.updateUser {kind : StoreKind} {s s' : Session kind.Data π}
    (h : kind.Orderly s.data) {id : String} {update : UserUpdate} {r : User}
    (he : (Service.updateUser id update).exec s = (.ok r, s')) (hr : r.isActive = false) :
    Retired id s'.data := by
  obtain ⟨hsound, he⟩ :=
    StoreKind.exec_onLedger (kind.mirrored.service_updateUser id update) h.sound he
  obtain ⟨-, he⟩ := Service.require_bind_eq_ok.mp he
  obtain ⟨-, he⟩ := Service.require_bind_eq_ok.mp he
  obtain ⟨horderly, u, hu, rfl, hflag⟩ :=
    Ledger.updateUser_ok h.orderly (exec_transact_eq_ok.mp he)
  exact StoreKind.Orderly.retired ⟨hsound, horderly⟩ hu (hflag.trans hr)

/-- **Reviewers in every state that calls of the services reach**, on both stores: they are of the
team of the author, and those of open pull requests are active. A deactivation that succeeds, of one
user or of several, leaves nobody of its batch on an open pull request. -/
theorem reached_reviewers (kind : StoreKind) (settings : AssignmentSettings) (calls : List Call)
    (p : π) :
    let s := (performAll settings calls (.start (Repository.empty : kind.Data) p)).2
    (∃ ps, Repository.pullRequests none s.data = .ok ps ∧
      ∀ pr ∈ ps, ∃ author, Repository.user pr.authorId s.data = .ok author ∧
        ∀ id ∈ pr.reviewerIds, ∃ u, Repository.user id s.data = .ok u ∧
          u.teamId = author.teamId ∧ (pr.isOpen = true → u.isActive = true)) ∧
    (∀ team ids r s', (Service.deactivate team ids).exec s = (.ok r, s') →
      ∀ id ∈ ids, Retired id s'.data) ∧
    ∀ id update r s', (Service.updateUser id update).exec s = (.ok r, s') → r.isActive = false →
      Retired id s'.data := by
  intro s
  have h : kind.Orderly s.data := kind.reached_orderly settings calls p
  refine ⟨?_, fun team ids r s' he id hid => h.deactivate he hid, fun id update r s' he hr =>
    h.updateUser he hr⟩
  obtain ⟨ps, hps, hmem⟩ := h.sound.exists_pullRequests
  refine ⟨ps, hps, fun pr hpr => ?_⟩
  have hpr := (hmem pr).mp hpr
  have hproper := h.orderly.proper pr hpr
  obtain ⟨author, ha, hauthor⟩ := h.orderly.authors pr hpr
  refine ⟨author, h.sound.user_iff.mpr ⟨ha, hauthor⟩, fun id hid => ?_⟩
  obtain ⟨slot, hslot, rfl⟩ := List.mem_map.mp hid
  obtain ⟨u, hu, he⟩ := hproper.fits.known slot hslot
  rw [← he] at hid ⊢
  exact ⟨u, h.sound.user_iff.mpr ⟨hu, rfl⟩, hproper.sameTeam author ha hauthor u hu hid,
    fun hopen => (h.orderly.manned pr hpr hopen u hu hid).resolve_right List.not_mem_nil⟩

/-- The reviewer of the small team's pull request leaves. -/
theorem reached_reviewers_smallTeam :
    ((Service.deactivate "t" ["b"]).exec (smallRun .memory)).1 = .ok ⟨1, 1⟩ ∧
      Retired "b" ((Service.deactivate "t" ["b"]).exec (smallRun .memory)).2.data := by
  have hdone : ((Service.deactivate "t" ["b"]).exec (smallRun .memory)).1 = .ok ⟨1, 1⟩ := by
    decide +kernel
  rcases he : (Service.deactivate "t" ["b"]).exec (smallRun .memory) with ⟨r, s'⟩
  rw [he] at hdone
  obtain rfl : r = .ok ⟨1, 1⟩ := hdone
  unfold smallRun at he
  obtain ⟨-, hbatch, -⟩ := reached_reviewers .memory smallSettings smallTeam Sources.still
  exact ⟨rfl, hbatch "t" ["b"] _ _ he "b" List.mem_cons_self⟩

end ReviewRota
