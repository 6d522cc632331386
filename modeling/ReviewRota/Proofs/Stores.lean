import ReviewRota.Proofs.Relational.Mirroring
import ReviewRota.Proofs.TextOrder
import ReviewRota.Sources.Basic

/-!
# The stores

The two stores of a deployment, and what they have in common: each is mirrored by a ledger, in
which a service can be followed record by record.

* `StoreKind`: the in-memory and the relational store.
* `StoreKind.Sound`: data that satisfies the constraints of its store.
* `StoreKind.mirrored`: data is mirrored by the ledger of its records, `StoreKind.ledger`.
* `StoreKind.Sound.user_iff`, `StoreKind.Sound.pullRequest_iff`, …: what is read is what the ledger
  has.
* **`StoreKind.reached`**: runs from the empty store, followed in the ledger.
* `smallRun`: a small team in either store; `fullRun`: the same team with newcomers, who are dated
  before it.
-/

namespace ReviewRota

/-- The stores of a deployment. -/
inductive StoreKind where
  | memory
  | relational
  deriving DecidableEq, Repr

namespace StoreKind

/-- The data of a store. -/
def Data : StoreKind → Type
  | memory => Memory
  | relational => Relational.Database

instance : (kind : StoreKind) → Repository kind.Data
  | memory => inferInstanceAs (Repository Memory)
  | relational => inferInstanceAs (Repository Relational.Database)

/-- Data that satisfies the constraints of its store. -/
def Sound : (kind : StoreKind) → kind.Data → Prop
  | memory => Memory.Integrity
  | relational => Relational.Database.Sound

/-- The order of time by which a store lists. -/
def older : StoreKind → Instant → Instant → Bool
  | memory => Instant.le
  | relational => Instant.textLe

theorem isPreorder_older : (kind : StoreKind) → IsPreorder kind.older
  | memory => Instant.isPreorder_le
  | relational => Instant.isPreorder_textLe

/-- The records of a store. -/
def ledger : (kind : StoreKind) → kind.Data → Ledger kind.older
  | memory => id
  | relational => Relational.Database.records

/-- Sound data with the records of a ledger. -/
def Holds (kind : StoreKind) (d : kind.Data) (m : Ledger kind.older) : Prop :=
  kind.Sound d ∧ m = kind.ledger d

theorem Sound.integrity {kind : StoreKind} {d : kind.Data} (h : kind.Sound d) :
    Memory.Integrity (kind.ledger d) := by
  cases kind with
  | memory => exact h
  | relational => exact Relational.Database.Sound.integrity h

theorem Sound.holds {kind : StoreKind} {d : kind.Data} (h : kind.Sound d) :
    kind.Holds d (kind.ledger d) :=
  ⟨h, rfl⟩

theorem sound_empty : (kind : StoreKind) → kind.Sound Repository.empty
  | memory => by
    constructor <;> first | exact .nil | exact fun _ h => (List.not_mem_nil h).elim
  | relational => by
    constructor <;> first | exact .nil | exact fun _ h => (List.not_mem_nil h).elim

theorem ledger_empty (kind : StoreKind) :
    kind.ledger Repository.empty = (Repository.empty : Ledger kind.older) := by
  cases kind <;> rfl

theorem mirrored_memory : Repository.Mirrored
    (fun (d : Memory) (m : Ledger Instant.le) => d.Integrity ∧ m = d)
    fun d m => d.Integrity ∧ m = d where
  weaken := le_rfl
  team h _ := h.2 ▸ rfl
  teams h := h.2 ▸ rfl
  user h _ := h.2 ▸ rfl
  users h _ _ := h.2 ▸ rfl
  usersByIds h _ := h.2 ▸ rfl
  activeMembers h _ _ := h.2 ▸ rfl
  pullRequest h _ _ := h.2 ▸ rfl
  pullRequests h _ := h.2 ▸ rfl
  assignedTo h _ _ := h.2 ▸ rfl
  userLoads h _ := h.2 ▸ rfl
  reviewerCounts h _ := h.2 ▸ rfl
  createTeam h team := by
    obtain ⟨hd, rfl⟩ := h
    exact ⟨rfl, fun _ => ⟨(Ledger.keeps_integrity _).createTeam team _ hd, rfl⟩⟩
  createUser h user := by
    obtain ⟨hd, rfl⟩ := h
    exact ⟨rfl, fun _ => ⟨(Ledger.keeps_integrity _).createUser user _ hd, rfl⟩⟩
  updateUser h user := by
    obtain ⟨hd, rfl⟩ := h
    exact ⟨rfl, fun _ => ⟨(Ledger.keeps_integrity _).updateUser user _ hd, rfl⟩⟩
  createPullRequest h p _ := by
    obtain ⟨hd, rfl⟩ := h
    exact ⟨rfl, fun _ => ⟨(Ledger.keeps_integrity _).createPullRequest p _ hd, rfl⟩⟩
  setStatus h id status time := by
    obtain ⟨hd, rfl⟩ := h
    exact ⟨rfl, fun _ => ⟨(Ledger.keeps_integrity _).setStatus id status time _ hd, rfl⟩⟩
  setReviewers h id slots _ := by
    obtain ⟨hd, rfl⟩ := h
    exact ⟨rfl, fun _ => ⟨(Ledger.keeps_integrity _).setReviewers id slots _ hd, rfl⟩⟩

/-- **A store is mirrored by the ledger of its records.** -/
theorem mirrored : (kind : StoreKind) → Repository.Mirrored kind.Holds kind.Holds
  | memory => mirrored_memory
  | relational => Relational.Database.mirrored

variable {π : Type} {kind : StoreKind}

/-- A session on the ledger of a store. -/
def onLedger (s : Session kind.Data π) : Session (Ledger kind.older) π :=
  ⟨kind.ledger s.data, s.collaborators, s.draws, s.readings⟩

theorem Sound.agree {s : Session kind.Data π} (h : kind.Sound s.data) :
    s.Agree kind.Holds (onLedger s) :=
  ⟨h.holds, rfl, rfl, rfl⟩

theorem eq_onLedger {s : Session kind.Data π} {t : Session (Ledger kind.older) π}
    (h : s.Agree kind.Holds t) : t = onLedger s := by
  obtain ⟨data, collaborators, draws, readings⟩ := t
  exact Session.mk.injEq .. |>.mpr
    ⟨h.data.2, h.collaborators.symm, h.draws.symm, h.readings.symm⟩

theorem exec_onLedger {α : Type} {w : Work kind.Data π α} {v : Work (Ledger kind.older) π α}
    (hw : Work.Mirrors (fun _ => False) kind.Holds kind.Holds w v) {s s' : Session kind.Data π}
    {r : Except Fault α} (h : kind.Sound s.data) (he : w.exec s = (r, s')) :
    kind.Sound s'.data ∧ v.exec (onLedger s) = (r, onLedger s') := by
  obtain ⟨hr, hs⟩ := hw h.agree
  rw [he] at hr hs
  have hs := hs.mono fun d m hQ => hQ fun _ _ => id
  exact ⟨hs.data.1, Prod.ext hr.symm (eq_onLedger hs)⟩

section

variable {d : kind.Data} (h : kind.Sound d)
include h

theorem Sound.team_iff {id : String} {team : Team} :
    Repository.team id d = .ok team ↔ team ∈ Memory.teams (kind.ledger d) ∧ team.id = id := by
  rw [kind.mirrored.team h.holds, Ledger.team_iff h.integrity]

theorem Sound.user_iff {id : String} {u : User} :
    Repository.user id d = .ok u ↔ u ∈ Memory.users (kind.ledger d) ∧ u.id = id := by
  rw [kind.mirrored.user h.holds, Ledger.user_iff h.integrity]

theorem Sound.pullRequest_iff {lock : Bool} {id : String} {p : PullRequest} :
    Repository.pullRequest lock id d = .ok p ↔
      p ∈ Memory.pullRequests (kind.ledger d) ∧ p.id = id := by
  rw [kind.mirrored.pullRequest h.holds, Ledger.pullRequest_iff h.integrity]

theorem Sound.exists_team {u : User} (hu : u ∈ Memory.users (kind.ledger d)) :
    ∃ team, Repository.team u.teamId d = .ok team := by
  obtain ⟨team, hteam, he⟩ := h.integrity.userTeams u hu
  exact ⟨team, h.team_iff.mpr ⟨hteam, he⟩⟩

theorem Sound.exists_pullRequests :
    ∃ ps, Repository.pullRequests none d = .ok ps ∧
      ∀ p, p ∈ ps ↔ p ∈ Memory.pullRequests (kind.ledger d) := by
  refine ⟨_, kind.mirrored.pullRequests h.holds none, fun p => ?_⟩
  rw [mem_newestFirst, List.mem_filter]
  exact and_iff_left rfl

end

theorem snapshot_eq {d : kind.Data} (h : kind.Sound d) :
    Repository.snapshot d = Repository.snapshot (kind.ledger d) :=
  kind.mirrored.snapshot h.holds

theorem Sound.exists_snapshot {d : kind.Data} (h : kind.Sound d) :
    ∃ snapshot, Repository.snapshot d = .ok snapshot ∧
      snapshot.teams.Perm (Memory.teams (kind.ledger d)) ∧
        snapshot.users.Perm (Memory.users (kind.ledger d)) ∧
          snapshot.pullRequests.Perm (Memory.pullRequests (kind.ledger d)) := by
  obtain ⟨snapshot, hsnap⟩ : ∃ snapshot, Repository.snapshot (kind.ledger d) = .ok snapshot :=
    ⟨_, rfl⟩
  exact ⟨snapshot, (snapshot_eq h).trans hsnap, Ledger.perm_of_snapshot hsnap⟩

variable [Collaborators π]

theorem Sound.performAll {s : Session kind.Data π} (h : kind.Sound s.data)
    (settings : AssignmentSettings) (calls : List Call) :
    kind.Sound (ReviewRota.performAll settings calls s).2.data :=
  (kind.mirrored.performAll settings calls h.agree).2.data.1

/-- **A run from the empty store, followed in the ledger.** -/
theorem reached (kind : StoreKind) (settings : AssignmentSettings) (calls : List Call) (p : π) :
    let s := (performAll settings calls (.start (Repository.empty : kind.Data) p)).2
    kind.Sound s.data ∧
      onLedger s =
        (performAll settings calls (.start (Repository.empty : Ledger kind.older) p)).2 := by
  have ha : (Session.start (Repository.empty : kind.Data) p).Agree kind.Holds
      (.start (Repository.empty : Ledger kind.older) p) :=
    ⟨⟨kind.sound_empty, kind.ledger_empty.symm⟩, rfl, rfl, rfl⟩
  obtain ⟨-, hs⟩ := kind.mirrored.performAll settings calls ha
  exact ⟨hs.data.1, (eq_onLedger hs).symm⟩

end StoreKind

/-! ## A small team -/

/-- Sources whose clock stands still and whose draws are all 0. -/
def Sources.still : Sources :=
  ⟨⟨⟨2024, 3, 1, by decide⟩, 32400, 0, by decide, by decide, by decide⟩, 0, [], 0, .listed []⟩

/-- Identifiers by the callers, and one reviewer at most. -/
def smallSettings : AssignmentSettings :=
  ⟨1, .external⟩

/-- A team of three, and a pull request of its first member. -/
def smallTeam : List Call :=
  [.createTeam "backend" (some "t"), .createUser "t" "Ann" true (some "a"),
    .createUser "t" "Ben" true (some "b"), .createUser "t" "Cem" true (some "c"),
    .createPullRequest "Fix" "a" (some "p")]

/-- The small team in a store. -/
def smallRun (kind : StoreKind) : Session kind.Data Sources :=
  (performAll smallSettings smallTeam (.start Repository.empty .still)).2

theorem sound_smallRun (kind : StoreKind) : kind.Sound (smallRun kind).data := by
  obtain ⟨hsound, -⟩ := kind.reached smallSettings smallTeam Sources.still
  unfold smallRun
  exact hsound

/-- The records of the small team: the draw has chosen the second member. -/
def smallRecords : Snapshot :=
  let time := Sources.still.time
  ⟨[⟨"t", "backend", time⟩],
    [⟨"a", "Ann", "t", true, time⟩, ⟨"b", "Ben", "t", true, time⟩, ⟨"c", "Cem", "t", true, time⟩],
    [⟨"p", "Fix", "a", .opened, time, none, [⟨"p", 1, "b", time⟩]⟩]⟩

example : Repository.snapshot (smallRun .relational).data = .ok smallRecords := by
  decide +kernel

/-- The pull request of the small team, under review by its second member. -/
def smallPullRequest : PullRequest :=
  ⟨"p", "Fix", "a", .opened, Sources.still.time, none, [⟨"p", 1, "b", Sources.still.time⟩]⟩

/-! ## A full team -/

/-- Sources whose clock is a day behind and moves on by a minute, and whose draws are listed. -/
def Sources.behind : Sources :=
  ⟨⟨⟨2024, 2, 29, by decide⟩, 32400, 0, by decide, by decide, by decide⟩, 60000, [], 0,
    .listed [3, 3, 3, 2, 1, 0, 1, 1]⟩

/-- Identifiers by the callers, and two reviewers at most. -/
def fullSettings : AssignmentSettings :=
  ⟨2, .external⟩

/-- Four more members, one of them inactive, and two more pull requests of the first member. -/
def newcomers : List Call :=
  [.createUser "t" "Dan" true (some "d"), .createUser "t" "Eva" true (some "e"),
    .createUser "t" "Fay" true (some "f"), .createUser "t" "Gil" false (some "g"),
    .createPullRequest "Next" "a" (some "q"), .createPullRequest "Last" "a" (some "r")]

/-- The small team with the newcomers, who are stored after it and dated before it. -/
def fullRun (kind : StoreKind) : Session kind.Data Sources :=
  (performAll fullSettings newcomers (.start (smallRun kind).data .behind)).2

theorem sound_fullRun (kind : StoreKind) : kind.Sound (fullRun kind).data := by
  unfold fullRun
  exact StoreKind.Sound.performAll (s := .start _ .behind) (sound_smallRun kind) _ _

/-- The records of the full team as they are listed. -/
def fullRecords : Snapshot :=
  let time (minute : Fin 60) : Instant :=
    ⟨⟨2024, 2, 29, by decide⟩, 32400 + 60 * minute, 0, by omega, by decide, by omega⟩
  { teams := smallRecords.teams
    users :=
      [⟨"d", "Dan", "t", true, time 0⟩, ⟨"e", "Eva", "t", true, time 1⟩,
        ⟨"f", "Fay", "t", true, time 2⟩, ⟨"g", "Gil", "t", false, time 3⟩] ++ smallRecords.users
    pullRequests := smallRecords.pullRequests ++
      [⟨"r", "Last", "a", .opened, time 5, none, [⟨"r", 1, "b", time 5⟩, ⟨"r", 2, "d", time 5⟩]⟩,
        ⟨"q", "Next", "a", .opened, time 4, none, [⟨"q", 1, "b", time 4⟩, ⟨"q", 2, "c", time 4⟩]⟩] }

end ReviewRota
