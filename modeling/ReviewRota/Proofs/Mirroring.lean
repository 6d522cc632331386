import Mathlib.Order.PropInstances
import ReviewRota.Proofs.Ledger

/-!
# One store mirrored by another

The same service carried out on two stores. If related data answer every reading alike and changes
lead from related data to related data, then the services give the same outcomes, ask the same of
their collaborators, and leave related data behind.

* `Session.Agree R`: two sessions with related data, at the same point of the same sources.
* `Work.Mirrors torn R Q`: from data related by `R`, two operations have the same outcome and end
  with data related by `Q`, except after a fault that is `torn`: one that leaves an operation half
  done.
* `Repository.Mirrored R Q`: a store mirrored by a ledger. `Q` is what is left of `R` once a record
  has been created.
* **`Repository.Mirrored.perform`**: a service call on a mirrored store.
-/

namespace ReviewRota

variable {σ τ π α β : Type}

/-- Sessions with data related by `R` that have asked the same of the same collaborators. -/
structure Session.Agree (R : σ → τ → Prop) (s : Session σ π) (t : Session τ π) : Prop where
  data : R s.data t.data
  collaborators : s.collaborators = t.collaborators
  draws : s.draws = t.draws
  readings : s.readings = t.readings

theorem Session.Agree.mono {R Q : σ → τ → Prop} {s : Session σ π} {t : Session τ π}
    (h : s.Agree R t) (hRQ : R ≤ Q) : s.Agree Q t :=
  ⟨hRQ _ _ h.data, h.collaborators, h.draws, h.readings⟩

/-- Equal outcomes from data related by `R`, and data related by `Q` after them, except after a
`torn` fault. -/
def Work.Mirrors (torn : Fault → Prop) (R Q : σ → τ → Prop) (w : Work σ π α)
    (v : Work τ π α) : Prop :=
  ∀ ⦃s t⦄, s.Agree R t → (w.exec s).1 = (v.exec t).1 ∧
    (w.exec s).2.Agree (fun d e => (∀ fault, (w.exec s).1 = .error fault → ¬ torn fault) → Q d e)
      (v.exec t).2

namespace Work.Mirrors

variable {torn : Fault → Prop} {R S Q : σ → τ → Prop}

/-! ## Composition -/

theorem mono {R' Q' : σ → τ → Prop} {w : Work σ π α} {v : Work τ π α} (h : Mirrors torn R Q w v)
    (hR : R' ≤ R) (hQ : Q ≤ Q') : Mirrors torn R' Q' w v :=
  fun _ _ ha => ⟨(h (ha.mono hR)).1, (h (ha.mono hR)).2.mono fun d e k hf => hQ d e (k hf)⟩

theorem pure (hRQ : R ≤ Q) (a : α) :
    Mirrors torn R Q (Pure.pure a : Work σ π α) (Pure.pure a : Work τ π α) :=
  fun _ _ ha => ⟨rfl, ha.mono fun d e hR _ => hRQ d e hR⟩

theorem fail (hRQ : R ≤ Q) (fault : Fault) :
    Mirrors torn R Q (Work.fail fault : Work σ π α) (Work.fail fault : Work τ π α) :=
  fun _ _ ha => ⟨rfl, ha.mono fun d e hR _ => hRQ d e hR⟩

/-- Work goes before work that may rely on what the first has given. -/
theorem bind_where {P : α → Prop} {w : Work σ π α} {v : Work τ π α} {f : α → Work σ π β}
    {g : α → Work τ π β} (hw : Mirrors torn R S w v)
    (hP : ∀ (s : Session σ π) (t : Session τ π), s.Agree R t →
      ∀ a t', v.exec t = (.ok a, t') → P a)
    (hf : ∀ a, P a → Mirrors torn S Q (f a) (g a)) (hSQ : S ≤ Q) :
    Mirrors torn R Q (w >>= f) (v >>= g) := by
  intro s t ha
  obtain ⟨hr, hs⟩ := hw ha
  rw [exec_bind, exec_bind]
  rcases hw' : w.exec s with ⟨r, s'⟩
  rcases hv' : v.exec t with ⟨r', t'⟩
  rw [hw', hv'] at hr hs
  cases hr
  cases r with
  | ok a => exact hf a (hP s t ha a t' hv') (hs.mono fun d e k => k fun fault h => by cases h)
  | error fault =>
    exact ⟨rfl, hs.mono fun d e k ht => hSQ d e (k fun f h => ht f (by cases h; rfl))⟩

theorem bind {w : Work σ π α} {v : Work τ π α} {f : α → Work σ π β} {g : α → Work τ π β}
    (hw : Mirrors torn R S w v) (hf : ∀ a, Mirrors torn S Q (f a) (g a))
    (hSQ : S ≤ Q) : Mirrors torn R Q (w >>= f) (v >>= g) :=
  hw.bind_where (P := fun _ => True) (fun _ _ _ _ _ _ => trivial) (fun a _ => hf a) hSQ

theorem map {w : Work σ π α} {v : Work τ π α} (h : Mirrors torn R Q w v) (f : α → β) :
    Mirrors torn R Q (f <$> w) (f <$> v) := by
  rw [map_eq_pure_bind, map_eq_pure_bind]
  exact h.bind (fun a => pure le_rfl (f a)) le_rfl

theorem read_bind {f : σ → Except Fault α} {g : τ → Except Fault α} {k : α → Work σ π β}
    {k' : α → Work τ π β} (h : ∀ d e, R d e → f d = g e)
    (hk : ∀ a, Mirrors torn (fun d e => R d e ∧ g e = .ok a) Q (k a) (k' a))
    (hRQ : R ≤ Q) : Mirrors torn R Q (read f >>= k) (read g >>= k') := by
  intro s t ha
  have hfg := h _ _ ha.data
  rw [exec_bind, exec_bind, exec_read, exec_read, hfg]
  rcases hg : g t.data with fault | a
  · exact ⟨rfl, ha.mono fun d e hR _ => hRQ d e hR⟩
  · exact hk a ⟨⟨ha.data, hg⟩, ha.collaborators, ha.draws, ha.readings⟩

theorem read_then {f : σ → Except Fault α} {g : τ → Except Fault α} {k : α → Work σ π β}
    {k' : α → Work τ π β} (h : ∀ d e, R d e → f d = g e) (hk : ∀ a, Mirrors torn R Q (k a) (k' a))
    (hRQ : R ≤ Q) : Mirrors torn R Q (Work.read f >>= k) (Work.read g >>= k') :=
  read_bind h (fun a => (hk a).mono (fun _ _ hR => hR.1) le_rfl) hRQ

theorem read {f : σ → Except Fault α} {g : τ → Except Fault α} (h : ∀ d e, R d e → f d = g e)
    (hRQ : R ≤ Q) :
    Mirrors torn R Q (Work.read f : Work σ π α) (Work.read g : Work τ π α) :=
  fun _ _ ha => ⟨h _ _ ha.data, ha.mono fun d e hR _ => hRQ d e hR⟩

/-- A reading goes before work that may rely on what is true of whatever can be read. -/
theorem read_where {P : α → Prop} {f : σ → Except Fault α} {g : τ → Except Fault α}
    {k : α → Work σ π β} {k' : α → Work τ π β} (h : ∀ d e, R d e → f d = g e)
    (hP : ∀ d e a, R d e → g e = .ok a → P a) (hk : ∀ a, P a → Mirrors torn R Q (k a) (k' a))
    (hRQ : R ≤ Q) : Mirrors torn R Q (Work.read f >>= k) (Work.read g >>= k') :=
  (read h le_rfl).bind_where
    (fun s t ha a _ he => hP s.data t.data a ha.data (congrArg Prod.fst he)) hk hRQ

/-- A transaction undoes what a torn fault has left. -/
theorem transact {w : Work σ π α} {v : Work τ π α} (h : Mirrors torn R Q w v)
    (hRQ : R ≤ Q) :
    Mirrors (fun _ => False) R Q (ReviewRota.transact w) (ReviewRota.transact v) := by
  intro s t ha
  obtain ⟨hr, hs⟩ := h ha
  rw [exec_transact, exec_transact]
  rcases hw' : w.exec s with ⟨r, s'⟩
  rcases hv' : v.exec t with ⟨r', t'⟩
  rw [hw', hv'] at hr hs
  cases hr
  cases r with
  | ok a => exact ⟨rfl, hs.mono fun d e k _ => k fun fault h => by cases h⟩
  | error fault =>
    exact ⟨rfl, fun _ => hRQ _ _ ha.data, hs.collaborators, hs.draws, hs.readings⟩

theorem require (hRQ : R ≤ Q) (condition : Bool) (fault : Fault) :
    Mirrors torn R Q (Service.require condition fault : Work σ π Unit)
      (Service.require condition fault : Work τ π Unit) := by
  cases condition with
  | true => exact pure hRQ ()
  | false => exact fail hRQ fault

/-! ## Collaborators -/

variable [Collaborators π]

theorem now : Mirrors torn R R (Work.now : Work σ π Instant) (Work.now : Work τ π Instant) := by
  intro s t ha
  rw [exec_now, exec_now, ha.collaborators, ha.readings]
  exact ⟨rfl, fun _ => ha.data, rfl, ha.draws, rfl⟩

theorem freshId :
    Mirrors torn R R (Work.freshId : Work σ π String) (Work.freshId : Work τ π String) := by
  intro s t ha
  rw [exec_freshId, exec_freshId, ha.collaborators]
  exact ⟨rfl, fun _ => ha.data, rfl, ha.draws, ha.readings⟩

theorem draw (n : Nat) :
    Mirrors torn R R (Work.draw n : Work σ π Nat) (Work.draw n : Work τ π Nat) := by
  intro s t ha
  rw [exec_draw, exec_draw, ha.collaborators, ha.draws]
  exact ⟨rfl, fun _ => ha.data, rfl, rfl, ha.readings⟩

theorem resolveId (mode : IdMode) (supplied : Option String) :
    Mirrors torn R R (ReviewRota.resolveId mode supplied : Work σ π String)
      (ReviewRota.resolveId mode supplied : Work τ π String) := by
  unfold ReviewRota.resolveId
  split
  · exact freshId
  · exact fail le_rfl _
  · exact fail le_rfl _
  · split
    · exact fail le_rfl _
    · exact pure le_rfl _

theorem drawAll (bounds : List Nat) :
    Mirrors torn R R (Selection.drawAll bounds : Work σ π (List Nat))
      (Selection.drawAll bounds : Work τ π (List Nat)) := by
  induction bounds with
  | nil => exact pure le_rfl []
  | cons n ns ih =>
    exact (draw n).bind (fun d => ih.bind (fun ds => pure le_rfl (d :: ds))
      le_rfl) le_rfl

theorem initial (candidates : List α) (max : Nat) :
    Mirrors torn R R (Selection.initial candidates max : Work σ π (List α))
      (Selection.initial candidates max : Work τ π (List α)) := by
  unfold Selection.initial
  split
  · exact pure le_rfl _
  split
  · exact pure le_rfl _
  · exact (drawAll _).bind (fun ds => pure le_rfl _) le_rfl

theorem replacement (candidates : List α) :
    Mirrors torn R R (Selection.replacement candidates : Work σ π α)
      (Selection.replacement candidates : Work τ π α) := by
  rw [Selection.replacement_eq, Selection.replacement_eq]
  split
  · exact fail le_rfl _
  · refine (draw _).bind (fun d => ?_) le_rfl
    split
    · exact pure le_rfl _
    · exact fail le_rfl _

end Work.Mirrors

/-! ## Mirrored stores -/

/-- Two changes with equal outcomes and related data after them, unless a constraint stopped them
half way. -/
def Follows (Q : σ → τ → Prop) (x : Except Fault Unit × σ) (y : Except Fault Unit × τ) : Prop :=
  x.1 = y.1 ∧ (x.1 ≠ .error .constraintViolation → Q x.2 y.2)

/-- A fault that may leave an operation half done. -/
def Torn (fault : Fault) : Prop :=
  fault = .constraintViolation

theorem Work.Mirrors.write {R Q : σ → τ → Prop} {f : σ → Except Fault Unit × σ}
    {g : τ → Except Fault Unit × τ} (h : ∀ d e, R d e → Follows Q (f d) (g e)) :
    Mirrors Torn R Q (Work.write f : Work σ π Unit) (Work.write g : Work τ π Unit) := by
  intro s t ha
  obtain ⟨hr, hQ⟩ := h _ _ ha.data
  rw [exec_write, exec_write]
  exact ⟨hr, fun hf => hQ fun he => hf _ he rfl, ha.collaborators, ha.draws, ha.readings⟩

theorem Work.Mirrors.write_then {R S Q : σ → τ → Prop} {f : σ → Except Fault Unit × σ}
    {g : τ → Except Fault Unit × τ} {k : Unit → Work σ π α} {k' : Unit → Work τ π α}
    (h : ∀ d e, R d e → Follows S (f d) (g e)) (hk : ∀ a, Mirrors Torn S Q (k a) (k' a))
    (hSQ : S ≤ Q) : Mirrors Torn R Q (Work.write f >>= k) (Work.write g >>= k') :=
  (Work.Mirrors.write h).bind hk hSQ

/-- A store and a ledger that answer alike on related data. Slot lists are put on pull requests
that are known, and new pull requests come with slots of their own. -/
structure Repository.Mirrored [Repository σ] {older : Instant → Instant → Bool}
    (R Q : σ → Ledger older → Prop) : Prop where
  weaken : R ≤ Q
  team : ∀ {d m}, R d m → ∀ id, Repository.team id d = Repository.team id m
  teams : ∀ {d m}, R d m → Repository.teams d = Repository.teams m
  user : ∀ {d m}, R d m → ∀ id, Repository.user id d = Repository.user id m
  users : ∀ {d m}, R d m → ∀ team active,
    Repository.users team active d = Repository.users team active m
  usersByIds : ∀ {d m}, R d m → ∀ ids, Repository.usersByIds ids d = Repository.usersByIds ids m
  activeMembers : ∀ {d m}, R d m → ∀ team except,
    Repository.activeMembers team except d = Repository.activeMembers team except m
  pullRequest : ∀ {d m}, R d m → ∀ lock id,
    Repository.pullRequest lock id d = Repository.pullRequest lock id m
  pullRequests : ∀ {d m}, R d m → ∀ status,
    Repository.pullRequests status d = Repository.pullRequests status m
  assignedTo : ∀ {d m}, R d m → ∀ user status,
    Repository.assignedTo user status d = Repository.assignedTo user status m
  userLoads : ∀ {d m}, R d m → ∀ team, Repository.userLoads team d = Repository.userLoads team m
  reviewerCounts : ∀ {d m}, R d m → ∀ team,
    Repository.reviewerCounts team d = Repository.reviewerCounts team m
  createTeam : ∀ {d m}, R d m → ∀ team,
    Follows Q (Repository.createTeam team d) (Repository.createTeam team m)
  createUser : ∀ {d m}, R d m → ∀ user,
    Follows Q (Repository.createUser user d) (Repository.createUser user m)
  updateUser : ∀ {d m}, R d m → ∀ user,
    Follows R (Repository.updateUser user d) (Repository.updateUser user m)
  createPullRequest : ∀ {d m}, R d m → ∀ p : PullRequest,
    (∀ slot ∈ p.reviewers, slot.pullRequestId = p.id) →
      Follows Q (Repository.createPullRequest p d) (Repository.createPullRequest p m)
  setStatus : ∀ {d m}, R d m → ∀ id status time,
    Follows R (Repository.setStatus id status time d) (Repository.setStatus id status time m)
  setReviewers : ∀ {d m}, R d m → ∀ id slots, (m.findPullRequest id).isSome →
    Follows R (Repository.setReviewers id slots d) (Repository.setReviewers id slots m)

namespace Repository.Mirrored

variable [Repository σ] {older : Instant → Instant → Bool} {R Q : σ → Ledger older → Prop}
  (h : Repository.Mirrored R Q)
include h

theorem snapshot {d : σ} {m : Ledger older} (hR : R d m) :
    Repository.snapshot d = Repository.snapshot m := by
  unfold Repository.snapshot
  rw [h.teams hR, h.users hR, h.pullRequests hR]

variable [Collaborators π]

/-! ## Handing over reviews -/

/-- What a step of a cascade needs: related data, with these pull requests still known. -/
def Knowing (R : σ → Ledger older → Prop) (ps : List PullRequest) (d : σ) (m : Ledger older) :
    Prop :=
  R d m ∧ ∀ p ∈ ps, (m.findPullRequest p.id).isSome

theorem handOver (pool : List User) (user : User) (p : PullRequest) (rest : List PullRequest) :
    Work.Mirrors Torn (Knowing R (p :: rest)) (Knowing R rest)
      (Service.handOver pool user p : Work σ π Unit)
      (Service.handOver pool user p : Work (Ledger older) π Unit) := by
  have hle : ∀ d m, Knowing R (p :: rest) d m → Knowing R rest d m :=
    fun d m hk => ⟨hk.1, fun q hq => hk.2 q (List.mem_cons_of_mem p hq)⟩
  refine (Work.Mirrors.replacement _).bind (fun chosen => ?_) hle
  refine Work.Mirrors.now.bind (fun time => ?_) hle
  refine Work.Mirrors.write fun d m ⟨hR, hknown⟩ => ?_
  obtain ⟨hr, hd⟩ := h.setReviewers hR p.id
    (renumber (p.replaceReviewer user.id chosen.id time).1) (hknown p List.mem_cons_self)
  exact ⟨hr, fun hne => ⟨hd hne, fun q hq =>
    Ledger.isSome_findPullRequest_setReviewers _ (hknown q (List.mem_cons_of_mem p hq))⟩⟩

theorem handOverAll (pool : List User) (user : User) (ps : List PullRequest) :
    Work.Mirrors Torn (Knowing R ps) R (Service.handOverAll pool user ps : Work σ π Nat)
      (Service.handOverAll pool user ps : Work (Ledger older) π Nat) := by
  induction ps with
  | nil => exact .pure (fun _ _ hk => hk.1) 0
  | cons p rest ih =>
    exact (h.handOver pool user p rest).bind
      (fun _ => ih.bind (fun count => .pure le_rfl (count + 1)) le_rfl)
      fun _ _ hk => hk.1

theorem reassignOpenReviews (team : String) (user : User) :
    Work.Mirrors Torn R R (Service.reassignOpenReviews team user : Work σ π Nat)
      (Service.reassignOpenReviews team user : Work (Ledger older) π Nat) := by
  refine .read_bind (fun d m hR => h.assignedTo hR _ _) (fun reviewed => ?_) le_rfl
  split
  · exact .pure (fun _ _ hR => hR.1) 0
  · refine .read_bind (fun d m hR => h.activeMembers hR.1 _ _) (fun pool => ?_)
      fun _ _ hR => hR.1
    refine (h.handOverAll pool user reviewed).mono (fun d m hR => ⟨hR.1.1, fun p hp => ?_⟩)
      le_rfl
    have hmem := (Ledger.mem_assignedTo_opened hR.1.2).mp hp
    exact Memory.isSome_findPullRequest.mpr ⟨p, hmem.1, rfl⟩

theorem reassignAll (team : String) (users : List User) :
    Work.Mirrors Torn R R (Service.reassignAll team users : Work σ π Nat)
      (Service.reassignAll team users : Work (Ledger older) π Nat) := by
  induction users with
  | nil => exact .pure le_rfl 0
  | cons user rest ih =>
    exact (h.reassignOpenReviews team _).bind
      (fun count => ih.bind (fun others => .pure le_rfl _) le_rfl)
      le_rfl

/-! ## Bodies of transactions -/

omit [Collaborators π] in
theorem markInactive (users : List User) :
    Work.Mirrors Torn R R (Service.markInactive users : Work σ π Unit)
      (Service.markInactive users : Work (Ledger older) π Unit) := by
  induction users with
  | nil => exact .pure le_rfl ()
  | cons user rest ih => exact .write_then (fun d m hR => h.updateUser hR _) (fun _ => ih) le_rfl

theorem deactivateIn (team : String) (ids : List String) :
    Work.Mirrors Torn R R (Service.deactivateIn team ids : Work σ π Deactivation)
      (Service.deactivateIn team ids : Work (Ledger older) π Deactivation) := by
  refine .read_then (fun d m hR => h.team hR _) (fun _ => ?_) le_rfl
  refine .read_then (fun d m hR => h.usersByIds hR _) (fun loaded => ?_) le_rfl
  refine (Work.Mirrors.require le_rfl _ _).bind (fun _ => ?_) le_rfl
  refine (Work.Mirrors.require le_rfl _ _).bind (fun _ => ?_) le_rfl
  refine (h.markInactive _).bind (fun _ => ?_) le_rfl
  exact (h.reassignAll team _).bind (fun _ => .pure le_rfl _) le_rfl

theorem updateUserIn (id : String) (update : UserUpdate) :
    Work.Mirrors Torn R R (Service.updateUserIn id update : Work σ π User)
      (Service.updateUserIn id update : Work (Ledger older) π User) := by
  refine .read_then (fun d m hR => h.user hR _) (fun user => ?_) le_rfl
  have hlast : Work.Mirrors Torn R R
      (do Work.write (Repository.updateUser (update.apply user)); pure (update.apply user) :
        Work σ π User)
      (do Work.write (Repository.updateUser (update.apply user)); pure (update.apply user) :
        Work (Ledger older) π User) :=
    .write_then (fun d m hR => h.updateUser hR _) (fun _ => .pure le_rfl _) le_rfl
  dsimp only
  split
  · exact (h.reassignOpenReviews _ _).bind (fun _ => hlast) le_rfl
  · exact hlast

theorem createPullRequestIn (settings : AssignmentSettings) (id title author : String) :
    Work.Mirrors Torn R Q
      (Service.createPullRequestIn settings id title author : Work σ π PullRequest)
      (Service.createPullRequestIn settings id title author :
        Work (Ledger older) π PullRequest) := by
  refine .read_then (fun d m hR => h.user hR _) (fun _ => ?_) h.weaken
  refine .read_then (fun d m hR => h.activeMembers hR _ _) (fun _ => ?_) h.weaken
  refine (Work.Mirrors.initial _ _).bind (fun chosen => ?_) h.weaken
  refine Work.Mirrors.now.bind (fun time => ?_) h.weaken
  refine .write_then (fun d m hR => h.createPullRequest hR _ fun slot hslot => ?_)
    (fun _ => .pure le_rfl _) le_rfl
  obtain ⟨i, hi, rfl⟩ := List.mem_mapIdx.mp hslot
  rfl

theorem reassignIn (id reviewer : String) :
    Work.Mirrors Torn R R (Service.reassignIn id reviewer : Work σ π PullRequest)
      (Service.reassignIn id reviewer : Work (Ledger older) π PullRequest) := by
  have hle : ∀ p : PullRequest,
      (fun d m => R d m ∧ Repository.pullRequest true id m = .ok p : σ → Ledger older → Prop) ≤ R :=
    fun _ _ _ hR => hR.1
  refine .read_bind (fun d m hR => h.pullRequest hR _ _) (fun p => ?_) le_rfl
  refine (Work.Mirrors.require le_rfl _ _).bind (fun _ => ?_) (hle p)
  refine .read_then (fun d m hR => h.user hR.1 _) (fun _ => ?_) (hle p)
  refine .read_then (fun d m hR => h.activeMembers hR.1 _ _) (fun _ => ?_) (hle p)
  refine (Work.Mirrors.replacement _).bind (fun chosen => ?_) (hle p)
  refine Work.Mirrors.now.bind (fun time => ?_) (hle p)
  refine (Work.Mirrors.require le_rfl _ _).bind (fun _ => ?_) (hle p)
  refine .write_then (fun d m hR => h.setReviewers hR.1 _ _ ?_) (fun _ => .pure le_rfl _) le_rfl
  exact Memory.isSome_findPullRequest.mpr ⟨p, (Ledger.mem_of_pullRequest hR.2).1, rfl⟩

theorem mergeIn (id : String) :
    Work.Mirrors Torn R R (Service.mergeIn id : Work σ π PullRequest)
      (Service.mergeIn id : Work (Ledger older) π PullRequest) := by
  refine .read_then (fun d m hR => h.pullRequest hR _ _) (fun p => ?_) le_rfl
  split
  · exact .pure le_rfl p
  · refine Work.Mirrors.now.bind (fun time => ?_) le_rfl
    exact .write_then (fun d m hR => h.setStatus hR _ _ _) (fun _ => .pure le_rfl _) le_rfl

/-! ## Calls -/

theorem service_createTeam (settings : AssignmentSettings) (name : String) (id : Option String) :
    Work.Mirrors (fun _ => False) R Q (Service.createTeam settings name id : Work σ π Team)
      (Service.createTeam settings name id : Work (Ledger older) π Team) := by
  refine (Work.Mirrors.require le_rfl _ _).bind (fun _ => ?_) h.weaken
  refine (Work.Mirrors.resolveId _ _).bind (fun id => ?_) h.weaken
  refine Work.Mirrors.now.bind (fun time => ?_) h.weaken
  have hcreate : Work.Mirrors Torn R Q
      (Work.write (Repository.createTeam ⟨id, name, time⟩) : Work σ π Unit)
      (Work.write (Repository.createTeam ⟨id, name, time⟩) : Work (Ledger older) π Unit) :=
    .write fun d m hR => h.createTeam hR _
  exact (hcreate.transact h.weaken).bind (fun _ => .pure le_rfl _) le_rfl

theorem service_createUser (settings : AssignmentSettings) (team name : String) (isActive : Bool)
    (id : Option String) :
    Work.Mirrors (fun _ => False) R Q
      (Service.createUser settings team name isActive id : Work σ π User)
      (Service.createUser settings team name isActive id : Work (Ledger older) π User) := by
  refine (Work.Mirrors.require le_rfl _ _).bind (fun _ => ?_) h.weaken
  refine (Work.Mirrors.resolveId _ _).bind (fun id => ?_) h.weaken
  refine Work.Mirrors.now.bind (fun time => ?_) h.weaken
  have hcreate : Work.Mirrors Torn R Q
      (do
        let _ ← Work.read (Repository.team team)
        Work.write (Repository.createUser ⟨id, name, team, isActive, time⟩) : Work σ π Unit)
      (do
        let _ ← Work.read (Repository.team team)
        Work.write (Repository.createUser ⟨id, name, team, isActive, time⟩) :
          Work (Ledger older) π Unit) :=
    .read_then (fun d m hR => h.team hR _) (fun _ => .write fun d m hR => h.createUser hR _)
      h.weaken
  exact (hcreate.transact h.weaken).bind (fun _ => .pure le_rfl _) le_rfl

theorem service_updateUser (id : String) (update : UserUpdate) :
    Work.Mirrors (fun _ => False) R R (Service.updateUser id update : Work σ π User)
      (Service.updateUser id update : Work (Ledger older) π User) := by
  refine (Work.Mirrors.require le_rfl _ _).bind (fun _ => ?_) le_rfl
  refine (Work.Mirrors.require le_rfl _ _).bind (fun _ => ?_) le_rfl
  exact (h.updateUserIn id update).transact le_rfl

theorem service_deactivate (team : String) (ids : List String) :
    Work.Mirrors (fun _ => False) R R (Service.deactivate team ids : Work σ π Deactivation)
      (Service.deactivate team ids : Work (Ledger older) π Deactivation) :=
  (Work.Mirrors.require le_rfl _ _).bind (fun _ => (h.deactivateIn team _).transact le_rfl) le_rfl

theorem service_createPullRequest (settings : AssignmentSettings) (title author : String)
    (id : Option String) :
    Work.Mirrors (fun _ => False) R Q
      (Service.createPullRequest settings title author id : Work σ π PullRequest)
      (Service.createPullRequest settings title author id :
        Work (Ledger older) π PullRequest) := by
  refine (Work.Mirrors.require le_rfl _ _).bind (fun _ => ?_) h.weaken
  refine (Work.Mirrors.resolveId _ _).bind (fun id => ?_) h.weaken
  exact (h.createPullRequestIn settings id title author).transact h.weaken

omit [Collaborators π] in
theorem service_assigned (user : String) (status : Option Status) :
    Work.Mirrors (fun _ => False) R R
      (Service.assigned user status : Work σ π (List PullRequest))
      (Service.assigned user status : Work (Ledger older) π (List PullRequest)) := by
  have hbody : Work.Mirrors Torn R R
      (do
        let _ ← Work.read (Repository.user user)
        Work.read (Repository.assignedTo user status) : Work σ π (List PullRequest))
      (do
        let _ ← Work.read (Repository.user user)
        Work.read (Repository.assignedTo user status) : Work (Ledger older) π (List PullRequest)) :=
    .read_then (fun d m hR => h.user hR _)
      (fun _ => .read (fun d m hR => h.assignedTo hR _ _) le_rfl) le_rfl
  exact hbody.transact le_rfl

/-- **A service call on a store has the outcome of the same call on a ledger that mirrors it**, and
the data after the two calls are related. -/
theorem perform (settings : AssignmentSettings) (call : Call) :
    Work.Mirrors (fun _ => False) R Q (call.perform settings : Work σ π Reply)
      (call.perform settings : Work (Ledger older) π Reply) := by
  have hread : ∀ {α : Type} {f : σ → Except Fault α} {g : Ledger older → Except Fault α}
      (c : α → Reply), (∀ d m, R d m → f d = g m) →
      Work.Mirrors (fun _ => False) R Q (c <$> transact (Work.read f) : Work σ π Reply)
        (c <$> transact (Work.read g) : Work (Ledger older) π Reply) :=
    fun {α f g} c hfg =>
      have hbody : Work.Mirrors Torn R Q (Work.read f : Work σ π α)
          (Work.read g : Work (Ledger older) π α) := .read hfg h.weaken
      (hbody.transact h.weaken).map c
  cases call with
  | createTeam name id => exact (h.service_createTeam settings name id).map _
  | createUser team name isActive id =>
    exact (h.service_createUser settings team name isActive id).map _
  | updateUser id update => exact ((h.service_updateUser id update).mono le_rfl h.weaken).map _
  | deactivate team ids => exact ((h.service_deactivate team ids).mono le_rfl h.weaken).map _
  | createPullRequest title author id =>
    exact (h.service_createPullRequest settings title author id).map _
  | reassign id reviewer =>
    exact (((h.reassignIn id reviewer).transact le_rfl).mono le_rfl h.weaken).map _
  | merge id => exact (((h.mergeIn id).transact le_rfl).mono le_rfl h.weaken).map _
  | assigned user status => exact ((h.service_assigned user status).mono le_rfl h.weaken).map _
  | team id => exact hread _ fun d m hR => h.team hR id
  | teams => exact hread _ fun d m hR => h.teams hR
  | user id => exact hread _ fun d m hR => h.user hR id
  | users team active => exact hread _ fun d m hR => h.users hR team active
  | pullRequest id => exact hread _ fun d m hR => h.pullRequest hR false id
  | pullRequests status => exact hread _ fun d m hR => h.pullRequests hR status
  | userLoads team => exact hread _ fun d m hR => h.userLoads hR team
  | reviewerCounts team => exact hread _ fun d m hR => h.reviewerCounts hR team

/-- **Runs of service calls on a store and on its ledger have the same replies.** What is left of
`R` after a creation has to be enough to go on: `Q` gives `R` back for data with the property `P`,
which data has as long as the data at the end of the run has it. -/
theorem performAll_of (settings : AssignmentSettings) {P : σ → Prop}
    (hP : Repository.Keeps fun d d' => P d' → P d) (hback : ∀ {d m}, Q d m → P d → R d m)
    (calls : List Call) {s : Session σ π} {t : Session (Ledger older) π} (ha : s.Agree R t)
    (hfinal : P (ReviewRota.performAll settings calls s).2.data) :
    (ReviewRota.performAll settings calls s).1 = (ReviewRota.performAll settings calls t).1 ∧
      (ReviewRota.performAll settings calls s).2.Agree R
        (ReviewRota.performAll settings calls t).2 := by
  induction calls generalizing s t with
  | nil => exact ⟨rfl, ha⟩
  | cons call calls ih =>
    obtain ⟨hr, hs⟩ := h.perform settings call ha
    have hQ := hs.data fun _ _ => id
    have hlater : P ((call.perform settings).exec s).2.data :=
      hP.performAll settings calls _ hfinal
    obtain ⟨hrs, hss⟩ := ih ⟨hback hQ hlater, hs.collaborators, hs.draws, hs.readings⟩ hfinal
    exact ⟨congrArg₂ List.cons hr hrs, hss⟩

end Repository.Mirrored

theorem Repository.Mirrored.performAll [Repository σ] [Collaborators π]
    {older : Instant → Instant → Bool} {R : σ → Ledger older → Prop}
    (h : Repository.Mirrored R R) (settings : AssignmentSettings) (calls : List Call)
    {s : Session σ π} {t : Session (Ledger older) π} (ha : s.Agree R t) :
    (ReviewRota.performAll settings calls s).1 = (ReviewRota.performAll settings calls t).1 ∧
      (ReviewRota.performAll settings calls s).2.Agree R
        (ReviewRota.performAll settings calls t).2 :=
  h.performAll_of settings (P := fun _ => True)
    ⟨⟨fun _ => id, fun _ _ => id⟩, fun _ _ => id, fun _ _ => id, fun _ _ => id, fun _ _ => id,
      fun _ _ _ _ => id, fun _ _ _ => id⟩ (fun hR _ => hR) calls ha trivial

end ReviewRota
