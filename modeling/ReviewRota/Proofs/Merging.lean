import ReviewRota.Proofs.Changes

/-!
# Merged pull requests

Merging is the last thing that happens to a pull request. One step of a run keeps a merged pull
request as it is, so a whole run does.

* `statusTrace`: the status of a pull request after each call of a run.
* `StoreKind.Sound.frozen`: what is merged is read back unchanged after any calls.
* `StoreKind.Sound.statusTrace_of_none`: not stored, then open, then merged.
* `StoreKind.Sound.merge_reply`, `StoreKind.Sound.merge_replies`: what a merge replies is what is
  read ever after.
* **`merged_frozen`**: all of this on both stores, with merge times set exactly on merging.
-/

namespace ReviewRota

section

variable {σ π : Type} [Repository σ] [Collaborators π]

/-- The status of a pull request as the store tells it, if it is stored. -/
def statusOf (id : String) (d : σ) : Option Status :=
  match Repository.pullRequest false id d with
  | .ok p => some p.status
  | .error _ => none

/-- The status of a pull request after each call of a run. -/
def statusTrace (settings : AssignmentSettings) (id : String) :
    List Call → Session σ π → List (Option Status)
  | [], _ => []
  | call :: calls, s =>
    let s' := ((call.perform settings).exec s).2
    statusOf id s'.data :: statusTrace settings id calls s'

omit [Collaborators π] in
theorem statusOf_eq_some {id : String} {d : σ} {status : Status} :
    statusOf id d = some status ↔
      ∃ p, Repository.pullRequest false id d = .ok p ∧ p.status = status := by
  unfold statusOf
  cases Repository.pullRequest false id d <;> simp

omit [Collaborators π] in
theorem statusOf_eq_none {id : String} {d : σ} :
    statusOf id d = none ↔ ∀ p, Repository.pullRequest false id d ≠ .ok p := by
  unfold statusOf
  cases Repository.pullRequest false id d <;> simp

/-- Merge times are set exactly on merging. -/
def Dated (d : σ) : Prop :=
  ∀ lock id p, Repository.pullRequest lock id d = .ok p →
    (p.mergedAt.isSome = true ↔ p.status = .merged)

/-! ## One call -/

namespace Call.Changes

variable {call : Call} {d d' : σ} (h : call.Changes d d')
include h

theorem frozen {lock : Bool} {id : String} {p : PullRequest}
    (hp : Repository.pullRequest lock id d = .ok p) (hmerged : p.status = .merged) :
    Repository.pullRequest lock id d' = .ok p := by
  obtain ⟨q, hq, hadv⟩ := h.pullRequest lock id p hp
  rwa [hadv.eq_of_merged hmerged] at hq

theorem dated (hd : Dated d) : Dated d' := by
  intro lock id q hq
  rcases h.created lock id q hq with ⟨p, hp⟩ | ⟨hopen, hnone⟩
  · obtain ⟨q', hq', hadv⟩ := h.pullRequest lock id p hp
    rw [hq, Except.ok.injEq] at hq'
    subst hq'
    exact hadv.mergedAt_iff (hd lock id p hp)
  · rw [hopen, hnone]
    exact iff_of_false Bool.false_ne_true nofun

theorem statusOf_of_merged {id : String} (hs : statusOf id d = some .merged) :
    statusOf id d' = some .merged := by
  obtain ⟨p, hp, hmerged⟩ := statusOf_eq_some.mp hs
  exact statusOf_eq_some.mpr ⟨p, h.frozen hp hmerged, hmerged⟩

theorem statusOf_of_opened {id : String} (hs : statusOf id d = some .opened) :
    statusOf id d' = some .opened ∨ statusOf id d' = some .merged := by
  obtain ⟨p, hp, -⟩ := statusOf_eq_some.mp hs
  obtain ⟨q, hq, -⟩ := h.pullRequest false id p hp
  cases hstatus : q.status with
  | opened => exact .inl (statusOf_eq_some.mpr ⟨q, hq, hstatus⟩)
  | merged => exact .inr (statusOf_eq_some.mpr ⟨q, hq, hstatus⟩)

theorem statusOf_of_none {id : String} (hs : statusOf id d = none) :
    statusOf id d' = none ∨ statusOf id d' = some .opened := by
  cases hnew : statusOf id d' with
  | none => exact .inl rfl
  | some status =>
    obtain ⟨q, hq, rfl⟩ := statusOf_eq_some.mp hnew
    rcases h.created false id q hq with ⟨p, hp⟩ | ⟨hopen, -⟩
    · exact absurd hp (statusOf_eq_none.mp hs p)
    · exact .inr (congrArg some hopen)

end Call.Changes

end

/-! ## Runs -/

namespace StoreKind.Sound

variable {π : Type} [Collaborators π] {kind : StoreKind} (settings : AssignmentSettings)
  {s : Session kind.Data π} (h : kind.Sound s.data)
include h

theorem step (call : Call) :
    kind.Sound ((call.perform settings).exec s).2.data ∧
      call.Changes s.data ((call.perform settings).exec s).2.data :=
  StoreKind.changes settings call h rfl

/-- **What is merged stays as it is**, whatever is called. -/
theorem frozen {lock : Bool} {id : String} {p : PullRequest}
    (hp : Repository.pullRequest lock id s.data = .ok p) (hmerged : p.status = .merged)
    (calls : List Call) :
    Repository.pullRequest lock id (ReviewRota.performAll settings calls s).2.data = .ok p := by
  induction calls generalizing s with
  | nil => exact hp
  | cons call calls ih =>
    obtain ⟨h', hc⟩ := h.step settings call
    exact ih h' (hc.frozen hp hmerged)

theorem dated (hd : Dated s.data) (calls : List Call) :
    Dated (ReviewRota.performAll settings calls s).2.data := by
  induction calls generalizing s with
  | nil => exact hd
  | cons call calls ih =>
    obtain ⟨h', hc⟩ := h.step settings call
    exact ih h' (hc.dated hd)

theorem statusTrace_of_merged {id : String} (hs : statusOf id s.data = some .merged)
    (calls : List Call) :
    statusTrace settings id calls s = List.replicate calls.length (some .merged) := by
  induction calls generalizing s with
  | nil => rfl
  | cons call calls ih =>
    obtain ⟨h', hc⟩ := h.step settings call
    have hs' := hc.statusOf_of_merged hs
    rw [statusTrace, ih h' hs', hs']
    rfl

theorem statusTrace_of_opened {id : String} (hs : statusOf id s.data = some .opened)
    (calls : List Call) :
    ∃ b c, statusTrace settings id calls s =
      List.replicate b (some .opened) ++ List.replicate c (some .merged) := by
  induction calls generalizing s with
  | nil => exact ⟨0, 0, rfl⟩
  | cons call calls ih =>
    obtain ⟨h', hc⟩ := h.step settings call
    rw [statusTrace]
    rcases hc.statusOf_of_opened hs with hs' | hs'
    · obtain ⟨b, c, he⟩ := ih h' hs'
      exact ⟨b + 1, c, by rw [hs', he]; rfl⟩
    · exact ⟨0, calls.length + 1, by rw [hs', statusTrace_of_merged settings h' hs']; rfl⟩

/-- **The status of a pull request that is not stored yet** turns to open and then to merged, each
of them once at most. -/
theorem statusTrace_of_none {id : String} (hs : statusOf id s.data = none) (calls : List Call) :
    ∃ a b c, statusTrace settings id calls s =
      List.replicate a none ++ List.replicate b (some .opened) ++
        List.replicate c (some .merged) ∧ (b = 0 → c = 0) := by
  induction calls generalizing s with
  | nil => exact ⟨0, 0, 0, rfl, fun _ => rfl⟩
  | cons call calls ih =>
    obtain ⟨h', hc⟩ := h.step settings call
    rw [statusTrace]
    rcases hc.statusOf_of_none hs with hs' | hs'
    · obtain ⟨a, b, c, he, hbc⟩ := ih h' hs'
      exact ⟨a + 1, b, c, by rw [hs', he]; rfl, hbc⟩
    · obtain ⟨b, c, he⟩ := statusTrace_of_opened settings h' hs' calls
      exact ⟨0, b + 1, c, by rw [hs', he]; rfl, fun hb => absurd hb b.succ_ne_zero⟩

/-! ## Merges -/

/-- A merge of what is merged does nothing at all: it does not even ask the clock. -/
theorem merge_of_merged {lock : Bool} {id : String} {p : PullRequest}
    (hp : Repository.pullRequest lock id s.data = .ok p) (hmerged : p.status = .merged) :
    ((Call.merge id).perform settings).exec s = (.ok (.pullRequest p), s) := by
  have hlocked : Repository.pullRequest true id s.data = .ok p :=
    h.pullRequest_iff.mpr (h.pullRequest_iff.mp hp)
  have hbody : (Service.mergeIn id).exec s = (.ok p, s) := by
    unfold Service.mergeIn
    rw [Work.exec_bind_of_ok (by rw [Work.exec_read, hlocked]), if_pos hmerged]
    rfl
  rw [Call.perform, Work.exec_map, Service.merge, exec_transact_of_ok hbody]
  rfl

theorem merge_reply {id : String} {s' : Session kind.Data π} {p : PullRequest}
    (he : ((Call.merge id).perform settings).exec s = (.ok (.pullRequest p), s')) (lock : Bool) :
    p.status = .merged ∧ Repository.pullRequest lock id s'.data = .ok p := by
  obtain ⟨h', he⟩ := exec_onLedger (kind.mirrored.perform settings (.merge id)) h he
  obtain ⟨_, he, hr⟩ := Work.map_eq_ok.mp he
  cases hr
  rw [h'.pullRequest_iff]
  obtain ⟨q, hq, rfl, ⟨hmerged, rfl, hsame⟩ | ⟨-, time, rfl, hdata⟩⟩ :=
    Ledger.mergeIn_eq_ok (exec_transact_eq_ok.mp he)
  · have hdata : kind.ledger s'.data = kind.ledger s.data := congrArg Session.data hsame
    exact ⟨hmerged, hdata ▸ hq, rfl⟩
  · change kind.ledger s'.data = _ at hdata
    rw [hdata]
    exact ⟨rfl, Memory.mem_mapPullRequests.mpr ⟨q, hq, if_pos rfl⟩, rfl⟩

/-- **What a merge has replied is what is read at the end of the run.** -/
theorem merge_replies {id : String} {p : PullRequest} {calls : List Call}
    (hmem : (Call.merge id, Except.ok (Reply.pullRequest p)) ∈
      calls.zip (ReviewRota.performAll settings calls s).1) (lock : Bool) :
    p.status = .merged ∧
      Repository.pullRequest lock id (ReviewRota.performAll settings calls s).2.data = .ok p := by
  induction calls generalizing s with
  | nil => exact absurd hmem List.not_mem_nil
  | cons call calls ih =>
    obtain ⟨h', -⟩ := h.step settings call
    rcases List.mem_cons.mp hmem with hhead | htail
    · obtain ⟨rfl, hreply⟩ := Prod.mk.inj hhead
      obtain ⟨hmerged, hread⟩ := h.merge_reply settings (Prod.ext hreply.symm rfl) lock
      exact ⟨hmerged, h'.frozen settings hread hmerged calls⟩
    · exact ih h' htail

end StoreKind.Sound

/-! ## The life of a pull request -/

theorem pullRequest_empty (kind : StoreKind) (lock : Bool) (id : String) (p : PullRequest) :
    Repository.pullRequest lock id (Repository.empty : kind.Data) ≠ .ok p := by
  intro hp
  rw [kind.sound_empty.pullRequest_iff, kind.ledger_empty] at hp
  exact List.not_mem_nil hp.1

/-- **Merging is final**, on both stores. From any data that satisfies the constraints of its store,
a merged pull request is read back as it is after any calls, and merging it again changes nothing
and asks nothing of the clock. In a run from the empty store the merge time is set exactly on merged
pull requests, the status goes from open to merged at most once and nowhere else, and all merges of
one pull request that succeed tell one merge time. -/
theorem merged_frozen {π : Type} [Collaborators π] (kind : StoreKind)
    (settings : AssignmentSettings) :
    (∀ s : Session kind.Data π, kind.Sound s.data → ∀ lock id p,
      Repository.pullRequest lock id s.data = .ok p → p.status = .merged →
        (∀ calls, Repository.pullRequest lock id (performAll settings calls s).2.data = .ok p) ∧
          ((Call.merge id).perform settings).exec s = (.ok (.pullRequest p), s)) ∧
    ∀ (calls : List Call) (sources : π),
      let start := Session.start (Repository.empty : kind.Data) sources
      let run := performAll settings calls start
      (∃ ps, Repository.pullRequests none run.2.data = .ok ps ∧
        ∀ p ∈ ps, p.mergedAt.isSome = true ↔ p.status = .merged) ∧
      (∀ id, ∃ a b c, statusTrace settings id calls start =
        List.replicate a none ++ List.replicate b (some .opened) ++
          List.replicate c (some .merged) ∧ (b = 0 → c = 0)) ∧
      ∀ id p q, (Call.merge id, Except.ok (Reply.pullRequest p)) ∈ calls.zip run.1 →
        (Call.merge id, Except.ok (Reply.pullRequest q)) ∈ calls.zip run.1 →
          p.mergedAt.isSome = true ∧ q.mergedAt = p.mergedAt := by
  refine ⟨fun s h lock id p hp hmerged => ?_, fun calls sources => ?_⟩
  · exact ⟨h.frozen settings hp hmerged, h.merge_of_merged settings hp hmerged⟩
  intro start run
  have h : kind.Sound start.data := kind.sound_empty
  have hrun : kind.Sound run.2.data := h.performAll settings calls
  have hdated : Dated run.2.data :=
    h.dated settings (fun lock id p hp => absurd hp (pullRequest_empty kind lock id p)) calls
  have hnone : ∀ id, statusOf id start.data = none := fun id =>
    statusOf_eq_none.mpr (pullRequest_empty kind false id)
  refine ⟨?times, fun id => h.statusTrace_of_none settings (hnone id) calls, ?replies⟩
  case times =>
    obtain ⟨ps, hps, hmem⟩ := hrun.exists_pullRequests
    exact ⟨ps, hps, fun p hp =>
      hdated false p.id p (hrun.pullRequest_iff.mpr ⟨(hmem p).mp hp, rfl⟩)⟩
  case replies =>
    intro id p q hp hq
    obtain ⟨hmerged, hread⟩ := h.merge_replies settings hp false
    obtain ⟨-, hread'⟩ := h.merge_replies settings hq false
    obtain rfl : p = q := Except.ok.inj (hread.symm.trans hread')
    exact ⟨(hdated false id p hread).mpr hmerged, rfl⟩

/-- The small team after its pull request has been merged. -/
def mergedRun (kind : StoreKind) : Session kind.Data Sources :=
  (performAll smallSettings [.merge "p"] (smallRun kind)).2

theorem sound_mergedRun (kind : StoreKind) : kind.Sound (mergedRun kind).data := by
  unfold mergedRun
  exact (sound_smallRun kind).performAll _ _

/-- The reviewer leaves, and the pull request still has his slot. -/
theorem merged_frozen_smallTeam :
    ∃ p, p.reviewerIds = ["b"] ∧
      Repository.pullRequest false "p" (mergedRun .relational).data = .ok p ∧
      Repository.pullRequest false "p" (performAll smallSettings
        [.deactivate "t" ["b"], .reassign "p" "b", .merge "p"] (mergedRun .relational)).2.data =
          .ok p := by
  let p : PullRequest := ⟨"p", "Fix", "a", .merged, Sources.still.time, some Sources.still.time,
    [⟨"p", 1, "b", Sources.still.time⟩]⟩
  have hread : Repository.pullRequest false "p" (mergedRun .relational).data = .ok p := by
    decide +kernel
  obtain ⟨hfrozen, -⟩ := merged_frozen (π := Sources) .relational smallSettings
  obtain ⟨hlater, -⟩ :=
    hfrozen (mergedRun .relational) (sound_mergedRun .relational) false "p" p hread rfl
  exact ⟨p, rfl, hread, hlater _⟩

end ReviewRota
