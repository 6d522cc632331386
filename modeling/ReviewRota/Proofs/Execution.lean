import ReviewRota.Service.Call
import ReviewRota.Transaction.Script

/-!
# Executing work

How work runs in a session, one equation for each way of building it.

* `Work.exec_pure`, `Work.exec_bind_of_ok`, `Work.exec_bind_eq_ok`, …: the composed operations;
  `Work.exec_read`, `Work.exec_write`, `Work.exec_now`, …: the elementary ones.
* `exec_transact_eq_ok`: a transaction that succeeds is its work.
* `resolveId_eq_ok`: an identifier costs neither data nor time.
* `Selection.replacement_eq`: the choice of a replacement, without a branch that goes on.
-/

namespace ReviewRota

variable {σ π α β : Type}

namespace Work

/-! ## Composed operations -/

@[simp] theorem exec_pure (a : α) (s : Session σ π) : (pure a : Work σ π α).exec s = (.ok a, s) :=
  rfl

theorem exec_bind (w : Work σ π α) (f : α → Work σ π β) (s : Session σ π) :
    (w >>= f).exec s =
      match w.exec s with
      | (.ok a, after) => (f a).exec after
      | (.error fault, after) => (.error fault, after) := by
  rcases h : w.exec s with ⟨r, after⟩
  have hw : w s = (r, after) := h
  cases r with
  | ok a =>
    simp only [exec, bind, ExceptT.bind, ExceptT.mk, StateT.bind, hw]
    rfl
  | error fault =>
    simp only [exec, bind, ExceptT.bind, ExceptT.mk, StateT.bind, hw]
    rfl

theorem exec_bind_of_ok {w : Work σ π α} {s s' : Session σ π} {a : α}
    (h : w.exec s = (.ok a, s')) (f : α → Work σ π β) : (w >>= f).exec s = (f a).exec s' := by
  rw [exec_bind, h]

theorem exec_bind_of_error {w : Work σ π α} {s s' : Session σ π} {fault : Fault}
    (h : w.exec s = (.error fault, s')) (f : α → Work σ π β) :
    (w >>= f).exec s = (.error fault, s') := by
  rw [exec_bind, h]

theorem fst_exec_bind_of_error {w : Work σ π α} {s : Session σ π} {fault : Fault}
    (h : (w.exec s).1 = .error fault) (f : α → Work σ π β) :
    ((w >>= f).exec s).1 = .error fault := by
  rw [exec_bind_of_error (Prod.ext h rfl : w.exec s = (.error fault, (w.exec s).2))]

theorem exec_bind_eq_ok {w : Work σ π α} {f : α → Work σ π β} {s s' : Session σ π} {b : β} :
    (w >>= f).exec s = (.ok b, s') ↔
      ∃ a s₁, w.exec s = (.ok a, s₁) ∧ (f a).exec s₁ = (.ok b, s') := by
  rw [exec_bind]
  constructor
  · intro h
    split at h
    · exact ⟨_, _, ‹_›, h⟩
    · cases h
  · rintro ⟨a, s₁, hw, hf⟩
    rw [hw]
    exact hf

theorem exec_map (f : α → β) (w : Work σ π α) (s : Session σ π) :
    (f <$> w).exec s = ((w.exec s).1.map f, (w.exec s).2) := by
  rw [map_eq_pure_bind, exec_bind]
  rcases w.exec s with ⟨r, after⟩
  cases r <;> rfl

theorem map_eq_ok {f : α → β} {w : Work σ π α} {s s' : Session σ π} {b : β} :
    (f <$> w).exec s = (.ok b, s') ↔ ∃ a, w.exec s = (.ok a, s') ∧ f a = b := by
  rw [map_eq_pure_bind, exec_bind_eq_ok]
  simp only [exec_pure, Prod.mk.injEq, Except.ok.injEq]
  constructor
  · rintro ⟨a, _, hw, rfl, rfl⟩
    exact ⟨a, hw, rfl⟩
  · rintro ⟨a, hw, rfl⟩
    exact ⟨a, s', hw, rfl, rfl⟩

/-! ## Elementary operations -/

@[simp] theorem exec_read (f : σ → Except Fault α) (s : Session σ π) :
    (read f).exec s = (f s.data, s) :=
  rfl

@[simp] theorem exec_write (f : σ → Except Fault α × σ) (s : Session σ π) :
    (write f).exec s = ((f s.data).1, { s with data := (f s.data).2 }) :=
  rfl

theorem read_bind_eq_ok {f : σ → Except Fault α} {k : α → Work σ π β} {s s' : Session σ π}
    {b : β} :
    (read f >>= k).exec s = (.ok b, s') ↔
      ∃ a, f s.data = .ok a ∧ (k a).exec s = (.ok b, s') := by
  rw [exec_bind, exec_read]
  cases f s.data <;> simp

theorem write_bind_eq_ok {f : σ → Except Fault α × σ} {k : α → Work σ π β}
    {s s' : Session σ π} {b : β} :
    (write f >>= k).exec s = (.ok b, s') ↔
      ∃ a, (f s.data).1 = .ok a ∧
        (k a).exec { s with data := (f s.data).2 } = (.ok b, s') := by
  rw [exec_bind, exec_write]
  cases (f s.data).1 <;> simp

variable [Collaborators π]

@[simp] theorem exec_now (s : Session σ π) :
    (now : Work σ π Instant).exec s =
      (.ok (Collaborators.now s.collaborators).1, { s with
        collaborators := (Collaborators.now s.collaborators).2
        readings := s.readings ++ [(Collaborators.now s.collaborators).1] }) :=
  rfl

@[simp] theorem exec_freshId (s : Session σ π) :
    (freshId : Work σ π String).exec s =
      (.ok (Collaborators.freshId s.collaborators).1, { s with
        collaborators := (Collaborators.freshId s.collaborators).2 }) :=
  rfl

@[simp] theorem exec_draw (n : Nat) (s : Session σ π) :
    (draw n : Work σ π Nat).exec s =
      (.ok (Collaborators.draw n s.collaborators).1, { s with
        collaborators := (Collaborators.draw n s.collaborators).2
        draws := s.draws ++ [(n, (Collaborators.draw n s.collaborators).1)] }) :=
  rfl

end Work

theorem Service.exec_require (condition : Bool) (fault : Fault) (s : Session σ π) :
    (Service.require condition fault : Work σ π Unit).exec s =
      (if condition then .ok () else .error fault, s) := by
  cases condition <;> rfl

theorem Service.require_bind_eq_ok {condition : Bool} {fault : Fault} {k : Unit → Work σ π β}
    {s s' : Session σ π} {b : β} :
    (Service.require condition fault >>= k).exec s = (.ok b, s') ↔
      condition = true ∧ (k ()).exec s = (.ok b, s') := by
  rw [Work.exec_bind, Service.exec_require]
  cases condition <;> simp

theorem exec_transact_of_ok {w : Work σ π α} {s s' : Session σ π} {a : α}
    (h : w.exec s = (.ok a, s')) : (transact w).exec s = (.ok a, s') := by
  rw [exec_transact, h]

theorem exec_transact_of_error {w : Work σ π α} {s s' : Session σ π} {fault : Fault}
    (h : w.exec s = (.error fault, s')) :
    (transact w).exec s = (.error fault, { s' with data := s.data }) := by
  rw [exec_transact, h]

theorem exec_transact_eq_ok {w : Work σ π α} {s s' : Session σ π} {a : α} :
    (transact w).exec s = (.ok a, s') ↔ w.exec s = (.ok a, s') := by
  rw [exec_transact]
  rcases w.exec s with ⟨r, after⟩
  cases r <;> simp

theorem resolveId_eq_ok [Collaborators π] {mode : IdMode} {supplied : Option String} {id : String}
    {s s' : Session σ π} (he : (resolveId mode supplied).exec s = (.ok id, s')) :
    s'.data = s.data ∧ s'.readings = s.readings := by
  unfold resolveId at he
  split at he
  · cases he
    exact ⟨rfl, rfl⟩
  · cases he
  · cases he
  · split at he <;> cases he
    exact ⟨rfl, rfl⟩

theorem Selection.replacement_eq [Collaborators π] (candidates : List α) :
    (Selection.replacement candidates : Work σ π α) =
      if candidates.isEmpty then Work.fail .noCandidate
      else Work.draw candidates.length >>= fun d =>
        match candidates[d]? with
        | some candidate => pure candidate
        | none => Work.fail .noCandidate := by
  unfold Selection.replacement
  split <;> rfl

end ReviewRota
