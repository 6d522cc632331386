import Mathlib.Data.List.Chain
import ReviewRota.Proofs.Atomicity
import ReviewRota.Proofs.TextOrder

/-!
# Work and the readings of the clock

What work brings about, of the data and of all clock readings so far, if the clock does not go back.

* `Steady readings`: successive readings never decrease.
* `Latest t readings`: no reading is later than `t`, which is one of them.
* `Lasting P`: condition `P` on data and readings does not mind more readings.
* `Work.Brings P w Q`: from data and readings with `P`, work `w` leads to data and readings with `Q`
  as soon as it succeeds and the readings are steady; one rule for each way of building work.
* **`Work.Brings.performAll`**: what each call keeps, runs of calls keep. A failed call leaves the
  data as it was and may only have added readings.
-/

namespace ReviewRota

variable {σ π α β : Type}

/-! ## Readings -/

/-- Readings of a clock that does not go back. -/
def Steady (readings : List Instant) : Prop :=
  readings.IsChain fun s t => s.le t = true

instance (readings : List Instant) : Decidable (Steady readings) :=
  inferInstanceAs (Decidable (List.IsChain _ readings))

/-- A reading such that no other is later. -/
def Latest (t : Instant) (readings : List Instant) : Prop :=
  t ∈ readings ∧ ∀ time ∈ readings, time.le t = true

instance : Trans (fun s t : Instant => s.le t = true) (fun s t => s.le t = true)
    fun s t => s.le t = true :=
  ⟨Instant.isPreorder_le.trans⟩

theorem Instant.le_refl (t : Instant) : t.le t = true :=
  (Instant.isPreorder_le.total t t).elim id id

theorem Steady.mono {readings readings' : List Instant} (h : Steady readings')
    (hp : readings <+: readings') : Steady readings :=
  List.IsChain.sublist h hp.sublist

theorem Steady.latest {readings : List Instant} {t : Instant} (h : Steady (readings ++ [t])) :
    Latest t (readings ++ [t]) := by
  refine ⟨List.mem_append_right _ (List.mem_singleton_self t), fun time htime => ?_⟩
  have hpairs := (List.pairwise_append.mp (List.IsChain.pairwise h)).2.2
  rcases List.mem_append.mp htime with htime | htime
  · exact hpairs time htime t (List.mem_singleton_self t)
  · rw [List.mem_singleton.mp htime]
    exact t.le_refl

theorem Steady.getLast? {readings : List Instant} (h : Steady readings) {time : Instant}
    (ht : time ∈ readings) : ∃ last, readings.getLast? = some last ∧ time.le last = true := by
  obtain rfl | ⟨earlier, last, rfl⟩ := readings.eq_nil_or_concat'
  · exact absurd ht List.not_mem_nil
  · exact ⟨last, List.getLast?_concat .., h.latest.2 time ht⟩

/-- A condition on data and readings that does not mind more readings. -/
def Lasting (P : σ → List Instant → Prop) : Prop :=
  ∀ ⦃d readings readings'⦄, readings <+: readings' → P d readings → P d readings'

/-! ## What work brings about -/

/-- Work that adds readings and, from data and readings with `P`, leads to data and readings with
`Q` if it succeeds on a clock that does not go back. -/
structure Work.Brings (P : σ → List Instant → Prop) (w : Work σ π α)
    (Q : α → σ → List Instant → Prop) : Prop where
  readings : ∀ s, s.readings <+: (w.exec s).2.readings
  outcome : ∀ {s a s'}, w.exec s = (.ok a, s') → Steady s'.readings → P s.data s.readings →
    Q a s'.data s'.readings

namespace Work.Brings

variable {P : σ → List Instant → Prop} {Q : α → σ → List Instant → Prop}
  {R : β → σ → List Instant → Prop}

theorem pure {a : α} (h : ∀ d readings, P d readings → Q a d readings) :
    Brings P (Pure.pure a : Work σ π α) Q where
  readings _ := List.prefix_rfl
  outcome he _ hP := by
    cases he
    exact h _ _ hP

theorem skip (a : α) : Brings P (Pure.pure a : Work σ π α) fun _ => P :=
  pure fun _ _ h => h

theorem fail (fault : Fault) : Brings P (Work.fail fault : Work σ π α) Q where
  readings _ := List.prefix_rfl
  outcome he := nomatch he

theorem bind {w : Work σ π α} {f : α → Work σ π β} (hw : Brings P w Q)
    (hf : ∀ a, Brings (Q a) (f a) R) : Brings P (w >>= f) R where
  readings s := by
    have hfirst := hw.readings s
    rw [exec_bind]
    split
    · rename_i a after he
      rw [he] at hfirst
      exact hfirst.trans ((hf a).readings after)
    · rename_i fault after he
      rwa [he] at hfirst
  outcome he hsteady hP := by
    obtain ⟨a, after, hfirst, he⟩ := exec_bind_eq_ok.mp he
    have hp := (hf a).readings after
    rw [he] at hp
    exact (hf a).outcome he hsteady (hw.outcome hfirst (hsteady.mono hp) hP)

theorem map {w : Work σ π α} (f : α → β) {S : σ → List Instant → Prop}
    (hw : Brings P w fun _ => S) : Brings P (f <$> w) fun _ => S := by
  rw [map_eq_pure_bind]
  exact hw.bind fun _ => .skip _

theorem read {f : σ → Except Fault α}
    (h : ∀ d readings a, P d readings → f d = .ok a → Q a d readings) :
    Brings P (Work.read f : Work σ π α) Q where
  readings _ := List.prefix_rfl
  outcome he _ hP := by
    obtain ⟨hr, rfl⟩ := Prod.mk.inj he
    exact h _ _ _ hP hr

theorem peek (f : σ → Except Fault α) : Brings P (Work.read f : Work σ π α) fun _ => P :=
  read fun _ _ _ h _ => h

theorem write {f : σ → Except Fault α × σ} {S : σ → List Instant → Prop}
    (h : ∀ d readings, P d readings → S (f d).2 readings) :
    Brings P (Work.write f : Work σ π α) fun _ => S where
  readings _ := List.prefix_rfl
  outcome he _ hP := by
    obtain ⟨-, rfl⟩ := Prod.mk.inj he
    exact h _ _ hP

theorem transact {w : Work σ π α} (hw : Brings P w Q) : Brings P (ReviewRota.transact w) Q where
  readings s := by
    have h := hw.readings s
    rw [exec_transact]
    split <;> rename_i he <;> rwa [he] at h
  outcome he := hw.outcome (exec_transact_eq_ok.mp he)

theorem require_bind {condition : Bool} {fault : Fault} {w : Work σ π β}
    (hw : condition = true → Brings P w R) :
    Brings P (do Service.require condition fault; w) R := by
  cases condition with
  | true => exact hw rfl
  | false => exact fail fault

variable [Collaborators π]

theorem now (hP : Lasting P) : Brings P (Work.now : Work σ π Instant) fun t d readings =>
    P d readings ∧ Latest t readings where
  readings _ := List.prefix_append _ _
  outcome he hsteady h := by
    cases he
    exact ⟨hP (List.prefix_append _ _) h, hsteady.latest⟩

theorem draw (n : Nat) : Brings P (Work.draw n : Work σ π Nat) fun _ => P where
  readings _ := List.prefix_rfl
  outcome he _ hP := by
    cases he
    exact hP

theorem freshId : Brings P (Work.freshId : Work σ π String) fun _ => P where
  readings _ := List.prefix_rfl
  outcome he _ hP := by
    cases he
    exact hP

theorem resolveId (mode : IdMode) (supplied : Option String) :
    Brings P (ReviewRota.resolveId mode supplied : Work σ π String) fun _ => P := by
  unfold ReviewRota.resolveId
  split
  · exact freshId
  · exact .fail _
  · exact .fail _
  · split
    · exact .fail _
    · exact .skip _

theorem drawAll (bounds : List Nat) :
    Brings P (Selection.drawAll bounds : Work σ π (List Nat)) fun _ => P := by
  induction bounds with
  | nil => exact .skip _
  | cons n ns ih => exact (draw n).bind fun _ => ih.bind fun _ => .skip _

theorem initial (candidates : List α) (max : Nat) :
    Brings P (Selection.initial candidates max : Work σ π (List α)) fun _ => P := by
  unfold Selection.initial
  split
  · exact .skip _
  split
  · exact .skip _
  · exact (drawAll _).bind fun _ => .skip _

theorem replacement (candidates : List α) :
    Brings P (Selection.replacement candidates : Work σ π α) fun _ => P := by
  rw [Selection.replacement_eq]
  split
  · exact .fail _
  · refine (draw _).bind fun d => ?_
    split
    · exact .skip _
    · exact .fail _

/-! ## Runs -/

variable [Repository σ] {settings : AssignmentSettings} {I : σ → List Instant → Prop}

theorem readings_performAll
    (h : ∀ call, Brings I (Call.perform settings call : Work σ π Reply) fun _ => I)
    (calls : List Call) (s : Session σ π) :
    s.readings <+: (ReviewRota.performAll settings calls s).2.readings := by
  induction calls generalizing s with
  | nil => exact List.prefix_rfl
  | cons call calls ih => exact ((h call).readings s).trans (ih _)

theorem perform {call : Call}
    (h : Brings I (call.perform settings : Work σ π Reply) fun _ => I) (hI : Lasting I)
    {s : Session σ π} (hsteady : Steady ((call.perform settings).exec s).2.readings)
    (hs : I s.data s.readings) :
    I ((call.perform settings).exec s).2.data ((call.perform settings).exec s).2.readings := by
  have hread := h.readings s
  have hatomic := Call.atomic settings call s
  rcases he : (call.perform settings).exec s with ⟨r, s'⟩
  rw [he] at hsteady hread hatomic
  cases r with
  | ok reply => exact h.outcome he hsteady hs
  | error fault =>
    have hdata : s'.data = s.data := hatomic fault rfl
    rw [hdata]
    exact hI hread hs

/-- **What each call keeps, runs of calls keep**, if it does not mind more readings. -/
theorem performAll
    (h : ∀ call, Brings I (Call.perform settings call : Work σ π Reply) fun _ => I)
    (hI : Lasting I) (calls : List Call) {s : Session σ π}
    (hsteady : Steady (ReviewRota.performAll settings calls s).2.readings)
    (hs : I s.data s.readings) :
    I (ReviewRota.performAll settings calls s).2.data
      (ReviewRota.performAll settings calls s).2.readings := by
  induction calls generalizing s with
  | nil => exact hs
  | cons call calls ih =>
    have hlater := readings_performAll h calls ((call.perform settings).exec s).2
    exact ih (s := ((call.perform settings).exec s).2) hsteady
      ((h call).perform hI (hsteady.mono hlater) hs)

end Work.Brings

end ReviewRota
