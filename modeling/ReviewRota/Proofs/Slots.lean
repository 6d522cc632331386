import Mathlib.Data.List.Nodup
import Mathlib.Data.List.Perm.Subperm
import ReviewRota.Memory.Store
import ReviewRota.Proofs.Sorting
import ReviewRota.Service.PullRequests

/-!
# Slot lists

* `Memory.Fits m id slots`: what a store asks of the slots of pull request `id`;
  **`Memory.acceptsSlots_iff`** says that the check accepts exactly these lists.
* `Dense slots`: slots numbered `1, 2, …` in their order; `dense_renumber`.
* `PullRequest.handedOver`: a pull request after one reviewer has given way to another, with
  `PullRequest.reviewerIds_handedOver` and `Memory.Fits.handedOver`.
-/

namespace ReviewRota

/-! ## Numbers -/

/-- Slots numbered from 1 without a gap, in their order. -/
def Dense (slots : List ReviewerSlot) : Prop :=
  slots.map (·.number.toNat) = List.range' 1 slots.length

theorem map_number_renumber (slots : List ReviewerSlot) :
    (renumber slots).map ReviewerSlot.number =
      (List.range slots.length).map fun i => UInt32.ofNat (i + 1) := by
  refine List.ext_getElem (by simp [renumber]) fun i h₁ h₂ => ?_
  simp [renumber]

/-- **Fewer than `2 ^ 32` slots are numbered without wrapping around.** -/
theorem dense_renumber {slots : List ReviewerSlot} (h : slots.length < 4294967296) :
    Dense (renumber slots) := by
  rw [Dense, length_renumber, List.range'_eq_map_range, ← Function.comp_def UInt32.toNat,
    ← List.map_map, map_number_renumber, List.map_map]
  refine List.map_congr_left fun i hi => ?_
  have hi := List.mem_range.mp hi
  simp only [Function.comp_apply, UInt32.toNat_ofNat']
  omega

namespace Dense

variable {slots : List ReviewerSlot} (h : Dense slots)
include h

theorem one_le_number {slot : ReviewerSlot} (hslot : slot ∈ slots) : 1 ≤ slot.number := by
  have hmem : slot.number.toNat ∈ slots.map (·.number.toNat) := List.mem_map.mpr ⟨slot, hslot, rfl⟩
  rw [h, List.mem_range'_1] at hmem
  exact UInt32.le_iff_toNat_le.mpr hmem.1

theorem nodup_number : (slots.map ReviewerSlot.number).Nodup := by
  have hn : (slots.map (·.number.toNat)).Nodup := by
    rw [h]
    exact List.nodup_range'
  rw [← Function.comp_def UInt32.toNat, ← List.map_map] at hn
  exact hn.of_map

end Dense

/-- The slot after `2 ^ 32 - 1` others would get number 0. -/
theorem length_lt_of_positive {slots : List ReviewerSlot}
    (h : ∀ slot ∈ renumber slots, 1 ≤ slot.number) : slots.length < 4294967296 := by
  by_contra hlen
  have hmem : (0 : UInt32) ∈ (renumber slots).map ReviewerSlot.number := by
    rw [map_number_renumber]
    exact List.mem_map.mpr ⟨4294967295, List.mem_range.mpr (by omega), rfl⟩
  obtain ⟨slot, hslot, hzero⟩ := List.mem_map.mp hmem
  have hone := h slot hslot
  rw [hzero] at hone
  exact absurd hone (by decide)

theorem Dense.sortSlots_eq {slots : List ReviewerSlot} (h : Dense slots) :
    Memory.sortSlots slots = slots := by
  refine sortBy_eq_self ?_
  have hs : (slots.map (·.number.toNat)).Pairwise (· < ·) := by
    rw [h]
    exact List.pairwise_lt_range'
  refine (List.pairwise_map.mp hs).imp fun hab => ?_
  exact decide_eq_true (UInt32.le_iff_toNat_le.mpr (Nat.le_of_lt hab))

theorem pullRequestId_renumber {slots : List ReviewerSlot} {id : String}
    (h : ∀ slot ∈ slots, slot.pullRequestId = id) :
    ∀ slot ∈ renumber slots, slot.pullRequestId = id := by
  intro slot hslot
  obtain ⟨i, hi, rfl⟩ := List.mem_mapIdx.mp hslot
  exact h slots[i] (List.getElem_mem hi)

theorem numberedSlots_eq_renumber (id : String) (time : Instant) (chosen : List User) :
    Service.numberedSlots id time chosen =
      renumber (chosen.map fun user => ⟨id, 0, user.id, time⟩) := by
  refine List.ext_getElem (by simp [Service.numberedSlots, renumber]) fun i h₁ h₂ => ?_
  simp [Service.numberedSlots, renumber]

theorem map_userId_numberedSlots (id : String) (time : Instant) (chosen : List User) :
    (Service.numberedSlots id time chosen).map ReviewerSlot.userId = chosen.map User.id := by
  rw [numberedSlots_eq_renumber, map_userId_renumber, List.map_map]
  rfl

/-! ## Lists that a store accepts -/

/-- Slots of pull request `id` with numbers from 1, each number and each user once, and all users
known. -/
structure Memory.Fits (m : Memory) (id : String) (slots : List ReviewerSlot) : Prop where
  own : ∀ slot ∈ slots, slot.pullRequestId = id
  positive : ∀ slot ∈ slots, 1 ≤ slot.number
  known : ∀ slot ∈ slots, ∃ user ∈ m.users, user.id = slot.userId
  numbers : (slots.map ReviewerSlot.number).Nodup
  users : (slots.map ReviewerSlot.userId).Nodup

namespace Memory

variable {m : Memory} {id : String}

theorem fits_nil : m.Fits id [] :=
  ⟨by simp, by simp, by simp, .nil, .nil⟩

theorem fits_cons {slot : ReviewerSlot} {rest : List ReviewerSlot} :
    m.Fits id (slot :: rest) ↔
      (slot.pullRequestId = id ∧ 1 ≤ slot.number ∧ ∃ user ∈ m.users, user.id = slot.userId) ∧
        (slot.number ∉ rest.map ReviewerSlot.number ∧
          slot.userId ∉ rest.map ReviewerSlot.userId) ∧ m.Fits id rest := by
  constructor
  · intro ⟨ho, hp, hk, hn, hu⟩
    rw [List.map_cons, List.nodup_cons] at hn hu
    exact ⟨⟨ho _ List.mem_cons_self, hp _ List.mem_cons_self, hk _ List.mem_cons_self⟩,
      ⟨hn.1, hu.1⟩, fun s hs => ho s (List.mem_cons_of_mem _ hs),
      fun s hs => hp s (List.mem_cons_of_mem _ hs), fun s hs => hk s (List.mem_cons_of_mem _ hs),
      hn.2, hu.2⟩
  · rintro ⟨⟨ho, hp, hk⟩, ⟨hn, hu⟩, hr⟩
    exact ⟨List.forall_mem_cons.mpr ⟨ho, hr.own⟩, List.forall_mem_cons.mpr ⟨hp, hr.positive⟩,
      List.forall_mem_cons.mpr ⟨hk, hr.known⟩, List.nodup_cons.mpr ⟨hn, hr.numbers⟩,
      List.nodup_cons.mpr ⟨hu, hr.users⟩⟩

theorem acceptsSlot_iff {seen : List ReviewerSlot} {slot : ReviewerSlot} :
    m.acceptsSlot id seen slot = true ↔
      (slot.pullRequestId = id ∧ 1 ≤ slot.number ∧ ∃ user ∈ m.users, user.id = slot.userId) ∧
        slot.number ∉ seen.map ReviewerSlot.number ∧
          slot.userId ∉ seen.map ReviewerSlot.userId := by
  simp only [acceptsSlot, Bool.and_eq_true, beq_iff_eq, decide_eq_true_eq, Bool.not_eq_true',
    List.any_eq_false, List.mem_map, not_exists, not_and, findUser, List.find?_isSome]
  constructor
  · rintro ⟨⟨⟨⟨ho, hp⟩, hn⟩, hu⟩, hk⟩
    exact ⟨⟨ho, hp, hk⟩, hn, hu⟩
  · rintro ⟨⟨ho, hp, hk⟩, hn, hu⟩
    exact ⟨⟨⟨⟨ho, hp⟩, hn⟩, hu⟩, hk⟩

/-- Slots that can follow `seen` fit among themselves and repeat nothing of `seen`. -/
theorem acceptsAfter_iff {seen slots : List ReviewerSlot} :
    m.acceptsAfter id seen slots = true ↔
      m.Fits id slots ∧ ∀ slot ∈ slots, slot.number ∉ seen.map ReviewerSlot.number ∧
        slot.userId ∉ seen.map ReviewerSlot.userId := by
  induction slots generalizing seen with
  | nil => simp [acceptsAfter, fits_nil]
  | cons slot rest ih =>
    rw [acceptsAfter, Bool.and_eq_true, acceptsSlot_iff, ih, fits_cons]
    simp only [List.map_append, List.map_cons, List.map_nil, List.mem_append, List.mem_singleton,
      not_or, List.forall_mem_cons]
    constructor
    · rintro ⟨⟨hs, hseen⟩, hr, hrest⟩
      refine ⟨⟨hs, ⟨?_, ?_⟩, hr⟩, hseen, fun r hr => ⟨(hrest r hr).1.1, (hrest r hr).2.1⟩⟩
      · rintro hmem
        obtain ⟨r, hr, he⟩ := List.mem_map.mp hmem
        exact (hrest r hr).1.2 he
      · rintro hmem
        obtain ⟨r, hr, he⟩ := List.mem_map.mp hmem
        exact (hrest r hr).2.2 he
    · rintro ⟨⟨hs, ⟨hn, hu⟩, hr⟩, hseen, hrest⟩
      refine ⟨⟨hs, hseen⟩, hr, fun r hr => ⟨⟨(hrest r hr).1, ?_⟩, (hrest r hr).2, ?_⟩⟩
      · exact fun he => hn (he ▸ List.mem_map_of_mem hr)
      · exact fun he => hu (he ▸ List.mem_map_of_mem hr)

/-- **The check of a slot list accepts exactly the lists that fit.** -/
theorem acceptsSlots_iff {slots : List ReviewerSlot} :
    m.acceptsSlots id slots = true ↔ m.Fits id slots := by
  simp [acceptsSlots, acceptsAfter_iff]

/-! ## Lists that a store accepts in part -/

/-- The slots of a list up to the first that cannot follow those before it. -/
def acceptedPart (m : Memory) (id : String) (seen : List ReviewerSlot) :
    List ReviewerSlot → List ReviewerSlot
  | [] => []
  | slot :: rest =>
    if m.acceptsSlot id seen slot then slot :: acceptedPart m id (seen ++ [slot]) rest else []

theorem acceptsAfter_acceptedPart (seen slots : List ReviewerSlot) :
    m.acceptsAfter id seen (m.acceptedPart id seen slots) = true := by
  induction slots generalizing seen with
  | nil => rfl
  | cons slot rest ih =>
    rw [acceptedPart]
    split
    · rename_i ha
      rw [acceptsAfter, ha, ih, Bool.and_self]
    · rfl

theorem acceptedPart_initial (seen slots : List ReviewerSlot) :
    m.acceptedPart id seen slots <+: slots := by
  induction slots generalizing seen with
  | nil => exact List.prefix_rfl
  | cons slot rest ih =>
    rw [acceptedPart]
    split
    · exact List.cons_prefix_cons.mpr ⟨rfl, ih _⟩
    · exact List.nil_prefix

/-- **Whatever is accepted of the beginning of a list is in its accepted part**: it cannot go past
the first slot that is refused. -/
theorem acceptedPart_longest {seen slots part : List ReviewerSlot} (hpart : part <+: slots)
    (ha : m.acceptsAfter id seen part = true) : part <+: m.acceptedPart id seen slots := by
  induction slots generalizing seen part with
  | nil =>
    rw [List.prefix_nil.mp hpart]
    exact List.nil_prefix
  | cons slot rest ih =>
    cases part with
    | nil => exact List.nil_prefix
    | cons first part =>
      replace hpart := List.cons_prefix_cons.mp hpart
      obtain ⟨rfl, hpart⟩ := hpart
      rw [acceptsAfter, Bool.and_eq_true] at ha
      rw [acceptedPart, if_pos ha.1]
      exact List.cons_prefix_cons.mpr ⟨rfl, ih hpart ha.2⟩

theorem acceptedPart_eq_self {seen slots : List ReviewerSlot}
    (ha : m.acceptsAfter id seen slots = true) : m.acceptedPart id seen slots = slots :=
  (acceptedPart_initial seen slots).eq_of_length_le
    (acceptedPart_longest List.prefix_rfl ha).length_le

/-! ## Laws of lists that fit -/

variable {slots : List ReviewerSlot}

theorem Fits.perm {slots' : List ReviewerSlot} (h : m.Fits id slots) (hp : slots'.Perm slots) :
    m.Fits id slots' :=
  ⟨fun s hs => h.own s (hp.mem_iff.mp hs), fun s hs => h.positive s (hp.mem_iff.mp hs),
    fun s hs => h.known s (hp.mem_iff.mp hs), (hp.map _).nodup_iff.mpr h.numbers,
    (hp.map _).nodup_iff.mpr h.users⟩

theorem Fits.sortSlots (h : m.Fits id slots) : m.Fits id (Memory.sortSlots slots) :=
  h.perm (perm_sortBy _ slots)

theorem Fits.of_users {m' : Memory} (h : m.Fits id slots)
    (hu : ∀ user ∈ m.users, ∃ user' ∈ m'.users, user'.id = user.id) : m'.Fits id slots where
  own := h.own
  positive := h.positive
  known slot hslot := by
    obtain ⟨user, huser, he⟩ := h.known slot hslot
    obtain ⟨user', huser', he'⟩ := hu user huser
    exact ⟨user', huser', he'.trans he⟩
  numbers := h.numbers
  users := h.users

theorem Fits.length_lt (h : m.Fits id slots) : slots.length < 4294967296 := by
  have hsub : slots.map (·.number.toNat) ⊆ List.range' 1 4294967295 := by
    intro n hn
    obtain ⟨slot, hslot, rfl⟩ := List.mem_map.mp hn
    have hpos : 1 ≤ slot.number.toNat := UInt32.le_iff_toNat_le.mp (h.positive slot hslot)
    have hlt := slot.number.toNat_lt
    rw [List.mem_range'_1]
    omega
  have hnodup : (slots.map (·.number.toNat)).Nodup := by
    rw [← Function.comp_def UInt32.toNat, ← List.map_map]
    exact h.numbers.map fun _ _ he => UInt32.toNat_inj.mp he
  have hle := (hnodup.subperm hsub).length_le
  rw [List.length_map, List.length_range'] at hle
  omega

theorem Fits.length_chosen_lt {time : Instant} {chosen : List User}
    (h : m.Fits id (Service.numberedSlots id time chosen)) : chosen.length < 4294967296 := by
  have hpos := h.positive
  rw [numberedSlots_eq_renumber] at hpos
  have hlt := length_lt_of_positive hpos
  rwa [List.length_map] at hlt

theorem Fits.dense_numberedSlots {time : Instant} {chosen : List User}
    (h : m.Fits id (Service.numberedSlots id time chosen)) :
    Dense (Service.numberedSlots id time chosen) := by
  rw [numberedSlots_eq_renumber]
  exact dense_renumber (by rw [List.length_map]; exact h.length_chosen_lt)

/-- **Different known users fit on a pull request** as long as there are numbers for them. -/
theorem fits_numberedSlots {time : Instant} {chosen : List User}
    (hlen : chosen.length < 4294967296) (hknown : chosen ⊆ m.users)
    (hnodup : (chosen.map User.id).Nodup) :
    m.Fits id (Service.numberedSlots id time chosen) := by
  have hdense : Dense (Service.numberedSlots id time chosen) := by
    rw [numberedSlots_eq_renumber]
    exact dense_renumber (by rwa [List.length_map])
  constructor
  case own =>
    intro slot hslot
    obtain ⟨i, hi, rfl⟩ := List.mem_mapIdx.mp hslot
    rfl
  case positive => exact fun _ hslot => hdense.one_le_number hslot
  case known =>
    intro slot hslot
    obtain ⟨i, hi, rfl⟩ := List.mem_mapIdx.mp hslot
    exact ⟨chosen[i], hknown (List.getElem_mem hi), rfl⟩
  case numbers => exact hdense.nodup_number
  case users =>
    rw [map_userId_numberedSlots]
    exact hnodup

theorem Fits.renumber (h : m.Fits id slots) : m.Fits id (renumber slots) where
  own := pullRequestId_renumber h.own
  positive _ hslot := (dense_renumber h.length_lt).one_le_number hslot
  known slot hslot := by
    obtain ⟨i, hi, rfl⟩ := List.mem_mapIdx.mp hslot
    exact h.known slots[i] (List.getElem_mem hi)
  numbers := (dense_renumber h.length_lt).nodup_number
  users := by
    rw [map_userId_renumber]
    exact h.users

end Memory

/-! ## Handing over -/

namespace PullRequest

variable {p : PullRequest} {old new : String} {time : Instant}

theorem mem_foldl_addNew {l seen : List String} {x : String} :
    x ∈ l.foldl addNew seen ↔ x ∈ seen ∨ x ∈ l := by
  induction l generalizing seen with
  | nil => simp
  | cons y ys ih => rw [List.foldl_cons, ih, mem_addNew, List.mem_cons, or_assoc]

theorem mem_exclusions {x : String} :
    x ∈ p.exclusions old ↔ x = old ∨ x = p.authorId ∨ x ∈ p.reviewerIds := by
  rw [exclusions, mem_foldl_addNew, List.mem_singleton, List.mem_cons, List.mem_filter]
  by_cases hx : x = old
  · simp [hx]
  · simp [hx]

variable (p old new time) in
/-- The pull request after `new` has taken the place of `old`, with its slots numbered anew. -/
def handedOver : PullRequest :=
  { p with reviewers := renumber (p.replaceReviewer old new time).1 }

variable (time) in
theorem reviewerIds_handedOver :
    (p.handedOver old new time).reviewerIds =
      p.reviewerIds.map fun id => if id = old then new else id := by
  simp only [reviewerIds, handedOver, map_userId_renumber, replaceReviewer, List.map_map]
  refine List.map_congr_left fun slot _ => ?_
  simp only [Function.comp_apply]
  split <;> rfl

theorem mem_reviewerIds_handedOver {id : String} (hne : new ≠ old) :
    id ∈ (p.handedOver old new time).reviewerIds ↔
      (id ∈ p.reviewerIds ∧ id ≠ old) ∨ (id = new ∧ old ∈ p.reviewerIds) := by
  rw [reviewerIds_handedOver, List.mem_map]
  constructor
  · rintro ⟨x, hx, rfl⟩
    by_cases hxo : x = old
    · exact .inr ⟨if_pos hxo, hxo ▸ hx⟩
    · rw [if_neg hxo]
      exact .inl ⟨hx, hxo⟩
  · rintro (⟨hid, hno⟩ | ⟨rfl, hold⟩)
    · exact ⟨id, hid, if_neg hno⟩
    · exact ⟨old, hold, if_pos rfl⟩

end PullRequest

open PullRequest in
/-- **A list that fits still fits after its reviewer `old` has given way to a known user who did
not review.** -/
theorem Memory.Fits.handedOver {m : Memory} {p : PullRequest} (h : m.Fits p.id p.reviewers)
    {old new : String} (time : Instant) (hnew : new ∉ p.reviewerIds)
    (hknown : ∃ user ∈ m.users, user.id = new) :
    m.Fits p.id (p.handedOver old new time).reviewers := by
  have hslots : m.Fits p.id (p.replaceReviewer old new time).1 := by
    constructor
    case own =>
      intro slot hslot
      obtain ⟨r, hr, rfl⟩ := List.mem_map.mp hslot
      have hown := h.own r hr
      split <;> exact hown
    case positive =>
      intro slot hslot
      obtain ⟨r, hr, rfl⟩ := List.mem_map.mp hslot
      have hpositive := h.positive r hr
      split <;> exact hpositive
    case known =>
      intro slot hslot
      obtain ⟨r, hr, rfl⟩ := List.mem_map.mp hslot
      split
      · exact hknown
      · exact h.known r hr
    case numbers =>
      have hsame : (p.replaceReviewer old new time).1.map ReviewerSlot.number =
          p.reviewers.map ReviewerSlot.number := by
        rw [replaceReviewer, List.map_map]
        refine List.map_congr_left fun slot _ => ?_
        simp only [Function.comp_apply]
        split <;> rfl
      rw [hsame]
      exact h.numbers
    case users =>
      have hids : (p.replaceReviewer old new time).1.map ReviewerSlot.userId =
          p.reviewerIds.map fun id => if id = old then new else id := by
        rw [← reviewerIds_handedOver time, reviewerIds, PullRequest.handedOver,
          map_userId_renumber]
      rw [hids]
      refine List.Nodup.map_on ?_ h.users
      -- two reviewers are given one id only if the new one was among them
      intro x hx y hy hxy
      by_cases hxo : x = old <;> by_cases hyo : y = old
      · rw [hxo, hyo]
      · rw [if_pos hxo, if_neg hyo] at hxy
        exact absurd (hxy ▸ hy) hnew
      · rw [if_neg hxo, if_pos hyo] at hxy
        exact absurd (hxy ▸ hx) hnew
      · rwa [if_neg hxo, if_neg hyo] at hxy
  exact hslots.renumber

end ReviewRota
