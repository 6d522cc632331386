import Mathlib.Data.List.Nodup
import ReviewRota.Json.Records
import ReviewRota.Proofs.TimeReading

/-!
# Reading written records

A record can be read from more values than the one that is written for it. Whichever it was read
from, what is written is read as the same record.

* `Json.Spells`: the forms of a written value.
* `Team.ofJson?_of_spells`, …, `PullRequest.ofJson?_of_spells`: a record is read from each form.
* `Json.rewrite?`: a value read and written again.
* `Rereads`: how reading and writing of a kind of record go together.
* **`records_reread`**: all records and statuses are read from what is written for them.
-/

namespace ReviewRota

/-! ## Forms of a value -/

namespace Json

/-- Fields with the value of this one. A null may be left out. -/
def Gives (fields : String → Option Json) (field : String × Json) : Prop :=
  fields field.1 = some field.2 ∨ field.2 = null ∧ fields field.1 = none

/-- The forms of a written value: an object may have its members in any order and others among
them, it may be an array of their values, and a name may be the only key of an object. -/
inductive Spells : (written : Json) → Json → Prop
  | written (value : Json) : Spells value value
  | members {fields members : List (String × Json)}
    (h : ∀ field ∈ fields, Gives (fun name => members.lookup name) field) :
    Spells (obj fields) (obj members)
  | items (fields : List (String × Json)) : Spells (obj fields) (arr (fields.map Prod.snd))
  | choice (name : String) : Spells (str name) (obj [(name, null)])

section

variable {written : List (String × Json)}

theorem lookup_of_mem {field : String × Json} (h : (written.map Prod.fst).Nodup)
    (hmem : field ∈ written) : written.lookup field.1 = some field.2 := by
  obtain ⟨before, after, rfl⟩ := List.append_of_mem hmem
  refine List.lookup_eq_some_iff.mpr ⟨before, after, rfl, fun other hother => ?_⟩
  rw [List.map_append, List.nodup_append] at h
  have hne := h.2.2 other.1 (List.mem_map_of_mem hother) field.1 List.mem_cons_self
  exact bne_iff_ne.mpr hne.symm

theorem fields?_of_spells (names : List String) {value : Json}
    (hnames : written.map Prod.fst = names) (hnodup : names.Nodup)
    (h : Spells (obj written) value) :
    ∃ fields, value.fields? names = some fields ∧ ∀ field ∈ written, Gives fields field := by
  subst hnames
  cases h with
  | written => exact ⟨_, rfl, fun field hmem => .inl (lookup_of_mem hnodup hmem)⟩
  | members h => exact ⟨_, rfl, h⟩
  | items =>
    have hzip : (written.map Prod.fst).zip (written.map Prod.snd) = written :=
      (List.zip_of_prod rfl rfl).symm
    refine ⟨_, if_pos (by simp), fun field hmem => .inl ?_⟩
    rw [hzip]
    exact lookup_of_mem hnodup hmem

end

section

variable {α : Type} {fields : String → Option Json} {name : String} {value : Json}
  {f : Json → Option α}

theorem required_of_gives (h : Gives fields (name, value)) (hvalue : value ≠ null) :
    required fields name f = f value := by
  obtain h | ⟨hnull, -⟩ := h
  · rw [required, h]
    rfl
  · exact absurd hnull hvalue

theorem optional_of_eq (h : fields name = some value) (hvalue : value ≠ null) :
    optional fields name f = (f value).map some := by
  rw [optional, h]
  cases value with
  | null => exact absurd rfl hvalue
  | _ => rfl

theorem optional_of_gives {g : α → Json} {a : Option α} (h : Gives fields (name, ofOption g a))
    (hnull : ∀ a, g a ≠ null) (hread : ∀ a, f (g a) = some a) :
    optional fields name f = some a := by
  cases a with
  | none =>
    obtain h | ⟨-, h⟩ := h
    · rw [optional, h]
      rfl
    · rw [optional, h]
  | some a =>
    obtain h | ⟨he, -⟩ := h
    · rw [optional_of_eq h (hnull a)]
      exact congrArg (Option.map some) (hread a)
    · exact absurd he (hnull a)

theorem list?_map {g : α → Json} (h : ∀ a, f (g a) = some a) (l : List α) :
    list? f (arr (l.map g)) = some l := by
  rw [list?, List.mapM_map]
  have hfg : f ∘ g = fun a => pure a := funext h
  rw [hfg, List.mapM_pure, List.map_id']
  rfl

theorem natBelow?_int {bound n : Nat} (h : n < bound) : natBelow? bound (int n) = some n :=
  if_pos h

theorem lt_of_required {bound n : Nat} (h : required fields name (natBelow? bound) = some n) :
    n < bound := by
  obtain ⟨v, -, hv⟩ := Option.bind_eq_some_iff.mp h
  unfold natBelow? at hv
  split at hv
  · split_ifs at hv with hlt
    cases hv
    exact hlt
  · nomatch hv

end

end Json

open Json (Spells fields?_of_spells required_of_gives optional_of_gives list?_map natBelow?_int
  lt_of_required)

/-! ## Records -/

theorem Instant.ofJson?_toJson (t : Instant) : ofJson? t.toJson = some t := by
  rw [ofJson?, toJson, Json.string?, Option.bind_eq_bind, Option.bind_some, ofText?_toText]

theorem Instant.toJson_ne_null (t : Instant) : t.toJson ≠ .null :=
  nofun

theorem Status.ofJson?_of_spells (s : Status) {v : Json} (h : Spells s.toJson v) :
    Status.ofJson? v = some s := by
  obtain ⟨name, hname⟩ : ∃ name, s.name = name := ⟨_, rfl⟩
  rw [Status.toJson, hname] at h
  have hs : ofName? name = some s := hname ▸ ofName?_name s
  cases h with
  | written => exact hs
  | choice => exact hs

theorem Team.ofJson?_of_spells (team : Team) {v : Json} (h : Spells team.toJson v) :
    Team.ofJson? v = some team := by
  obtain ⟨fields, hfields, hgives⟩ :=
    fields?_of_spells ["id", "name", "created_at"] rfl (by decide) h
  simp only [List.forall_mem_cons] at hgives
  obtain ⟨hid, hname, hcreated, -⟩ := hgives
  rw [Team.ofJson?, hfields]
  simp only [Option.bind_eq_bind, Option.bind_some, required_of_gives hid nofun,
    required_of_gives hname nofun, required_of_gives hcreated nofun, Json.string?,
    Instant.ofJson?_toJson]
  rfl

theorem User.ofJson?_of_spells (user : User) {v : Json} (h : Spells user.toJson v) :
    User.ofJson? v = some user := by
  obtain ⟨fields, hfields, hgives⟩ :=
    fields?_of_spells ["id", "name", "team_id", "is_active", "created_at"] rfl (by decide) h
  simp only [List.forall_mem_cons] at hgives
  obtain ⟨hid, hname, hteam, hactive, hcreated, -⟩ := hgives
  rw [User.ofJson?, hfields]
  simp only [Option.bind_eq_bind, Option.bind_some, required_of_gives hid nofun,
    required_of_gives hname nofun, required_of_gives hteam nofun, required_of_gives hactive nofun,
    required_of_gives hcreated nofun, Json.string?, Json.bool?, Instant.ofJson?_toJson]
  rfl

theorem ReviewerSlot.ofJson?_of_spells (slot : ReviewerSlot) {v : Json}
    (h : Spells slot.toJson v) : ReviewerSlot.ofJson? v = some slot := by
  obtain ⟨fields, hfields, hgives⟩ :=
    fields?_of_spells ["pr_id", "slot", "user_id", "assigned_at"] rfl (by decide) h
  simp only [List.forall_mem_cons] at hgives
  obtain ⟨hpull, hnumber, huser, hassigned, -⟩ := hgives
  have hlt : slot.number.toNat < 4294967296 := slot.number.toNat_lt
  rw [ReviewerSlot.ofJson?, hfields]
  simp only [Option.bind_eq_bind, Option.bind_some, required_of_gives hpull nofun,
    required_of_gives hnumber nofun, required_of_gives huser nofun,
    required_of_gives hassigned nofun, Json.string?, natBelow?_int hlt,
    Instant.ofJson?_toJson, UInt32.ofNat_toNat]
  rfl

theorem PullRequest.ofJson?_of_spells (p : PullRequest) {v : Json} (h : Spells p.toJson v) :
    PullRequest.ofJson? v = some p := by
  obtain ⟨fields, hfields, hgives⟩ := fields?_of_spells
    ["id", "title", "author_id", "status", "created_at", "merged_at", "reviewers"] rfl (by decide) h
  simp only [List.forall_mem_cons] at hgives
  obtain ⟨hid, htitle, hauthor, hstatus, hcreated, hmerged, hreviewers, -⟩ := hgives
  have hmergedAt : Json.optional fields "merged_at" Instant.ofJson? = some p.mergedAt :=
    optional_of_gives hmerged Instant.toJson_ne_null Instant.ofJson?_toJson
  have hslots :=
    list?_map (fun slot => ReviewerSlot.ofJson?_of_spells slot (.written _)) p.reviewers
  rw [PullRequest.ofJson?, hfields]
  simp only [Option.bind_eq_bind, Option.bind_some, required_of_gives hid nofun,
    required_of_gives htitle nofun, required_of_gives hauthor nofun,
    required_of_gives hstatus nofun, required_of_gives hcreated nofun, hmergedAt,
    required_of_gives hreviewers nofun, Json.string?,
    Status.ofJson?_of_spells p.status (.written _), Instant.ofJson?_toJson, hslots]
  rfl

/-! ## Reports -/

/-- A load whose numbers have 64 bits. -/
def UserLoad.Fits (load : UserLoad) : Prop :=
  load.total < 18446744073709551616 ∧ load.opened < 18446744073709551616 ∧
    load.merged < 18446744073709551616

/-- A number of reviewers of 64 bits. -/
def ReviewerCount.Fits (c : ReviewerCount) : Prop :=
  c.count < 18446744073709551616

theorem UserLoad.ofJson?_of_spells {load : UserLoad} (hfits : load.Fits) {v : Json}
    (h : Spells load.toJson v) : UserLoad.ofJson? v = some load := by
  obtain ⟨fields, hfields, hgives⟩ := fields?_of_spells
    ["user_id", "total_assigned", "open_assigned", "merged_assigned"] rfl (by decide) h
  simp only [List.forall_mem_cons] at hgives
  obtain ⟨huser, htotal, hopened, hmerged, -⟩ := hgives
  obtain ⟨htotal', hopened', hmerged'⟩ := hfits
  rw [UserLoad.ofJson?, hfields]
  simp only [Option.bind_eq_bind, Option.bind_some, required_of_gives huser nofun,
    required_of_gives htotal nofun, required_of_gives hopened nofun,
    required_of_gives hmerged nofun, Json.string?, natBelow?_int htotal', natBelow?_int hopened',
    natBelow?_int hmerged']
  rfl

theorem ReviewerCount.ofJson?_of_spells {c : ReviewerCount} (hfits : c.Fits) {v : Json}
    (h : Spells c.toJson v) : ReviewerCount.ofJson? v = some c := by
  obtain ⟨fields, hfields, hgives⟩ :=
    fields?_of_spells ["pr_id", "reviewers_count"] rfl (by decide) h
  simp only [List.forall_mem_cons] at hgives
  obtain ⟨hpull, hcount, -⟩ := hgives
  rw [ReviewerCount.ofJson?, hfields]
  simp only [Option.bind_eq_bind, Option.bind_some, required_of_gives hpull nofun,
    required_of_gives hcount nofun, Json.string?, natBelow?_int hfits]
  rfl

theorem UserLoad.fits_of_ofJson? {v : Json} {load : UserLoad} (h : ofJson? v = some load) :
    load.Fits := by
  simp only [ofJson?, Option.bind_eq_bind, Option.bind_eq_some_iff] at h
  obtain ⟨fields, -, userId, -, total, htotal, opened, hopened, merged, hmerged, he⟩ := h
  cases he
  exact ⟨lt_of_required htotal, lt_of_required hopened, lt_of_required hmerged⟩

theorem ReviewerCount.fits_of_ofJson? {v : Json} {c : ReviewerCount} (h : ofJson? v = some c) :
    c.Fits := by
  simp only [ofJson?, Option.bind_eq_bind, Option.bind_eq_some_iff] at h
  obtain ⟨fields, -, pullRequestId, -, count, hcount, he⟩ := h
  cases he
  exact lt_of_required hcount

/-! ## Reading again -/

/-- A value read and written again. -/
def Json.rewrite? {α : Type} (read : Json → Option α) (write : α → Json) (v : Json) :
    Option Json :=
  (read v).map write

/-- How reading and writing of a kind of record go together. Every record that is read `Fits`. It
is read from each form of what is written for it, however it was spelt before, so a value that was
rewritten stays the same when it is rewritten again. -/
structure Rereads {α : Type} (Fits : α → Prop) (read : Json → Option α) (write : α → Json) :
    Prop where
  fits : ∀ v x, read v = some x → Fits x
  forms : ∀ x v, Fits x → Spells (write x) v → read v = some x
  again : ∀ v x, read v = some x → read (write x) = some x
  idempotent : ∀ v w, Json.rewrite? read write v = some w → Json.rewrite? read write w = some w

theorem rereads_of_forms {α : Type} {Fits : α → Prop} {read : Json → Option α} {write : α → Json}
    (fits : ∀ v x, read v = some x → Fits x)
    (forms : ∀ x v, Fits x → Spells (write x) v → read v = some x) : Rereads Fits read write := by
  have again : ∀ v x, read v = some x → read (write x) = some x :=
    fun v x h => forms x (write x) (fits v x h) (.written _)
  refine { fits, forms, again, idempotent := fun v w h => ?_ }
  obtain ⟨x, hx, rfl⟩ := Option.map_eq_some_iff.mp h
  rw [Json.rewrite?, again v x hx]
  rfl

/-- **Records are read again as they were.** A record of any kind, read from whatever value, is read
again from what is written for it, and so is an instant, whichever spelling it had. -/
theorem records_reread :
    Rereads (fun _ => True) Team.ofJson? Team.toJson ∧
    Rereads (fun _ => True) User.ofJson? User.toJson ∧
    Rereads (fun _ => True) ReviewerSlot.ofJson? ReviewerSlot.toJson ∧
    Rereads (fun _ => True) PullRequest.ofJson? PullRequest.toJson ∧
    Rereads (fun _ => True) Status.ofJson? Status.toJson ∧
    Rereads UserLoad.Fits UserLoad.ofJson? UserLoad.toJson ∧
    Rereads ReviewerCount.Fits ReviewerCount.ofJson? ReviewerCount.toJson ∧
    ∀ t : Instant, Instant.ofText? t.toText = some t := by
  have hany : ∀ {α : Type} {read : Json → Option α} {write : α → Json},
      (∀ x v, Spells (write x) v → read v = some x) → Rereads (fun _ => True) read write :=
    fun h => rereads_of_forms (fun _ _ _ => trivial) fun x v _ => h x v
  exact ⟨hany fun team v => team.ofJson?_of_spells, hany fun user v => user.ofJson?_of_spells,
    hany fun slot v => slot.ofJson?_of_spells, hany fun p v => p.ofJson?_of_spells,
    hany fun s v => s.ofJson?_of_spells,
    rereads_of_forms (fun _ _ => UserLoad.fits_of_ofJson?)
      fun _ _ hfits => UserLoad.ofJson?_of_spells hfits,
    rereads_of_forms (fun _ _ => ReviewerCount.fits_of_ofJson?)
      fun _ _ hfits => ReviewerCount.ofJson?_of_spells hfits,
    Instant.ofText?_toText⟩

/-- A pull request read from an array, its slot from an object with its members in another order
and one more among them. Both were dated in a leap second of a year beyond 9999, one at an offset
and to eleven places, of which nine count. -/
theorem records_reread_leapSecond :
    let slot : Json := .obj [("weight", .int 2), ("user_id", .str "u2"), ("slot", .int 1),
      ("assigned_at", .str "+12024-3-1 1:59:60.25000000099 +02:00"), ("pr_id", .str "p1")]
    let value : Json := .arr [.str "p1", .str "Tidy up", .str "u1", .obj [("OPEN", .null)],
      .str "+12024-2-29t23:59:60z", .null, .arr [slot]]
    ∃ p, PullRequest.ofJson? value = some p ∧ p.createdAt.toText = "+12024-02-29T23:59:60Z" ∧
      p.reviewers.map (·.assignedAt.toText) = ["+12024-02-29T23:59:60.250Z"] ∧
      PullRequest.ofJson? p.toJson = some p := by
  intro slot value
  have hread : (PullRequest.ofJson? value).map
      (fun p => (p.createdAt.toText, p.reviewers.map (·.assignedAt.toText))) =
        some ("+12024-02-29T23:59:60Z", ["+12024-02-29T23:59:60.250Z"]) := by
    decide +kernel
  obtain ⟨p, hp, htexts⟩ := Option.map_eq_some_iff.mp hread
  obtain ⟨hcreated, hassigned⟩ := Prod.mk.inj htexts
  obtain ⟨-, -, -, hpulls, -⟩ := records_reread
  exact ⟨p, hp, hcreated, hassigned, hpulls.again value p hp⟩

end ReviewRota
