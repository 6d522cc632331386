import ReviewRota.Proofs.Integrity

/-!
# The records of some teams

A set of teams cuts records in two: what belongs to these teams and what belongs to the others.
Pull requests go with their authors. As long as no review crosses the cut, what is read about one
part is there already, and a change of one part leaves the other alone.

* `Memory.part`: the records of some teams, in the order in which all records have them.
* `Memory.inside`, `Memory.owns`: whether a user, or the author of a pull request, is of these
  teams.
* `Memory.part_withUser`, `Memory.part_withPullRequest`: a part of changed records is the changed
  part.
* `Memory.Confined keep m₀ m n`: `n` is the part of `m`, and nothing but this part has changed
  since `m₀`; **`Memory.Confined.withUser`**, **`Memory.Confined.withPullRequest`**: what keeps it.
* `Memory.Confined.filter_users`, `Memory.Confined.filter_pullRequests`, …: what is read about the
  part is read in the part.
-/

namespace ReviewRota

theorem find?_filter_key {α : Type} {key : α → String} {l : List α} (h : (l.map key).Nodup)
    (keep : α → Bool) (id : String) :
    (l.filter keep).find? (key · == id) = (l.find? (key · == id)).filter keep := by
  ext a
  rw [find?_key_eq_some_iff (h.sublist (List.filter_sublist.map key)), Option.filter_eq_some_iff,
    find?_key_eq_some_iff h, List.mem_filter]
  exact and_right_comm

theorem filter_eq_self_of_forall {α : Type} {o : Option α} {keep : α → Bool}
    (h : ∀ a, o = some a → keep a = true) : o.filter keep = o := by
  cases o with
  | none => rfl
  | some a => exact if_pos (h a rfl)

namespace Memory

variable {m : Memory} {keep : String → Bool}

/-- Whether the user with this id is of one of the teams. -/
def inside (m : Memory) (keep : String → Bool) (id : String) : Bool :=
  (m.findUser id).any fun u => keep u.teamId

/-- Whether the author of the pull request with this id is of one of the teams. -/
def owns (m : Memory) (keep : String → Bool) (id : String) : Bool :=
  (m.findPullRequest id).any fun p => m.inside keep p.authorId

/-- The records of some teams. -/
def part (m : Memory) (keep : String → Bool) : Memory where
  teams := m.teams.filter fun team => keep team.id
  users := m.users.filter fun u => keep u.teamId
  pullRequests := m.pullRequests.filter fun p => m.inside keep p.authorId

/-- Every reviewer is on the same side as the author. -/
def Separate (m : Memory) (keep : String → Bool) : Prop :=
  ∀ p ∈ m.pullRequests, ∀ id ∈ p.reviewerIds, m.inside keep id = m.inside keep p.authorId

/-! ## Look-up -/

theorem findTeam_part (h : m.Integrity) (id : String) :
    (m.part keep).findTeam id = (m.findTeam id).filter fun team => keep team.id :=
  find?_filter_key h.teamIds _ id

theorem findUser_part (h : m.Integrity) (id : String) :
    (m.part keep).findUser id = (m.findUser id).filter fun u => keep u.teamId :=
  find?_filter_key h.userIds _ id

theorem findPullRequest_part (h : m.Integrity) (id : String) :
    (m.part keep).findPullRequest id =
      (m.findPullRequest id).filter fun p => m.inside keep p.authorId :=
  find?_filter_key h.ids _ id

theorem inside_of_mem (h : m.Integrity) {u : User} (hu : u ∈ m.users) :
    m.inside keep u.id = keep u.teamId := by
  have hfind : m.findUser u.id = some u := (find?_key_eq_some_iff h.userIds).mpr ⟨hu, rfl⟩
  rw [inside, hfind, Option.any_some]

theorem not_inside {id : String} (h : (m.inside fun team => !keep team) id = true) :
    m.inside keep id = false := by
  obtain ⟨u, hu, hout⟩ := Option.any_eq_true _ _ |>.mp h
  rw [inside, hu, Option.any_some]
  exact (Bool.not_eq_eq_eq_not ..).mp hout

theorem owns_of_mem (h : m.Integrity) {p : PullRequest} (hp : p ∈ m.pullRequests)
    (hauthor : m.inside keep p.authorId = true) : m.owns keep p.id = true := by
  have hfind : m.findPullRequest p.id = some p := (find?_key_eq_some_iff h.ids).mpr ⟨hp, rfl⟩
  rw [owns, hfind, Option.any_some, hauthor]

theorem inside_eq_isSome (h : m.Integrity) (id : String) :
    m.inside keep id = ((m.part keep).findUser id).isSome := by
  rw [findUser_part h, Option.isSome_filter]
  rfl

theorem owns_eq_isSome (h : m.Integrity) (id : String) :
    m.owns keep id = ((m.part keep).findPullRequest id).isSome := by
  rw [findPullRequest_part h, Option.isSome_filter]
  rfl

theorem inside_congr {m' : Memory} (h : m.Integrity) (h' : m'.Integrity)
    (hpart : m.part keep = m'.part keep) : m.inside keep = m'.inside keep := by
  funext id
  rw [inside_eq_isSome h, inside_eq_isSome h', hpart]

theorem owns_congr {m' : Memory} (h : m.Integrity) (h' : m'.Integrity)
    (hpart : m.part keep = m'.part keep) : m.owns keep = m'.owns keep := by
  funext id
  rw [owns_eq_isSome h, owns_eq_isSome h', hpart]

/-! ## Changes of users -/

section

variable {g : User → User} (hg : ∀ u, (g u).id = u.id ∧ (g u).teamId = u.teamId)
include hg

theorem inside_mapUsers : (m.mapUsers g).inside keep = m.inside keep := by
  funext id
  simp only [inside, findUser, mapUsers, List.find?_map, Option.any_map, Function.comp_def, hg]

theorem part_mapUsers : (m.mapUsers g).part keep = (m.part keep).mapUsers g := by
  rw [part, inside_mapUsers hg]
  simp only [part, mapUsers, List.filter_map, Function.comp_def, hg]

end

section

variable (m) (user : User)

theorem inside_withUser : (m.withUser user).inside keep = m.inside keep :=
  inside_mapUsers fun u => by split <;> exact ⟨rfl, rfl⟩

theorem part_withUser : (m.withUser user).part keep = (m.part keep).withUser user :=
  part_mapUsers fun u => by split <;> exact ⟨rfl, rfl⟩

theorem owns_withUser : (m.withUser user).owns keep = m.owns keep := by
  funext id
  rw [owns, owns, inside_withUser]
  rfl

end

theorem withUser_of_forall_ne {user : User} (h : ∀ u ∈ m.users, u.id ≠ user.id) :
    m.withUser user = m := by
  refine congrArg (Memory.mk m.teams · m.pullRequests) ?_
  exact (List.map_congr_left fun u hu => if_neg (h u hu)).trans (List.map_id _)

/-! ## Changes of pull requests -/

section

variable {f : PullRequest → PullRequest} (hf : ∀ p, (f p).id = p.id ∧ (f p).authorId = p.authorId)
include hf

theorem owns_mapPullRequests : (m.mapPullRequests f).owns keep = m.owns keep := by
  funext id
  change Option.any (fun p => m.inside keep p.authorId) ((m.pullRequests.map f).find? _) = _
  simp only [owns, findPullRequest, List.find?_map, Option.any_map, Function.comp_def, hf]

theorem part_mapPullRequests :
    (m.mapPullRequests f).part keep = (m.part keep).mapPullRequests f := by
  refine congrArg (Memory.mk _ _) ?_
  change (m.pullRequests.map f).filter (fun p => m.inside keep p.authorId) = _
  simp only [List.filter_map, Function.comp_def, hf]
  rfl

theorem same_withPullRequest (id : String) (p : PullRequest) :
    (if p.id = id then f p else p).id = p.id ∧
      (if p.id = id then f p else p).authorId = p.authorId := by
  split
  · exact hf p
  · exact ⟨rfl, rfl⟩

theorem owns_withPullRequest (id : String) : (m.withPullRequest id f).owns keep = m.owns keep :=
  owns_mapPullRequests (same_withPullRequest hf id)

theorem part_withPullRequest (id : String) :
    (m.withPullRequest id f).part keep = (m.part keep).withPullRequest id f :=
  part_mapPullRequests (same_withPullRequest hf id)

end

theorem withPullRequest_of_forall_ne {id : String} {f : PullRequest → PullRequest}
    (h : ∀ p ∈ m.pullRequests, p.id ≠ id) : m.withPullRequest id f = m := by
  refine congrArg (Memory.mk m.teams m.users) ?_
  exact (List.map_congr_left fun p hp => if_neg (h p hp)).trans (List.map_id _)

/-! ## One part changes -/

/-- The records of the teams `keep` are `n`, and those of the other teams are as in `m₀`, as are the
users and the pull requests that these teams have. -/
structure Confined (keep : String → Bool) (m₀ m n : Memory) : Prop where
  integrity : m.Integrity
  separate : m.Separate keep
  part : n = m.part keep
  others : (m.part fun team => !keep team) = m₀.part fun team => !keep team
  inside : m.inside keep = m₀.inside keep
  owns : m.owns keep = m₀.owns keep

theorem Confined.refl (h : m.Integrity) (hseparate : m.Separate keep) :
    Confined keep m m (m.part keep) :=
  ⟨h, hseparate, rfl, rfl, rfl, rfl⟩

namespace Confined

variable {m₀ n : Memory} (h : Confined keep m₀ m n)
include h

theorem exists_user {id : String} (hid : m₀.inside keep id = true) :
    ∃ u ∈ n.users, u.id = id := by
  rw [← isSome_findUser, h.part, ← inside_eq_isSome h.integrity, h.inside]
  exact hid

theorem exists_pullRequest {id : String} (hid : m₀.owns keep id = true) :
    ∃ p ∈ n.pullRequests, p.id = id := by
  rw [← isSome_findPullRequest, h.part, ← owns_eq_isSome h.integrity, h.owns]
  exact hid

theorem mem_users {u : User} : u ∈ n.users ↔ u ∈ m.users ∧ keep u.teamId = true := by
  rw [h.part]
  exact List.mem_filter

theorem mem_pullRequests {p : PullRequest} :
    p ∈ n.pullRequests ↔ p ∈ m.pullRequests ∧ m₀.inside keep p.authorId = true := by
  rw [h.part, ← h.inside]
  exact List.mem_filter

theorem inside_of_mem_users {u : User} (hu : u ∈ n.users) : m₀.inside keep u.id = true := by
  obtain ⟨hmem, hkeep⟩ := h.mem_users.mp hu
  rw [← h.inside, inside_of_mem h.integrity hmem, hkeep]

theorem keep_teamId {u : User} (hu : u ∈ m.users) (hid : m₀.inside keep u.id = true) :
    keep u.teamId = true :=
  calc keep u.teamId
    _ = m.inside keep u.id := (inside_of_mem h.integrity hu).symm
    _ = m₀.inside keep u.id := congrFun h.inside u.id
    _ = true := hid

theorem inside_reviewer {p : PullRequest} (hp : p ∈ n.pullRequests) {id : String}
    (hrev : id ∈ p.reviewerIds) : m₀.inside keep id = true := by
  obtain ⟨hmem, hin⟩ := h.mem_pullRequests.mp hp
  rw [← h.inside, h.separate p hmem id hrev, h.inside, hin]

theorem owns_of_mem {p : PullRequest} (hp : p ∈ n.pullRequests) : m₀.owns keep p.id = true := by
  rw [← h.owns, owns_eq_isSome h.integrity, ← h.part]
  exact isSome_findPullRequest.mpr ⟨p, hp, rfl⟩

/-! ### Changes -/

theorem withUser {user : User} (hid : m₀.inside keep user.id = true) :
    Confined keep m₀ (m.withUser user) (n.withUser user) where
  integrity := h.integrity.withUser user
  separate p hp id hrev := by
    rw [inside_withUser]
    exact h.separate p hp id hrev
  part := by rw [h.part, part_withUser]
  others := by
    rw [← h.others, part_withUser]
    refine withUser_of_forall_ne fun u hu he => ?_
    obtain ⟨hmem, hout⟩ := List.mem_filter.mp hu
    rw [← h.inside, ← he, inside_of_mem h.integrity hmem] at hid
    simp [hid] at hout
  inside := by rw [inside_withUser, h.inside]
  owns := by rw [owns_withUser, h.owns]

theorem withPullRequest {id : String} {f : PullRequest → PullRequest}
    (hid : m₀.owns keep id = true) (hf : ∀ p, (f p).id = p.id ∧ (f p).authorId = p.authorId)
    (hint : (m.withPullRequest id f).Integrity)
    (hrev : ∀ p ∈ n.pullRequests, ∀ v ∈ (f p).reviewerIds, m₀.inside keep v = true) :
    Confined keep m₀ (m.withPullRequest id f) (n.withPullRequest id f) := by
  obtain ⟨p₀, hp₀, rfl⟩ := h.exists_pullRequest hid
  obtain ⟨hmem₀, hin₀⟩ := h.mem_pullRequests.mp hp₀
  constructor
  case integrity => exact hint
  case separate =>
    intro q hq v hv
    obtain ⟨p, hp, rfl⟩ := mem_mapPullRequests.mp hq
    rw [(same_withPullRequest hf p₀.id p).2]
    change m.inside keep v = m.inside keep p.authorId
    split at hv
    · rename_i he
      obtain rfl := h.integrity.eq_of_id hp hmem₀ he
      rw [h.inside, hin₀]
      exact hrev p hp₀ v hv
    · exact h.separate p hp v hv
  case part => rw [h.part, part_withPullRequest hf]
  case others =>
    rw [← h.others, part_withPullRequest hf]
    refine withPullRequest_of_forall_ne fun p hp he => ?_
    obtain ⟨hmem, hout⟩ := List.mem_filter.mp hp
    rw [← h.integrity.eq_of_id hmem hmem₀ he, ← h.inside, not_inside hout] at hin₀
    cases hin₀
  case inside => exact h.inside
  case owns => rw [owns_withPullRequest hf, h.owns]

/-! ### Readings -/

theorem findTeam_eq {id : String} (hid : keep id = true) : m.findTeam id = n.findTeam id := by
  rw [h.part, findTeam_part h.integrity]
  refine (filter_eq_self_of_forall fun team hteam => ?_).symm
  obtain ⟨-, rfl⟩ := (find?_key_eq_some_iff h.integrity.teamIds).mp hteam
  exact hid

theorem findUser_eq {id : String} (hid : m₀.inside keep id = true) :
    m.findUser id = n.findUser id := by
  rw [h.part, findUser_part h.integrity]
  refine (filter_eq_self_of_forall fun u hu => ?_).symm
  rw [← h.inside, Memory.inside, hu] at hid
  exact hid

theorem findPullRequest_eq {id : String} (hid : m₀.owns keep id = true) :
    m.findPullRequest id = n.findPullRequest id := by
  rw [h.part, findPullRequest_part h.integrity]
  refine (filter_eq_self_of_forall fun p hp => ?_).symm
  rw [← h.owns, Memory.owns, hp] at hid
  exact hid

theorem filter_users {q : User → Bool}
    (hq : ∀ u ∈ m.users, q u = true → keep u.teamId = true) :
    m.users.filter q = n.users.filter q := by
  rw [h.part, Memory.part, List.filter_filter]
  refine List.filter_congr fun u hu => ?_
  rw [Bool.eq_iff_iff, Bool.and_eq_true]
  exact ⟨fun hu' => ⟨hu', hq u hu hu'⟩, And.left⟩

theorem filter_pullRequests {q : PullRequest → Bool}
    (hq : ∀ p ∈ m.pullRequests, q p = true → m₀.inside keep p.authorId = true) :
    m.pullRequests.filter q = n.pullRequests.filter q := by
  rw [h.part, Memory.part, List.filter_filter]
  refine List.filter_congr fun p hp => ?_
  rw [Bool.eq_iff_iff, Bool.and_eq_true, h.inside]
  exact ⟨fun hp' => ⟨hp', hq p hp hp'⟩, And.left⟩

theorem inside_author {p : PullRequest} (hp : p ∈ m.pullRequests) {id : String}
    (hid : m₀.inside keep id = true) (hrev : p.hasReviewer id = true) :
    m₀.inside keep p.authorId = true := by
  rw [← h.inside, ← h.separate p hp id (PullRequest.hasReviewer_iff.mp hrev), h.inside]
  exact hid

theorem userLoad_eq {u : User} (hid : m₀.inside keep u.id = true) :
    m.userLoad u = n.userLoad u := by
  have hreviewed : m.pullRequests.filter (·.hasReviewer u.id) =
      n.pullRequests.filter (·.hasReviewer u.id) :=
    h.filter_pullRequests fun p hp hrev => h.inside_author hp hid hrev
  rw [userLoad, userLoad, hreviewed]

theorem acceptsSlots_eq (id : String) {slots : List ReviewerSlot}
    (hslots : ∀ v ∈ slots.map ReviewerSlot.userId, m₀.inside keep v = true) :
    m.acceptsSlots id slots = n.acceptsSlots id slots := by
  have hafter : ∀ seen, m.acceptsAfter id seen slots = n.acceptsAfter id seen slots := by
    induction slots with
    | nil => exact fun _ => rfl
    | cons slot rest ih =>
      obtain ⟨hslot, hrest⟩ := List.forall_mem_cons.mp hslots
      intro seen
      rw [acceptsAfter, acceptsAfter, ih hrest, acceptsSlot, acceptsSlot, h.findUser_eq hslot]
  exact hafter []

end Confined

end Memory

end ReviewRota
