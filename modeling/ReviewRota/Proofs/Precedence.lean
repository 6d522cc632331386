import Mathlib.Data.List.Induction
import ReviewRota.Settings.Layers

/-!
# Precedence of settings

Every layer of settings is put over the one below it, field by field. A variable is read even if
the command line makes its choice anyway, so a bad text in it is always reported.

* `Text.Denotes`: the number that a text stands for; `Text.readBelow_eq_ok_iff` reads it.
* `IdMode.IsSpelling`: the spellings of a mode; `IdMode.parse_eq_ok_iff` reads them.
* `Settings.Prevails`: the choice that counts, out of a flag, a variable and the value below them.
* `Settings.Base`: the settings that the layers are put over.
* `Settings.connectionsIn`, `Settings.modeIn`: the two choices of an environment that can fail.
* `Settings.Over`: settings with all choices over them.
* **`Settings.layered_prevails`**: when the layers give settings, which ones, and the fault if not.
-/

namespace ReviewRota

/-! ## Whole numbers as text -/

namespace Text

/-- The characters after a plus sign, if there is one. -/
def unsigned : List Char → List Char
  | '+' :: rest => rest
  | s => s

/-- The text stands for `n`: decimal digits, with or without a plus sign before them. -/
def Denotes (text : String) (n : Nat) : Prop :=
  unsigned text.toList ≠ [] ∧ (∀ c ∈ unsigned text.toList, c.isDigit = true) ∧
    value (unsigned text.toList) = n

theorem appendDigit_eq_ok_iff {bound m n : Nat} {c : Char} :
    appendDigit bound m c = .ok n ↔
      c.isDigit = true ∧ 10 * m + (c.toNat - '0'.toNat) = n ∧ n < bound := by
  unfold appendDigit
  cases c.isDigit with
  | false => exact iff_of_false nofun fun h => nomatch h.1
  | true =>
    by_cases hlt : 10 * m + (c.toNat - '0'.toNat) < bound
    · simp only [Bool.not_true, Bool.false_eq_true, if_false, if_pos hlt, Except.ok.injEq, true_and]
      exact ⟨fun he => ⟨he, he ▸ hlt⟩, fun h => h.1⟩
    · simp only [Bool.not_true, Bool.false_eq_true, if_false, if_neg hlt, true_and]
      exact iff_of_false nofun fun h => hlt (h.1 ▸ h.2)

/-- No number on the way is larger than the last one, so its bound is the only one that counts. -/
theorem foldlM_appendDigit_eq_ok_iff {bound n : Nat} {digits : List Char} :
    digits.foldlM (appendDigit bound) 0 = .ok n ↔
      (∀ c ∈ digits, c.isDigit = true) ∧ value digits = n ∧ (digits ≠ [] → n < bound) := by
  induction digits using List.reverseRecOn generalizing n with
  | nil => exact ⟨by rintro ⟨⟩; exact ⟨nofun, rfl, nofun⟩, fun h => by rw [← h.2.1]; rfl⟩
  | append_singleton digits c ih =>
    have hstep : (digits ++ [c]).foldlM (appendDigit bound) 0 = .ok n ↔
        ∃ m, digits.foldlM (appendDigit bound) 0 = .ok m ∧ appendDigit bound m c = .ok n := by
      rw [List.foldlM_append]
      cases digits.foldlM (appendDigit bound) 0 with
      | error problem => exact iff_of_false nofun fun ⟨_, h, _⟩ => nomatch h
      | ok m =>
        change [c].foldlM (appendDigit bound) m = .ok n ↔ _
        simp
    rw [hstep, value_append_digit]
    simp only [ih, appendDigit_eq_ok_iff]
    constructor
    · rintro ⟨m, ⟨hall, rfl, -⟩, hc, rfl, hlt⟩
      exact ⟨List.forall_mem_append.mpr ⟨hall, by simpa using hc⟩, rfl, fun _ => hlt⟩
    · rintro ⟨hall, rfl, hlt⟩
      obtain ⟨hall, hc⟩ := List.forall_mem_append.mp hall
      have hlt := hlt (by simp)
      exact ⟨value digits, ⟨hall, rfl, fun _ => by omega⟩, hc c (by simp), rfl, hlt⟩

/-- **What is read below a bound** is the number that the text stands for, if it is below. -/
theorem readBelow_eq_ok_iff {bound n : Nat} {text : String} :
    readBelow bound text = .ok n ↔ Denotes text n ∧ n < bound := by
  have hread : ∀ digits : List Char, digits ≠ [] → (digits.foldlM (appendDigit bound) 0 = .ok n ↔
      (digits ≠ [] ∧ (∀ c ∈ digits, c.isDigit = true) ∧ value digits = n) ∧ n < bound) :=
    fun digits hne => by
      rw [foldlM_appendDigit_eq_ok_iff]
      exact ⟨fun ⟨hall, hn, hlt⟩ => ⟨⟨hne, hall, hn⟩, hlt hne⟩, fun ⟨⟨_, hall, hn⟩, hlt⟩ =>
        ⟨hall, hn, fun _ => hlt⟩⟩
  unfold readBelow Denotes
  split
  · exact iff_of_false nofun fun h => h.1.1 (by simp [*, unsigned])
  · exact iff_of_false nofun fun h => h.1.1 (by simp [*, unsigned])
  · next digits hne he =>
    rw [he]
    exact hread digits hne
  · next hnil hbare hsigned =>
    have hunsigned : unsigned text.toList = text.toList := by
      unfold unsigned
      split
      · exact absurd ‹_› (hsigned _)
      · rfl
    rw [hunsigned]
    exact hread _ hnil

end Text

/-! ## Spellings of a mode -/

namespace IdMode

/-- The text is the name of the mode, upper and lower case alike for the letters of ASCII. -/
def IsSpelling (text : String) (mode : IdMode) : Prop :=
  Text.lower text = mode.name

theorem ofName?_eq_some_iff {s : String} {mode : IdMode} :
    ofName? s = some mode ↔ s = mode.name := by
  constructor
  · intro h
    unfold ofName? at h
    split_ifs at h with hgenerated hexternal
    · cases h
      exact hgenerated
    · cases h
      exact hexternal
  · rintro rfl
    exact ofName?_name mode

theorem parse_eq_ok_iff (text : String) (mode : IdMode) :
    parse text = .ok mode ↔ IsSpelling text mode := by
  rw [IsSpelling, ← ofName?_eq_some_iff, parse]
  cases ofName? (Text.lower text) with
  | none => exact iff_of_false nofun nofun
  | some m => rw [Except.ok.injEq, Option.some.injEq]

theorem parse_eq_error {text : String} (h : ∀ mode, ¬ IsSpelling text mode) :
    parse text = .error (.config (some ("unknown id mode: " ++ Text.lower text))) := by
  unfold parse
  cases hname : ofName? (Text.lower text) with
  | none => rfl
  | some mode => exact absurd (ofName?_eq_some_iff.mp hname) (h mode)

end IdMode

namespace Settings

/-! ## Variables -/

/-- The text stands for a number of connections. -/
def IsCount (text : String) (n : UInt32) : Prop :=
  Text.Denotes text n.toNat

theorem readMaxConnections_eq_ok_iff (text : String) (n : UInt32) :
    readMaxConnections text = .ok n ↔ IsCount text n := by
  have hread : ∀ m : Nat, Text.readBelow 4294967296 text = .ok m ↔
      Text.Denotes text m ∧ m < 4294967296 := fun m => Text.readBelow_eq_ok_iff
  unfold readMaxConnections IsCount
  cases hm : Text.readBelow 4294967296 text with
  | error problem =>
    refine iff_of_false nofun fun h => ?_
    rw [(hread n.toNat).mpr ⟨h, n.toNat_lt⟩] at hm
    nomatch hm
  | ok m =>
    obtain ⟨hdenotes, hlt⟩ := (hread m).mp hm
    rw [Except.ok.injEq]
    constructor
    · rintro rfl
      rwa [UInt32.toNat_ofNat_of_lt' hlt]
    · intro h
      have he : m = n.toNat := hdenotes.2.2.symm.trans h.2.2
      rw [he, UInt32.ofNat_toNat]

theorem readMaxConnections_eq_error {text : String} (h : ∀ n, ¬ IsCount text n) :
    ∃ problem, Text.readBelow 4294967296 text = .error problem ∧
      readMaxConnections text = .error (.config (some
        ("Invalid REVIEWER_MAX_CONNECTIONS '" ++ text ++ "': " ++ problem.message))) := by
  cases hread : Text.readBelow 4294967296 text with
  | error problem => exact ⟨problem, rfl, by rw [readMaxConnections, hread]⟩
  | ok m =>
    have hok : readMaxConnections text = .ok (UInt32.ofNat m) := by rw [readMaxConnections, hread]
    exact absurd ((readMaxConnections_eq_ok_iff _ _).mp hok) (h _)

/-! ## Choices -/

/-- The value that counts, out of the choice of a flag, that of a variable, whose texts have a
meaning, and the present one. -/
inductive Prevails {α : Type} (means : String → α → Prop) :
    (flag : Option α) → (text? : Option String) → (present : α) → α → Prop
  | ofFlag {text? : Option String} {present a : α} : Prevails means (some a) text? present a
  | ofVariable {text : String} {present a : α} (h : means text a) :
    Prevails means none (some text) present a
  | unchanged {a : α} : Prevails means none none a a

section

variable {α : Type} {means : String → α → Prop} {read : String → Except Fault α}
  {present a : α}

theorem Prevails.getD {text? : Option String} (h : Prevails means none text? present a)
    (flag : Option α) : Prevails means flag text? present (flag.getD a) := by
  cases flag with
  | none => exact h
  | some b => exact .ofFlag

theorem choose_eq_ok_iff {text? : Option String}
    (hread : ∀ text a, read text = .ok a ↔ means text a) :
    choose text? read present = .ok a ↔ Prevails means none text? present a := by
  cases text? with
  | none =>
    rw [choose, Except.ok.injEq]
    exact ⟨by rintro rfl; exact .unchanged, by rintro ⟨⟩; rfl⟩
  | some text =>
    rw [choose, hread]
    exact ⟨.ofVariable, by rintro (_ | h); exact h⟩

theorem exists_choose_eq_ok_iff (text? : Option String) (present : α)
    (hread : ∀ text a, read text = .ok a ↔ means text a) :
    (∃ a, choose text? read present = .ok a) ↔ ∀ text, text? = some text → ∃ a, means text a := by
  cases text? with
  | none => exact iff_of_true ⟨present, rfl⟩ nofun
  | some text => simp only [choose, hread, Option.some.injEq, forall_eq']

theorem choose_ok (text? : Option String) (present : String) :
    choose text? .ok present = .ok (text?.getD present) := by
  cases text? <;> rfl

theorem choose_of_eq_some {text? : Option String} {text : String} (h : text? = some text) :
    choose text? read present = read text := by
  rw [h, choose]

end

/-! ## Layers -/

/-- The settings that the layers are put over: what holds where nothing is chosen if there is no
settings file, and else what the file says. -/
inductive Base (env : Environment) : Except Fault (Option String) → Settings → Prop
  | standard : Base env (.ok none) (standard env)
  | file {content : String} {s : Settings} (h : ofFile env content = .ok s) :
    Base env (.ok (some content)) s

variable {env : Environment} {file : Except Fault (Option String)} {c : Settings}

theorem layered_eq (flags : Flags) (hc : Base env file c) :
    layered env file flags = (c.withEnvironment env).map (·.withFlags flags) := by
  cases hc with
  | standard => rfl
  | file h =>
    unfold layered
    change (ofFile env _ >>= fun s => _) = _
    rw [h]
    rfl

/-- The number of connections with the choice of an environment over it. -/
def connectionsIn (s : Settings) (env : Environment) : Except Fault UInt32 :=
  choose (env "REVIEWER_MAX_CONNECTIONS") readMaxConnections s.database.maxConnections

/-- The mode with the choice of an environment over it. -/
def modeIn (s : Settings) (env : Environment) : Except Fault IdMode :=
  choose (env "REVIEWER_ID_MODE") IdMode.parse s.assignment.idMode

theorem exists_connectionsIn_iff (s : Settings) :
    (∃ n, s.connectionsIn env = .ok n) ↔
      ∀ text, env "REVIEWER_MAX_CONNECTIONS" = some text → ∃ n, IsCount text n :=
  exists_choose_eq_ok_iff _ _ readMaxConnections_eq_ok_iff

theorem exists_modeIn_iff (s : Settings) :
    (∃ mode, s.modeIn env = .ok mode) ↔
      ∀ text, env "REVIEWER_ID_MODE" = some text → ∃ mode, IdMode.IsSpelling text mode :=
  exists_choose_eq_ok_iff _ _ IdMode.parse_eq_ok_iff

/-- The path and the level are taken as they are written, so two of the four variables can fail, the
number of connections first. -/
theorem withEnvironment_eq (s : Settings) (env : Environment) :
    s.withEnvironment env = (do
      let maxConnections ← s.connectionsIn env
      let idMode ← s.modeIn env
      pure
        { database :=
            { s.database with
              path := (env "REVIEWER_DATABASE_PATH").getD s.database.path, maxConnections }
          assignment := { s.assignment with idMode }
          logLevel := (env "REVIEWER_LOG_LEVEL").getD s.logLevel }) := by
  unfold withEnvironment
  rw [choose_ok, choose_ok]
  rfl

/-- Settings with the choices of an environment and of a command line over them. -/
structure Over (env : Environment) (flags : Flags) (below s : Settings) : Prop where
  path : Prevails Eq flags.databasePath (env "REVIEWER_DATABASE_PATH") below.database.path
    s.database.path
  maxConnections : Prevails IsCount none (env "REVIEWER_MAX_CONNECTIONS")
    below.database.maxConnections s.database.maxConnections
  busyTimeout : s.database.busyTimeout = below.database.busyTimeout
  maxReviewers : s.assignment.maxReviewers = below.assignment.maxReviewers
  idMode : Prevails IdMode.IsSpelling flags.idMode (env "REVIEWER_ID_MODE")
    below.assignment.idMode s.assignment.idMode
  logLevel : Prevails Eq flags.logLevel (env "REVIEWER_LOG_LEVEL") below.logLevel s.logLevel

theorem exists_layered_eq_ok (flags : Flags) (hc : Base env file c) {n : UInt32} {mode : IdMode}
    (hn : c.connectionsIn env = .ok n) (hmode : c.modeIn env = .ok mode) :
    ∃ s, layered env file flags = .ok s ∧ Over env flags c s := by
  have htext : ∀ text a : String, (.ok text : Except Fault String) = .ok a ↔ text = a :=
    fun text a => by rw [Except.ok.injEq]
  have hpath : Prevails Eq none (env "REVIEWER_DATABASE_PATH") c.database.path _ :=
    (choose_eq_ok_iff htext).mp (choose_ok _ _)
  have hlevel : Prevails Eq none (env "REVIEWER_LOG_LEVEL") c.logLevel _ :=
    (choose_eq_ok_iff htext).mp (choose_ok _ _)
  refine ⟨_, by rw [layered_eq flags hc, withEnvironment_eq, hn, hmode]; rfl, ?_⟩
  exact
    { path := hpath.getD flags.databasePath
      maxConnections := (choose_eq_ok_iff readMaxConnections_eq_ok_iff).mp hn
      busyTimeout := rfl
      maxReviewers := rfl
      idMode := ((choose_eq_ok_iff IdMode.parse_eq_ok_iff).mp hmode).getD flags.idMode
      logLevel := hlevel.getD flags.logLevel }

theorem layered_of_wrong_count (flags : Flags) (hc : Base env file c) {fault : Fault}
    (hn : c.connectionsIn env = .error fault) :
    layered env file flags = .error fault := by
  rw [layered_eq flags hc, withEnvironment_eq, hn]
  rfl

theorem layered_of_wrong_mode (flags : Flags) (hc : Base env file c) {n : UInt32} {fault : Fault}
    (hn : c.connectionsIn env = .ok n) (hmode : c.modeIn env = .error fault) :
    layered env file flags = .error fault := by
  rw [layered_eq flags hc, withEnvironment_eq, hn, hmode]
  rfl

theorem exists_layered_eq_ok_iff (flags : Flags) (hc : Base env file c) :
    (∃ s, layered env file flags = .ok s) ↔
      (∃ n, c.connectionsIn env = .ok n) ∧ ∃ mode, c.modeIn env = .ok mode := by
  constructor
  · rintro ⟨s, hs⟩
    cases hn : c.connectionsIn env with
    | error fault => nomatch hs.symm.trans (layered_of_wrong_count flags hc hn)
    | ok n =>
      cases hmode : c.modeIn env with
      | error fault => nomatch hs.symm.trans (layered_of_wrong_mode flags hc hn hmode)
      | ok mode => exact ⟨⟨n, rfl⟩, mode, rfl⟩
  · rintro ⟨⟨n, hn⟩, mode, hmode⟩
    obtain ⟨s, hs, -⟩ := exists_layered_eq_ok flags hc hn hmode
    exact ⟨s, hs⟩

/-- **What the layers give.** There are settings if every variable that has to be read is right,
whatever the command line says. Then each field has the choice that counts. Otherwise the number of
connections is reported if it is wrong, and else the mode. -/
theorem layered_prevails (flags : Flags) (hc : Base env file c) :
    ((∃ s, layered env file flags = .ok s) ↔
      (∀ text, env "REVIEWER_MAX_CONNECTIONS" = some text → ∃ n, IsCount text n) ∧
        ∀ text, env "REVIEWER_ID_MODE" = some text → ∃ mode, IdMode.IsSpelling text mode) ∧
    (∀ s, layered env file flags = .ok s → Over env flags c s) ∧
    (∀ text, env "REVIEWER_MAX_CONNECTIONS" = some text → (∀ n, ¬ IsCount text n) →
      ∃ problem, Text.readBelow 4294967296 text = .error problem ∧
        layered env file flags = .error (.config (some
          ("Invalid REVIEWER_MAX_CONNECTIONS '" ++ text ++ "': " ++ problem.message)))) ∧
    ∀ text, env "REVIEWER_ID_MODE" = some text → (∀ mode, ¬ IdMode.IsSpelling text mode) →
      (∀ text, env "REVIEWER_MAX_CONNECTIONS" = some text → ∃ n, IsCount text n) →
        layered env file flags = .error (.config (some
          ("unknown id mode: " ++ Text.lower text))) := by
  rw [← exists_connectionsIn_iff c, ← exists_modeIn_iff c]
  refine ⟨exists_layered_eq_ok_iff flags hc, ?fields, ?count, ?mode⟩
  case fields =>
    intro s hs
    obtain ⟨⟨n, hn⟩, mode, hmode⟩ := (exists_layered_eq_ok_iff flags hc).mp ⟨s, hs⟩
    obtain ⟨s', hs', hover⟩ := exists_layered_eq_ok flags hc hn hmode
    cases hs.symm.trans hs'
    exact hover
  case count =>
    intro text htext hwrong
    obtain ⟨problem, hread, hfault⟩ := readMaxConnections_eq_error hwrong
    exact ⟨problem, hread, layered_of_wrong_count flags hc ((choose_of_eq_some htext).trans hfault)⟩
  case mode =>
    rintro text htext hwrong ⟨n, hn⟩
    exact layered_of_wrong_mode flags hc hn
      ((choose_of_eq_some htext).trans (IdMode.parse_eq_error hwrong))

/-- A file, an environment and a command line that all choose a mode: that of the command line
counts, and the other choices stay. Where both variables are wrong the number of connections is
reported, though the command line chooses the mode. -/
theorem layered_prevails_threeModes :
    let env (count mode : String) : Environment :=
      { lookup := fun name => [("HOME", "/home/ann"), ("REVIEWER_MAX_CONNECTIONS", count),
          ("REVIEWER_ID_MODE", mode), ("REVIEWER_LOG_LEVEL", "debug")].lookup name }
    let file := "log_level = \"warn\"\n[assignment]\nmax_reviewers = 3\nid_mode = \"external\"\n"
    let flags : Flags := { idMode := some .generated }
    let below : Settings :=
      { database := { path := "/home/ann/.local/share/reviewer/reviewer.db" }
        assignment := { maxReviewers := 3, idMode := .external }
        logLevel := "warn" }
    let above : Settings :=
      { database := { below.database with maxConnections := 8 }
        assignment := { maxReviewers := 3, idMode := .generated }
        logLevel := "debug" }
    Base (env "+0008" "eXternal") (.ok (some file)) below ∧
      layered (env "+0008" "eXternal") (.ok (some file)) flags = .ok above ∧
      Over (env "+0008" "eXternal") flags below above ∧
      layered (env "4294967296" "uuid") (.ok (some file)) flags =
        .error (.config (some ("Invalid REVIEWER_MAX_CONNECTIONS '4294967296': " ++
          "number too large to fit in target type"))) := by
  intro env file flags below above
  have hright : Base (env "+0008" "eXternal") (.ok (some file)) below := .file (by decide +kernel)
  have hwrong : Base (env "4294967296" "uuid") (.ok (some file)) below := .file (by decide +kernel)
  have habove : layered (env "+0008" "eXternal") (.ok (some file)) flags = .ok above := by
    decide +kernel
  obtain ⟨-, hover, -⟩ := layered_prevails flags hright
  obtain ⟨-, -, hcount, -⟩ := layered_prevails flags hwrong
  obtain ⟨problem, hread, hfault⟩ := hcount "4294967296" rfl fun n h =>
    nomatch (readMaxConnections_eq_ok_iff _ _).mpr h
  cases hread
  exact ⟨hright, habove, hover above habove, hfault⟩

end Settings

end ReviewRota
