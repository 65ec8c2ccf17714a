import SchemaMigration.Proofs.CalendarOrder
import SchemaMigration.Proofs.Listings
import SchemaMigration.Proofs.Octets
import SchemaMigration.Proofs.Plannings
import SchemaMigration.Proofs.Plans

/-!
# Later names sort later

The name of a new migration starts with the year, the day of the year and the second of the day, each in a fixed number
of digits. Of two stamps the one of the earlier second has the lesser digit where they first differ
(`Naming.precedes_stamp`), and what stands behind them, a user's name or a number, makes no difference
(`Text.Precedes.append`). So names sort in the order of the seconds in which they are given, scans list files in that
order, and upgrades apply them in it (`later_names_sort_later`).
-/

namespace SchemaMigration

/-! ## Texts -/

namespace Text

/-- The first difference of the texts is between two characters of ASCII, of which `s` has the lesser one. Whatever
follows, `s` sorts before `t`, by characters and by octets. -/
inductive Precedes : List Char → List Char → Prop where
  | head {c d : Char} {s t : List Char} : c < d → d.toNat < 128 → Precedes (c :: s) (d :: t)
  | tail {c : Char} {s t : List Char} : Precedes s t → Precedes (c :: s) (c :: t)

/-- A character of ASCII is one octet. -/
theorem utf8EncodeChar_of_ascii {c : Char} (h : c.toNat < 128) : String.utf8EncodeChar c = [UInt8.ofNat c.toNat] := by
  have hone : c.val.toNat ≤ 0x7F := Nat.le_of_lt_succ h
  unfold String.utf8EncodeChar
  simp only [hone, if_true]
  rfl

namespace Precedes

variable {s t : List Char}

theorem append (h : Precedes s t) (q r : List Char) : Precedes (s ++ q) (t ++ r) := by
  induction h with
  | head hlt hascii => exact .head hlt hascii
  | tail _ ih => exact .tail ih

theorem after (h : Precedes s t) (front : List Char) : Precedes (front ++ s) (front ++ t) := by
  induction front with
  | nil => exact h
  | cons c front ih => exact .tail ih

theorem lt (h : Precedes s t) : s < t := by
  induction h with
  | head hlt _ => exact .rel hlt
  | tail _ ih => exact .cons ih

theorem octets_lt (h : Precedes s t) : s.flatMap String.utf8EncodeChar < t.flatMap String.utf8EncodeChar := by
  induction h with
  | @head c d s t hlt hd =>
    have hc : c.toNat < d.toNat := hlt
    rw [List.flatMap_cons, List.flatMap_cons, utf8EncodeChar_of_ascii (Nat.lt_trans hc hd),
      utf8EncodeChar_of_ascii hd]
    refine .rel ?_
    rw [UInt8.lt_iff_toNat_lt, toNat_ofNat_of_lt (by omega), toNat_ofNat_of_lt (by omega)]
    exact hc
  | @tail c s t _ ih =>
    rw [List.flatMap_cons, List.flatMap_cons]
    exact List.append_left_lt ih

end Precedes

theorem precedes_digit {m n : Nat} (hmn : m < n) (hn : n < 10) : Precedes [m.digitChar] [n.digitChar] := by
  have hdigits : ∀ n < 10, ∀ m < n, m.digitChar < n.digitChar ∧ n.digitChar.toNat < 128 := by decide
  obtain ⟨hlt, hascii⟩ := hdigits n hn m hmn
  exact .head hlt hascii

theorem padded_one {n : Nat} (h : n < 10) : padded 1 n = [n.digitChar] := by
  simp [padded, natText, Nat.toDigits_of_lt_base h]

/-- All digits but the last one are those of a tenth of the number. -/
theorem padded_succ (width n : Nat) : padded (width + 2) n = padded (width + 1) (n / 10) ++ [(n % 10).digitChar] := by
  by_cases h : n < 10
  · have hzero : n / 10 = 0 := by omega
    have hmod : n % 10 = n := by omega
    have hone : width + 2 - 1 = width + 1 := rfl
    simp [padded, natText, Nat.toDigits_of_lt_base h, hzero, hmod, hone, List.replicate_succ']
  · have hdigits : natText n = natText (n / 10) ++ [(n % 10).digitChar] :=
      Nat.toDigits_of_base_le (by decide) (by omega)
    have hwidth : width + 2 - (natText n).length = width + 1 - (natText (n / 10)).length := by
      rw [hdigits, List.length_append, List.length_singleton]
      omega
    rw [padded, padded, hwidth, hdigits, List.append_assoc]

/-- Among numbers of one width, the lesser one comes first. -/
theorem precedes_padded {width m n : Nat} (hmn : m < n) (hn : n < 10 ^ width) :
    Precedes (padded width m) (padded width n) := by
  induction width generalizing m n with
  | zero => omega
  | succ width ih =>
    cases width with
    | zero =>
      rw [padded_one (by omega), padded_one (by omega)]
      exact precedes_digit hmn (by omega)
    | succ width =>
      -- the last digits only matter where all the others are the same
      rw [padded_succ, padded_succ]
      rcases Nat.lt_or_eq_of_le (Nat.div_le_div_right (c := 10) (Nat.le_of_lt hmn)) with htens | htens
      · exact (ih htens (by omega)).append _ _
      · rw [htens]
        exact (precedes_digit (by omega) (by omega)).after _

end Text

/-! ## Names of migrations -/

namespace Naming

open Calendar (yearOf dayOfYear yearText)

/-- The name may be given to a migration at an instant: for some name of the user's, some names being taken. -/
def GivenAt (now : Instant) (name : String) : Prop :=
  ∃ (user : Option String) (taken : String → Bool), Id.run (choose (fun other => pure (taken other)) now user) = name

theorem precedes_yearText {y z : Int} (hy : 0 ≤ y) (hyz : y < z) (hz : z ≤ 9999) :
    Text.Precedes (yearText y) (yearText z) := by
  have htext : ∀ x : Int, 0 ≤ x → x ≤ 9999 → yearText x = Text.padded 4 x.natAbs := by
    intro x hlow hhigh
    rw [yearText, if_neg (by omega), if_neg (by omega)]
  rw [htext y hy (by omega), htext z (by omega) hz]
  exact Text.precedes_padded (by omega) (by omega)

/-- A later second has a later stamp, as long as years have four digits. -/
theorem precedes_stamp {t u : Instant} (h : t.seconds < u.seconds) (ht : 0 ≤ yearOf t.day) (hu : yearOf u.day ≤ 9999) :
    Text.Precedes (stamp t) (stamp u) := by
  have hday := Calendar.dayOfYear_lt u.day
  have hsecond := u.secondOfDay_lt
  unfold stamp
  rcases Instant.earlier_of_lt h with hyear | ⟨hyear, hdays | ⟨hdays, hseconds⟩⟩
  · exact ((precedes_yearText ht hyear hu).append _ _).append _ _
  · have hpadded : Text.Precedes (Text.padded 3 (dayOfYear t.day + 1)) (Text.padded 3 (dayOfYear u.day + 1)) :=
      Text.precedes_padded (by omega) (by omega)
    rw [hyear]
    exact ((Text.Precedes.tail hpadded).after _).append _ _
  · have hpadded : Text.Precedes (Text.padded 5 t.secondOfDay) (Text.padded 5 u.secondOfDay) :=
      Text.precedes_padded hseconds (by omega)
    rw [hyear, hdays]
    exact (Text.Precedes.tail hpadded).after _

/-- Names start with the stamp. -/
theorem exists_baseName_eq (now : Instant) (user : Option String) : ∃ rest, baseName now user = stamp now ++ rest := by
  unfold baseName
  split
  · exact ⟨[], (List.append_nil _).symm⟩
  · split
    · exact ⟨[], (List.append_nil _).symm⟩
    · exact ⟨_, rfl⟩

section

variable (taken : String → Bool)

theorem run_firstFree_succ (base : List Char) (fuel k : Nat) :
    Id.run (firstFree (fun name => pure (taken name)) base (fuel + 1) k) =
      if taken (numbered base k) then Id.run (firstFree (fun name => pure (taken name)) base fuel (k + 1))
      else numbered base k := by
  rw [firstFree, Id.run_bind, Id.run_pure]
  split <;> rfl

theorem run_choose (now : Instant) (user : Option String) :
    Id.run (choose (fun name => pure (taken name)) now user) =
      if taken (String.ofList (baseName now user)) then
        Id.run (firstFree (fun name => pure (taken name)) (baseName now user) (greatestNumber - 1) 2)
      else String.ofList (baseName now user) := by
  rw [choose_eq, Id.run_bind, Id.run_pure]
  split <;> rfl

theorem exists_firstFree_eq (base : List Char) (fuel k : Nat) :
    ∃ l, Id.run (firstFree (fun name => pure (taken name)) base fuel k) = numbered base l := by
  induction fuel generalizing k with
  | zero => exact ⟨k, rfl⟩
  | succ fuel ih =>
    rw [run_firstFree_succ]
    split
    · exact ih (k + 1)
    · exact ⟨k, rfl⟩

end

theorem GivenAt.exists_toList_eq {now : Instant} {name : String} (h : GivenAt now name) :
    ∃ rest, name.toList = stamp now ++ rest := by
  obtain ⟨user, taken, rfl⟩ := h
  obtain ⟨rest, hbase⟩ := exists_baseName_eq now user
  rw [run_choose]
  split
  · obtain ⟨l, hl⟩ := exists_firstFree_eq taken (baseName now user) (greatestNumber - 1) 2
    refine ⟨rest ++ '-' :: Text.natText l, ?_⟩
    rw [hl, numbered, String.toList_ofList, hbase, List.append_assoc]
  · refine ⟨rest, ?_⟩
    rw [String.toList_ofList, hbase]

/-- Names that are given in different seconds sort in the order of these. -/
theorem GivenAt.precedes {t u : Instant} {a b : String} (ha : GivenAt t a) (hb : GivenAt u b)
    (h : t.seconds < u.seconds) (ht : 0 ≤ yearOf t.day) (hu : yearOf u.day ≤ 9999) :
    Text.Precedes a.toList b.toList := by
  obtain ⟨q, hq⟩ := ha.exists_toList_eq
  obtain ⟨r, hr⟩ := hb.exists_toList_eq
  rw [hq, hr]
  exact (precedes_stamp h ht hu).append q r

variable {d : Directory} {xs : List (Program.Exchange Host)} {now : Instant} {name : String}

/-- All the names with numbers that come before the one that is found are taken. -/
theorem firstFree_of_ne {base : List Char} {fuel k l : Nat} (hk : k ≤ l) (hl : l ≤ k + fuel) :
    Id.run (firstFree (fun name => pure (name != numbered base l)) base fuel k) = numbered base l := by
  induction fuel generalizing k with
  | zero =>
    obtain rfl : k = l := by omega
    rfl
  | succ fuel ih =>
    rw [run_firstFree_succ]
    by_cases hname : numbered base k = numbered base l
    · simp [hname]
    · have hne : k ≠ l := by
        rintro rfl
        exact hname rfl
      rw [if_pos (bne_iff_ne.2 hname)]
      exact ih (by omega) (by omega)

/-- A host may say of names what it likes, and change its mind: the name that is found could have been given. -/
theorem givenAt_of_yields_choose {user : Option String} (h : (choose d.isTaken now user).Yields xs (some name)) :
    GivenAt now name := by
  rw [choose_eq] at h
  rcases (Program.yields_bind _ _ _).1 h with ⟨-, hnone⟩ | ⟨taken, _, _, -, -, h⟩
  · cases hnone
  · cases taken with
    | true =>
      obtain ⟨l, hlow, hhigh, rfl⟩ := exists_of_yields_firstFree h
      refine ⟨user, fun other => other != numbered (baseName now user) l, ?_⟩
      rw [run_choose]
      by_cases hbase : String.ofList (baseName now user) = numbered (baseName now user) l
      · simp [hbase]
      · rw [if_pos (bne_iff_ne.2 hbase)]
        exact firstFree_of_ne hlow hhigh
    | false =>
      obtain rfl : name = String.ofList (baseName now user) := Option.some.inj h.2
      exact ⟨user, fun _ => false, rfl⟩

end Naming

/-! ## Lists in the order of names -/

/-- Wherever both names stand in the list, the first one stands before the second one. -/
def ListsBefore (a b : String) (names : List String) : Prop :=
  ∀ i j : Nat, names[i]? = some a → names[j]? = some b → i < j

theorem listsBefore_of_pairwise {a b : String} {names : List String} (hnames : names.Pairwise (· ≤ ·)) (h : a < b) :
    ListsBefore a b names := by
  intro i j hi hj
  obtain ⟨hi, rfl⟩ := List.getElem?_eq_some_iff.1 hi
  obtain ⟨hj, rfl⟩ := List.getElem?_eq_some_iff.1 hj
  apply Nat.lt_of_not_le
  intro hji
  rcases Nat.lt_or_eq_of_le hji with hlt | rfl
  · exact String.not_lt.2 (List.pairwise_iff_getElem.1 hnames _ _ _ _ hlt) h
  · exact String.lt_irrefl _ h

namespace Directory

/-- Whatever a host replies, a scan sorts the files that it lists. -/
theorem pairwise_of_yields_scan {d : Directory} {xs : List (Program.Exchange Host)} {files : List MigrationFile}
    (h : d.scan.Yields xs (some (.ok files))) : (files.map MigrationFile.name).Pairwise (· ≤ ·) := by
  rcases h with ⟨-, hnone⟩ | ⟨kind, _, -, h⟩
  · cases hnone
  match kind with
  | none =>
    have hlog : (d.log (Log.debug "Migrations directory does not exist" [("path", d.path)]) >>= fun _ =>
        pure (Except.ok [])).Yields _ (some (Except.ok files)) := h
    rcases (Program.yields_bind _ _ _).1 hlog with ⟨-, hnone⟩ | ⟨_, _, _, -, -, -, hfiles⟩
    · cases hnone
    · cases hfiles
      exact .nil
  | some .file => cases h.2
  | some .directory =>
    rcases h with ⟨-, hnone⟩ | ⟨entries, _, -, -, hfiles⟩
    · cases hnone
    · match entries with
      | .error e => cases hfiles
      | .ok entries =>
        cases hfiles
        exact List.pairwise_map.2 (d.pairwise_migrationFiles entries)

end Directory

/-! ## Upgrades -/

namespace Workspace

variable {α β : Type} {w : Workspace}

/-- The action may end with the value, by what the host replies. -/
def Gives (w : Workspace) (a : Action α) (x : α) : Prop :=
  ∃ xs, (w.perform a).Yields xs (some (.ok x))

theorem gives_bind {a : Action α} {f : α → Action β} {y : β} (h : w.Gives (a >>= f) y) :
    ∃ x, w.Gives a x ∧ w.Gives (f x) y := by
  obtain ⟨xs, h⟩ := h
  rw [perform_bind] at h
  rcases (Program.yields_bindCont _ _ _).1 h with ⟨-, hnone⟩ | ⟨_, -, herror⟩ | ⟨x, ys, zs, -, ha, hf⟩
  · cases hnone
  · cases herror
  · exact ⟨x, ⟨ys, ha⟩, ⟨zs, hf⟩⟩

theorem gives_ofExcept {ε : Type} {onError : ε → MigrationError} {e : Except ε α} {x : α}
    (h : w.Gives (Action.ofExcept onError e) x) : e = .ok x := by
  obtain ⟨xs, -, h⟩ := h
  cases e <;> cases h
  rfl

theorem gives_pure {x y : α} (h : w.Gives (pure x : Action α) y) : x = y := by
  obtain ⟨xs, -, h⟩ := h
  cases h
  rfl

theorem gives_files {files : List MigrationFile} (h : w.Gives Action.files files) :
    (files.map MigrationFile.name).Pairwise (· ≤ ·) := by
  obtain ⟨xs, h⟩ := h
  rw [Action.files, perform_attempt_id w (w.interpret_request .files)] at h
  exact Directory.pairwise_of_yields_scan h

end Workspace

namespace Migration

variable {w : Workspace}

/-- The new migrations come in the order of their files. -/
theorem names_new_sublist (fs : List MigrationFile) (rs : List Record) :
    (((pair fs rs).filter fun m => m.state == .new).map name).Sublist (fs.map MigrationFile.name) := by
  induction fs generalizing rs with
  | nil =>
    have hnone : (rs.map deleted).filter (fun m => m.state == .new) = [] := by
      rw [List.filter_eq_nil_iff]
      intro m hm
      obtain ⟨r, -, rfl⟩ := List.mem_map.1 hm
      exact Bool.false_ne_true
    rw [pair, hnone]
    exact .slnil
  | cons f fs ih =>
    rw [pair]
    split
    · exact (ih _).cons _
    · exact (ih _).cons_cons _

theorem pairwise_of_gives_list {ms : List Migration} (h : w.Gives list ms) :
    ((ms.filter fun m => m.state == .new).map name).Pairwise (· ≤ ·) := by
  obtain ⟨files, hfiles, h⟩ := Workspace.gives_bind h
  obtain ⟨hasTable, -, h⟩ := Workspace.gives_bind h
  have hnames := Workspace.gives_files hfiles
  cases hasTable with
  | true =>
    obtain ⟨rs, -, h⟩ := Workspace.gives_bind h
    rw [← Workspace.gives_pure h]
    exact hnames.sublist (names_new_sublist files _)
  | false =>
    rw [← Workspace.gives_pure h]
    exact hnames.sublist (names_new_sublist files _)

theorem pairwise_of_gives_upgradePlan {count : Option Nat} {ms : List Migration}
    (h : w.Gives (upgradePlan none count) ms) : (ms.map name).Pairwise (· ≤ ·) := by
  obtain ⟨all, hall, h⟩ := Workspace.gives_bind h
  have hms := Except.ok.inj (Workspace.gives_ofExcept h)
  rw [← hms]
  exact (pairwise_of_gives_list hall).sublist ((Migration.upTo_isPrefix count _).sublist.map name)

/-- The report of a migration that is applied has its name. -/
theorem name_of_gives_apply {isDry : Bool} {m : Migration} {report : StepReport} (h : w.Gives (apply isDry m) report) :
    report.name = m.name := by
  unfold apply at h
  split at h
  · obtain ⟨script, -, h⟩ := Workspace.gives_bind h
    obtain ⟨down, -, h⟩ := Workspace.gives_bind h
    obtain ⟨_, -, h⟩ := Workspace.gives_bind h
    obtain ⟨statements, -, h⟩ := Workspace.gives_bind h
    dsimp only at h
    split at h
    · rw [← Workspace.gives_pure h]
    · obtain ⟨_, -, h⟩ := Workspace.gives_bind h
      rw [← Workspace.gives_pure h]
  · obtain ⟨_, -, herror⟩ := h
    cases herror

theorem names_of_gives_stepAll {isDry : Bool} {ms : List Migration} {reports : List StepReport}
    (h : w.Gives (stepAll (apply isDry) ms) reports) : reports.map StepReport.name = ms.map name := by
  induction ms generalizing reports with
  | nil =>
    rw [← Workspace.gives_pure h]
    rfl
  | cons m ms ih =>
    obtain ⟨report, hreport, h⟩ := Workspace.gives_bind h
    obtain ⟨rest, hrest, h⟩ := Workspace.gives_bind h
    rw [← Workspace.gives_pure h, List.map_cons, List.map_cons, name_of_gives_apply hreport, ih hrest]

theorem pairwise_of_gives_upgrade {isDry : Bool} {count : Option Nat} {reports : List StepReport}
    (h : w.Gives (upgrade isDry none count) reports) : (reports.map StepReport.name).Pairwise (· ≤ ·) := by
  obtain ⟨plan, hplan, h⟩ := Workspace.gives_bind h
  have hsteps : w.Gives (stepAll (apply isDry) plan) reports := by
    dsimp only at h
    split at h
    · exact h
    · exact (Workspace.gives_bind h).elim fun _ => And.right
  rw [names_of_gives_stepAll hsteps]
  exact pairwise_of_gives_upgradePlan hplan

end Migration

/-! ## Creation -/

/-- The name of a file that a planning asks for is one that is given when the planning reads the clock. -/
theorem Planning.Settles.exists_givenAt {c : Planning} {xs : List (Program.Exchange Host)} {migration : String}
    (h : c.Settles xs migration) :
    ∃ now : Instant, ⟨.now, now⟩ ∈ xs ∧ Naming.GivenAt now migration := by
  obtain ⟨notes, now, asked, rfl, -, hasked⟩ := h
  exact ⟨now, List.mem_append_right _ List.mem_cons_self, Naming.givenAt_of_yields_choose hasked⟩

/-- Of names that are given in different seconds, the earlier one has the lesser octets; so a scan lists the file of
that name first, and an upgrade applies it first, whatever the host replies. -/
theorem later_names_sort_later {t u : Instant} {a b : String} (ha : Naming.GivenAt t a) (hb : Naming.GivenAt u b)
    (h : t.seconds < u.seconds) (ht : 0 ≤ Calendar.yearOf t.day) (hu : Calendar.yearOf u.day ≤ 9999) :
    a.toUTF8.data.toList < b.toUTF8.data.toList ∧
      (∀ (d : Directory) (xs : List (Program.Exchange Host)) (files : List MigrationFile),
        d.scan.Yields xs (some (.ok files)) → ListsBefore a b (files.map MigrationFile.name)) ∧
      ∀ (w : Workspace) (isDry : Bool) (count : Option Nat) (reports : List StepReport),
        w.Gives (Migration.upgrade isDry none count) reports → ListsBefore a b (reports.map StepReport.name) := by
  have hprecedes := ha.precedes hb h ht hu
  have hlt : a < b := hprecedes.lt
  refine ⟨?_, ?_, ?_⟩
  · rw [Text.toList_toUTF8, Text.toList_toUTF8]
    exact hprecedes.octets_lt
  · intro d xs files hfiles
    exact listsBefore_of_pairwise (Directory.pairwise_of_yields_scan hfiles) hlt
  · intro w isDry count reports hreports
    exact listsBefore_of_pairwise (Migration.pairwise_of_gives_upgrade hreports) hlt

namespace Sample

/-- The last second of 2023. -/
def lastSecond : Instant :=
  { seconds := 1704067199 }

/-- The first second of 2024. -/
def firstSecond : Instant :=
  { seconds := 1704067200 }

/-- A directory that lists the file of the new year first. -/
def newYearEntries : List (String × FileKind) :=
  [("2024-001-00000.yaml", .file), ("2023-365-86399_zz-2.yaml", .file)]

/-- The exchanges of a scan. -/
def newYearScan : List (Program.Exchange Host) :=
  [⟨.kind "migrations", some .directory⟩, ⟨.entries "migrations", Except.ok newYearEntries⟩]

end Sample

theorem later_names_sort_later_newYear :
    Naming.GivenAt Sample.lastSecond "2023-365-86399_zz-2" ∧ Naming.GivenAt Sample.firstSecond "2024-001-00000" ∧
      "2023-365-86399_zz-2".toUTF8.data.toList < "2024-001-00000".toUTF8.data.toList ∧
      ∃ files, ({ path := "migrations" } : Directory).scan.Yields Sample.newYearScan (some (.ok files)) ∧
        files.length = 2 ∧ ListsBefore "2023-365-86399_zz-2" "2024-001-00000" (files.map MigrationFile.name) := by
  have ha : Naming.GivenAt Sample.lastSecond "2023-365-86399_zz-2" :=
    ⟨some "zz", (· == "2023-365-86399_zz"), by decide +kernel⟩
  have hb : Naming.GivenAt Sample.firstSecond "2024-001-00000" := ⟨none, fun _ => false, by decide +kernel⟩
  obtain ⟨hoctets, hscan, -⟩ := later_names_sort_later ha hb (by decide) (by decide) (by decide)
  have hfiles : ({ path := "migrations" } : Directory).scan.Yields Sample.newYearScan
      (some (.ok (Directory.migrationFiles { path := "migrations" } Sample.newYearEntries))) :=
    .inr ⟨_, _, rfl, .inr ⟨_, _, rfl, rfl, rfl⟩⟩
  have hlength : (Directory.migrationFiles { path := "migrations" } Sample.newYearEntries).length = 2 := by
    rw [Directory.migrationFiles_eq, List.length_mergeSort]
    decide +kernel
  exact ⟨ha, hb, hoctets, _, hfiles, hlength, hscan _ _ _ hfiles⟩

end SchemaMigration
