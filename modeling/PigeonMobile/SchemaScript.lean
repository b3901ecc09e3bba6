-- Schema statements as an SQL database runs them, each committed by itself, and scripts of them
-- that may be killed between two statements. A statement that creates something cannot run
-- twice, so a script that begins with one never gets past it again.
import Mathlib.Data.List.Basic

namespace SchemaScript

variable {Cell : Type}

/-! ## Statements -/

/-- A column: its declared type and constraints are a text, its default is what rows that are
there get. -/
structure Column (Cell : Type) where
  name : String
  decl : String
  default : Cell

structure SqlTable (Cell : Type) where
  name : String
  columns : List (Column Cell)
  constraint : String
  rows : List (List Cell)

structure Index where
  name : String
  table : String
  columns : List String
  condition : Option String

structure Database (Cell : Type) where
  tables : List (SqlTable Cell)
  indexes : List Index
  user_version : Int

inductive Statement (Cell : Type) where
  | create_table (name : String) (columns : List (Column Cell)) (constraint : String)
  | create_index (i : Index)
  | add_column (table : String) (c : Column Cell)
  | set_version (n : Int)

namespace Database

/-- A table or an index has the name. -/
def Named (db : Database Cell) (name : String) : Prop :=
  (∃ t ∈ db.tables, t.name = name) ∨ ∃ i ∈ db.indexes, i.name = name

/-- The table has the column. -/
def HasColumn (db : Database Cell) (table column : String) : Prop :=
  ∃ t ∈ db.tables, t.name = table ∧ ∃ c ∈ t.columns, c.name = column

instance (db : Database Cell) (name : String) : Decidable (db.Named name) := by
  unfold Named
  infer_instance

instance (db : Database Cell) (table column : String) : Decidable (db.HasColumn table column) := by
  unfold HasColumn
  infer_instance

end Database

/-- The table with one column more: its rows get the default. -/
def SqlTable.extend (t : SqlTable Cell) (c : Column Cell) : SqlTable Cell :=
  { t with columns := t.columns ++ [c], rows := t.rows.map (fun r => r ++ [c.default]) }

/-- One statement: none where the database refuses it. -/
def Statement.exec (db : Database Cell) : Statement Cell → Option (Database Cell)
  | .create_table name columns constraint =>
    if db.Named name then none
    else some { db with tables := db.tables ++ [⟨name, columns, constraint, []⟩] }
  | .create_index i =>
    if db.Named i.name ∨ ¬ ∀ c ∈ i.columns, db.HasColumn i.table c then none
    else some { db with indexes := db.indexes ++ [i] }
  | .add_column table c =>
    if db.HasColumn table c.name ∨ ¬ ∃ t ∈ db.tables, t.name = table then none
    else
      some { db with tables := db.tables.map (fun t => if t.name = table then t.extend c else t) }
  | .set_version n => some { db with user_version := n }

/-- The statements that create something. -/
def Statement.creates : Statement Cell → Bool
  | .set_version _ => false
  | _ => true

/-! ## Scripts -/

/-- How a run of a script ends. -/
inductive Ended where
  | finished
  | refused
  | killed
  deriving DecidableEq

/-- The statements one by one: at most `n` of them, and none after one that is refused. -/
def runFor : Nat → List (Statement Cell) → Database Cell → Ended × Database Cell
  | _, [], db => (.finished, db)
  | 0, _ :: _, db => (.killed, db)
  | n + 1, s :: rest, db =>
    match s.exec db with
    | none => (.refused, db)
    | some db' => runFor n rest db'

/-- All of them. -/
def runAll (script : List (Statement Cell)) (db : Database Cell) : Ended × Database Cell :=
  runFor script.length script db

/-- The database after runs of the script of its version that are killed, each after so many
statements. -/
def afterKills (script : Int → List (Statement Cell)) (db : Database Cell) (kills : List Nat) :
    Database Cell :=
  kills.foldl (fun db n => (runFor n (script db.user_version) db).2) db

/-! ## What is created stays -/

/-- The second database has all names and columns of the first. -/
structure Keeps (db db' : Database Cell) : Prop where
  names : ∀ name, db.Named name → db'.Named name
  columns : ∀ table column, db.HasColumn table column → db'.HasColumn table column

theorem Keeps.refl (db : Database Cell) : Keeps db db := ⟨fun _ h => h, fun _ _ h => h⟩

theorem Keeps.trans {db db₁ db₂ : Database Cell} (h : Keeps db db₁) (h' : Keeps db₁ db₂) :
    Keeps db db₂ :=
  ⟨fun name hn => h'.names name (h.names name hn),
    fun table column hc => h'.columns table column (h.columns table column hc)⟩

/-- No statement takes a name or a column away. -/
theorem keeps_exec {s : Statement Cell} {db db' : Database Cell} (h : s.exec db = some db') :
    Keeps db db' := by
  cases s with
  | create_table name columns constraint =>
    simp only [Statement.exec] at h
    split at h
    · cases h
    · cases h
      refine ⟨?_, ?_⟩
      · rintro n (⟨t, ht, hn⟩ | hi)
        · exact Or.inl ⟨t, List.mem_append_left _ ht, hn⟩
        · exact Or.inr hi
      · rintro table column ⟨t, ht, hc⟩
        exact ⟨t, List.mem_append_left _ ht, hc⟩
  | create_index i =>
    simp only [Statement.exec] at h
    split at h
    · cases h
    · cases h
      refine ⟨?_, fun _ _ hc => hc⟩
      rintro n (ht | ⟨i', hi, hn⟩)
      · exact Or.inl ht
      · exact Or.inr ⟨i', List.mem_append_left _ hi, hn⟩
  | add_column table c =>
    simp only [Statement.exec] at h
    split at h
    · cases h
    · cases h
      refine ⟨?_, ?_⟩
      · rintro n (⟨t, ht, hn⟩ | hi)
        · refine Or.inl ⟨_, List.mem_map_of_mem ht, ?_⟩
          split
          · exact hn
          · exact hn
        · exact Or.inr hi
      · rintro table' column ⟨t, ht, hname, c', hc', hcol⟩
        refine ⟨_, List.mem_map_of_mem ht, ?_⟩
        split
        · exact ⟨hname, c', List.mem_append_left _ hc', hcol⟩
        · exact ⟨hname, c', hc', hcol⟩
  | set_version n =>
    cases h
    exact ⟨fun _ hn => hn, fun _ _ hc => hc⟩

/-- What a statement has created it cannot create again. -/
theorem exec_again {s : Statement Cell} (hs : s.creates = true) {db db₁ db₂ : Database Cell}
    (h : s.exec db = some db₁) (hkeeps : Keeps db₁ db₂) : s.exec db₂ = none := by
  cases s with
  | create_table name columns constraint =>
    simp only [Statement.exec] at h ⊢
    split at h
    · cases h
    · cases h
      refine if_pos (hkeeps.names name (Or.inl ⟨⟨name, columns, constraint, []⟩, ?_, rfl⟩))
      simp
  | create_index i =>
    simp only [Statement.exec] at h ⊢
    split at h
    · cases h
    · cases h
      refine if_pos (Or.inl (hkeeps.names i.name (Or.inr ⟨i, ?_, rfl⟩)))
      simp
  | add_column table c =>
    simp only [Statement.exec] at h ⊢
    split at h
    · cases h
    · next hnew =>
      cases h
      rw [not_or, not_not] at hnew
      obtain ⟨-, t, ht, hname⟩ := hnew
      refine if_pos (Or.inl (hkeeps.columns table c.name ⟨t.extend c, ?_, hname, c, ?_, rfl⟩))
      · refine List.mem_map.mpr ⟨t, ht, ?_⟩
        rw [if_pos hname]
      · simp [SqlTable.extend]
  | set_version n => cases hs

theorem keeps_runFor (n : Nat) (script : List (Statement Cell)) (db : Database Cell) :
    Keeps db (runFor n script db).2 := by
  induction script generalizing n db with
  | nil =>
    cases n <;> exact Keeps.refl db
  | cons s rest ih =>
    cases n with
    | zero => exact Keeps.refl db
    | succ n =>
      simp only [runFor]
      cases h : s.exec db with
      | none => exact Keeps.refl db
      | some db' => exact (keeps_exec h).trans (ih n db')

/-! ## The version -/

theorem version_exec {s : Statement Cell} (hs : s.creates = true) {db db' : Database Cell}
    (h : s.exec db = some db') : db'.user_version = db.user_version := by
  cases s with
  | create_table name columns constraint =>
    simp only [Statement.exec] at h
    split at h <;> cases h
    rfl
  | create_index i =>
    simp only [Statement.exec] at h
    split at h <;> cases h
    rfl
  | add_column table c =>
    simp only [Statement.exec] at h
    split at h <;> cases h
    rfl
  | set_version n => cases hs

/-- The version is that of before until the last statement of a script has run. -/
theorem version_runFor {script : List (Statement Cell)} (hs : ∀ s ∈ script, s.creates = true)
    (tail : List (Statement Cell)) {n : Nat} (hn : n ≤ script.length) (db : Database Cell) :
    (runFor n (script ++ tail) db).2.user_version = db.user_version := by
  induction script generalizing n db with
  | nil =>
    obtain rfl : n = 0 := by simpa using hn
    cases tail <;> rfl
  | cons s rest ih =>
    cases n with
    | zero => rfl
    | succ n =>
      simp only [List.cons_append, runFor]
      cases h : s.exec db with
      | none => rfl
      | some db' =>
        have hrest := ih (fun s hs' => hs s (List.mem_cons_of_mem _ hs'))
          (by simpa using hn) db'
        simp only
        rw [hrest, version_exec (hs s List.mem_cons_self) h]

/-- A run that is given more statements than there are is not killed. -/
theorem runFor_enough {n : Nat} (script : List (Statement Cell)) (hn : script.length ≤ n)
    (db : Database Cell) : runFor n script db = runAll script db := by
  unfold runAll
  induction script generalizing n db with
  | nil => cases n <;> rfl
  | cons s rest ih =>
    obtain ⟨m, rfl⟩ : ∃ m, n = m + 1 := ⟨n - 1, by simp at hn; omega⟩
    simp only [runFor, List.length_cons]
    cases h : s.exec db with
    | none => rfl
    | some db' => exact ih (by simpa using hn) db'

/-- A script that finishes is followed by the next one. -/
theorem runAll_append {first : List (Statement Cell)} {db db' : Database Cell}
    (h : runAll first db = (.finished, db')) (next : List (Statement Cell)) :
    runAll (first ++ next) db = runAll next db' := by
  unfold runAll at *
  induction first generalizing db with
  | nil =>
    cases h
    rfl
  | cons s rest ih =>
    simp only [List.cons_append, List.length_cons, runFor] at h ⊢
    cases hs : s.exec db with
    | none =>
      rw [hs] at h
      cases h
    | some db₁ =>
      rw [hs] at h
      exact ih h

/-! ## Killed runs -/

variable {script : Int → List (Statement Cell)}

theorem afterKills_cons (db : Database Cell) (n : Nat) (kills : List Nat) :
    afterKills script db (n :: kills) =
      afterKills script (runFor n (script db.user_version) db).2 kills := rfl

/-- A database whose script is refused at its first statement stays as it is. -/
theorem afterKills_refused {db : Database Cell} {s : Statement Cell} {rest : List (Statement Cell)}
    (hscript : script db.user_version = s :: rest) (hrefused : s.exec db = none)
    (kills : List Nat) : afterKills script db kills = db := by
  have hstays : ∀ n, (runFor n (script db.user_version) db).2 = db := by
    intro n
    rw [hscript]
    cases n with
    | zero => rfl
    | succ n => simp only [runFor, hrefused]
  induction kills with
  | nil => rfl
  | cons n kills ih => rw [afterKills_cons, hstays n, ih]

/-- A script is killed after its first statement and before its last, which sets the version.
Then no later run finishes. -/
theorem killed_inside {db : Database Cell} {s : Statement Cell} {rest tail : List (Statement Cell)}
    (hscript : script db.user_version = s :: rest ++ tail)
    (hcreates : ∀ s' ∈ s :: rest, s'.creates = true) {db₁ : Database Cell}
    (hfirst : s.exec db = some db₁)
    {n : Nat} (h0 : 0 < n) (hn : n ≤ (s :: rest).length) (kills : List Nat) :
    (runAll (script (afterKills script db (n :: kills)).user_version)
      (afterKills script db (n :: kills))).1 = .refused := by
  have hversion : (runFor n (script db.user_version) db).2.user_version = db.user_version := by
    rw [hscript]
    exact version_runFor hcreates tail hn db
  have hkeeps : Keeps db₁ (runFor n (script db.user_version) db).2 := by
    obtain ⟨m, rfl⟩ : ∃ m, n = m + 1 := ⟨n - 1, by omega⟩
    rw [hscript]
    simp only [List.cons_append, runFor, hfirst]
    exact keeps_runFor m _ db₁
  have hrefused := exec_again (hcreates s List.mem_cons_self) hfirst hkeeps
  have hagain : script (runFor n (script db.user_version) db).2.user_version =
      s :: (rest ++ tail) := by
    rw [hversion, hscript]
    rfl
  rw [afterKills_cons, afterKills_refused hagain hrefused, hagain]
  simp only [runAll, List.length_cons, runFor, hrefused]

end SchemaScript
