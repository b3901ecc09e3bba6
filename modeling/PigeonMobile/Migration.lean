-- Opening the store: the schema is brought up to date statement by statement, and its version
-- is written last. An open that is killed in between leaves tables that the next one creates
-- again, and fails.
import Mathlib.Data.List.Basic
import Mathlib.Tactic.IntervalCases
import PigeonMobile.SchemaScript

namespace PigeonMobile

open SchemaScript

/-! ## The schema -/

def SCHEMA_VERSION : Int := 3

/-- A value of a row as SQLite keeps it. -/
inductive Cell where
  | null
  | int (n : Int)
  | text (s : String)
  deriving DecidableEq

/-- A column without a default. -/
def plain (name decl : String) : Column Cell := ⟨name, decl, .null⟩

def sync_token_columns : List (Column Cell) :=
  [plain "id" "INTEGER PRIMARY KEY CHECK (id = 0)", plain "token" "TEXT NOT NULL"]

def events_columns : List (Column Cell) :=
  [plain "event_id" "TEXT PRIMARY KEY", plain "room_id" "TEXT NOT NULL",
    plain "sender" "TEXT NOT NULL", plain "type" "TEXT NOT NULL", plain "state_key" "TEXT",
    plain "origin_server_ts" "INTEGER NOT NULL", plain "depth" "INTEGER NOT NULL",
    plain "payload" "TEXT NOT NULL"]

def room_state_columns : List (Column Cell) :=
  [plain "room_id" "TEXT NOT NULL", plain "type" "TEXT NOT NULL",
    plain "state_key" "TEXT NOT NULL",
    plain "event_id" "TEXT NOT NULL REFERENCES events (event_id)", plain "depth" "INTEGER NOT NULL"]

def pending_sends_columns : List (Column Cell) :=
  [plain "txn_id" "TEXT PRIMARY KEY", plain "room_id" "TEXT NOT NULL",
    plain "body" "TEXT NOT NULL", plain "event_id" "TEXT NOT NULL",
    plain "created_ts" "INTEGER NOT NULL"]

/-- The send state of an echo: 0 for all rows that are there. -/
def local_column : Column Cell := ⟨"local", "INTEGER NOT NULL DEFAULT 0", .int 0⟩

def decrypted_column : Column Cell := plain "decrypted" "TEXT"

def decrypt_state_column : Column Cell := ⟨"decrypt_state", "INTEGER NOT NULL DEFAULT 0", .int 0⟩

def idx_events_room_depth : Index :=
  ⟨"idx_events_room_depth", "events", ["room_id", "depth", "event_id"], none⟩

def idx_events_pending_decrypt : Index :=
  ⟨"idx_events_pending_decrypt", "events", ["type", "decrypt_state"],
    some "type = 'p.room.encrypted'"⟩

/-! ## The migration -/

def version_one : List (Statement Cell) :=
  [.create_table "sync_token" sync_token_columns "",
    .create_table "events" events_columns "",
    .create_index idx_events_room_depth,
    .create_table "room_state" room_state_columns "PRIMARY KEY (room_id, type, state_key)"]

def version_two : List (Statement Cell) :=
  [.add_column "events" local_column,
    .create_table "pending_sends" pending_sends_columns ""]

def version_three : List (Statement Cell) :=
  [.add_column "events" decrypted_column,
    .add_column "events" decrypt_state_column,
    .create_index idx_events_pending_decrypt]

/-- What migrate runs on a database of the version. -/
def migrate (version : Int) : List (Statement Cell) :=
  (if version < 1 then version_one else []) ++
    (if version < 2 then version_two else []) ++
    (if version < 3 then version_three else []) ++ [.set_version SCHEMA_VERSION]

/-- An open that is not killed. -/
def store_open (db : Database Cell) : Ended × Database Cell := runAll (migrate db.user_version) db

/-! ## The databases of each version -/

/-- The rows of each table. -/
abbrev Rows := String → List (List Cell)

def events_columns_at (version : Int) : List (Column Cell) :=
  events_columns ++ (if 2 ≤ version then [local_column] else []) ++
    (if 3 ≤ version then [decrypted_column, decrypt_state_column] else [])

/-- The database that a finished migration of the version left, with its rows. -/
def database (version : Int) (rows : Rows) : Database Cell where
  tables :=
    (if 1 ≤ version then
      [⟨"sync_token", sync_token_columns, "", rows "sync_token"⟩,
        ⟨"events", events_columns_at version, "", rows "events"⟩,
        ⟨"room_state", room_state_columns, "PRIMARY KEY (room_id, type, state_key)",
          rows "room_state"⟩]
    else []) ++
    (if 2 ≤ version then [⟨"pending_sends", pending_sends_columns, "", rows "pending_sends"⟩]
    else [])
  indexes :=
    (if 1 ≤ version then [idx_events_room_depth] else []) ++
      (if 3 ≤ version then [idx_events_pending_decrypt] else [])
  user_version := version

/-- The cells that rows of events of the version still get. -/
def defaults_from (version : Int) : List Cell :=
  (if version < 2 then [.int 0] else []) ++ (if version < 3 then [.null, .int 0] else [])

/-- The rows of a database of the version, in the columns of the last one. A table that the
version does not have begins empty. -/
def carried (version : Int) (rows : Rows) : Rows := fun table =>
  if version < 1 ∨ (version < 2 ∧ table = "pending_sends") then []
  else if table = "events" then (rows table).map (fun r => r ++ defaults_from version)
  else rows table

/-- An open after opens that were killed, each after so many statements, succeeds with the last
schema and with all rows. -/
def Survives (version : Int) (rows : Rows) (kills : List Nat) : Prop :=
  store_open (afterKills migrate (database version rows) kills) =
    (.finished, database SCHEMA_VERSION (carried version rows))

/-- The first open that is killed after a statement has run all of them. -/
def KilledAtTheEnd (version : Int) (kills : List Nat) : Prop :=
  ∀ n, kills.find? (fun n => decide (0 < n)) = some n → (migrate version).length ≤ n

/-! ## One open that is not killed -/

theorem migrate_creates (version : Int) :
    ∃ creating : List (Statement Cell),
      migrate version = creating ++ [.set_version SCHEMA_VERSION] ∧
      ∀ s ∈ creating, s.creates = true := by
  refine ⟨_, rfl, ?_⟩
  intro s hs
  simp only [List.mem_append] at hs
  rcases hs with (hs | hs) | hs
  · split at hs
    · simp only [version_one, List.mem_cons, List.not_mem_nil, or_false] at hs
      rcases hs with rfl | rfl | rfl | rfl <;> rfl
    · cases hs
  · split at hs
    · simp only [version_two, List.mem_cons, List.not_mem_nil, or_false] at hs
      rcases hs with rfl | rfl <;> rfl
    · cases hs
  · split at hs
    · simp only [version_three, List.mem_cons, List.not_mem_nil, or_false] at hs
      rcases hs with rfl | rfl | rfl <;> rfl
    · cases hs

/-- The tables of a version while the database still has the version it had. -/
def underWay (shape version : Int) (rows : Rows) : Database Cell :=
  { database shape rows with user_version := version }

/-- The rows once the events have the send state. -/
def withLocal (rows : Rows) : Rows := fun table =>
  if table = "events" then (rows table).map (fun r => r ++ [.int 0])
  else if table = "pending_sends" then [] else rows table

/-- The rows once the events have a plaintext. -/
def withDecrypted (rows : Rows) : Rows := fun table =>
  if table = "events" then (rows table).map (fun r => r ++ [.null, .int 0]) else rows table

theorem version_one_runs (version : Int) (rows : Rows) :
    runAll version_one (underWay 0 version rows) =
      (.finished, underWay 1 version (fun _ => [])) := by
  simp [runAll, runFor, underWay, database, version_one, Statement.exec, Database.HasColumn,
    Database.Named, events_columns_at, events_columns, plain, idx_events_room_depth]

theorem version_two_runs (version : Int) (rows : Rows) :
    runAll version_two (underWay 1 version rows) =
      (.finished, underWay 2 version (withLocal rows)) := by
  simp [runAll, runFor, underWay, database, version_two, Statement.exec, Database.HasColumn,
    Database.Named, events_columns_at, events_columns, plain, idx_events_room_depth,
    SqlTable.extend, local_column, withLocal]

theorem version_three_runs (version : Int) (rows : Rows) :
    runAll version_three (underWay 2 version rows) =
      (.finished, underWay 3 version (withDecrypted rows)) := by
  simp [runAll, runFor, underWay, database, version_three, Statement.exec, Database.HasColumn,
    Database.Named, events_columns_at, events_columns, plain, idx_events_room_depth,
    SqlTable.extend, local_column, decrypted_column, decrypt_state_column,
    idx_events_pending_decrypt, withDecrypted]

theorem version_is_written (version : Int) (rows : Rows) :
    runAll [.set_version SCHEMA_VERSION] (underWay 3 version rows) =
      (.finished, database 3 rows) := rfl

theorem withDecrypted_withLocal (rows : Rows) :
    database 3 (withDecrypted (withLocal rows)) = database 3 (carried 1 rows) := by
  simp [database, withDecrypted, withLocal, carried, defaults_from, List.map_map,
    Function.comp_def]

theorem withDecrypted_two (rows : Rows) :
    database 3 (withDecrypted rows) = database 3 (carried 2 rows) := by
  simp [database, withDecrypted, carried, defaults_from]

/-- An open that is not killed leaves the last version, with all rows. -/
theorem store_open_carries {version : Int} (h0 : 0 ≤ version) (h3 : version ≤ SCHEMA_VERSION)
    (rows : Rows) :
    store_open (database version rows) = (.finished, database 3 (carried version rows)) := by
  unfold SCHEMA_VERSION at h3
  interval_cases version
  · calc store_open (database 0 rows)
        = runAll (version_one ++ (version_two ++ (version_three ++ [.set_version SCHEMA_VERSION])))
            (underWay 0 0 rows) := rfl
      _ = _ := by
        rw [runAll_append (version_one_runs 0 rows), runAll_append (version_two_runs 0 _),
          runAll_append (version_three_runs 0 _), version_is_written, withDecrypted_withLocal]
        rfl
  · calc store_open (database 1 rows)
        = runAll (version_two ++ (version_three ++ [.set_version SCHEMA_VERSION]))
            (underWay 1 1 rows) := rfl
      _ = _ := by
        rw [runAll_append (version_two_runs 1 _), runAll_append (version_three_runs 1 _),
          version_is_written, withDecrypted_withLocal]
  · calc store_open (database 2 rows)
        = runAll (version_three ++ [.set_version SCHEMA_VERSION]) (underWay 2 2 rows) := rfl
      _ = _ := by
        rw [runAll_append (version_three_runs 2 _), version_is_written, withDecrypted_two]
  · calc store_open (database 3 rows)
        = (.finished, database 3 rows) := rfl
      _ = _ := by simp [database, carried, defaults_from]

/-! ## Opens that are killed -/

/-- The last version stays as it is. -/
theorem afterKills_three (rows : Rows) (kills : List Nat) :
    afterKills migrate (database 3 rows) kills = database 3 rows := by
  induction kills with
  | nil => rfl
  | cons n kills ih =>
    rw [afterKills_cons]
    cases n with
    | zero => exact ih
    | succ n =>
      have hstays : (runFor (n + 1) (migrate (database 3 rows).user_version) (database 3 rows)).2 =
          database 3 rows := by
        rw [runFor_enough _ (Nat.succ_le_succ (Nat.zero_le n))]
        rfl
      rw [hstays, ih]

theorem afterKills_zero (db : Database Cell) (kills : List Nat) :
    afterKills migrate db (0 :: kills) = afterKills migrate db kills := by
  obtain ⟨creating, hmigrate, -⟩ := migrate_creates db.user_version
  rw [afterKills_cons, hmigrate]
  cases creating <;> rfl

/-- Once the first statement has run, and not the last, no open succeeds. -/
theorem killed_open_is_refused {version : Int} (h0 : 0 ≤ version) (h3 : version ≤ SCHEMA_VERSION)
    (rows : Rows) {n : Nat} (hpos : 0 < n) (hn : n < (migrate version).length) (kills : List Nat) :
    (store_open (afterKills migrate (database version rows) (n :: kills))).1 = .refused := by
  obtain ⟨creating, hmigrate, hcreates⟩ := migrate_creates version
  have hall := store_open_carries h0 h3 rows
  cases creating with
  | nil =>
    rw [hmigrate] at hn
    exact absurd (Nat.le_of_lt_succ hn) (Nat.not_le_of_lt hpos)
  | cons s rest =>
    cases hfirst : s.exec (database version rows) with
    | none =>
      have hrefused : store_open (database version rows) = (.refused, database version rows) := by
        show runAll (migrate version) _ = _
        rw [hmigrate]
        simp only [runAll, List.cons_append, List.length_cons, runFor, hfirst]
      rw [hrefused] at hall
      cases hall
    | some db₁ =>
      rw [hmigrate, List.length_append, List.length_singleton] at hn
      exact killed_inside hmigrate hcreates hfirst hpos (Nat.le_of_lt_succ hn) kills

/-- In every database of an earlier version and after all opens that were killed, the next one
brings the schema up to date and keeps all rows just where the first open that was killed after
a statement had run all of them. -/
theorem open_survives_iff (version : Int) (h0 : 0 ≤ version) (h3 : version ≤ SCHEMA_VERSION)
    (rows : Rows) (kills : List Nat) :
    Survives version rows kills ↔ KilledAtTheEnd version kills := by
  unfold Survives KilledAtTheEnd
  induction kills with
  | nil =>
    refine iff_of_true (store_open_carries h0 h3 rows) ?_
    intro n hn
    cases hn
  | cons n kills ih =>
    rcases Nat.eq_zero_or_pos n with rfl | hpos
    · rw [afterKills_zero]
      exact ih
    · have hfind : (n :: kills).find? (fun n => decide (0 < n)) = some n :=
        List.find?_cons_of_pos (decide_eq_true hpos)
      rw [hfind]
      rcases Nat.lt_or_ge n (migrate version).length with hlt | hge
      · refine iff_of_false ?_ ?_
        · intro h
          have hrefused := killed_open_is_refused h0 h3 rows hpos hlt kills
          rw [h] at hrefused
          cases hrefused
        · intro h
          exact absurd (h n rfl) (Nat.not_le_of_lt hlt)
      · refine iff_of_true ?_ ?_
        · have hrun : runFor n (migrate (database version rows).user_version)
              (database version rows) = (.finished, database 3 (carried version rows)) :=
            (runFor_enough _ hge _).trans (store_open_carries h0 h3 rows)
          rw [afterKills_cons, hrun, afterKills_three]
          rfl
        · intro m hm
          cases hm
          exact hge

/-- An account with one event, from before the send state. -/
def oneEvent : Rows := fun table =>
  if table = "events" then
    [[.text "$e", .text "!r", .text "@a", .text "p.room.message", .null, .int 5, .int 1,
      .text "{}"]]
  else []

/-- The first open is killed before anything, the second one after all. -/
theorem open_survives_iff_upgrade :
    ((0 : Int) ≤ 1 ∧ (1 : Int) ≤ SCHEMA_VERSION) ∧ Survives 1 oneEvent [0, 6, 0] := by
  refine ⟨by decide, ?_⟩
  refine (open_survives_iff 1 (by decide) (by decide) oneEvent [0, 6, 0]).mpr ?_
  intro n hn
  cases hn
  decide

/-- The first start is killed after the first table. No later one opens the store. -/
theorem a_killed_open_bars_the_store : ¬ ∀ (version : Int) (rows : Rows) (kills : List Nat),
    0 ≤ version → version ≤ SCHEMA_VERSION → Survives version rows kills := by
  intro h
  have hsurvives := h 0 (fun _ => []) [1] (by decide) (by decide)
  have hrefused := @killed_open_is_refused 0 (by decide) (by decide) (fun _ => []) 1
    (by decide) (by decide) []
  unfold Survives at hsurvives
  rw [hsurvives] at hrefused
  cases hrefused

end PigeonMobile
