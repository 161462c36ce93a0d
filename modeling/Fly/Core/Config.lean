import Fly.Lib.Table
import Fly.Lib.Text

/-!
# The configuration and its file

`Config` of core: two typed maps over a table of defaults, the file the master leaves in the log
directory (`.fly_config`), and how a worker finds the master from it.  The integers take the way
through the file and back (`getInt_reload`); the loop that is to collect the strings for the file
runs over the vector it fills, so a string arrives only if it is what a new `Config` holds anyway.
-/

namespace Fly.Core

open Fly.Lib List Table

def intDefaultEntries : List (Text × Int64) :=
  [ ("heartbeat_timeout", 120),
    ("heartbeat_interval", 5),
    ("auto_backup_enabled", 0),
    ("worker_suggest_bytes_threshold", 1073741824),
    ("worker_suggest_count_threshold", 100),
    ("worker_suggest_cooldown", 60),
    ("master_ewma_decay_per_sec", 1),
    ("backup_bytes_threshold", 10737418240),
    ("backup_count_threshold", 1000),
    ("max_backup_replicas", 3),
    ("backup_large_object_threshold", 1073741824),
    ("backup_high_score_threshold", 107374182400),
    ("backup_extra_slots", 2),
    ("aggregation_threshold", 1048576),
    ("large_file_threshold_kb", 65536),
    ("block_size", 134217728),
    ("track_writes", 0),
    ("data_server_threads", 4),
    ("compression_level", 0),
    ("serialize_chunk_size", 4194304),
    ("stream_buffer_chunks", 16),
    ("chunked_transfer_threshold", 4194304),
    ("compression_threshold", 4096),
    ("dependency_update_mode", 0),
    ("locality_scheduling_enabled", 1),
    ("fail_unscheduleable_tasks", 1),
    ("read_cache_size", 1073741824),
    ("low_score_factor", 25),
    ("data_client_pool_size", 4),
    ("net_probe_enabled", 1),
    ("handler_lanes", 4),
    ("net_probe_interval_ms", 30000),
    ("net_probe_payload_kb", 256),
    ("net_probe_timeout_ms", 3000),
    ("solver_openmp_threads", 0),
    ("worker_register_timeout", 0),
    ("worker_reconnect_timeout", 120),
    ("drain_timeout_seconds", 600),
    ("machine_info_interval_seconds", 10),
    ("metrics_tick_seconds", 10),
    ("monitor_sample_interval_ms", 1000),
    ("monitor_exec_sample_interval_ms", 200),
    ("monitor_report_interval_ms", 10000),
    ("monitor_db_enabled", 1),
    ("worker_connect_retry_initial_ms", 500),
    ("worker_register_ack_retry_initial_ms", 500),
    ("log_flush_threshold_bytes", 65536),
    ("log_flush_interval_ms", 1000),
    ("storage_takeover_enabled", 0),
    ("storage_takeover_fail_timeout", 60),
    ("storage_takeover_max_writers", 64),
    ("auto_storage_nodes_enabled", 0),
    ("auto_storage_check_interval", 30),
    ("master_port", 0)].map fun e : String × Int64 => (e.1.toList, e.2)

def intDefaults : Table Text Int64 := .insertAll ∅ intDefaultEntries

def strDefaultEntries : List (Text × Text) :=
  [ ("transport_type", "tcp"),
    ("compression_type", "lz4"),
    ("log_dir", "fly_log"),
    ("master_host", ""),
    ("master_advertise_host", "")].map fun e : String × String => (e.1.toList, e.2.toList)

def strDefaults : Table Text Text := .insertAll ∅ strDefaultEntries

def invalidInt : Int64 := Int64.minValue

structure Config where
  intValues : Table Text Int64
  strValues : Table Text Text
  workersLaunched : Bool

namespace Config

variable (c : Config) (key : Text)

def new : Config := ⟨intDefaults, strDefaults, false⟩

def setInt (value : Int64) : Bool × Config :=
  if c.workersLaunched then (false, c)
  else (true, { c with intValues := c.intValues.insert key value })

def setStr (key value : Text) : Bool × Config :=
  if c.workersLaunched then (false, c)
  else (true, { c with strValues := c.strValues.insert key value })

def getInt : Int64 :=
  ((c.intValues.lookup key).or (intDefaults.lookup key)).getD invalidInt

def getStr : Text :=
  ((c.strValues.lookup key).or (strDefaults.lookup key)).getD []

/-! ### The file -/

def intLine (e : Text × Int64) : Text := "i ".toList ++ (e.1 ++ ' ' :: printInt e.2.toInt)

def strLine (e : Text × Text) : Text := "s ".toList ++ (e.1 ++ ' ' :: e.2)

def fileText (ints : List (Text × Int64)) (strs : List (Text × Text)) : Text :=
  (ints.map intLine ++ strs.map strLine).flatMap fun line => line ++ ['\n']

/-- What `save_to_file` takes from the two maps under the lock. -/
def snapshot : List (Text × Int64) × List (Text × Text) :=
  let ints := Table.pairs c.intValues
  let strs : List (Text × Text) := []
  -- `for (const auto& [k, v] : strs) strs.emplace_back(k, v)`: over `strs`, not over `str_values_`
  (ints, strs.foldl (fun acc e => acc ++ [e]) strs)

/-- The text `save_to_file` leaves under the path. -/
def saveToFile : Text := fileText c.snapshot.1 c.snapshot.2

inductive Entry where
  | int (key : Text) (value : Int64)
  | str (key value : Text)

def readLine (line : Text) : Option Entry :=
  if line.length < 3 then none
  else
    match cut ' ' (line.drop 2) with
    | none => none
    | some (key, val) =>
      if line.head? = some 'i' then (stoll val).map (.int key)
      else if line.head? = some 's' then some (.str key val)
      else none

def Entry.int? : Entry → Option (Text × Int64)
  | .int key value => some (key, value)
  | .str _ _ => none

def Entry.str? : Entry → Option (Text × Text)
  | .int _ _ => none
  | .str key value => some (key, value)

def readEntries (text : Text) : List (Text × Int64) × List (Text × Text) :=
  let entries := (lines '\n' text).filterMap readLine
  (entries.filterMap Entry.int?, entries.filterMap Entry.str?)

/-- `file` is what the path holds, `none` when it cannot be opened. -/
def loadFromFile (file : Option Text) : Config :=
  match file with
  | none => c
  | some text =>
    { c with
      intValues := c.intValues.insertAll (readEntries text).1
      strValues := c.strValues.insertAll (readEntries text).2 }

/-! ### The address of the master -/

/-- What `_ensure_shared_config` writes: the settings with the address the master is reached at. -/
def ensureSharedConfig (advertiseHost : Text) (port : Int64) : Config × Text :=
  let c := (c.setStr "master_host".toList advertiseHost).2
  let c := (c.setInt "master_port".toList port).2
  (c, c.saveToFile)

/-- The address a process takes for its master: the command line's (`[]` and a negative port stand for
an option that is not given), else the settings', else the loopback address. -/
def masterAddress (host : Text) (port : ℤ) : Text × ℤ :=
  let host := if host = [] then c.getStr "master_host".toList else host
  let host := if host = [] then "127.0.0.1".toList else host
  let port :=
    if port < 0 then
      -- `static_cast<int>`
      let port := (c.getInt "master_port".toList).toInt32.toInt
      if port ≤ 0 then 0 else port
    else port
  (host, port)

/-! ### Through the file and back -/

/-- No space and no line break. -/
def PlainKey : Prop := ' ' ∉ key ∧ '\n' ∉ key

instance : Decidable (PlainKey key) := inferInstanceAs (Decidable (_ ∧ _))

theorem readLine_cons (h : PlainKey key) (type : Char) (value : Text) :
    readLine (type :: ' ' :: (key ++ ' ' :: value)) =
      if type = 'i' then (stoll value).map (.int key) else if type = 's' then some (.str key value)
      else none := by
  have hlength : ¬(type :: ' ' :: (key ++ ' ' :: value)).length < 3 := by
    simp only [length_append, length_cons]
    omega
  have hcut : cut ' ' ((type :: ' ' :: (key ++ ' ' :: value)).drop 2) = some (key, value) := cut_append h.1 _
  simp only [readLine, if_neg hlength, hcut, head?_cons, Option.some.injEq]

theorem readLine_intLine {e : Text × Int64} (h : PlainKey e.1) :
    readLine (intLine e) = some (.int e.1 e.2) := by
  refine (readLine_cons e.1 h 'i' _).trans ?_
  rw [if_pos rfl, stoll_printInt]
  rfl

theorem readLine_strLine {e : Text × Text} (h : PlainKey e.1) : readLine (strLine e) = some (.str e.1 e.2) :=
  readLine_cons e.1 h 's' e.2

theorem notMem_intLine {e : Text × Int64} (h : PlainKey e.1) : '\n' ∉ intLine e := by
  have hprint : '\n' ∉ printInt e.2.toInt := notMem_printInt rfl (by decide) _
  simp only [intLine, mem_append, mem_cons, not_or]
  exact ⟨by decide, h.2, by decide, hprint⟩

theorem filterMap_readLine {α : Type} {l : List α} {line : α → Text} {entry : α → Entry}
    (h : ∀ e ∈ l, readLine (line e) = some (entry e)) : (l.map line).filterMap readLine = l.map entry := by
  rw [filterMap_map, ← filterMap_eq_map]
  exact filterMap_congr h

/-- The format loses nothing: the entries written are the entries read. -/
theorem readEntries_fileText {ints : List (Text × Int64)} {strs : List (Text × Text)}
    (hints : ∀ e ∈ ints, PlainKey e.1) (hstrs : ∀ e ∈ strs, PlainKey e.1 ∧ '\n' ∉ e.2) :
    readEntries (fileText ints strs) = (ints, strs) := by
  have hlines : lines '\n' (fileText ints strs) = ints.map intLine ++ strs.map strLine := by
    apply lines_flatMap
    intro line hline
    rcases mem_append.mp hline with hline | hline
    · obtain ⟨e, he, rfl⟩ := mem_map.mp hline
      exact notMem_intLine (hints e he)
    · obtain ⟨e, he, rfl⟩ := mem_map.mp hline
      simp only [strLine, mem_append, mem_cons, not_or]
      exact ⟨by decide, (hstrs e he).1.2, by decide, (hstrs e he).2⟩
  have hentries : (lines '\n' (fileText ints strs)).filterMap readLine =
      (ints.map fun e => .int e.1 e.2) ++ strs.map fun e => .str e.1 e.2 := by
    rw [hlines, filterMap_append, filterMap_readLine fun e he => readLine_intLine (hints e he),
      filterMap_readLine fun e he => readLine_strLine (hstrs e he).1]
  simp only [readEntries, hentries, filterMap_append, filterMap_map]
  refine Prod.ext ?_ ?_
  · show ints.filterMap some ++ strs.filterMap (fun _ => none) = ints
    rw [filterMap_some, filterMap_none, append_nil]
  · show ints.filterMap (fun _ => none) ++ strs.filterMap some = strs
    rw [filterMap_some, filterMap_none, nil_append]

/-- The keys and values the line format is made for. -/
def Savable : Prop :=
  (∀ e ∈ Table.pairs c.intValues, PlainKey e.1) ∧ ∀ e ∈ Table.pairs c.strValues, PlainKey e.1 ∧ '\n' ∉ e.2

instance : Decidable c.Savable := inferInstanceAs (Decidable (_ ∧ _))

/-- The defaults pass the test of the format. -/
theorem savable_new : new.Savable :=
  ⟨forall_pairs_insertAll (forall_mem_nil _) (by decide +kernel),
    forall_pairs_insertAll (forall_mem_nil _) (by decide +kernel)⟩

variable {c}

theorem savable_setInt (h : c.Savable) {key : Text} (hkey : PlainKey key) (value : Int64) :
    (c.setInt key value).2.Savable := by
  rw [setInt]
  split
  · exact h
  · exact ⟨forall_pairs_insert h.1 hkey, h.2⟩

theorem savable_setStr (h : c.Savable) {key value : Text} (hkey : PlainKey key)
    (hvalue : '\n' ∉ value) : (c.setStr key value).2.Savable := by
  rw [setStr]
  split
  · exact h
  · exact ⟨h.1, forall_pairs_insert h.2 ⟨hkey, hvalue⟩⟩

/-- A new `Config` that has loaded the file `c` was saved to. -/
def reload (c : Config) : Config := new.loadFromFile (some c.saveToFile)

theorem reload_eq (h : c.Savable) :
    c.reload = { new with intValues := intDefaults.insertAll (Table.pairs c.intValues) } := by
  have hread : readEntries c.saveToFile = (Table.pairs c.intValues, []) :=
    readEntries_fileText h.1 (by intro e he; cases he)
  rw [reload, loadFromFile, hread]
  rfl

theorem getInt_reload (h : c.Savable) (key : Text) : c.reload.getInt key = c.getInt key := by
  rw [reload_eq h, getInt, getInt, lookup_insertAll_pairs]
  cases c.intValues.lookup key with
  | some v => rfl
  | none => rw [Option.none_or, Option.or_self]

/-- Of the strings the file says nothing. -/
theorem getStr_reload (h : c.Savable) (key : Text) :
    c.reload.getStr key = (strDefaults.lookup key).getD [] := by
  rw [reload_eq h, getStr]
  show ((strDefaults.lookup key).or (strDefaults.lookup key)).getD [] = _
  rw [Option.or_self]

/-- What the file is for: every setting is read back, and a process started from it without an address
of its own looks for the master where the settings say. -/
structure RoundTrip (c : Config) : Prop where
  getInt : ∀ key v, c.intValues.lookup key = some v → c.reload.getInt key = v
  getStr : ∀ key v, c.strValues.lookup key = some v → c.reload.getStr key = v
  exact : ∀ key, c.reload.getInt key = c.getInt key ∧ c.reload.getStr key = c.getStr key
  address : c.reload.masterAddress [] (-1) = c.masterAddress [] (-1)

/-- No string setting differs from what a new `Config` answers for its key. -/
def StringsDefault (c : Config) : Prop :=
  ∀ key v, c.strValues.lookup key = some v → v = (strDefaults.lookup key).getD []

theorem getStr_of_stringsDefault (h : c.StringsDefault) (key : Text) :
    c.getStr key = (strDefaults.lookup key).getD [] := by
  rw [getStr]
  cases hkey : c.strValues.lookup key with
  | some v => exact h key v hkey
  | none => rw [Option.none_or]

theorem roundTrip_iff_stringsDefault {c : Config} (h : c.Savable) : c.RoundTrip ↔ c.StringsDefault := by
  constructor
  · intro hround key v hkey
    rw [← getStr_reload h key]
    exact (hround.getStr key v hkey).symm
  · intro hdefault
    have hstr : ∀ key, c.reload.getStr key = c.getStr key := by
      intro key
      rw [getStr_reload h, getStr_of_stringsDefault hdefault]
    refine ⟨?_, ?_, fun key => ⟨getInt_reload h key, hstr key⟩, ?_⟩
    · intro key v hkey
      rw [getInt_reload h, Config.getInt, hkey]
      rfl
    · intro key v hkey
      rw [getStr_reload h]
      exact (hdefault key v hkey).symm
    · rw [masterAddress, masterAddress, hstr, getInt_reload h]

/-- Two integers are set, and a string to what it was. -/
def tuned : Config :=
  let c := (new.setStr "log_dir".toList "fly_log".toList).2
  let c := (c.setInt "master_port".toList 4000).2
  (c.setInt "handler_lanes".toList 8).2

theorem roundTrip_tuned :
    tuned.Savable ∧ tuned.RoundTrip ∧ tuned.reload.getInt "handler_lanes".toList = 8 := by
  have hsavable : tuned.Savable := savable_setInt (savable_setInt
    (savable_setStr savable_new (by decide) (by decide)) (by decide) 4000) (by decide) 8
  have hround : tuned.RoundTrip := by
    refine (roundTrip_iff_stringsDefault hsavable).mpr fun key v hkey => ?_
    have hlookup : (strDefaults.insert "log_dir".toList "fly_log".toList).lookup key = some v := hkey
    rw [lookup_insert_eq] at hlookup
    split at hlookup
    · next heq =>
      cases hlookup
      subst heq
      decide +kernel
    · rw [hlookup]
      rfl
  exact ⟨hsavable, hround, hround.getInt _ 8 (AList.lookup_insert _)⟩

/-- The host of a process that is given none on its command line. -/
theorem masterAddress_host (c : Config) (port : ℤ) : (c.masterAddress [] port).1 =
    if c.getStr "master_host".toList = [] then "127.0.0.1".toList else c.getStr "master_host".toList := by
  simp only [masterAddress, if_true]

/-- Wherever the master said it can be reached: a process started from the file looks for it on its own
machine. -/
theorem masterAddress_reload (h : c.Savable) (port : ℤ) :
    (c.reload.masterAddress [] port).1 = "127.0.0.1".toList := by
  have hdefault : strDefaults.lookup "master_host".toList = some [] := by decide +kernel
  have hhost : c.reload.getStr "master_host".toList = [] := by
    rw [getStr_reload h, hdefault]
    rfl
  rw [masterAddress_host, if_pos hhost]

/-- A master that can be reached at `10.0.0.5` and listens on port 4000. -/
def advertised : Config := (new.ensureSharedConfig "10.0.0.5".toList 4000).1

theorem savable_advertised : advertised.Savable :=
  savable_setInt (savable_setStr savable_new (by decide) (by decide)) (by decide) 4000

theorem address_lost : advertised.Savable ∧ ¬ advertised.RoundTrip ∧
    (advertised.masterAddress [] (-1)).1 = "10.0.0.5".toList ∧
      (advertised.reload.masterAddress [] (-1)).1 = "127.0.0.1".toList := by
  have hhost : advertised.getStr "master_host".toList = "10.0.0.5".toList := by
    have hlookup : advertised.strValues.lookup "master_host".toList = some "10.0.0.5".toList :=
      AList.lookup_insert strDefaults
    rw [getStr, hlookup]
    rfl
  have haddress : (advertised.masterAddress [] (-1)).1 = "10.0.0.5".toList := by
    rw [masterAddress_host, hhost, if_neg (by decide)]
  have hreload := masterAddress_reload savable_advertised (-1)
  refine ⟨savable_advertised, ?_, haddress, hreload⟩
  intro hround
  rw [hround.address, haddress] at hreload
  exact absurd hreload (by decide)

end Config

end Fly.Core
