import Fly.Lib.Text

/-!
# Database arguments of a task

The arguments of a task travel as texts.  `encodeArg` is the writer (Python, in the submitting process);
`decodeSingleArg` reads on the worker (Python), `parseDbArg` on the master (C++), which takes the owner
of a task from its first database argument.

The worker's reader splits the text with its tag, the master's reader the text behind the tag, but both
count the fields alike.  A handle with a uid is read alike by both.  For a handle without one the
master takes the second field behind the tag, and that is the data path.
-/

namespace Fly.Task

open Fly.Lib List

/-- The part of a `Database` the encoding looks at. -/
structure DbHandle where
  /-- `none` for a database without chain data -/
  uid : Option Text
  dbPath : Text
  dataPath : Text
  deriving DecidableEq

/-- A Python argument; what is not a database is known by its pickled bytes. -/
inductive PyArg where
  | db (handle : DbHandle)
  | callable (pickled : List UInt8)
  | other (pickled : List UInt8)
  deriving DecidableEq

def dbTag : Text := "__fly_db__:".toList

def db2Tag : Text := "__fly_db2__:".toList

def cfuncTag : Text := "__fly_cfunc__:".toList

def kwargsTag : Text := "__fly_kwargs__:".toList

def hex (bytes : List UInt8) : Text :=
  bytes.flatMap fun b => [Nat.digitChar (b.toNat / 16), Nat.digitChar (b.toNat % 16)]

/-- `if uid:` holds neither of `None` nor of the empty text. -/
def DbHandle.uidText (handle : DbHandle) : Text := handle.uid.getD []

def encodeArg : PyArg → Text
  | .db handle =>
    if handle.uidText ≠ [] then db2Tag ++ (handle.uidText ++ ':' :: handle.dbPath)
    else dbTag ++ (handle.dbPath ++ ':' :: handle.dataPath)
  | .callable pickled => cfuncTag ++ hex pickled
  | .other pickled => hex pickled

/-- The texts of a task: its positional arguments, then the segment of the keyword arguments, of which
`json` is the dump. -/
def encodePayload (args : List PyArg) (json : Text) : List Text := args.map encodeArg ++ [kwargsTag ++ json]

/-! ### The reader on the worker -/

structure DbArg where
  uid : Option Text
  dbPath : Text
  dataPath : Text
  deriving DecidableEq

/-- The fields of a database argument; `none` for any other argument. -/
def decodeSingleArg (arg : Text) : Option DbArg :=
  if db2Tag.isPrefixOf arg then
    let parts := splitMax ':' 2 arg
    some ⟨parts[1]?, parts[2]?.getD [], []⟩
  else if dbTag.isPrefixOf arg then
    let parts := splitMax ':' 3 arg
    if parts.length = 4 then some ⟨parts[1]?, parts[2]?.getD [], parts[3]?.getD []⟩
    else if parts.length = 3 then some ⟨none, parts[1]?.getD [], parts[2]?.getD []⟩
    else some ⟨none, parts[1]?.getD [], parts[2]?.getD []⟩
  else none

/-- The path of the database the worker takes up for an argument: the one it has under the argument's uid
(or path), unless that one lies elsewhere; else one it opens at the argument's path.  `cache` gives the
paths of the databases of `_db_cache`. -/
def takenPath (cache : Text → Option Text) (arg : DbArg) : Text :=
  match cache (if arg.uid.getD [] = [] then arg.dbPath else arg.uid.getD []) with
  | some path => if arg.dbPath ≠ [] ∧ path ≠ arg.dbPath then arg.dbPath else path
  | none => arg.dbPath

/-! ### The readers on the master -/

def parseDbArg (arg : Text) : Text :=
  if dbTag.isPrefixOf arg then
    let parts := splitMax ':' 3 (arg.drop dbTag.length)
    if parts.length = 4 then parts[2]?.getD []
    else if 2 ≤ parts.length then parts[1]?.getD []
    else []
  else if db2Tag.isPrefixOf arg then
    match cut ':' (arg.drop db2Tag.length) with
    | none => arg.drop db2Tag.length
    | some (_, path) => path
  else []

/-- The first database among the arguments of a submission; an argument that gives the empty path is
passed over. -/
def deriveOwner : List Text → Text
  | [] => []
  | arg :: args => if parseDbArg arg = [] then deriveOwner args else parseDbArg arg

/-- `owner_db_path_` of a submission as `submit_task` completes it. -/
def effectiveOwner (owner : Text) (args : List Text) : Text := if owner = [] then deriveOwner args else owner

/-! ### What the readers make of what the writer wrote -/

theorem not_isPrefixOf_db_db2 (t : Text) : dbTag.isPrefixOf (db2Tag ++ t) = false := rfl

theorem not_isPrefixOf_db2_db (t : Text) : db2Tag.isPrefixOf (dbTag ++ t) = false := rfl

theorem isPrefixOf_append (tag t : Text) : tag.isPrefixOf (tag ++ t) = true :=
  isPrefixOf_iff_prefix.mpr (prefix_append tag t)

theorem digitChar_ne_underscore {n : ℕ} (h : n < 16) : Nat.digitChar n ≠ '_' := by
  revert n
  decide

/-- A text in hexadecimal digits has no tag. -/
theorem not_isPrefixOf_hex (tag : Text) (pickled : List UInt8) :
    ('_' :: tag).isPrefixOf (hex pickled) = false := by
  cases pickled with
  | nil => rfl
  | cons b pickled =>
    have hdigit : Nat.digitChar (b.toNat / 16) ≠ '_' := by
      apply digitChar_ne_underscore
      have hb := b.toNat_lt
      omega
    rw [hex, flatMap_cons, cons_append, isPrefixOf_cons_cons,
      beq_eq_false_iff_ne.mpr (Ne.symm hdigit), Bool.false_and]

theorem parseDbArg_callable (pickled : List UInt8) : parseDbArg (encodeArg (.callable pickled)) = [] := rfl

theorem parseDbArg_other (pickled : List UInt8) : parseDbArg (encodeArg (.other pickled)) = [] := by
  have hdb : dbTag.isPrefixOf (hex pickled) = false := not_isPrefixOf_hex _ pickled
  have hdb2 : db2Tag.isPrefixOf (hex pickled) = false := not_isPrefixOf_hex _ pickled
  simp only [encodeArg, parseDbArg, hdb, hdb2, Bool.false_eq_true, if_false]

namespace DbHandle

variable {handle : DbHandle}

/-- With a uid in which the separator does not occur, or without one and with such paths. -/
def Plain (handle : DbHandle) : Prop :=
  (handle.uidText ≠ [] ∧ ':' ∉ handle.uidText) ∨
    (handle.uidText = [] ∧ ':' ∉ handle.dbPath ∧ ':' ∉ handle.dataPath)

instance (handle : DbHandle) : Decidable handle.Plain := inferInstanceAs (Decidable (_ ∨ _))

theorem encodeArg_of_uid (huid : handle.uidText ≠ []) :
    encodeArg (.db handle) = db2Tag ++ (handle.uidText ++ ':' :: handle.dbPath) := if_pos huid

theorem encodeArg_of_no_uid (huid : handle.uidText = []) :
    encodeArg (.db handle) = dbTag ++ (handle.dbPath ++ ':' :: handle.dataPath) :=
  if_neg (not_not.mpr huid)

/-- The tag is a field of its own. -/
theorem splitMax_db2Tag (n : ℕ) (t : Text) :
    splitMax ':' (n + 1) (db2Tag ++ t) = "__fly_db2__".toList :: splitMax ':' n t :=
  splitMax_append (show ':' ∉ "__fly_db2__".toList by decide) n t

theorem splitMax_dbTag (n : ℕ) (t : Text) :
    splitMax ':' (n + 1) (dbTag ++ t) = "__fly_db__".toList :: splitMax ':' n t :=
  splitMax_append (show ':' ∉ "__fly_db__".toList by decide) n t

/-- The worker reads every handle's own path. -/
theorem decodeSingleArg_encodeArg (h : handle.Plain) : ∃ arg,
    decodeSingleArg (encodeArg (.db handle)) = some arg ∧ arg.dbPath = handle.dbPath := by
  rcases h with ⟨huid, hplain⟩ | ⟨huid, hdb, hdata⟩
  · have hsplit : splitMax ':' 2 (db2Tag ++ (handle.uidText ++ ':' :: handle.dbPath)) =
        ["__fly_db2__".toList, handle.uidText, handle.dbPath] := by
      rw [splitMax_db2Tag, splitMax_append hplain]
      rfl
    refine ⟨⟨some handle.uidText, handle.dbPath, []⟩, ?_, rfl⟩
    rw [encodeArg_of_uid huid, decodeSingleArg, if_pos (isPrefixOf_append _ _), hsplit]
    rfl
  · have hsplit : splitMax ':' 3 (dbTag ++ (handle.dbPath ++ ':' :: handle.dataPath)) =
        ["__fly_db__".toList, handle.dbPath, handle.dataPath] := by
      rw [splitMax_dbTag, splitMax_append hdb, splitMax_of_notMem hdata]
    refine ⟨⟨none, handle.dbPath, handle.dataPath⟩, ?_, rfl⟩
    rw [encodeArg_of_no_uid huid, decodeSingleArg, not_isPrefixOf_db2_db, if_neg (by decide),
      if_pos (isPrefixOf_append _ _), hsplit]
    rfl

theorem parseDbArg_of_uid (huid : handle.uidText ≠ []) (hplain : ':' ∉ handle.uidText) :
    parseDbArg (encodeArg (.db handle)) = handle.dbPath := by
  have hrest : (db2Tag ++ (handle.uidText ++ ':' :: handle.dbPath)).drop db2Tag.length =
      handle.uidText ++ ':' :: handle.dbPath := drop_left
  rw [encodeArg_of_uid huid, parseDbArg, not_isPrefixOf_db_db2, if_neg (by decide),
    if_pos (isPrefixOf_append _ _), hrest, cut_append hplain]

/-- Without a uid there are two fields behind the tag, and the master takes the second. -/
theorem parseDbArg_of_no_uid (huid : handle.uidText = []) (hdb : ':' ∉ handle.dbPath)
    (hdata : ':' ∉ handle.dataPath) : parseDbArg (encodeArg (.db handle)) = handle.dataPath := by
  have hrest : (dbTag ++ (handle.dbPath ++ ':' :: handle.dataPath)).drop dbTag.length =
      handle.dbPath ++ ':' :: handle.dataPath := drop_left
  have hsplit : splitMax ':' 3 (handle.dbPath ++ ':' :: handle.dataPath) =
      [handle.dbPath, handle.dataPath] := by
    rw [splitMax_append hdb, splitMax_of_notMem hdata]
  rw [encodeArg_of_no_uid huid, parseDbArg, if_pos (isPrefixOf_append _ _), hrest, hsplit]
  rfl

/-- Both readers give the handle's path, and a worker takes up the database at that path. -/
structure ReadAlike (handle : DbHandle) : Prop where
  worker : ∃ arg, decodeSingleArg (encodeArg (.db handle)) = some arg ∧ arg.dbPath = handle.dbPath ∧
    (handle.dbPath ≠ [] → ∀ cache, takenPath cache arg = handle.dbPath)
  master : parseDbArg (encodeArg (.db handle)) = handle.dbPath

theorem readAlike_iff (h : handle.Plain) :
    handle.ReadAlike ↔ handle.uidText ≠ [] ∨ handle.dataPath = handle.dbPath := by
  have hworker : ∃ arg, decodeSingleArg (encodeArg (.db handle)) = some arg ∧ arg.dbPath = handle.dbPath ∧
      (handle.dbPath ≠ [] → ∀ cache, takenPath cache arg = handle.dbPath) := by
    obtain ⟨arg, harg, hpath⟩ := decodeSingleArg_encodeArg h
    refine ⟨arg, harg, hpath, fun hne cache => ?_⟩
    rw [← hpath] at hne ⊢
    rw [takenPath]
    split
    · next path _ =>
      by_cases hopen : path = arg.dbPath
      · rw [if_neg (fun hdiff => hdiff.2 hopen), hopen]
      · rw [if_pos ⟨hne, hopen⟩]
    · rfl
  constructor
  · intro halike
    rcases h with ⟨huid, _⟩ | ⟨huid, hdb, hdata⟩
    · exact .inl huid
    · exact .inr ((parseDbArg_of_no_uid huid hdb hdata).symm.trans halike.master)
  · intro hcond
    refine ⟨hworker, ?_⟩
    rcases h with ⟨huid, hplain⟩ | ⟨huid, hdb, hdata⟩
    · exact parseDbArg_of_uid huid hplain
    · rw [parseDbArg_of_no_uid huid hdb hdata]
      exact hcond.resolve_left (not_not.mpr huid)

end DbHandle

open DbHandle

/-! ### The owner of a task -/

/-- The databases among the positional arguments, in their order. -/
def handles (args : List PyArg) : List DbHandle :=
  args.filterMap fun
    | .db handle => some handle
    | _ => none

/-- The database of the first database argument; the empty path without one. -/
def firstDbPath (args : List PyArg) : Text := ((handles args).head?.map dbPath).getD []

/-- The first path that is not empty. -/
def firstPath : List Text → Text
  | [] => []
  | path :: paths => if path = [] then firstPath paths else path

theorem firstPath_eq_nil_iff {paths : List Text} : firstPath paths = [] ↔ ∀ path ∈ paths, path = [] := by
  induction paths with
  | nil =>
    constructor
    · exact nofun
    · intro _
      rfl
  | cons path paths ih =>
    rw [firstPath, forall_mem_cons, ← ih]
    by_cases hpath : path = []
    · rw [if_pos hpath]
      exact ⟨fun h => ⟨hpath, h⟩, fun h => h.2⟩
    · rw [if_neg hpath]
      exact ⟨fun h => absurd h hpath, fun h => h.1⟩

/-- Arguments that are no databases are passed over, the keyword segment among them. -/
theorem deriveOwner_encodePayload {args : List PyArg} (json : Text)
    (h : ∀ handle ∈ handles args, parseDbArg (encodeArg (.db handle)) = handle.dbPath) :
    deriveOwner (encodePayload args json) = firstPath ((handles args).map dbPath) := by
  induction args with
  | nil =>
    show (if parseDbArg (kwargsTag ++ json) = [] then _ else _) = _
    rfl
  | cons arg args ih =>
    show (if parseDbArg (encodeArg arg) = [] then deriveOwner (encodePayload args json) else _) = _
    cases arg with
    | db handle =>
      have hrest : ∀ other ∈ handles args, parseDbArg (encodeArg (.db other)) = other.dbPath :=
        fun other hother => h other (mem_cons_of_mem handle hother)
      have hhead : parseDbArg (encodeArg (.db handle)) = handle.dbPath := h handle mem_cons_self
      rw [hhead, ih hrest]
      rfl
    | callable pickled => rw [parseDbArg_callable, if_pos rfl, ih h]; rfl
    | other pickled => rw [parseDbArg_other, if_pos rfl, ih h]; rfl

/-- What the master and the workers make of the arguments of a task without an explicit owner: every
database argument is read as what was written, and the first is the owner. -/
structure ArgsAgree (args : List PyArg) (json : Text) : Prop where
  alike : ∀ handle ∈ handles args, handle.ReadAlike
  owner : effectiveOwner [] (encodePayload args json) = firstDbPath args

/-- Each database has a uid or keeps its data at its own path; and if the first one has the empty path,
no other has a path either. -/
def OwnerPlain (args : List PyArg) : Prop :=
  (∀ handle ∈ handles args, handle.uidText ≠ [] ∨ handle.dataPath = handle.dbPath) ∧
    ((handles args).head?.map dbPath = some [] → ∀ handle ∈ handles args, handle.dbPath = [])

theorem firstPath_eq_firstDbPath_iff (args : List PyArg) :
    firstPath ((handles args).map dbPath) = firstDbPath args ↔
      ((handles args).head?.map dbPath = some [] → ∀ handle ∈ handles args, handle.dbPath = []) := by
  rw [firstDbPath]
  cases handles args with
  | nil =>
    constructor
    · exact nofun
    · intro _
      rfl
  | cons handle rest =>
    show (if handle.dbPath = [] then firstPath (rest.map dbPath) else handle.dbPath) = handle.dbPath ↔
      (some handle.dbPath = some [] → _)
    by_cases hpath : handle.dbPath = []
    · rw [if_pos hpath, hpath, firstPath_eq_nil_iff, forall_mem_map, forall_mem_cons]
      exact ⟨fun h _ => ⟨hpath, h⟩, fun h => (h rfl).2⟩
    · rw [if_neg hpath]
      exact ⟨fun _ hnil => absurd (Option.some.inj hnil) hpath, fun _ => rfl⟩

theorem argsAgree_iff {args : List PyArg} (h : ∀ handle ∈ handles args, handle.Plain) (json : Text) :
    ArgsAgree args json ↔ OwnerPlain args := by
  have halike : (∀ handle ∈ handles args, handle.ReadAlike) ↔
      ∀ handle ∈ handles args, handle.uidText ≠ [] ∨ handle.dataPath = handle.dbPath :=
    forall₂_congr fun handle hmem => readAlike_iff (h handle hmem)
  have howner : (∀ handle ∈ handles args, handle.ReadAlike) →
      effectiveOwner [] (encodePayload args json) = firstPath ((handles args).map dbPath) := by
    intro hread
    rw [effectiveOwner, if_pos rfl, deriveOwner_encodePayload json
      fun handle hmem => (hread handle hmem).master]
  constructor
  · intro hagree
    refine ⟨halike.mp hagree.alike, (firstPath_eq_firstDbPath_iff args).mp ?_⟩
    rw [← howner hagree.alike]
    exact hagree.owner
  · intro hplain
    refine ⟨halike.mpr hplain.1, ?_⟩
    rw [howner (halike.mpr hplain.1)]
    exact (firstPath_eq_firstDbPath_iff args).mpr hplain.2

theorem argsAgree_chained :
    ArgsAgree [.other [128, 4], .db ⟨some "u1".toList, "/db/a:b".toList, "/data".toList⟩] "[]".toList := by
  refine (argsAgree_iff (by decide) _).mpr ⟨by decide, ?_⟩
  intro hhead
  exact absurd hhead (by decide)

/-- A database without chain data that keeps its data apart. -/
def legacyArg : PyArg := .db ⟨none, "/db/legacy".toList, "/data/legacy".toList⟩

theorem legacy_owner_is_data_path : (∀ handle ∈ handles [legacyArg], handle.Plain) ∧
    ¬ ArgsAgree [legacyArg] "[]".toList ∧
      effectiveOwner [] (encodePayload [legacyArg] "[]".toList) = "/data/legacy".toList := by
  have howner : effectiveOwner [] (encodePayload [legacyArg] "[]".toList) = "/data/legacy".toList := by decide
  refine ⟨by decide, ?_, howner⟩
  intro hagree
  have hfirst := hagree.owner
  exact absurd hfirst (by decide)

end Fly.Task
