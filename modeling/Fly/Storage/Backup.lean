import Fly.Storage.DataService
import Fly.Storage.DataWriter
import Fly.Storage.Record

/-!
# Backup copies

A worker is told to keep a copy of an object.  It pulls the blocks of the object from a source, writes
them to its own data file as they come, builds the trailer from the headers it has seen, registers the
copy with the master and completes its local index.  Then it reports the task complete, and the master
notes the worker as a location of the object.

* `StreamingRead`, `tee` — the source, and the loop that copies the block area;
* `Store`, `backupObject`, `executeInternalTask`, `addRemoteLocation` — the copy, the task around it, the
  note of the master;
* `SourceRecord`, `SourceRecord.served` — a record, and a source that hands it out in any pieces and may
  fail or end at any point; `HandsOut` — it does not;
* `tee_spec` — the loop gets through exactly if the source hands out the area, and then the writer has the
  whole area and the table is right;
* `Replica` — the local index has the object complete, with an entry that names a copy of the record;
* `located_replica_iff` — the master notes the worker in any case; there is a replica then **iff** the source
  hands out the area to an open writer and the master accepts the copy, or there was one before and the object
  is not visible or the writer closed.
-/

namespace Fly.Storage

open Fly.Lib List Option DataWriter StoredBlock LocalIdx

/-! ### The copy -/

structure StreamingRead (σ : Type) where
  source : Source σ
  state : σ
  blockAreaLen : ℕ
  pyName : Bytes
  totalUncompressed : ℕ
  compressionType : CompressionType

structure Tee (σ : Type) where
  ok : Bool := true
  pulled : ℕ := 0
  blockCompLens : List ℕ := []
  writer : DataWriter
  source : σ

section Loop

variable {σ : Type} (S : Source σ)

/-- The payload of a block, in pieces of at most 256 KiB, each written as it comes. -/
def teeBodyFuel : ℕ → ℕ → Tee σ → Tee σ
  | 0, _, t => t
  | fuel + 1, remaining, t =>
    if 0 < remaining then
      let n := min remaining (256 * 1024)
      let piece := S.piece t.source n
      let source := (S.pull t.source n).2
      if piece = [] then { t with ok := false, source }
      else
        teeBodyFuel fuel (remaining - piece.length)
          { t with
            pulled := t.pulled + piece.length
            writer := t.writer.appendIncremental piece
            source }
    else t

/-- A block whose header has been pulled. -/
def teeBlock (t : Tee σ) (header : Bytes) (source : σ) : Tee σ :=
  let comp := (BlockHeader.read header).compSize
  teeBodyFuel S comp comp
    { t with
      pulled := t.pulled + 16
      blockCompLens := t.blockCompLens ++ [comp]
      writer := t.writer.appendIncremental header
      source }

/-- Block after block; every round brings at least a header, so `area` rounds are enough. -/
def teeFuel (area : ℕ) : ℕ → Tee σ → Tee σ
  | 0, t => t
  | fuel + 1, t =>
    if t.pulled < area ∧ t.ok then
      let header := pullExact S 16 false t.source
      match header.bytes with
      | none => { t with ok := false, source := header.source }
      | some bytes => teeFuel area fuel (teeBlock S t bytes header.source)
    else t

def tee (area : ℕ) (t : Tee σ) : Tee σ := teeFuel S area area t

end Loop

/-- What a worker has of a database: the writer, and the local index of the data service. -/
structure Store where
  writer : DataWriter
  index : LocalIdx String IndexEntry

/-- What a backup finds outside: the source, if the object is visible, the verdict of the master, the write
hash of the context, and the order in which the index is saved. -/
structure BackupEnv (σ : Type) where
  read : Option (StreamingRead σ)
  verdict : TaskErrorType
  hash : String
  adds : List (String × List IndexEntry)
  removes : List String

def backupObject {σ : Type} (c : Codecs) (st : Store) (object : String) (env : BackupEnv σ) :
    Option (BackupOutcome IndexEntry × Store) :=
  match env.read with
  | none => some (.notVisible, st)
  | some r =>
    let index := st.index.onWriteStarted object
    match st.writer.markBegin.beginIncremental with
    | (none, w) => some (.writerClosed, ⟨w.abortSegment, index⟩)
    | (some _, w) =>
      let t := tee r.source r.blockAreaLen { writer := w, source := r.state }
      if t.ok = false ∨ t.pulled ≠ r.blockAreaLen then
        some (.sourceFailed, ⟨t.writer.abortSegment, index.onWriteFailed object⟩)
      else
        let header : ObjectHeader :=
          { pyName := r.pyName
            totalSize := r.totalUncompressed
            chunkCount := t.blockCompLens.length % 2 ^ 32
            compressionType := r.compressionType
            blockCompLens := t.blockCompLens }
        let w := t.writer.appendIncremental (header.serializeTrailer c)
        if env.verdict ≠ .unknown then
          some (.registered env.verdict none, ⟨w.abortSegment, index.onWriteFailed object⟩)
        else
          let w := w.markEnd.finishIncremental object header.totalSize header.chunkCount env.hash
          (w.flush env.adds env.removes).map fun w =>
            match w.getAllEntries object with
            | some entries =>
              (.registered .unknown (some entries),
                ⟨w, (index.onWriteCompleted object entries).onObjectFlushed object⟩)
            | none => (.registered .unknown none, ⟨w, index.onObjectFlushed object⟩)

/-! ### The task around it -/

inductive InternalReply where
  | taskFailed (errorMessage : String)
  | taskComplete (writtenObject : String)

/-- The database, at hand or after the master was asked for its path. -/
structure DatabaseLookup where
  first : Option Store
  requestDbPath : Bool
  second : Option Store

def DatabaseLookup.database (l : DatabaseLookup) : Except String Store :=
  match l.first with
  | some st => .ok st
  | none =>
    if l.requestDbPath then
      match l.second with
      | some st => .ok st
      | none => .error "Internal backup: no database"
    else .error "Internal backup: db_path request failed"

/-- The task `__backup_object`.  What the copy did is not looked at. -/
def executeInternalTask {σ : Type} (c : Codecs) (args : List String) (l : DatabaseLookup)
    (env : BackupEnv σ) : Option (InternalReply × Option (BackupOutcome IndexEntry × Store)) :=
  match args with
  | object :: dbPath :: _ =>
    match l.database with
    | .error message => some (.taskFailed message, none)
    | .ok st =>
      (backupObject c st object env).map fun result =>
        (.taskComplete (dbPath ++ ":" ++ object), some result)
  | _ => some (.taskFailed "Internal backup: insufficient args", none)

def addRemoteLocation (remote : Table String (List ℕ)) (object : String) (worker : ℕ) :
    Table String (List ℕ) :=
  Table.upsert remote object [] fun workers =>
    if worker ∈ workers then workers else workers ++ [worker]

/-- The master, on the completion of an internal task. -/
def onInternalReply (remote : Table String (List ℕ)) (worker : ℕ) : InternalReply → Table String (List ℕ)
  | .taskComplete object => addRemoteLocation remote object worker
  | .taskFailed _ => remote

/-! ### Records and their sources -/

/-- A record: blocks with their own sizes in the headers, and the trailer that belongs to them. -/
structure SourceRecord where
  blocks : List StoredBlock
  header : ObjectHeader
  uncSize : ∀ b ∈ blocks, b.header.uncSize < 2 ^ 32
  compSize : ∀ b ∈ blocks, b.header.compSize < 2 ^ 32 ∧ b.header.compSize = b.payload.length
  table : header.blockCompLens = blocks.map fun b => b.header.compSize
  count : header.chunkCount = blocks.length % 2 ^ 32

/-- A source of bytes that follows a script: its answer to the `t`-th pull is an error, or at most so many
bytes of what is left. -/
def scripted (area : Bytes) (script : ℕ → Option ℕ) : Source (ℕ × ℕ) where
  pull s n :=
    match script s.2 with
    | none => (none, (s.1, s.2 + 1))
    | some m =>
      let piece := (area.drop s.1).take (min m n)
      (some piece, (s.1 + piece.length, s.2 + 1))
  pull_length s n := by
    split
    · exact Nat.zero_le n
    · exact (List.length_take_le _ _).trans (Nat.min_le_right _ _)

namespace SourceRecord

variable (r : SourceRecord)

def area : Bytes := r.blocks.flatMap bytes

def bytes (c : Codecs) : Bytes := r.area ++ r.header.serializeTrailer c

def served (script : ℕ → Option ℕ) : StreamingRead (ℕ × ℕ) where
  source := scripted r.area script
  state := (0, 0)
  blockAreaLen := r.area.length
  pyName := r.header.pyName
  totalUncompressed := r.header.totalSize
  compressionType := r.header.compressionType

end SourceRecord

/-- Asked for parts of these lengths, one after the other, for what is left of a part but never for more than
256 KiB, the source answers each time with a byte or more. -/
inductive HandsOut {σ : Type} (S : Source σ) : σ → List ℕ → Prop
  | done {s : σ} : HandsOut S s []
  | next {s : σ} {parts : List ℕ} (rest : HandsOut S s parts) : HandsOut S s (0 :: parts)
  | pull {s : σ} {n : ℕ} {parts : List ℕ} (wanted : 0 < n) (answer : S.piece s (min n (256 * 1024)) ≠ [])
      (rest : HandsOut S (S.pull s (min n (256 * 1024))).2
        ((n - (S.piece s (min n (256 * 1024))).length) :: parts)) : HandsOut S s (n :: parts)

/-- Blocks in the parts that are read: a header, a payload, and so on. -/
def partsOf (blocks : List StoredBlock) : List ℕ := blocks.flatMap fun b => [16, b.payload.length]

theorem takes_scripted (area : Bytes) (script : ℕ → Option ℕ) :
    (scripted area script).Takes fun s => area.take s.1 := by
  intro s n
  show area.take ((scripted area script).pull s n).2.1 =
    area.take s.1 ++ ((scripted area script).pull s n).1.getD []
  unfold scripted
  dsimp only
  cases script s.2 with
  | none => simp
  | some m =>
    rw [take_add, getD_some, length_take, ← take_eq_take_min]

/-! ### The loop -/

/-- The writer has `data` of an incremental record, and an index that has not changed. -/
structure Holding (index : LocalIndex String IndexEntry) (data : Bytes) (w : DataWriter) : Prop where
  positioned : w.Positioned
  streaming : w.Streaming data
  index_eq : w.index = index

theorem index_appendIncremental (w : DataWriter) (data : Bytes) :
    (w.appendIncremental data).index = w.index := by
  unfold appendIncremental streamWrite
  cases w.incremental with
  | none => rfl
  | some record =>
    dsimp only
    split
    · rfl
    · rfl

variable {w : DataWriter} {index : LocalIndex String IndexEntry} {data : Bytes}

theorem Holding.append (h : Holding index data w) (more : Bytes) :
    Holding index (data ++ more) (w.appendIncremental more) where
  positioned := (h.positioned.appendIncremental more).1
  streaming := (h.positioned.appendIncremental more).2 data h.streaming
  index_eq := (index_appendIncremental w more).trans h.index_eq

section Spec

variable {σ : Type} {S : Source σ} {taken : σ → Bytes} {index : LocalIndex String IndexEntry}

theorem handsOut_zero {s : σ} {parts : List ℕ} : HandsOut S s (0 :: parts) ↔ HandsOut S s parts := by
  refine ⟨fun h => ?_, .next⟩
  cases h with
  | next rest => exact rest
  | pull wanted => cases wanted

theorem handsOut_cons_iff {s : σ} {n k : ℕ} {parts : List ℕ} (hn : 0 < n) (hk : min n (256 * 1024) = k) :
    HandsOut S s (n :: parts) ↔
      S.piece s k ≠ [] ∧ HandsOut S (S.pull s k).2 ((n - (S.piece s k).length) :: parts) := by
  subst hk
  refine ⟨fun h => ?_, fun h => .pull hn h.1 h.2⟩
  cases h with
  | next => cases hn
  | pull _ answer rest => exact ⟨answer, rest⟩

/-- A header comes exactly if the source hands it out. -/
theorem handsOut_pullExactFuel {fuel n : ℕ} {got : Bytes} {part : Bool} {s : σ} {parts : List ℕ}
    (hfuel : n ≤ got.length + fuel) (hn : n ≤ 256 * 1024) :
    HandsOut S s ((n - got.length) :: parts) ↔ (pullExactFuel S fuel n got part s).bytes ≠ none ∧
      HandsOut S (pullExactFuel S fuel n got part s).source parts := by
  induction fuel generalizing got part s with
  | zero =>
    have hdone : n ≤ got.length := hfuel
    rw [pullExactFuel, if_neg hdone.not_gt, Nat.sub_eq_zero_of_le hdone, handsOut_zero]
    simp
  | succ fuel ih =>
    rw [pullExactFuel]
    by_cases hlt : got.length < n
    · rw [if_pos hlt, handsOut_cons_iff (by omega) (min_eq_left (by omega))]
      by_cases hpiece : S.piece s (n - got.length) = []
      · simp [hpiece]
      · have hpos := length_pos_iff.mpr hpiece
        dsimp only
        rw [if_neg hpiece, ← ih (by rw [length_append]; omega), length_append, Nat.sub_add_eq]
        exact and_iff_right hpiece
    · rw [if_neg hlt, Nat.sub_eq_zero_of_le (Nat.not_lt.mp hlt), handsOut_zero]
      simp

/-- What the loop over a payload has written is what it has taken; if it gets through, it is all, and it gets
through exactly if the source hands it out. -/
theorem teeBodyFuel_spec (hS : S.Takes taken) {fuel remaining : ℕ} {t t' : Tee σ}
    (h : teeBodyFuel S fuel remaining t = t') (hhold : Holding index (taken t.source) t.writer)
    (hfuel : remaining ≤ fuel) (hok : t.ok = true) :
    ∃ more, taken t'.source = taken t.source ++ more ∧ Holding index (taken t.source ++ more) t'.writer ∧
      t'.blockCompLens = t.blockCompLens ∧ t'.pulled = t.pulled + more.length ∧
      (t'.ok = true → more.length = remaining) ∧ ∀ parts,
        HandsOut S t.source (remaining :: parts) ↔ t'.ok = true ∧ HandsOut S t'.source parts := by
  induction fuel generalizing remaining t with
  | zero =>
    subst h
    obtain rfl := Nat.le_zero.mp hfuel
    refine ⟨[], (append_nil _).symm, ?_, rfl, rfl, fun _ => rfl, fun parts => ?_⟩
    · rw [append_nil]
      exact hhold
    · simp [teeBodyFuel, handsOut_zero, hok]
  | succ fuel ih =>
    unfold teeBodyFuel at h
    by_cases hpos : 0 < remaining
    · rw [if_pos hpos] at h
      have htaken := hS t.source (min remaining (256 * 1024))
      have hle : (S.piece t.source (min remaining (256 * 1024))).length ≤ remaining :=
        (S.pull_length _ _).trans (Nat.min_le_left _ _)
      simp only [handsOut_cons_iff hpos rfl]
      by_cases hpiece : S.piece t.source (min remaining (256 * 1024)) = []
      · rw [if_pos hpiece] at h
        subst h
        refine ⟨[], by rw [htaken, hpiece], ?_, rfl, rfl, fun hok => (Bool.false_ne_true hok).elim, ?_⟩
        · rw [append_nil]
          exact hhold
        · simp [hpiece]
      · rw [if_neg hpiece] at h
        have hlength := length_pos_iff.mpr hpiece
        generalize S.piece t.source (min remaining (256 * 1024)) = piece at *
        obtain ⟨more, hmore, hhold', hlens, hpulled, hall, hhands⟩ := ih h
          (by rw [htaken]; exact hhold.append piece) (by omega) hok
        rw [htaken, append_assoc] at hmore hhold'
        refine ⟨piece ++ more, hmore, hhold', hlens, ?_, fun hok => ?_, fun parts => ?_⟩
        · rw [hpulled, length_append, Nat.add_assoc]
        · rw [length_append, hall hok]
          omega
        · rw [← hhands]
          exact and_iff_right hpiece
    · rw [if_neg hpos] at h
      subst h
      obtain rfl := Nat.eq_zero_of_not_pos hpos
      refine ⟨[], (append_nil _).symm, ?_, rfl, rfl, fun _ => rfl, fun parts => ?_⟩
      · rw [append_nil]
        exact hhold
      · simp [handsOut_zero, hok]

/-- The blocks copied so far, and those still to come. -/
structure Copying (r : SourceRecord) (taken : σ → Bytes) (index : LocalIndex String IndexEntry)
    (front rest : List StoredBlock) (t : Tee σ) : Prop where
  blocks : r.blocks = front ++ rest
  taken_eq : taken t.source = front.flatMap bytes
  holding : Holding index (front.flatMap bytes) t.writer
  lens : t.blockCompLens = front.map fun b => b.header.compSize
  pulled : t.pulled = (front.flatMap bytes).length

/-- The next bytes of an area, if there are as many as of the next part of it, are that part. -/
theorem eq_of_isPrefix {got part rest area : Bytes} (harea : area = data ++ (part ++ rest))
    (hgot : data ++ got <+: area) (hlength : got.length = part.length) : got = part := by
  obtain ⟨more, hmore⟩ := hgot
  rw [harea, append_assoc] at hmore
  exact (append_inj (append_cancel_left hmore) hlength).1

variable {r : SourceRecord} {front rest : List StoredBlock} {t t' : Tee σ}

/-- A round that gets through copies the next block, and it gets through if the source hands out the
payload. -/
theorem Copying.next {b : StoredBlock} (h : Copying r taken index front (b :: rest) t) (hS : S.Takes taken)
    (harea : ∀ s, taken s <+: r.area) (hok : t.ok = true) {bytes : Bytes}
    (hbytes : (pullExact S 16 false t.source).bytes = some bytes)
    (hblock : teeBlock S t bytes (pullExact S 16 false t.source).source = t') :
    (t'.ok = true → Copying r taken index (front ++ [b]) rest t') ∧ ∀ parts,
      HandsOut S (pullExact S 16 false t.source).source (b.payload.length :: parts) ↔
        t'.ok = true ∧ HandsOut S t'.source parts := by
  have hb : b ∈ r.blocks := by rw [h.blocks]; simp
  obtain ⟨hcomp, hpayload⟩ := r.compSize b hb
  have hsplit : r.area = front.flatMap StoredBlock.bytes ++
      (b.header.bytes ++ (b.payload ++ rest.flatMap StoredBlock.bytes)) := by
    rw [SourceRecord.area, h.blocks, flatMap_append, flatMap_cons, StoredBlock.bytes]
    simp
  -- the header
  obtain ⟨got, htaken, ⟨hsome, hlength⟩ | ⟨hnone, -⟩⟩ := pullExact_spec hS 16 false t.source
  · rw [hbytes, Option.some.injEq] at hsome
    subst hsome
    rw [h.taken_eq] at htaken
    have hheader : bytes = b.header.bytes :=
      eq_of_isPrefix hsplit (htaken ▸ harea _) (by rw [hlength, BlockHeader.length_bytes])
    have hread : BlockHeader.read bytes = b.header := by
      have hfront := BlockHeader.read_bytes_append (r.uncSize b hb) hcomp []
      rw [append_nil] at hfront
      rw [hheader, hfront]
    unfold teeBlock at hblock
    rw [hread] at hblock
    -- the payload
    obtain ⟨more, hmore, hhold, hlens, hpulled, hall, hhands⟩ := teeBodyFuel_spec hS hblock
      (by rw [htaken]; exact h.holding.append bytes) le_rfl hok
    refine ⟨fun hok => ?_, hpayload ▸ hhands⟩
    have hmorelen := hall hok
    rw [htaken] at hmore hhold
    have hbody : more = b.payload := by
      refine eq_of_isPrefix (by rw [hsplit, hheader, append_assoc]) (hmore ▸ harea _) ?_
      rw [hmorelen, hpayload]
    have hfront : (front ++ [b]).flatMap StoredBlock.bytes =
        front.flatMap StoredBlock.bytes ++ bytes ++ more := by
      rw [hheader, hbody, flatMap_append, append_assoc]
      simp [StoredBlock.bytes]
    refine ⟨by rw [h.blocks]; simp, ?_, ?_, ?_, ?_⟩
    · rw [hmore, hfront]
    · rw [hfront]
      exact hhold
    · rw [hlens, h.lens]
      simp
    · rw [hpulled, hfront, h.pulled, length_append, length_append, hlength]
  · rw [hbytes] at hnone
    cases hnone

variable (S) in
theorem teeFuel_of_not_ok (area fuel : ℕ) (t : Tee σ) (h : ¬t.ok = true) : teeFuel S area fuel t = t := by
  cases fuel with
  | zero => rfl
  | succ fuel => rw [teeFuel, if_neg fun hgo => h hgo.2]

/-- **The loop gets through exactly if the source hands out the blocks, and then everything is copied.**  Each
round copies a block, so the induction is on the blocks to come. -/
theorem teeFuel_spec (hS : S.Takes taken) (harea : ∀ s, taken s <+: r.area) (fuel : ℕ)
    (h : Copying r taken index front rest t) (hok : t.ok = true)
    (hfuel : r.area.length ≤ t.pulled + fuel) (ht : teeFuel S r.area.length fuel t = t') :
    (HandsOut S t.source (partsOf rest) ↔ t'.ok = true) ∧
      (t'.ok = true → Copying r taken index r.blocks [] t') := by
  have hlength : r.area.length = t.pulled + (rest.flatMap bytes).length := by
    rw [h.pulled, SourceRecord.area, h.blocks, flatMap_append, length_append]
  induction rest generalizing front t fuel with
  | nil =>
    have hstop : teeFuel S r.area.length fuel t = t := by
      cases fuel with
      | zero => rfl
      | succ fuel => rw [teeFuel, if_neg fun hgo => hgo.1.ne' hlength]
    rw [hstop] at ht
    subst ht
    have hblocks : r.blocks = front := by rw [h.blocks, append_nil]
    exact ⟨iff_of_true .done hok, fun _ => hblocks ▸ h⟩
  | cons b rest ih =>
    rw [flatMap_cons, length_append, b.length_bytes] at hlength
    obtain ⟨k, rfl⟩ : ∃ k, fuel = k + 1 := ⟨fuel - 1, by omega⟩
    rw [teeFuel, if_pos ⟨by omega, hok⟩] at ht
    dsimp only at ht
    have hheader : HandsOut S t.source (partsOf (b :: rest)) ↔ (pullExact S 16 false t.source).bytes ≠ none ∧
        HandsOut S (pullExact S 16 false t.source).source (b.payload.length :: partsOf rest) :=
      handsOut_pullExactFuel (show 16 ≤ ([] : Bytes).length + 16 from le_rfl) (by decide)
    rw [hheader]
    cases hbytes : (pullExact S 16 false t.source).bytes with
    | none =>
      rw [hbytes] at ht
      subst ht
      exact ⟨iff_of_false (fun hhands => hhands.1 rfl) Bool.false_ne_true,
        fun hok => (Bool.false_ne_true hok).elim⟩
    | some bytes =>
      rw [hbytes] at ht
      obtain ⟨hcopy, hhands⟩ := h.next hS harea hok hbytes rfl
      rw [hhands]
      dsimp only at ht
      by_cases hblock : (teeBlock S t bytes (pullExact S 16 false t.source).source).ok = true
      · have hnext := hcopy hblock
        have hpulled := hnext.pulled
        rw [flatMap_append, length_append, ← h.pulled, flatMap_singleton, b.length_bytes] at hpulled
        obtain ⟨hiff, hall⟩ := ih k hnext hblock (by omega) ht (by omega)
        exact ⟨by simp [hblock, ← hiff], hall⟩
      · rw [teeFuel_of_not_ok S _ _ _ hblock] at ht
        subst ht
        exact ⟨iff_of_false (fun hhands => hblock hhands.2.1) hblock, fun hok => (hblock hok).elim⟩

end Spec

/-- The loop on a source of a record. -/
theorem tee_spec (r : SourceRecord) (script : ℕ → Option ℕ) (hw : w.Positioned) (hstream : w.Streaming [])
    {t : Tee (ℕ × ℕ)} (ht : tee (r.served script).source r.area.length
      { writer := w, source := (r.served script).state } = t) :
    (HandsOut (r.served script).source (r.served script).state (partsOf r.blocks) ↔ t.ok = true) ∧
      (t.ok = true → Holding w.index r.area t.writer ∧ t.blockCompLens = r.header.blockCompLens ∧
        t.pulled = r.area.length) := by
  have hstart : Copying r (fun s : ℕ × ℕ => r.area.take s.1) w.index [] r.blocks
      { writer := w, source := (r.served script).state } :=
    ⟨rfl, rfl, ⟨hw, hstream, rfl⟩, rfl, rfl⟩
  obtain ⟨hiff, hall⟩ := teeFuel_spec (takes_scripted r.area script) (fun s => take_prefix s.1 r.area)
    r.area.length hstart rfl (Nat.le_add_left _ _) ht
  exact ⟨hiff, fun hok => ⟨(hall hok).holding, (hall hok).lens.trans r.table.symm, (hall hok).pulled⟩⟩

/-! ### Replicas -/

/-- The local index has the object complete, with an entry whose range holds the record. -/
def Store.Replica (st : Store) (object : String) (record : Bytes) : Prop :=
  ∃ entries, st.index.CompleteWith object entries ∧ ∃ e ∈ entries, st.writer.Holds e record

/-- A writer that is closed keeps its files. -/
theorem files_abortSegment_markBegin (h : w.Reachable) : w.markBegin.abortSegment.files = w.files := by
  have hsize : w.currentFileSize = (w.files w.fileIndex).length := h.positioned.size
  funext file
  show (if file = w.fileIndex then resize (w.files file) w.currentFileSize
    else if w.fileIndex < file ∧ file ≤ w.fileIndex then [] else w.files file) = w.files file
  by_cases hfile : file = w.fileIndex
  · rw [if_pos hfile, hfile, hsize, resize, take_length, Nat.sub_self]
    exact append_nil _
  · rw [if_neg hfile, if_neg (by omega)]

section Replica

variable (c : Codecs) (r : SourceRecord) {st st' : Store} {object : String}
  {script : Option (ℕ → Option ℕ)} {verdict : TaskErrorType} {hash : String}
  {adds : List (String × List IndexEntry)} {removes : List String}
  {outcome : BackupOutcome IndexEntry}

/-- The copy goes through: the object is visible, the writer open, the source hands out the area, and the
master accepts the copy. -/
def GoesThrough (r : SourceRecord) (st : Store) (script : Option (ℕ → Option ℕ)) (verdict : TaskErrorType) :
    Prop :=
  ∃ answers, script = some answers ∧ st.writer.closed = false ∧
    HandsOut (r.served answers).source (r.served answers).state (partsOf r.blocks) ∧ verdict = .unknown

/-- How a backup can end. -/
inductive Ended (script : Option (ℕ → Option ℕ)) (verdict : TaskErrorType) (st st' : Store)
    (object : String) : Prop
  | notVisible (hidden : script = none) (same : st' = st)
  | writerClosed (closed : st.writer.closed = true) (index : st'.index = st.index.onWriteStarted object)
      (files : st'.writer.files = st.writer.files)
  | failed (visible : script ≠ none) (opened : st.writer.closed = false)
      (stopped : ¬GoesThrough r st script verdict)
      (index : st'.index = (st.index.onWriteStarted object).onWriteFailed object)
  | copied (through : GoesThrough r st script verdict) {entries : List IndexEntry} {e : IndexEntry}
      (mem : e ∈ entries) (holds : st'.writer.Holds e (r.bytes c))
      (index : st'.index =
        ((st.index.onWriteStarted object).onWriteCompleted object entries).onObjectFlushed object)

/-- The end of a copy: trailer, entry, index. -/
theorem finish_copy {w' : DataWriter} (hw : Holding index r.area w)
    (hflush : ((w.appendIncremental (r.header.serializeTrailer c)).markEnd.finishIncremental object
      r.header.totalSize r.header.chunkCount hash).flush adds removes = some w') :
    ∃ entries e, w'.getAllEntries object = some entries ∧ e ∈ entries ∧ w'.Holds e (r.bytes c) := by
  have hall := hw.append (r.header.serializeTrailer c)
  obtain ⟨e, hadds⟩ := hall.positioned.markEnd.finishIncremental
    (show (w.appendIncremental (r.header.serializeTrailer c)).markEnd.Streaming (r.bytes c) from
      hall.streaming) object r.header.totalSize r.header.chunkCount hash
  obtain ⟨hfiles, hentries⟩ := of_flush hflush
  refine ⟨_, e, (hentries object).trans hadds.getAllEntries, ?_, ?_⟩
  · exact mem_append_right _ (mem_singleton_self e)
  · exact (holds_congr hfiles e _).mpr hadds.holds

theorem ended_backupObject (hwriter : st.writer.Reachable)
    (h : backupObject c st object ⟨script.map r.served, verdict, hash, adds, removes⟩ =
      some (outcome, st')) : Ended c r script verdict st st' object := by
  unfold backupObject at h
  cases script with
  | none =>
    cases h
    exact .notVisible rfl rfl
  | some script =>
    dsimp only [map_some] at h
    cases hclosed : st.writer.closed with
    | true =>
      have hbegin : st.writer.markBegin.beginIncremental = (none, st.writer.markBegin) :=
        if_pos hclosed
      rw [hbegin] at h
      cases h
      exact .writerClosed hclosed rfl (files_abortSegment_markBegin hwriter)
    | false =>
      have hw : st.writer.markBegin.Positioned := by
        have hpositioned : st.writer.Positioned :=
          hwriter.positioned.congr hclosed rfl rfl rfl rfl rfl
        exact hpositioned.markBegin
      obtain ⟨hpositioned, hstream⟩ := hw.beginIncremental
      rcases hbegin : st.writer.markBegin.beginIncremental with ⟨_ | offset, w⟩
      · rw [beginIncremental, if_neg (by rw [hw.opened]; exact Bool.false_ne_true)] at hbegin
        cases hbegin
      rw [hbegin] at h hpositioned hstream
      dsimp only at h hpositioned hstream
      obtain ⟨hiff, hall⟩ := tee_spec r script hpositioned hstream rfl
      split at h
      · next hstopped =>
        cases h
        refine .failed (some_ne_none _) hclosed ?_ rfl
        rintro ⟨answers, ⟨⟩, -, hhands, -⟩
        have hok := hiff.mp hhands
        exact hstopped.elim (fun hnot => Bool.false_ne_true (hnot.symm.trans hok)) fun hpulled =>
          hpulled (hall hok).2.2
      rename_i hthrough
      rw [not_or, Bool.not_eq_false] at hthrough
      obtain ⟨hholding, hlens, -⟩ := hall hthrough.1
      split at h
      · next hrefused =>
        cases h
        exact .failed (some_ne_none _) hclosed (fun ⟨_, _, _, _, haccepted⟩ => hrefused haccepted) rfl
      · next haccepted =>
        obtain ⟨w', hflush, hresult⟩ := map_eq_some_iff.mp h
        have hcount := congrArg (fun lens => lens.length % 2 ^ 32) hlens
        rw [r.table, length_map, ← r.count] at hcount
        rw [show (r.served script).blockAreaLen = r.area.length from rfl, hcount, hlens] at hflush
        obtain ⟨entries, e, hentries, hmem, hholds⟩ := finish_copy c r hholding hflush
        rw [hentries] at hresult
        cases hresult
        exact .copied ⟨script, rfl, hclosed, hiff.mpr hthrough.1, not_not.mp haccepted⟩ hmem hholds rfl

/-- There is a replica after a backup that went through, or if there was one before and the backup stopped
before it pulled anything. -/
theorem Ended.replica_iff (h : Ended c r script verdict st st' object) :
    st'.Replica object (r.bytes c) ↔ GoesThrough r st script verdict ∨
      (script = none ∨ st.writer.closed = true) ∧ st.Replica object (r.bytes c) := by
  cases h with
  | notVisible hidden same => simp [GoesThrough, hidden, same]
  | writerClosed closed index files =>
    simp only [Store.Replica, index, completeWith_onWriteStarted_iff, holds_congr files]
    simp [GoesThrough, closed]
  | failed visible opened stopped index =>
    refine iff_of_false ?_ (by simp [visible, opened, stopped])
    rintro ⟨entries, hcomplete, -⟩
    rw [index] at hcomplete
    exact not_completeWith_onWriteFailed _ _ _ hcomplete
  | @copied through entries e mem holds index =>
    refine iff_of_true ⟨entries, ?_, e, mem, holds⟩ (.inl through)
    obtain ⟨info, hinfo⟩ := st.index.exists_lookup_onWriteStarted object
    rw [index]
    refine ⟨{ info with entries, completionState := .complete, flushed := true }, ?_, rfl, rfl⟩
    rw [LocalIdx.onObjectFlushed, Table.lookup_modify, if_pos rfl, LocalIdx.onWriteCompleted,
      Table.lookup_modify, if_pos rfl, hinfo]
    rfl

/-- **A backup task is reported complete in any case, and the master notes the worker; there is a replica
then exactly when the source hands out the area to an open writer and the master accepts the copy, or there
was one before and the object is not visible or the writer closed.**  For every record, every source of it and
every verdict of the master, on a writer after any calls. -/
theorem located_replica_iff {args : List String} {dbPath : String} {l : DatabaseLookup}
    {reply : InternalReply} (remote : Table String (List ℕ)) (worker : ℕ) (hdb : l.database = .ok st)
    (hwriter : st.writer.Reachable)
    (h : executeInternalTask c (object :: dbPath :: args) l
      ⟨script.map r.served, verdict, hash, adds, removes⟩ = some (reply, some (outcome, st'))) :
    worker ∈ ((onInternalReply remote worker reply).lookup (dbPath ++ ":" ++ object)).getD [] ∧
      (st'.Replica object (r.bytes c) ↔ GoesThrough r st script verdict ∨
        (script = none ∨ st.writer.closed = true) ∧ st.Replica object (r.bytes c)) := by
  unfold executeInternalTask at h
  rw [hdb] at h
  obtain ⟨result, hbackup, heq⟩ := map_eq_some_iff.mp h
  cases heq
  refine ⟨?_, (ended_backupObject c r hwriter hbackup).replica_iff⟩
  rw [onInternalReply, addRemoteLocation, Table.lookup_upsert, if_pos rfl, getD_some]
  split
  · next hmem => exact hmem
  · simp

end Replica

/-- A record of one raw block of one byte. -/
def byteRecord : SourceRecord where
  blocks := [⟨⟨1, 1, 0⟩, [7], true⟩]
  header := ⟨[], 1, 1, .none, [1]⟩
  uncSize := by decide
  compSize := by decide
  table := rfl
  count := rfl

/-- A worker with a new writer and nothing in its index. -/
def emptyStore : Store := ⟨.fresh, ∅⟩

theorem reachable_fresh : fresh.Reachable :=
  .opened (show run step fresh [] = some fresh from rfl)

/-- A source that hands out ten bytes at a time. -/
def copyEnv : BackupEnv (ℕ × ℕ) :=
  ⟨(some fun _ => some 10).map byteRecord.served, .unknown, "h",
    [("o", [⟨"o", 1, 0, 53, false, 1, "host", "h"⟩])], []⟩

theorem located_replica_copied : ∃ reply outcome st',
      executeInternalTask plainCodecs ["o", "db"] ⟨some emptyStore, false, none⟩ copyEnv =
        some (reply, some (outcome, st')) ∧
      1 ∈ ((onInternalReply ∅ 1 reply).lookup ("db" ++ ":" ++ "o")).getD [] ∧
      st'.Replica "o" (byteRecord.bytes plainCodecs) := by
  obtain ⟨reply, outcome, st', h⟩ : ∃ reply outcome st', executeInternalTask plainCodecs ["o", "db"]
      ⟨some emptyStore, false, none⟩ copyEnv = some (reply, some (outcome, st')) := ⟨_, _, _, rfl⟩
  have hiff := located_replica_iff plainCodecs byteRecord ∅ 1 rfl reachable_fresh h
  -- the header in two pieces, the payload in one
  refine ⟨reply, outcome, st', h, hiff.1, hiff.2.mpr (.inl ⟨_, rfl, rfl, ?_, rfl⟩)⟩
  exact .pull (by decide) (by decide) (.pull (by decide) (by decide) (.next (.pull (by decide) (by decide)
    (.next .done))))

/-- A source that fails after three bytes: the master notes the worker, which has nothing. -/
theorem located_without_replica : ∃ outcome st',
      executeInternalTask plainCodecs ["o", "db"] ⟨some emptyStore, false, none⟩
        ⟨some (byteRecord.served fun t => if t = 0 then some 3 else none), .unknown, "h", [], []⟩ =
          some (.taskComplete "db:o", some (outcome, st')) ∧
      (onInternalReply ∅ 1 (.taskComplete "db:o")).lookup "db:o" = some [1] ∧
      st'.index.hasLocalObject "o" = false ∧ ¬st'.Replica "o" (byteRecord.bytes plainCodecs) := by
  refine ⟨_, _, rfl, rfl, rfl, ?_⟩
  rintro ⟨entries, hcomplete, -⟩
  exact not_completeWith_onWriteFailed _ _ _ hcomplete

end Fly.Storage
