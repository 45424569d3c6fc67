import NusaDb.Pager.Spill

/-!
# The page cache

A bounded cache over the page section of the last checkpoint image. A page is loaded on first use;
one that differs from the image is dirty, and leaves memory only through the spill. A clock with a
second chance picks the frames that leave.

An `Io` says which frames are latched and which reads and writes fail. A reader can stop between
finding a copy (`load`) and making it resident (`insertFrame`), with other calls in between.
-/

namespace NusaDb.Pager

open NusaDb.Wal (SinkWrite)

/-- How many clock entries one eviction looks at before it spills a dirty page. -/
def sweepLimit : Nat := 512

/-- How many times one eviction tries again after its victim was taken or changed meanwhile. -/
def evictRetries : Nat := 8

inductive DirtyPolicy where
  | skip
  /-- Keep the first one to spill if the sweep finds no clean frame. -/
  | fallback
  | take
  deriving DecidableEq, Repr

/-- A frame picked to leave the cache, and whether it leaves by spilling. -/
structure Victim where
  id : Nat
  spill : Bool
  deriving DecidableEq, Repr

inductive Eviction where
  | done
  | busy
  | spillFailed
  deriving DecidableEq, Repr

structure Frame where
  data : Page
  dirty : Bool
  referenced : Bool

/-- The page section of an image: the pages it holds, all below the id space it covers. -/
structure PageFile where
  pageCount : Nat
  pages : OrdMap Nat Page
  below : ∀ id, (pages.get? id).isSome → id < pageCount

def PageFile.holds (pages : PageFile) (id : Nat) : Bool := pages.pages.contains id

structure PagedStore where
  frames : OrdMap Nat Frame
  /-- Resident ids in clock order; an id may be stale. -/
  clock : List Nat
  /-- The recycle list, the id freed last first. -/
  free : List Nat
  freeSet : Finset Nat
  nextId : Nat
  /-- Frames the cache may hold before evicting; `0` is unbounded. -/
  capacityFrames : Nat
  /-- Resident frames that differ from the image. -/
  dirtyFrames : Nat
  file : Option PageFile
  spill : Spill

/-- How the world answers one call: which frames are latched, how the spill write of each pass of
`makeRoom` ends, whether files can be read. -/
structure Io where
  latched : (pass id : Nat) → Bool
  spillWrite : (pass : Nat) → SinkWrite
  spillRead : Bool
  imageRead : Bool

inductive Located where
  | resident (frame : Frame)
  | spilled (page : Page) (generation : Nat)
  | image

structure Copy where
  id : Nat
  page : Page
  dirty : Bool
  source : Source

/-- A change to a page in place: what it leaves, what it returns, and whether it changed the page. -/
structure PageEdit (R : Type) where
  run : Page → Page × R × Bool
  keeps : ∀ page, (run page).2.2 = false → (run page).1 = page

def badPage (id : Nat) : Error :=
  .notFound ("nusadb-btree: page PageId(" ++ toString id ++ ") does not exist in the in-memory store")

def retry {σ α : Type} (body : σ → σ × Option α) : Nat → σ → σ × Option α
  | 0, s => (s, none)
  | passes + 1, s =>
    match body s with
    | (s, some result) => (s, some result)
    | (s, none) => retry body passes s

namespace PagedStore

def default : PagedStore := ⟨OrdMap.empty, [], [], ∅, 0, 0, 0, none, .default⟩

def setCapacityBytes (s : PagedStore) (bytes : Option Nat) : PagedStore :=
  let frames := bytes.elim 0 (· / pageSize)
  { s with capacityFrames := frames, clock := if 0 < frames then s.frames.keys else [] }

def enableSpill (s : PagedStore) : PagedStore := { s with spill := { s.spill with file := some [] } }

def enableSealedSpill (s : PagedStore) (sealWith : SpillSeal) : PagedStore :=
  { s with spill := { s.spill with file := some [], sealWith := some sealWith } }

def freeMissing (pages : PageFile) (s : PagedStore) (id : Nat) : PagedStore :=
  if !pages.holds id && !s.frames.contains id && decide (id ∉ s.freeSet) then
    { s with free := id :: s.free, freeSet := insert id s.freeSet }
  else s

def attach (s : PagedStore) (pages : PageFile) : PagedStore :=
  let s := { s with
    frames := s.frames.mapVal fun frame => { frame with dirty := false }
    dirtyFrames := 0 }
  let s := (List.range pages.pageCount).foldl (freeMissing pages) s
  { s with nextId := max s.nextId pages.pageCount, file := some pages, spill := s.spill.clear }

/-- Sweep at most `limit` clock entries for a victim: an unreferenced frame no one holds, clean, or
dirty as `policy` allows. `fallback` is the first dirty one passed by. -/
def sweep (io : Io) (pass : Nat) (policy : DirtyPolicy) :
    (limit : Nat) → PagedStore → (fallback : Option Nat) → PagedStore × Option Victim
  | 0, s, fallback => (s, fallback.map fun id => ⟨id, true⟩)
  | limit + 1, s, fallback =>
    match s.clock with
    | [] => (s, fallback.map fun id => ⟨id, true⟩)
    | id :: clock =>
      match s.frames.get? id with
      | none => sweep io pass policy limit { s with clock } fallback -- evicted or freed already
      | some frame =>
        if frame.dirty && policy == .skip then
          sweep io pass policy limit { s with clock := clock ++ [id] } fallback
        else if frame.referenced then
          sweep io pass policy limit
            { s with
              clock := clock ++ [id]
              frames := s.frames.insert id { frame with referenced := false } } fallback
        else if io.latched pass id then
          sweep io pass policy limit { s with clock := clock ++ [id] } fallback
        else if !frame.dirty || policy == .take then
          ({ s with clock := fallback.toList ++ clock }, some ⟨id, frame.dirty⟩)
        else if fallback.isNone then
          sweep io pass policy limit { s with clock } (some id)
        else sweep io pass policy limit { s with clock := clock ++ [id] } fallback

def pickVictim (s : PagedStore) (io : Io) (pass limit : Nat) (policy : DirtyPolicy) :
    PagedStore × Option Victim :=
  sweep io pass policy limit s none

/-- Write a dirty victim to the spill; a failed write keeps it resident. -/
def spillVictim (s : PagedStore) (io : Io) (pass id : Nat) (frame : Frame) : PagedStore × Eviction :=
  match s.spill.put id frame.data (io.spillWrite pass) with
  | (spill, .error _) => ({ s with spill, clock := s.clock ++ [id] }, .spillFailed)
  | (spill, .ok ()) =>
    ({ s with spill, dirtyFrames := s.dirtyFrames - 1, frames := s.frames.erase id }, .done)

/-- Remove `victim` if it is still evictable: not latched, and clean unless it was picked to spill. -/
def evict (s : PagedStore) (io : Io) (pass : Nat) (victim : Victim) : PagedStore × Eviction :=
  match s.frames.get? victim.id with
  | none => (s, .done) -- freed meanwhile
  | some frame =>
    if io.latched pass victim.id then ({ s with clock := s.clock ++ [victim.id] }, .busy)
    else if frame.dirty then
      if victim.spill then s.spillVictim io pass victim.id frame
      else ({ s with clock := s.clock ++ [victim.id] }, .busy)
    else ({ s with frames := s.frames.erase victim.id }, .done)

/-- Pick a victim and evict it: how that ended and whether the sweep was a short one, which, finding
none, has cleared reference bits; after a whole one nothing is evictable. -/
def attempt (s : PagedStore) (io : Io) (pass limit : Nat) (policy : DirtyPolicy) (bounded : Bool) :
    PagedStore × Option (Eviction × Bool) :=
  match s.pickVictim io pass limit policy with
  | (s, some victim) => ((s.evict io pass victim).1, some ((s.evict io pass victim).2, bounded))
  | (s, none) => (s, if bounded then some (.busy, bounded) else none)

/-- One pass of `makeRoom`; `none` when there is room or nothing can leave. -/
def makeRoomPass (s : PagedStore) (io : Io) (pass : Nat) (spillFailed : Bool) :
    PagedStore × Option (Eviction × Bool) :=
  let len := s.frames.toList.length
  let spillOn := s.spill.file.isSome
  let bounded := spillOn && !s.spill.failing && !spillFailed
  -- while every resident page is dirty, only spilling can make room
  let allDirty := decide (len ≤ s.dirtyFrames)
  if len < s.capacityFrames then (s, none)
  else if !bounded && allDirty && (!spillOn || spillFailed) then (s, none)
  else
    s.attempt io pass (if bounded then sweepLimit else s.clock.length * 2 + 1)
      (if bounded then .fallback else if allDirty then .take else .skip) bounded

/-- Evict by the clock until one frame is free under the capacity, or nothing evictable remains. -/
def makeRoomLoop (io : Io) : (fuel pass retries : Nat) → (spillFailed : Bool) → PagedStore → PagedStore
  | 0, _, _, _, s => s
  | fuel + 1, pass, retries, spillFailed, s =>
    match s.makeRoomPass io pass spillFailed with
    | (s, none) => s
    | (s, some (.done, _)) => makeRoomLoop io fuel (pass + 1) retries spillFailed s
    | (s, some (.busy, _)) =>
      -- racing users of the cache: let the frame in over the bound rather than spin
      if evictRetries < retries + 1 then s
      else makeRoomLoop io fuel (pass + 1) (retries + 1) spillFailed s
    | (s, some (.spillFailed, bounded)) =>
      if bounded then makeRoomLoop io fuel (pass + 1) retries true s else s

/-- Each pass removes a frame, is a retry, or turns the spill off, so this many are enough. -/
def makeRoom (s : PagedStore) (io : Io) : PagedStore :=
  if s.capacityFrames = 0 then s
  else makeRoomLoop io (s.frames.toList.length + evictRetries + 3) 0 0 false s

def retainFirst (frames : OrdMap Nat Frame) : (seen : Finset Nat) → List Nat → List Nat
  | _, [] => []
  | seen, id :: clock =>
    if frames.contains id && decide (id ∉ seen) then id :: retainFirst frames (insert id seen) clock
    else retainFirst frames seen clock

def pushClock (s : PagedStore) (id : Nat) : PagedStore :=
  if 0 < s.capacityFrames then
    let clock := s.clock ++ [id]
    if 64 < clock.length && decide (s.frames.toList.length * 2 < clock.length) then
      { s with clock := retainFirst s.frames ∅ clock }
    else { s with clock }
  else s

/-- Register a frame: the page's spilled copy, if any, is stale from here on. -/
def register (s : PagedStore) (id : Nat) (page : Page) (dirty : Bool) : PagedStore :=
  { s with
    spill := s.spill.remove id
    frames := s.frames.insert id ⟨page, dirty, true⟩
    dirtyFrames := s.dirtyFrames + dirty.toNat }

/-- Make `page` resident under `id` as a new frame; `false` when the id is resident or the copy is no
longer the latest. -/
def insertFrame (s : PagedStore) (io : Io) (id : Nat) (page : Page) (dirty : Bool) (source : Source) :
    PagedStore × Bool :=
  let s := s.makeRoom io
  if s.frames.contains id || !s.spill.admits id source then (s, false)
  else ((s.register id page dirty).pushClock id, true)

def locate (s : PagedStore) (io : Io) (id : Nat) : Except Error Located :=
  match s.frames.get? id with
  | some frame => .ok (.resident frame)
  | none =>
    match s.spill.get id io.spillRead with
    | .error err => .error err
    | .ok none => .ok .image
    | .ok (some (page, generation)) => .ok (.spilled page generation)

def reference (s : PagedStore) (id : Nat) (frame : Frame) : PagedStore :=
  { s with frames := s.frames.insert id { frame with referenced := true } }

/-- What a read finds: a resident page, or a copy to make resident. -/
inductive Loaded where
  | resident (page : Page)
  | copy (copy : Copy)

def imageCopy (s : PagedStore) (io : Io) (id : Nat) : Except Error Copy :=
  match s.file.bind fun pages => pages.pages.get? id with
  | none => .error (badPage id)
  | some page => if io.imageRead then .ok ⟨id, page, false, .image⟩ else .error .device

/-- The first half of a read, up to making the copy it found resident. -/
def load (s : PagedStore) (io : Io) (id : Nat) : PagedStore × Except Error Loaded :=
  match s.locate io id with
  | .error err => (s, .error err)
  | .ok (.resident frame) => (s.reference id frame, .ok (.resident frame.data))
  | .ok (.spilled page generation) =>
    if id ∈ s.freeSet then (s, .error (badPage id))
    else (s, .ok (.copy ⟨id, page, true, .spill generation⟩))
  | .ok .image =>
    if id ∈ s.freeSet then (s, .error (badPage id)) else (s, (s.imageCopy io id).map .copy)

/-- Make a copy found earlier resident: its page, if the copy was still the latest. -/
def insertCopy (s : PagedStore) (io : Io) (copy : Copy) : PagedStore × Option Page :=
  match s.insertFrame io copy.id copy.page copy.dirty copy.source with
  | (s, true) => (s, some copy.page)
  | (s, false) => (s, none)

def readPass (io : Io) (id : Nat) (s : PagedStore) : PagedStore × Option (Except Error Page) :=
  match s.load io id with
  | (s, .error err) => (s, some (.error err))
  | (s, .ok (.resident page)) => (s, some (.ok page))
  | (s, .ok (.copy copy)) => ((s.insertCopy io copy).1, (s.insertCopy io copy).2.map .ok)

/-- How many passes the loops of the calls below are given; `none` is a loop that needs more. -/
def callPasses : Nat := 2

def readPage (s : PagedStore) (io : Io) (id : Nat) : PagedStore × Option (Except Error Page) :=
  retry (readPass io id) callPasses s

/-- Run `f` on a page where it sits; the frame is not looked up again. -/
def withPage {R : Type} (s : PagedStore) (io : Io) (id : Nat) (f : Page → R) :
    PagedStore × Option (Except Error R) :=
  match s.frames.get? id with
  | some frame => (s.reference id frame, some (.ok (f frame.data)))
  | none => ((s.readPage io id).1, (s.readPage io id).2.map (Except.map f))

def overwrite (s : PagedStore) (id : Nat) (frame : Frame) (page : Page) (changed : Bool) : PagedStore :=
  { s with
    frames := s.frames.insert id ⟨page, frame.dirty || changed, true⟩
    dirtyFrames := s.dirtyFrames + (changed && !frame.dirty).toNat }

def writePass (io : Io) (id : Nat) (page : Page) (s : PagedStore) :
    PagedStore × Option (Except Error Unit) :=
  match s.frames.get? id with
  | some frame => (s.overwrite id frame page true, some (.ok ()))
  | none =>
    match s.insertFrame io id page true .fresh with
    | (s, true) => (s, some (.ok ()))
    | (s, false) => (s, none)

def writePage (s : PagedStore) (io : Io) (id : Nat) (page : Page) :
    PagedStore × Option (Except Error Unit) :=
  if s.nextId ≤ id then (s, some (.error (badPage id)))
  else retry (writePass io id page) callPasses s

def modifyPass {R : Type} (io : Io) (id : Nat) (f : PageEdit R) (s : PagedStore) :
    PagedStore × Option (Except Error R) :=
  match s.frames.get? id with
  | some frame =>
    let (page, out, changed) := f.run frame.data
    (s.overwrite id frame page changed, some (.ok out))
  | none =>
    -- make it resident, then change it in place on the next pass
    match s.readPage io id with
    | (s, some (.error err)) => (s, some (.error err))
    | (s, _) => (s, none)

def modifyPage {R : Type} (s : PagedStore) (io : Io) (id : Nat) (f : PageEdit R) :
    PagedStore × Option (Except Error R) :=
  if s.nextId ≤ id then (s, some (.error (badPage id)))
  else retry (modifyPass io id f) callPasses s

def takeId (s : PagedStore) : PagedStore × Nat :=
  match s.free with
  | id :: rest => ({ s with free := rest, freeSet := s.freeSet.erase id }, id)
  | [] => ({ s with nextId := s.nextId + 1 }, s.nextId)

def giveBack (s : PagedStore) (id : Nat) : PagedStore :=
  if id ∈ s.freeSet then s else { s with free := id :: s.free, freeSet := insert id s.freeSet }

def zeroPage (s : PagedStore) (io : Io) (id : Nat) : PagedStore × Option (Except Error Unit) :=
  match s.insertFrame io id .zero true .fresh with
  | (s, true) => (s, some (.ok ()))
  | (s, false) => s.writePage io id .zero

def allocatePage (s : PagedStore) (io : Io) : PagedStore × Option (Except Error Nat) :=
  let id := s.takeId.2
  match s.takeId.1.zeroPage io id with
  | (s, some (.ok ())) => (s, some (.ok id))
  | (s, some (.error err)) => (s.giveBack id, some (.error err))
  | (s, none) => (s, none)

def dropFrame (s : PagedStore) (id : Nat) : PagedStore :=
  match s.frames.get? id with
  | none => s
  | some frame =>
    { s with frames := s.frames.erase id, dirtyFrames := s.dirtyFrames - frame.dirty.toNat }

def deallocatePage (s : PagedStore) (id : Nat) : PagedStore × Except Error Unit :=
  if s.nextId ≤ id then (s, .error (badPage id))
  else
    let s := s.dropFrame id
    ((PagedStore.giveBack { s with spill := s.spill.remove id } id), .ok ())

end PagedStore

end NusaDb.Pager
