import NusaDb.Pager.Calls

/-!
# The page cache refines a flat page map

To its callers the store is a map from live ids to pages. A run is any sequence of calls, with
readers that stop between finding a copy and making it resident and with stale victims being
evicted.
-/

namespace NusaDb.Pager

open List PagedStore Bool

variable {R : Type}

/-- What the store is for: the live ids and the last page written to each. -/
structure Flat where
  live : Finset Nat
  content : Nat → Page

inductive Event (R : Type) where
  | allocatePage (io : Io)
  | readPage (io : Io) (id : Nat)
  | withPage (io : Io) (id : Nat) (f : Page → R)
  | writePage (io : Io) (id : Nat) (page : Page)
  | modifyPage (io : Io) (id : Nat) (f : PageEdit R)
  | deallocatePage (id : Nat)
  /-- A reader finds the page and stops before making it resident. -/
  | load (io : Io) (id : Nat)
  /-- The reader of the `n`-th copy found goes on. -/
  | insertCopy (io : Io) (n : Nat)
  | makeRoom (io : Io)
  | pickVictim (io : Io) (limit : Nat) (policy : DirtyPolicy)
  | evict (io : Io) (victim : Victim)

inductive Outcome (R : Type) where
  | allocated (id : Nat)
  | saw (id : Nat) (page : Page)
  | returned (out : R)
  | wrote
  | freed
  | failed (err : Error)
  /-- The call's loop has not ended. -/
  | unfinished
  | quiet

def Outcome.of {α : Type} (tell : α → Outcome R) : Option (Except Error α) → Outcome R
  | none => .unfinished
  | some (.error err) => .failed err
  | some (.ok a) => tell a

/-- A store, the copies that readers have found outside the cache, and the flat map. -/
structure Run where
  store : PagedStore
  copies : List Copy
  flat : Flat

namespace Run

def load (r : Run) (io : Io) (id : Nat) : PagedStore × List Copy × Outcome R :=
  match r.store.load io id with
  | (s, .error err) => (s, r.copies, .failed err)
  | (s, .ok (.resident page)) => (s, r.copies, .saw id page)
  | (s, .ok (.copy copy)) => (s, r.copies ++ [copy], .quiet)

/-- The second half of a read; a copy that is refused sends the reader round again. -/
def insertCopy (r : Run) (io : Io) (n : Nat) : PagedStore × List Copy × Outcome R :=
  match r.copies[n]? with
  | none => (r.store, r.copies, .quiet)
  | some copy =>
    ((r.store.insertCopy io copy).1, r.copies,
      (r.store.insertCopy io copy).2.elim .quiet (Outcome.saw copy.id))

/-- One event: the store and the copies after it, and what the caller is told. -/
def call (r : Run) : Event R → PagedStore × List Copy × Outcome R
  | .allocatePage io =>
    ((r.store.allocatePage io).1, r.copies, .of .allocated (r.store.allocatePage io).2)
  | .readPage io id =>
    ((r.store.readPage io id).1, r.copies, .of (.saw id) (r.store.readPage io id).2)
  | .withPage io id f =>
    ((r.store.withPage io id f).1, r.copies, .of .returned (r.store.withPage io id f).2)
  | .writePage io id page =>
    ((r.store.writePage io id page).1, r.copies, .of (fun _ => .wrote) (r.store.writePage io id page).2)
  | .modifyPage io id f =>
    ((r.store.modifyPage io id f).1, r.copies, .of .returned (r.store.modifyPage io id f).2)
  | .deallocatePage id =>
    ((r.store.deallocatePage id).1, r.copies,
      .of (fun _ => .freed) (some (r.store.deallocatePage id).2))
  | .load io id => r.load io id
  | .insertCopy io n => r.insertCopy io n
  | .makeRoom io => (r.store.makeRoom io, r.copies, .quiet)
  | .pickVictim io limit policy => ((r.store.pickVictim io 0 limit policy).1, r.copies, .quiet)
  | .evict io victim => ((r.store.evict io 0 victim).1, r.copies, .quiet)

end Run

namespace Flat

def write (flat : Flat) (id : Nat) (page : Page) : Flat :=
  { flat with content := Function.update flat.content id page }

def step (flat : Flat) : Event R → Outcome R → Flat
  | .allocatePage _, .allocated id => { flat.write id .zero with live := insert id flat.live }
  | .writePage _ id page, .wrote => flat.write id page
  | .modifyPage _ id f, .returned _ => flat.write id (f.run (flat.content id)).1
  | .deallocatePage id, .freed => { flat with live := flat.live.erase id }
  | _, _ => flat

/-- The page a live id had is the page that is seen, and a new id is not a live one. -/
def Agrees (flat : Flat) : Event R → Outcome R → Prop
  | _, .saw id page => id ∈ flat.live → page = flat.content id
  | .withPage _ id f, .returned out => id ∈ flat.live → out = f (flat.content id)
  | .modifyPage _ id f, .returned out => id ∈ flat.live → out = (f.run (flat.content id)).2.1
  | _, .allocated id => id ∉ flat.live
  | _, _ => True

end Flat

namespace Run

def step (r : Run) (event : Event R) : Run :=
  ⟨(r.call event).1, (r.call event).2.1, r.flat.step event (r.call event).2.2⟩

def run (r : Run) (events : List (Event R)) : Run := events.foldl step r

/-- A store as it is opened: with or without a spill, sealed or not, over an image or none. -/
def opened (spill : Option (Option SpillSeal)) (image : Option PageFile) (capacity : Option Nat) : Run where
  store :=
    let s := spill.elim PagedStore.default fun sealWith =>
      sealWith.elim PagedStore.default.enableSpill PagedStore.default.enableSealedSpill
    (image.elim s s.attach).setCapacityBytes capacity
  copies := []
  flat := ⟨image.elim ∅ fun pages => pages.pages.keys.toFinset,
    fun id => ((image.bind fun pages => pages.pages.get? id)).getD .zero⟩

end Run

/-- The ids: a free one is on the list once, and a live one is not on it. -/
structure Ids (s : PagedStore) (live : Finset Nat) : Prop where
  nodup : s.free.Nodup
  mem_free : ∀ id, id ∈ s.free ↔ id ∈ s.freeSet
  free_lt : ∀ id ∈ s.free, id < s.nextId
  live_lt : ∀ id ∈ live, id < s.nextId
  live_not_free : ∀ id ∈ live, id ∉ s.freeSet

structure Holds (s : PagedStore) (copies : List Copy) (flat : Flat) : Prop where
  ok : s.Ok
  ids : Ids s flat.live
  copies : ∀ copy ∈ copies, Copy.Ok s copy
  current : ∀ id ∈ flat.live, s.current id = some (flat.content id)

lemma Ids.congr {s s' : PagedStore} {live : Finset Nat} (h : Ids s live) (hnext : s'.nextId = s.nextId)
    (hfree : s'.free = s.free) (hset : s'.freeSet = s.freeSet) : Ids s' live := by
  obtain ⟨hnodup, hmem, hlt, hlive, hnot⟩ := h
  constructor
  · rw [hfree]
    exact hnodup
  · rw [hfree, hset]
    exact hmem
  · rw [hfree, hnext]
    exact hlt
  · rw [hnext]
    exact hlive
  · rw [hset]
    exact hnot

namespace Holds

variable {s s' : PagedStore} {copies : List Copy} {flat : Flat} (h : Holds s copies flat)

include h

lemma rearranged (hok : s'.Ok) (hsame : Rearranged s s') : Holds s' copies flat :=
  ⟨hok, h.ids.congr hsame.nextId hsame.free hsame.freeSet,
    fun copy hc => hsame.copies copy (h.copies copy hc),
    fun id hid => (hsame.current id).trans (h.current id hid)⟩

lemma writes (hok : s'.Ok) {id : Nat} {page page' : Page} (hwrites : Writes s s' id page)
    (hpage : id ∈ flat.live → page' = page) : Holds s' copies (flat.write id page') := by
  refine ⟨hok, h.ids.congr hwrites.nextId hwrites.free hwrites.freeSet,
    fun copy hc => hwrites.copies copy (h.copies copy hc), fun id' hlive => ?_⟩
  show s'.current id' = some (Function.update flat.content id page' id')
  by_cases heq : id' = id
  · rw [heq, hwrites.self, Function.update_self, hpage (heq ▸ hlive)]
  · rw [hwrites.other id' heq, h.current id' hlive, Function.update_of_ne heq]

lemma setIds {free : List Nat} {freeSet : Finset Nat} {nextId : Nat} {live : Finset Nat}
    (hids : Ids { s with free, freeSet, nextId } live) (hsub : live ⊆ flat.live) :
    Holds { s with free, freeSet, nextId } copies { flat with live } := by
  refine ⟨⟨h.ok.spill, h.ok.apart, h.ok.clean, h.ok.counted⟩, hids, fun copy hc => ?_, fun id hid => ?_⟩
  · exact (h.copies copy hc).mono rfl (le_rfl) fun _ _ _ _ hslot => ⟨hslot, rfl⟩
  · exact h.current id (hsub hid)

/-- A new page takes a number that no live page has. -/
lemma takeId :
    Holds s.takeId.1 copies flat ∧ s.takeId.2 ∉ flat.live ∧ s.takeId.2 ∉ s.takeId.1.freeSet ∧
      s.takeId.2 < s.takeId.1.nextId := by
  cases hfree : s.free with
  | nil =>
    have htake : s.takeId = ({ s with nextId := s.nextId + 1 }, s.nextId) := by
      unfold PagedStore.takeId
      rw [hfree]
    rw [htake]
    have hids : Ids { s with nextId := s.nextId + 1 } flat.live :=
      ⟨h.ids.nodup, h.ids.mem_free, fun id hid => Nat.lt_succ_of_lt (h.ids.free_lt id hid),
        fun id hid => Nat.lt_succ_of_lt (h.ids.live_lt id hid), h.ids.live_not_free⟩
    refine ⟨h.setIds hids (Finset.Subset.refl _), fun hlive => ?_, fun hmem => ?_, Nat.lt_succ_self _⟩
    · exact lt_irrefl _ (h.ids.live_lt _ hlive)
    · exact lt_irrefl _ (h.ids.free_lt _ ((h.ids.mem_free _).mpr hmem))
  | cons id rest =>
    have htake : s.takeId = ({ s with free := rest, freeSet := s.freeSet.erase id }, id) := by
      unfold PagedStore.takeId
      rw [hfree]
    rw [htake]
    have hmem : id ∈ s.free := hfree ▸ mem_cons_self
    have hnodup : (id :: rest).Nodup := hfree ▸ h.ids.nodup
    obtain ⟨hnot, hrest⟩ := nodup_cons.mp hnodup
    have hids : Ids { s with free := rest, freeSet := s.freeSet.erase id } flat.live := by
      refine ⟨hrest, fun id' => ?_, fun id' hid' => ?_, h.ids.live_lt, fun id' hlive hmem' => ?_⟩
      · show id' ∈ rest ↔ id' ∈ s.freeSet.erase id
        rw [Finset.mem_erase, ← h.ids.mem_free, hfree, mem_cons]
        constructor
        · intro hid'
          exact ⟨fun heq => hnot (heq ▸ hid'), .inr hid'⟩
        · rintro ⟨hne, heq | hid'⟩
          · exact absurd heq hne
          · exact hid'
      · exact h.ids.free_lt id' (hfree ▸ mem_cons_of_mem _ hid')
      · exact h.ids.live_not_free id' hlive (Finset.mem_of_mem_erase hmem')
    refine ⟨h.setIds hids (Finset.Subset.refl _), fun hlive => ?_, Finset.notMem_erase _ _,
      h.ids.free_lt id hmem⟩
    exact h.ids.live_not_free id hlive ((h.ids.mem_free id).mp hmem)

lemma giveBack {id : Nat} (hnot : id ∉ flat.live) (hlt : id < s.nextId) :
    Holds (s.giveBack id) copies flat := by
  unfold PagedStore.giveBack
  split_ifs with hmem
  · exact h
  have hids : Ids { s with free := id :: s.free, freeSet := insert id s.freeSet } flat.live := by
    refine ⟨nodup_cons.mpr ⟨fun hid => hmem ((h.ids.mem_free id).mp hid), h.ids.nodup⟩,
      fun id' => ?_, fun id' hid' => ?_, h.ids.live_lt, fun id' hlive hmem' => ?_⟩
    · show id' ∈ id :: s.free ↔ id' ∈ insert id s.freeSet
      rw [mem_cons, Finset.mem_insert, h.ids.mem_free]
    · rcases mem_cons.mp hid' with rfl | hid'
      · exact hlt
      · exact h.ids.free_lt id' hid'
    · rcases Finset.mem_insert.mp hmem' with rfl | hmem'
      · exact hnot hlive
      · exact h.ids.live_not_free id' hlive hmem'
  exact h.setIds hids (Finset.Subset.refl _)

lemma goLive {id : Nat} (hnot : id ∉ s.freeSet) (hlt : id < s.nextId)
    (hcurrent : s.current id = some (flat.content id)) :
    Holds s copies { flat with live := insert id flat.live } := by
  refine ⟨h.ok, ⟨h.ids.nodup, h.ids.mem_free, h.ids.free_lt, ?_, ?_⟩, h.copies, ?_⟩
  · intro id' hid'
    rcases Finset.mem_insert.mp hid' with rfl | hid'
    · exact hlt
    · exact h.ids.live_lt id' hid'
  · intro id' hid'
    rcases Finset.mem_insert.mp hid' with rfl | hid'
    · exact hnot
    · exact h.ids.live_not_free id' hid'
  · intro id' hid'
    rcases Finset.mem_insert.mp hid' with rfl | hid'
    · exact hcurrent
    · exact h.current id' hid'

omit h

/-! ### The calls -/

/-- What is asked of an event: the map after it is held, and what was seen agrees with the map
before it. -/
def Refines (flat : Flat) (event : Event R) (after : PagedStore × List Copy × Outcome R) : Prop :=
  Holds after.1 after.2.1 (flat.step event after.2.2) ∧ flat.Agrees event after.2.2

include h

variable (io : Io) (id : Nat)

lemma allocatePage : Refines flat (.allocatePage io : Event R)
      ((s.allocatePage io).1, copies, .of .allocated (s.allocatePage io).2) := by
  obtain ⟨htaken, hnot, hfree, hlt⟩ := h.takeId
  have hzero := htaken.ok.zeroPage io s.takeId.2
  unfold PagedStore.allocatePage
  dsimp only
  cases hresult : s.takeId.1.zeroPage io s.takeId.2 with
  | mk s' result =>
    rw [hresult] at hzero
    rcases result with _ | err | ⟨⟨⟩⟩
    · exact ⟨htaken.rearranged hzero.ok (hzero.unwritten fun h => by cases h), trivial⟩
    · have hsame := hzero.unwritten fun h => by cases h
      refine ⟨(htaken.rearranged hzero.ok hsame).giveBack hnot ?_, trivial⟩
      rw [hsame.nextId]
      exact hlt
    have hwrites := hzero.written rfl
    have hheld := htaken.writes hzero.ok hwrites fun _ => rfl
    refine ⟨hheld.goLive ?_ ?_ ?_, hnot⟩
    · rw [hwrites.freeSet]
      exact hfree
    · rw [hwrites.nextId]
      exact hlt
    · show s'.current s.takeId.2 = some (Function.update flat.content s.takeId.2 Page.zero s.takeId.2)
      rw [hwrites.self, Function.update_self]

lemma deallocatePage : Refines flat (.deallocatePage id : Event R)
      ((s.deallocatePage id).1, copies, .of (fun _ => .freed) (some (s.deallocatePage id).2)) := by
  rw [deallocatePage_eq]
  split_ifs with hlt
  · exact ⟨h, trivial⟩
  obtain ⟨hok, hother, hcopies⟩ := h.ok.dropPage id
  have hdropped : Holds (s.dropPage id) copies { flat with live := flat.live.erase id } := by
    refine ⟨hok, ?_, fun copy hc => hcopies copy (h.copies copy hc), fun id' hid' => ?_⟩
    · have hframe := h.ok.dropFrame_eq id
      unfold dropPage
      rw [hframe]
      exact ⟨h.ids.nodup, h.ids.mem_free, h.ids.free_lt,
        fun id' hid' => h.ids.live_lt id' (Finset.mem_of_mem_erase hid'),
        fun id' hid' => h.ids.live_not_free id' (Finset.mem_of_mem_erase hid')⟩
    · rw [hother id' (Finset.ne_of_mem_erase hid')]
      exact h.current id' (Finset.mem_of_mem_erase hid')
  refine ⟨hdropped.giveBack (Finset.notMem_erase _ _) ?_, trivial⟩
  unfold dropPage
  rw [h.ok.dropFrame_eq id]
  exact Nat.lt_of_not_le hlt

lemma page_eq {id : Nat} {page : Page} (hcurrent : s.current id = some page)
    (hlive : id ∈ flat.live) : page = flat.content id := by
  rw [h.current id hlive] at hcurrent
  exact (Option.some_inj.mp hcurrent).symm

lemma readPage : Refines flat (.readPage io id : Event R)
      ((s.readPage io id).1, copies, .of (.saw id) (s.readPage io id).2) := by
  have hread := h.ok.readPage io id
  refine ⟨h.rearranged hread.ok hread.rearranged, ?_⟩
  cases hresult : (s.readPage io id).2 with
  | none => trivial
  | some result =>
    cases result with
    | error err => trivial
    | ok page => exact h.page_eq (hread.page page hresult)

lemma withPage (f : Page → R) : Refines flat (.withPage io id f)
      ((s.withPage io id f).1, copies, .of .returned (s.withPage io id f).2) := by
  unfold PagedStore.withPage
  cases hframe : s.frames.get? id with
  | some frame =>
    obtain ⟨hok, hsame⟩ := h.ok.setReferenced hframe true
    refine ⟨h.rearranged hok hsame, fun hlive => ?_⟩
    rw [h.page_eq (current_of_resident hframe) hlive]
  | none =>
    have hread := h.ok.readPage io id
    refine ⟨h.rearranged hread.ok hread.rearranged, ?_⟩
    cases hresult : (s.readPage io id).2 with
    | none => trivial
    | some result =>
      cases result with
      | error err => trivial
      | ok page =>
        intro hlive
        rw [h.page_eq (hread.page page hresult) hlive]

lemma writePage (page : Page) : Refines flat (.writePage io id page : Event R)
      ((s.writePage io id page).1, copies, .of (fun _ => .wrote) (s.writePage io id page).2) := by
  have hwrite := h.ok.writePage io id page
  cases hresult : s.writePage io id page with
  | mk s' result =>
    rw [hresult] at hwrite
    rcases result with _ | err | ⟨⟨⟩⟩
    · exact ⟨h.rearranged hwrite.ok (hwrite.unwritten fun h => by cases h), trivial⟩
    · exact ⟨h.rearranged hwrite.ok (hwrite.unwritten fun h => by cases h), trivial⟩
    · exact ⟨h.writes hwrite.ok (hwrite.written rfl) fun _ => rfl, trivial⟩

lemma modifyPage (f : PageEdit R) : Refines flat (.modifyPage io id f)
      ((s.modifyPage io id f).1, copies, .of .returned (s.modifyPage io id f).2) := by
  have hedit := h.ok.modifyPage io id f
  cases hresult : s.modifyPage io id f with
  | mk s' result =>
    rw [hresult] at hedit
    rcases result with _ | err | out
    · exact ⟨h.rearranged hedit.ok (hedit.unedited fun _ h => by cases h), trivial⟩
    · exact ⟨h.rearranged hedit.ok (hedit.unedited fun _ h => by cases h), trivial⟩
    obtain ⟨page, hcurrent, hout, hwrites⟩ := hedit.edited out rfl
    refine ⟨h.writes hedit.ok hwrites fun hlive => ?_, fun hlive => ?_⟩
    · rw [h.page_eq hcurrent hlive]
    · rw [hout, h.page_eq hcurrent hlive]

end Holds

/-! ### Runs -/

namespace Run

variable {r : Run} (h : Holds r.store r.copies r.flat)

include h

lemma load_refines (io : Io) (id : Nat) :
    Holds.Refines r.flat (.load io id : Event R) (r.load io id) := by
  unfold load
  cases hload : r.store.load io id with
  | mk s result =>
    have hloads := h.ok.loads hload
    obtain ⟨hok, hsame⟩ := hloads.sound h.ok
    have hheld := h.rearranged hok hsame
    cases hloads with
    | failed err => exact ⟨hheld, trivial⟩
    | resident hframe =>
      exact ⟨hheld, h.page_eq (current_of_resident hframe)⟩
    | copy hid hgood =>
      refine ⟨⟨h.ok, h.ids, fun copy hc => ?_, h.current⟩, trivial⟩
      rcases mem_append.mp hc with hc | hc
      · exact h.copies copy hc
      · rw [mem_singleton.mp hc]
        exact hgood

lemma insertCopy_refines (io : Io) (n : Nat) :
    Holds.Refines r.flat (.insertCopy io n : Event R) (r.insertCopy io n) := by
  unfold insertCopy
  rcases hcopy : r.copies[n]? with _ | copy
  · exact ⟨h, trivial⟩
  obtain ⟨hok, hsame, hpage⟩ := h.ok.insertCopy (h.copies copy (mem_of_getElem? hcopy)) io
  refine ⟨h.rearranged hok hsame, ?_⟩
  cases hresult : (r.store.insertCopy io copy).2 with
  | none =>
    dsimp only
    rw [hresult]
    trivial
  | some page =>
    dsimp only
    rw [hresult]
    exact h.page_eq (hpage page hresult)

lemma call_refines (event : Event R) : Holds.Refines r.flat event (r.call event) := by
  have hmoves : ∀ {s : PagedStore}, Shuffles r.store s → Holds s r.copies r.flat := by
    intro s hs
    obtain ⟨hok, hsame⟩ := Shuffles.sound hs h.ok
    exact h.rearranged hok hsame
  cases event with
  | allocatePage io => exact h.allocatePage io
  | readPage io id => exact h.readPage io id
  | withPage io id f => exact h.withPage io id f
  | writePage io id page => exact h.writePage io id page
  | modifyPage io id f => exact h.modifyPage io id f
  | deallocatePage id => exact h.deallocatePage id
  | load io id => exact load_refines h io id
  | insertCopy io n => exact insertCopy_refines h io n
  | makeRoom io => exact ⟨hmoves (r.store.makeRoom_shuffles io), trivial⟩
  | pickVictim io limit policy =>
    exact ⟨hmoves (sweep_shuffles io 0 policy limit r.store none), trivial⟩
  | evict io victim => exact ⟨hmoves (r.store.evict_shuffles io 0 victim), trivial⟩

lemma run_holds (events : List (Event R)) :
    Holds (r.run events).store (r.run events).copies (r.run events).flat := by
  induction events generalizing r with
  | nil => exact h
  | cons event events ih => exact ih (r := r.step event) (call_refines h event).1

omit h

/-! ### Opening -/

lemma freeMissing_foldl (pages : PageFile) (s : PagedStore) (ids : List Nat) (hbelow : ∀ id ∈ ids,
    id < pages.pageCount) (hs : s.free.Nodup ∧ (∀ id, id ∈ s.free ↔ id ∈ s.freeSet) ∧ ∀ id ∈ s.free,
    id < pages.pageCount ∧ pages.holds id = false) : ∃ free freeSet, ids.foldl (freeMissing pages) s
    = { s with free, freeSet } ∧ free.Nodup ∧ (∀ id, id ∈ free ↔ id ∈ freeSet) ∧ ∀ id ∈ free, id <
    pages.pageCount ∧ pages.holds id = false := by
  induction ids generalizing s with
  | nil => exact ⟨s.free, s.freeSet, rfl, hs⟩
  | cons id ids ih =>
    have hrest : ∀ id' ∈ ids, id' < pages.pageCount := fun id' h => hbelow id' (mem_cons_of_mem _ h)
    rw [foldl_cons]
    unfold freeMissing
    split_ifs with hfree
    · obtain ⟨hnodup, hmem, hall⟩ := hs
      rw [and_eq_true, and_eq_true, not_eq_true', decide_eq_true_iff] at hfree
      obtain ⟨⟨hholds, -⟩, hnew⟩ := hfree
      have hnext := ih { s with free := id :: s.free, freeSet := insert id s.freeSet } hrest
        ⟨?_, ?_, ?_⟩
      · obtain ⟨free, freeSet, heq, hspec⟩ := hnext
        exact ⟨free, freeSet, heq, hspec⟩
      · exact nodup_cons.mpr ⟨fun h => hnew ((hmem id).mp h), hnodup⟩
      · intro id'
        show id' ∈ id :: s.free ↔ id' ∈ insert id s.freeSet
        rw [mem_cons, Finset.mem_insert, hmem]
      · intro id' h
        rcases mem_cons.mp h with rfl | h
        · exact ⟨hbelow id' mem_cons_self, hholds⟩
        · exact hall id' h
    · exact ih s hrest hs

structure Blank (s : PagedStore) : Prop where
  frames : s.frames = OrdMap.empty
  free : s.free = []
  freeSet : s.freeSet = ∅
  dirtyFrames : s.dirtyFrames = 0
  slots : s.spill.slots = OrdMap.empty
  freeSlots : s.spill.freeSlots = []

lemma Blank.noFree {s : PagedStore} (hs : Blank s) :
    s.free.Nodup ∧ (∀ id, id ∈ s.free ↔ id ∈ s.freeSet) ∧ ∀ id, id ∉ s.free := by
  rw [hs.free, hs.freeSet]
  exact ⟨nodup_nil, fun id => ⟨fun h => absurd h not_mem_nil,
    fun h => absurd h (Finset.notMem_empty id)⟩, fun _ => not_mem_nil⟩

lemma ok_of_empty {s : PagedStore} (hframes : s.frames = OrdMap.empty)
    (hdirty : s.dirtyFrames = 0) (hslots : s.spill.slots = OrdMap.empty)
    (hfree : s.spill.freeSlots = []) : s.Ok := by
  have hnone : ∀ id, s.frames.get? id = none := by
    intro id
    rw [hframes]
    rfl
  refine ⟨.of_empty hslots hfree, fun id frame h => ?_, fun id frame h => ?_, ?_⟩
  · rw [hnone] at h
    cases h
  · rw [hnone] at h
    cases h
  · rw [hdirty, hframes]
    rfl

lemma attach_holds {s : PagedStore} (hs : Blank s) (pages : PageFile) (capacity : Option Nat) :
    Holds ((s.attach pages).setCapacityBytes capacity) []
      ⟨pages.pages.keys.toFinset, fun id => (pages.pages.get? id).getD .zero⟩ := by
  have hframes : (s.frames.mapVal fun frame => { frame with dirty := false }) = OrdMap.empty := by
    rw [hs.frames]
    rfl
  obtain ⟨free, freeSet, hfold, hnodup, hmem, hall⟩ := freeMissing_foldl pages
    { s with
      frames := s.frames.mapVal fun frame => { frame with dirty := false }
      dirtyFrames := 0 }
    (range pages.pageCount) (fun id h => mem_range.mp h)
    ⟨hs.noFree.1, hs.noFree.2.1, fun id h => absurd h (hs.noFree.2.2 id)⟩
  unfold PagedStore.attach PagedStore.setCapacityBytes
  dsimp only
  rw [hfold]
  have hlive : ∀ id, id ∈ pages.pages.keys.toFinset ↔ (pages.pages.get? id).isSome := by
    intro id
    rw [mem_toFinset, OrdMap.mem_keys]
  refine ⟨ok_of_empty hframes rfl rfl rfl, ⟨hnodup, hmem, fun id h => ?_, fun id h => ?_, fun id h h' => ?_⟩,
    fun copy h => absurd h not_mem_nil, fun id h => ?_⟩
  · exact lt_of_lt_of_le (hall id h).1 (le_max_right _ _)
  · exact lt_of_lt_of_le (pages.below id ((hlive id).mp h)) (le_max_right _ _)
  · have hmissing := (hall id ((hmem id).mpr h')).2
    rw [PageFile.holds, OrdMap.contains, (hlive id).mp h] at hmissing
    cases hmissing
  · obtain ⟨page, hpage⟩ := Option.isSome_iff_exists.mp ((hlive id).mp h)
    dsimp only
    rw [current_of_image (by rw [hframes]; rfl) rfl, hpage]
    exact hpage

lemma blank_holds {s : PagedStore} (hs : Blank s) (capacity : Option Nat) (content : Nat → Page) :
    Holds (s.setCapacityBytes capacity) [] ⟨∅, content⟩ := by
  refine ⟨ok_of_empty hs.frames hs.dirtyFrames hs.slots hs.freeSlots,
    ⟨hs.noFree.1, hs.noFree.2.1, fun id h => absurd h (hs.noFree.2.2 id), fun id h => ?_,
      fun id h => ?_⟩, fun copy h => absurd h not_mem_nil, fun id h => ?_⟩
  all_goals exact absurd h (Finset.notMem_empty id)

lemma opened_holds (spill : Option (Option SpillSeal)) (image : Option PageFile)
    (capacity : Option Nat) :
    Holds (opened spill image capacity).store (opened spill image capacity).copies
      (opened spill image capacity).flat := by
  have hblank : Blank (spill.elim default fun sealWith =>
      sealWith.elim default.enableSpill default.enableSealedSpill) := by
    rcases spill with _ | _ | sealing <;> exact ⟨rfl, rfl, rfl, rfl, rfl, rfl⟩
  cases image with
  | none => exact blank_holds hblank capacity _
  | some pages => exact attach_holds hblank pages capacity

/-- No call runs out of its fuel. -/
lemma call_returns (h : Holds r.store r.copies r.flat) (event : Event R) :
    (r.call event).2.2 ≠ .unfinished := by
  have hof : ∀ {α : Type} {tell : α → Outcome R} {result : Option (Except Error α)},
      result.isSome → (∀ a, tell a ≠ .unfinished) → Outcome.of tell result ≠ .unfinished := by
    intro α tell result hsome htell
    rcases result with _ | err | a
    · cases hsome
    · intro h
      cases h
    · exact htell a
  have hread : ∀ io id, (r.store.readPage io id).2.isSome := by
    intro io id
    obtain ⟨result, hresult, -⟩ := h.ok.readPass_returns io id
    rw [h.ok.readPage_eq io id, hresult]
    rfl
  cases event with
  | allocatePage io =>
    refine hof ?_ fun _ h => by cases h
    have hzero := h.takeId.1.ok.zeroPage_returns io r.store.takeId.2
    unfold allocatePage
    dsimp only
    cases hresult : r.store.takeId.1.zeroPage io r.store.takeId.2 with
    | mk s result =>
      rw [hresult] at hzero
      rcases result with _ | err | ⟨⟨⟩⟩
      · cases hzero
      · rfl
      · rfl
  | readPage io id => exact hof (hread io id) fun _ h => by cases h
  | withPage io id f =>
    refine hof ?_ fun _ h => by cases h
    unfold withPage
    split
    · rfl
    · rw [Option.isSome_map]
      exact hread io id
  | writePage io id page => exact hof (h.ok.writePage_returns io id page) fun _ h => by cases h
  | modifyPage io id f => exact hof (h.ok.modifyPage_returns io id f) fun _ h => by cases h
  | deallocatePage id => exact hof rfl fun _ h => by cases h
  | load io id =>
    show (r.load io id).2.2 ≠ _
    unfold load
    split <;> intro h <;> cases h
  | insertCopy io n =>
    show (r.insertCopy io n).2.2 ≠ _
    unfold insertCopy
    split
    · intro h
      cases h
    · cases (r.store.insertCopy io _).2 <;> intro h <;> cases h
  | makeRoom | pickVictim | evict =>
    intro h
    cases h

/-- **Every call returns**, in every state a run reaches. -/
theorem calls_return (spill : Option (Option SpillSeal)) (image : Option PageFile)
    (capacity : Option Nat) (events : List (Event R)) (event : Event R) :
    (((opened spill image capacity).run events).call event).2.2 ≠ .unfinished :=
  call_returns (run_holds (opened_holds spill image capacity) events) event

/-- Whatever the calls, latches and failures, and however readers and evictions interleave: a read
or edit of a live page that succeeds sees the page last written to it, a new id is not a live one,
an id is free once, and the dirty frames are counted. -/
theorem paged_store_refines (spill : Option (Option SpillSeal)) (image : Option PageFile)
    (capacity : Option Nat) (events : List (Event R)) (event : Event R) :
    ((opened spill image capacity).run events).flat.Agrees event
        (((opened spill image capacity).run events).call event).2.2 ∧
      ((opened spill image capacity).run events).store.free.Nodup ∧
      ((opened spill image capacity).run events).store.dirtyFrames =
        ((opened spill image capacity).run events).store.frames.count Frame.dirty := by
  have h := run_holds (opened_holds spill image capacity) events
  exact ⟨(call_refines h event).2, h.ids.nodup, h.ok.counted⟩

end Run

end NusaDb.Pager
