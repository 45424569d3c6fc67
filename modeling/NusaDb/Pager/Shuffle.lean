import NusaDb.Pager.PagedStore

/-!
# What eviction can do to the cache

Sweeps, evictions and `makeRoom` only rearrange where pages are. `Shuffle` lists the single moves
they are made of.
-/

namespace NusaDb.Pager

open Option OrdMap Bool

open NusaDb.Wal (SinkWrite)
open Relation (ReflTransGen)
open PagedStore

inductive Shuffle (s : PagedStore) : PagedStore → Prop
  | clock (clock : List Nat) : Shuffle s { s with clock }
  | unreference {id : Nat} {frame : Frame} (hframe : s.frames.get? id = some frame) :
    Shuffle s { s with frames := s.frames.insert id { frame with referenced := false } }
  | drop {id : Nat} {frame : Frame} (hframe : s.frames.get? id = some frame)
    (hclean : frame.dirty = false) : Shuffle s { s with frames := s.frames.erase id }
  | spillFailed {id : Nat} {frame : Frame} {answer : SinkWrite} {spill : Spill} {err : Error}
    (hframe : s.frames.get? id = some frame)
    (hput : s.spill.put id frame.data answer = (spill, .error err)) : Shuffle s { s with spill }
  /-- A dirty frame leaves through the spill. -/
  | spilled {id : Nat} {frame : Frame} {answer : SinkWrite} {spill : Spill}
    (hframe : s.frames.get? id = some frame) (hdirty : frame.dirty = true)
    (hput : s.spill.put id frame.data answer = (spill, .ok ())) :
    Shuffle s { s with
      spill, dirtyFrames := s.dirtyFrames - 1, frames := s.frames.erase id }

abbrev Shuffles : PagedStore → PagedStore → Prop := ReflTransGen Shuffle

namespace PagedStore

lemma sweep_shuffles (io : Io) (pass : Nat) (policy : DirtyPolicy) (limit : Nat) (s : PagedStore)
    (fallback : Option Nat) : Shuffles s (sweep io pass policy limit s fallback).1 := by
  induction limit generalizing s fallback with
  | zero => exact .refl
  | succ limit ih =>
    unfold sweep
    split
    case h_1 => exact .refl
    case h_2 id clock _ =>
      split
      case h_1 => exact .head (.clock clock) (ih _ _)
      case h_2 frame hframe =>
        split_ifs
        · exact .head (.clock _) (ih _ _)
        · exact .head (.unreference hframe) (.head (.clock _) (ih _ _))
        · exact .head (.clock _) (ih _ _)
        · exact .single (.clock _)
        · exact .head (.clock clock) (ih _ _)
        · exact .head (.clock _) (ih _ _)

variable (s : PagedStore) (io : Io) (pass : Nat)

lemma spillVictim_shuffles {id : Nat} {frame : Frame}
    (hframe : s.frames.get? id = some frame) (hdirty : frame.dirty = true) :
    Shuffles s (s.spillVictim io pass id frame).1 := by
  unfold spillVictim
  split
  case h_1 spill err hput => exact .head (.spillFailed hframe hput) (.single (.clock _))
  case h_2 spill hput => exact .single (.spilled hframe hdirty hput)

lemma evict_shuffles (victim : Victim) : Shuffles s (s.evict io pass victim).1 := by
  unfold evict
  split
  case h_1 => exact .refl
  case h_2 frame hframe =>
    split_ifs with hlatched hdirty
    · exact .single (.clock _)
    · exact s.spillVictim_shuffles io pass hframe hdirty
    · exact .single (.clock _)
    · exact .single (.drop hframe (eq_false_iff.mpr hdirty))

lemma attempt_shuffles (pass limit : Nat) (policy : DirtyPolicy)
    (bounded : Bool) : Shuffles s (s.attempt io pass limit policy bounded).1 := by
  have hsweep := sweep_shuffles io pass policy limit s none
  unfold attempt pickVictim
  split
  case h_1 s' victim h =>
    rw [h] at hsweep
    exact hsweep.trans (s'.evict_shuffles io pass victim)
  case h_2 s' h =>
    rw [h] at hsweep
    exact hsweep

lemma makeRoomPass_shuffles (spillFailed : Bool) :
    Shuffles s (s.makeRoomPass io pass spillFailed).1 := by
  unfold makeRoomPass
  dsimp only
  split
  case isTrue => exact .refl
  split
  case isTrue => exact .refl
  case isFalse => exact s.attempt_shuffles io pass _ _ _

lemma makeRoomLoop_shuffles (fuel pass retries : Nat) (spillFailed : Bool)
    (s : PagedStore) : Shuffles s (makeRoomLoop io fuel pass retries spillFailed s) := by
  induction fuel generalizing pass retries spillFailed s with
  | zero => exact .refl
  | succ fuel ih =>
    have hpass := s.makeRoomPass_shuffles io pass spillFailed
    unfold makeRoomLoop
    split
    case h_1 s' h =>
      rw [h] at hpass
      exact hpass
    case h_2 s' bounded h =>
      rw [h] at hpass
      exact hpass.trans (ih _ _ _ s')
    case h_3 s' bounded h =>
      rw [h] at hpass
      split_ifs
      · exact hpass
      · exact hpass.trans (ih _ _ _ s')
    case h_4 s' bounded h =>
      rw [h] at hpass
      split_ifs
      · exact hpass.trans (ih _ _ _ s')
      · exact hpass

lemma makeRoom_shuffles : Shuffles s (s.makeRoom io) := by
  unfold makeRoom
  split_ifs
  · exact .refl
  · exact makeRoomLoop_shuffles io _ 0 0 false s

def len (s : PagedStore) : Nat := s.frames.count fun _ => true

lemma len_eq : s.frames.toList.length = s.len := length_toList s.frames

/-- The clock's sweep evicts nothing itself; its victim is a cached page. -/
lemma sweep_len (policy : DirtyPolicy) (limit : Nat) (s : PagedStore)
    (fallback : Option Nat) (hfallback : ∀ id ∈ fallback, (s.frames.get? id).isSome) :
    (sweep io pass policy limit s fallback).1.len = s.len ∧
      ∀ victim ∈ (sweep io pass policy limit s fallback).2,
        ((sweep io pass policy limit s fallback).1.frames.get? victim.id).isSome := by
  induction limit generalizing s fallback with
  | zero => simpa [sweep] using hfallback
  | succ limit ih =>
    unfold sweep
    split
    case h_1 => simpa using hfallback
    case h_2 id clock _ =>
      split
      case h_1 => exact ih { s with clock } fallback hfallback
      case h_2 frame hframe =>
        have hresident : (s.frames.get? id).isSome := by
          rw [hframe]
          rfl
        split_ifs
        · exact ih { s with clock := clock ++ [id] } fallback hfallback
        · have hkept : ∀ id', (s.frames.get? id').isSome →
              ((s.frames.insert id { frame with referenced := false }).get? id').isSome := by
            intro id' h
            rw [get?_insert]
            split
            · rfl
            · exact h
          have hlen : (s.frames.insert id { frame with referenced := false }).count (fun _ => true) =
              s.frames.count fun _ => true := by
            rw [count_insert, count_of_some hframe]
          obtain ⟨hlen', hvictim⟩ := ih { s with
              clock := clock ++ [id]
              frames := s.frames.insert id { frame with referenced := false } } fallback
            fun id' h => hkept id' (hfallback id' h)
          exact ⟨hlen'.trans hlen, hvictim⟩
        · exact ih { s with clock := clock ++ [id] } fallback hfallback
        · refine ⟨rfl, fun victim h => ?_⟩
          cases h
          exact hresident
        · refine ih { s with clock } (some id) fun id' h => ?_
          cases h
          exact hresident
        · exact ih { s with clock := clock ++ [id] } fallback hfallback

lemma evict_len (victim : Victim) : (s.evict io pass victim).1.len ≤ s.len ∧
      ((s.frames.get? victim.id).isSome → (s.evict io pass victim).2 = .done →
        (s.evict io pass victim).1.len < s.len) := by
  unfold evict
  rcases hframe : s.frames.get? victim.id with _ | frame
  · exact ⟨le_rfl, fun h => absurd h false_ne_true⟩
  have herase : (s.frames.erase victim.id).count (fun _ => true) < s.len := by
    rw [len, count_of_some hframe]
    exact Nat.lt_succ_self _
  dsimp only
  split_ifs
  · exact ⟨le_rfl, fun _ h => by cases h⟩
  · unfold spillVictim
    split
    · exact ⟨le_rfl, fun _ h => by cases h⟩
    · exact ⟨le_of_lt herase, fun _ _ => herase⟩
  · exact ⟨le_rfl, fun _ h => by cases h⟩
  · exact ⟨le_of_lt herase, fun _ _ => herase⟩

/-- How many passes `makeRoom` can still make. -/
def passesLeft (s : PagedStore) (retries : Nat) (spillFailed : Bool) : Nat :=
  s.len + (evictRetries - retries) + (!spillFailed).toNat

variable {outcome : Eviction}

lemma attempt_len {s s' : PagedStore} {io : Io} {pass limit : Nat} {policy : DirtyPolicy}
    {bounded bounded' : Bool}
    (h : s.attempt io pass limit policy bounded = (s', some (outcome, bounded'))) :
    s'.len ≤ s.len ∧ (outcome = .done → s'.len < s.len) ∧ bounded' = bounded := by
  obtain ⟨hlen, hvictim⟩ := sweep_len io pass policy limit s none fun _ h => by cases h
  unfold attempt pickVictim at h
  cases hsweep : sweep io pass policy limit s none with
  | mk s1 victim =>
    rw [hsweep] at h hlen hvictim
    cases victim with
    | some victim =>
      cases h
      obtain ⟨hle, hlt⟩ := s1.evict_len io pass victim
      rw [← hlen]
      exact ⟨hle, hlt (hvictim victim rfl), rfl⟩
    | none =>
      split_ifs at h with hb
      · cases h
        exact ⟨le_of_eq hlen, fun h => (by cases h), rfl⟩
      · cases h

lemma makeRoomPass_len {s s' : PagedStore} {io : Io} {pass : Nat} {spillFailed bounded : Bool}
    (h : s.makeRoomPass io pass spillFailed = (s', some (outcome, bounded))) :
    s'.len ≤ s.len ∧ (outcome = .done → s'.len < s.len) ∧ (bounded = true → spillFailed = false) := by
  unfold makeRoomPass at h
  dsimp only at h
  split at h
  case isTrue => cases h
  split at h
  case isTrue => cases h
  obtain ⟨hle, hlt, hbounded⟩ := attempt_len h
  refine ⟨hle, hlt, fun hb => ?_⟩
  rw [hbounded, and_eq_true, not_eq_true'] at hb
  exact hb.2

lemma makeRoomLoop_succ {fuel : Nat} (pass retries : Nat) (spillFailed : Bool)
    (s : PagedStore) (h : s.passesLeft retries spillFailed < fuel) :
    makeRoomLoop io (fuel + 1) pass retries spillFailed s =
      makeRoomLoop io fuel pass retries spillFailed s := by
  induction fuel generalizing pass retries spillFailed s with
  | zero => exact absurd h (Nat.not_lt_zero _)
  | succ fuel ih =>
    rw [makeRoomLoop, makeRoomLoop]
    cases hpass : s.makeRoomPass io pass spillFailed with
    | mk s' result =>
      unfold passesLeft at h
      rcases result with _ | ⟨outcome, bounded⟩
      · rfl
      obtain ⟨hle, hlt, hbounded⟩ := makeRoomPass_len hpass
      cases outcome with
      | done =>
        have hless := hlt rfl
        refine ih _ _ _ s' ?_
        unfold passesLeft
        omega
      | busy =>
        split_ifs
        · rfl
        refine ih _ _ _ s' ?_
        unfold passesLeft
        omega
      | spillFailed =>
        dsimp only
        split_ifs with hb
        · refine ih _ _ _ s' ?_
          rw [hbounded hb] at h
          unfold passesLeft
          simp only [Bool.not_false, Bool.toNat_true, Bool.not_true, Bool.toNat_false] at h ⊢
          omega
        · rfl

/-- **`make_room` ends**: rounds beyond those it is given change nothing. -/
theorem makeRoom_ends (more : Nat) : s.makeRoom io = if s.capacityFrames = 0 then s else
    makeRoomLoop io (s.frames.toList.length + evictRetries + 3 + more) 0 0 false s := by
  unfold makeRoom
  induction more with
  | zero => rfl
  | succ more ih =>
    rw [ih, ← add_assoc, makeRoomLoop_succ]
    rw [passesLeft, len_eq, Bool.not_false, Bool.toNat_true]
    omega

end PagedStore

namespace PagedStore

def imagePage (s : PagedStore) (id : Nat) : Option Page :=
  s.file.bind fun pages => pages.pages.get? id

/-- The copy of `id` that counts: the resident one, else the spilled one, else the image's. -/
def current (s : PagedStore) (id : Nat) : Option Page :=
  match s.frames.get? id with
  | some frame => some frame.data
  | none =>
    match s.spill.slots.get? id with
    | some _ => s.spill.copyOf id
    | none => s.imagePage id

variable {s : PagedStore}

lemma current_of_resident {id : Nat} {frame : Frame} (h : s.frames.get? id = some frame) :
    s.current id = some frame.data := by
  rw [current, h]

lemma current_of_spilled {id : Nat} {entry : Nat × Nat} (hframe : s.frames.get? id = none)
    (hslot : s.spill.slots.get? id = some entry) : s.current id = s.spill.copyOf id := by
  rw [current, hframe, hslot]

lemma current_of_image {id : Nat} (hframe : s.frames.get? id = none)
    (hslot : s.spill.slots.get? id = none) : s.current id = s.imagePage id := by
  rw [current, hframe, hslot]

lemma current_congr {s' : PagedStore} {id : Nat}
    (hframe : (s'.frames.get? id).map Frame.data = (s.frames.get? id).map Frame.data)
    (hslot : s'.spill.slots.get? id = s.spill.slots.get? id)
    (hcopy : s'.spill.copyOf id = s.spill.copyOf id) (hfile : s'.file = s.file) :
    s'.current id = s.current id := by
  cases hget : s.frames.get? id with
  | some frame =>
    rw [hget, map_some] at hframe
    obtain ⟨frame', hget', hdata⟩ := map_eq_some_iff.mp hframe
    rw [current_of_resident hget, current_of_resident hget', hdata]
  | none =>
    rw [hget, map_none, map_eq_none_iff] at hframe
    cases hentry : s.spill.slots.get? id with
    | some entry =>
      rw [current_of_spilled hget hentry, current_of_spilled hframe (hslot.trans hentry), hcopy]
    | none =>
      rw [current_of_image hget hentry, current_of_image hframe (hslot.trans hentry), imagePage,
        imagePage, hfile]

/-- A page is resident or spilled but not both, a clean frame is the image's page, and the dirty
frames are counted. -/
structure Ok (s : PagedStore) : Prop where
  spill : s.spill.Ok
  apart : ∀ id frame, s.frames.get? id = some frame → s.spill.slots.get? id = none
  clean : ∀ id frame, s.frames.get? id = some frame → frame.dirty = false →
    s.imagePage id = some frame.data
  counted : s.dirtyFrames = s.frames.count Frame.dirty

end PagedStore

/-- A copy found outside the cache: the image's, or one whose generation tells whether it is still
the latest. -/
inductive Copy.Ok (s : PagedStore) : Copy → Prop
  | image {id : Nat} {page : Page} (hpage : s.imagePage id = some page) :
    Copy.Ok s ⟨id, page, false, .image⟩
  | spilled {id : Nat} {page : Page} {generation : Nat} (hle : generation ≤ s.spill.nextGeneration)
    (hpage : ∀ slot, s.spill.slots.get? id = some (slot, generation) → s.spill.copyOf id = some page) :
    Copy.Ok s ⟨id, page, true, .spill generation⟩

structure Rearranged (s s' : PagedStore) : Prop where
  nextId : s'.nextId = s.nextId
  free : s'.free = s.free
  freeSet : s'.freeSet = s.freeSet
  file : s'.file = s.file
  current : ∀ id, s'.current id = s.current id
  copies : ∀ copy, Copy.Ok s copy → Copy.Ok s' copy

namespace Rearranged

lemma refl (s : PagedStore) : Rearranged s s :=
  ⟨rfl, rfl, rfl, rfl, fun _ => rfl, fun _ h => h⟩

lemma trans {s1 s2 s3 : PagedStore} (h : Rearranged s1 s2) (h' : Rearranged s2 s3) :
    Rearranged s1 s3 :=
  ⟨h'.nextId.trans h.nextId, h'.free.trans h.free, h'.freeSet.trans h.freeSet, h'.file.trans h.file,
    fun id => (h'.current id).trans (h.current id), fun copy hc => h'.copies copy (h.copies copy hc)⟩

end Rearranged

variable {s s' : PagedStore}

lemma Copy.Ok.mono {copy : Copy} (h : Copy.Ok s copy) (hfile : s'.file = s.file)
    (hle : s.spill.nextGeneration ≤ s'.spill.nextGeneration)
    (hslot : ∀ id slot generation, generation ≤ s.spill.nextGeneration →
      s'.spill.slots.get? id = some (slot, generation) →
      s.spill.slots.get? id = some (slot, generation) ∧ s'.spill.copyOf id = s.spill.copyOf id) :
    Copy.Ok s' copy := by
  cases h with
  | image hpage =>
    refine .image ?_
    rw [imagePage, hfile]
    exact hpage
  | spilled hgeneration hpage =>
    refine .spilled (hgeneration.trans hle) fun slot h => ?_
    obtain ⟨hold, hcopy⟩ := hslot _ _ _ hgeneration h
    rw [hcopy]
    exact hpage slot hold

lemma PagedStore.Ok.setReferenced (hok : s.Ok) {id : Nat} {frame : Frame}
    (hframe : s.frames.get? id = some frame) (referenced : Bool) :
    Ok { s with frames := s.frames.insert id { frame with referenced } } ∧
      Rearranged s { s with frames := s.frames.insert id { frame with referenced } } := by
  have hget : ∀ id' frame', (s.frames.insert id { frame with referenced }).get? id' = some frame' →
      ∃ old, s.frames.get? id' = some old ∧ old.data = frame'.data ∧ old.dirty = frame'.dirty := by
    intro id' frame' h
    rw [get?_insert] at h
    split at h
    case isTrue heq =>
      cases h
      exact ⟨frame, heq ▸ hframe, rfl, rfl⟩
    case isFalse => exact ⟨frame', h, rfl, rfl⟩
  refine ⟨⟨hok.spill, ?_, ?_, ?_⟩, ⟨rfl, rfl, rfl, rfl, fun id' => ?_, fun copy h => ?_⟩⟩
  · intro id' frame' h
    obtain ⟨old, hold, -⟩ := hget id' frame' h
    exact hok.apart id' old hold
  · intro id' frame' h hclean
    obtain ⟨old, hold, hdata, hdirty⟩ := hget id' frame' h
    exact (hok.clean id' old hold (hdirty.trans hclean)).trans (by rw [hdata])
  · show s.dirtyFrames = (s.frames.insert id { frame with referenced }).count Frame.dirty
    rw [count_insert, hok.counted, count_of_some hframe]
  · refine current_congr ?_ rfl rfl rfl
    show ((s.frames.insert id { frame with referenced }).get? id').map Frame.data = _
    rw [get?_insert]
    split
    case isTrue heq =>
      rw [← heq, hframe]
      rfl
    case isFalse => rfl
  · exact h.mono rfl (le_rfl) fun _ _ _ _ hslot => ⟨hslot, rfl⟩

lemma PagedStore.erase_get? {id id' : Nat} {frame : Frame}
    (h : (s.frames.erase id).get? id' = some frame) :
    id ≠ id' ∧ s.frames.get? id' = some frame := by
  rw [get?_erase] at h
  split at h
  case isTrue => cases h
  case isFalse hne => exact ⟨hne, h⟩

/-- Whatever moves between cache and spill file, every page reads as before. -/
lemma Shuffle.sound (h : Shuffle s s') (hok : s.Ok) : s'.Ok ∧ Rearranged s s' := by
  cases h with
  | clock clock =>
    exact ⟨⟨hok.spill, hok.apart, hok.clean, hok.counted⟩, ⟨rfl, rfl, rfl, rfl, fun _ => rfl,
      fun copy hc => hc.mono rfl (le_rfl) fun _ _ _ _ hslot => ⟨hslot, rfl⟩⟩⟩
  | unreference hframe => exact hok.setReferenced hframe false
  | @drop id frame hframe hclean =>
    refine ⟨⟨hok.spill, ?_, ?_, ?_⟩, ⟨rfl, rfl, rfl, rfl, fun id' => ?_, fun copy hc =>
      hc.mono rfl (le_rfl) fun _ _ _ _ hslot => ⟨hslot, rfl⟩⟩⟩
    · intro id' frame' h
      exact hok.apart id' frame' (erase_get? h).2
    · intro id' frame' h
      exact hok.clean id' frame' (erase_get? h).2
    · show s.dirtyFrames = (s.frames.erase id).count Frame.dirty
      rw [hok.counted, count_of_some hframe, hclean]
      rfl
    · by_cases heq : id = id'
      · -- the page that leaves is the image's, and it is not spilled
        subst heq
        rw [current_of_resident hframe, ← hok.clean id frame hframe hclean]
        exact current_of_image (get?_erase_self _ _) (hok.apart id frame hframe)
      · refine current_congr ?_ rfl rfl rfl
        show ((s.frames.erase id).get? id').map Frame.data = _
        rw [get?_erase, if_neg heq]
  | @spillFailed id frame answer spill err hframe hput =>
    obtain ⟨hspill, -, ⟨-, hsame⟩ | ⟨hresult, -⟩⟩ := hok.spill.put (hok.apart id frame hframe) hput
    · refine ⟨⟨hspill, ?_, hok.clean, hok.counted⟩, ⟨rfl, rfl, rfl, rfl, fun id' => ?_,
        fun copy hc => ?_⟩⟩
      · intro id' frame' h
        show spill.slots.get? id' = none
        rw [hsame.slots]
        exact hok.apart id' frame' h
      · exact current_congr rfl (by rw [hsame.slots]) (hsame.copy id') rfl
      · refine hc.mono rfl (le_of_eq hsame.generation.symm) fun id' slot generation _ h => ?_
        rw [hsame.slots] at h
        exact ⟨h, hsame.copy id'⟩
    · cases hresult
  | @spilled id frame answer spill hframe hdirty hput =>
    obtain ⟨hspill, -, ⟨⟨err, hresult⟩, -⟩ | ⟨-, hstored⟩⟩ :=
      hok.spill.put (hok.apart id frame hframe) hput
    · cases hresult
    obtain ⟨slot, hslots⟩ := hstored.slots
    refine ⟨⟨hspill, ?_, ?_, ?_⟩, ⟨rfl, rfl, rfl, rfl, fun id' => ?_, fun copy hc => ?_⟩⟩
    · intro id' frame' h
      obtain ⟨hne, h⟩ := erase_get? h
      show spill.slots.get? id' = none
      rw [hslots, get?_insert, if_neg hne]
      exact hok.apart id' frame' h
    · intro id' frame' h
      exact hok.clean id' frame' (erase_get? h).2
    · show s.dirtyFrames - 1 = (s.frames.erase id).count Frame.dirty
      rw [hok.counted, count_of_some hframe, hdirty]
      rfl
    · by_cases heq : id = id'
      · subst heq
        have hslot : spill.slots.get? id = some (slot, s.spill.nextGeneration + 1) := by
          rw [hslots, get?_insert_self]
        rw [current_of_resident hframe, ← hstored.copy_self]
        exact current_of_spilled (get?_erase_self _ _) hslot
      · refine current_congr ?_ ?_ (hstored.copy_other id' (Ne.symm heq)) rfl
        · show ((s.frames.erase id).get? id').map Frame.data = _
          rw [get?_erase, if_neg heq]
        · show spill.slots.get? id' = _
          rw [hslots, get?_insert, if_neg heq]
    · refine hc.mono rfl (by rw [hstored.generation]; exact Nat.le_succ _) ?_
      intro id' slot' generation hle h
      -- the copy just written has a generation no older copy has
      rw [show spill.slots = _ from hslots, get?_insert] at h
      split at h
      case isTrue =>
        cases h
        exact absurd hle (Nat.not_succ_le_self _)
      case isFalse hne => exact ⟨h, hstored.copy_other id' (Ne.symm hne)⟩

lemma Shuffles.sound (h : Shuffles s s') (hok : s.Ok) : s'.Ok ∧ Rearranged s s' := by
  induction h with
  | refl => exact ⟨hok, .refl s⟩
  | tail _ hstep ih =>
    obtain ⟨hok', hsame⟩ := hstep.sound ih.1
    exact ⟨hok', ih.2.trans hsame⟩

lemma Shuffle.outside (h : Shuffle s s') (hok : s.Ok) {id : Nat} (hid : s.frames.get? id = none) :
    s'.frames.get? id = none ∧ s'.spill.slots.get? id = s.spill.slots.get? id := by
  have hne : ∀ id' frame, s.frames.get? id' = some frame → id' ≠ id := by
    rintro id' frame hframe rfl
    rw [hid] at hframe
    cases hframe
  cases h with
  | clock clock => exact ⟨hid, rfl⟩
  | unreference hframe =>
    refine ⟨?_, rfl⟩
    show (s.frames.insert _ _).get? id = none
    rw [get?_insert, if_neg (hne _ _ hframe), hid]
  | drop hframe _ =>
    refine ⟨?_, rfl⟩
    show (s.frames.erase _).get? id = none
    rw [get?_erase, if_neg (hne _ _ hframe), hid]
  | @spillFailed id' frame answer spill err hframe hput =>
    obtain ⟨-, -, ⟨-, hsame⟩ | ⟨hresult, -⟩⟩ := hok.spill.put (hok.apart id' frame hframe) hput
    · exact ⟨hid, by rw [hsame.slots]⟩
    · cases hresult
  | @spilled id' frame answer spill hframe hdirty hput =>
    obtain ⟨-, -, ⟨⟨err, hresult⟩, -⟩ | ⟨-, hstored⟩⟩ :=
      hok.spill.put (hok.apart id' frame hframe) hput
    · cases hresult
    obtain ⟨slot, hslots⟩ := hstored.slots
    constructor
    · show (s.frames.erase _).get? id = none
      rw [get?_erase, if_neg (hne _ _ hframe), hid]
    · show spill.slots.get? id = _
      rw [hslots, get?_insert, if_neg (hne _ _ hframe)]

lemma Shuffles.outside (h : Shuffles s s') (hok : s.Ok) {id : Nat} (hid : s.frames.get? id = none) :
    s'.frames.get? id = none ∧ s'.spill.slots.get? id = s.spill.slots.get? id := by
  induction h with
  | refl => exact ⟨hid, rfl⟩
  | tail hmoves hstep ih =>
    obtain ⟨hframe, hslot⟩ := hstep.outside (Shuffles.sound hmoves hok).1 ih.1
    exact ⟨hframe, hslot.trans ih.2⟩

end NusaDb.Pager
