import NusaDb.Lib.OrdMap
import NusaDb.Lib.SlotFile
import NusaDb.Wal.Writer

/-!
# The spill file

A file of page slots, and for each page its slot and the generation of the copy there. A write may
fail after storing part of its bytes, so no slot in use may be given to one. `Spill.Ok`: slots in
use are distinct and not free, generations only grow, and every registered copy reads back.
-/

namespace NusaDb.Pager

open List Option OrdMap

open NusaDb.Wal (Sealer SinkWrite)

def pageSize : Nat := 8192

structure Page where
  bytes : List Byte
  size : bytes.length = pageSize
  deriving DecidableEq

def Page.filled (b : Byte) : Page := ⟨List.replicate pageSize b, List.length_replicate⟩

def Page.zero : Page := Page.filled 0

def Page.ofBytes? (bytes : List Byte) : Option Page :=
  if h : bytes.length = pageSize then some ⟨bytes, h⟩ else none

lemma Page.ofBytes?_bytes (page : Page) : Page.ofBytes? page.bytes = some page := by
  rw [Page.ofBytes?, dif_pos page.size]

inductive Error where
  | notFound (text : String)
  | invalidData (text : String)
  | other (text : String)
  /-- The file system refused a read or a write. -/
  | device
  deriving DecidableEq, Repr

def sealOverhead : Nat := 12 + 16

/-- The sealer of the spill: its output is longer than the page by the nonce and the tag. -/
structure SpillSeal where
  sealer : Sealer
  length_seal : ∀ n aad plaintext bytes, sealer.sealInto n aad plaintext = some bytes →
    bytes.length = plaintext.length + sealOverhead

def spillAad (id generation : Nat) : List Byte := 5 :: leBytes 8 id ++ leBytes 8 generation

/-- Where a copy of a page handed to `insertFrame` came from. -/
inductive Source where
  /-- Written by the caller. -/
  | fresh
  | image
  /-- Read from the spill, with this generation. -/
  | spill (generation : Nat)
  deriving DecidableEq, Repr

structure Spill where
  file : Option (List Byte)
  /-- Page id to its slot and the generation of the copy written there. -/
  slots : OrdMap Nat (Nat × Nat)
  freeSlots : List Nat
  nextSlot : Nat
  nextGeneration : Nat
  failing : Bool
  sealWith : Option SpillSeal
  seals : Nat

namespace Spill

def default : Spill := ⟨none, OrdMap.empty, [], 0, 0, false, none, 0⟩

def slotBytes (s : Spill) : Nat := if s.sealWith.isSome then pageSize + sealOverhead else pageSize

def bodyOf (s : Spill) (id generation : Nat) (page : Page) : Spill × Except Error (List Byte) :=
  match s.sealWith with
  | none => (s, .ok page.bytes)
  | some sealing =>
    let s' := { s with seals := s.seals + 1 }
    match sealing.sealer.sealInto s.seals (spillAad id generation) page.bytes with
    | none => (s', .error (.other "encryption failed"))
    | some bytes => (s', .ok bytes)

def takeSlot (s : Spill) (id : Nat) : Spill × Nat :=
  match s.slots.get? id with
  | some (slot, _) => (s, slot)
  | none =>
    match s.freeSlots with
    | slot :: rest => ({ s with freeSlots := rest }, slot)
    | [] => ({ s with nextSlot := s.nextSlot + 1 }, s.nextSlot)

/-- Store `bytes` in `slot`; a slot taken for a write that fails goes back. -/
def store (s : Spill) (file : List Byte) (id generation slot : Nat) (isNew : Bool)
    (bytes : List Byte) : SinkWrite → Spill × Except Error Unit
  | .failed n =>
    ({ s with
        file := some (writeAt 0 file (slot * s.slotBytes) (bytes.take n))
        freeSlots := if isNew then slot :: s.freeSlots else s.freeSlots
        failing := true },
      .error .device)
  | .stored =>
    ({ s with
        file := some (writeAt 0 file (slot * s.slotBytes) bytes)
        failing := false
        nextGeneration := generation
        slots := s.slots.insert id (slot, generation) },
      .ok ())

def put (s : Spill) (id : Nat) (page : Page) (answer : SinkWrite) : Spill × Except Error Unit :=
  match s.file with
  | none => (s, .error (.other "no spill file"))
  | some file =>
    let generation := s.nextGeneration + 1
    let isNew := !s.slots.contains id
    match s.bodyOf id generation page with
    | (s, .error err) => (s, .error err)
    | (s, .ok bytes) => (s.takeSlot id).1.store file id generation (s.takeSlot id).2 isNew bytes answer

def openBody (s : Spill) (id generation : Nat) (bytes : List Byte) : Option Page :=
  match s.sealWith with
  | none => Page.ofBytes? bytes
  | some sealing => (sealing.sealer.openSealed (spillAad id generation) bytes).bind Page.ofBytes?

/-- The spilled copy of `id` and its generation, if there is one; `readable` says whether the file
system answers the read. -/
def get (s : Spill) (id : Nat) (readable : Bool) : Except Error (Option (Page × Nat)) :=
  match s.file, s.slots.get? id with
  | some file, some (slot, generation) =>
    match (if readable then readAt file (slot * s.slotBytes) s.slotBytes else none) with
    | none => .error .device
    | some bytes =>
      match s.openBody id generation bytes with
      | none =>
        .error (.invalidData ("page " ++ toString id ++ " in the spill file fails authentication"))
      | some page => .ok (some (page, generation))
  | _, _ => .ok none

/-- Whether a copy of `id` from `source` is still the latest one. -/
def admits (s : Spill) (id : Nat) : Source → Bool
  | .fresh => true
  | .image => !s.slots.contains id
  | .spill generation => (s.slots.get? id).any (fun entry => entry.2 == generation)

def remove (s : Spill) (id : Nat) : Spill :=
  match s.slots.get? id with
  | none => s
  | some (slot, _) => { s with slots := s.slots.erase id, freeSlots := slot :: s.freeSlots }

def clear (s : Spill) : Spill :=
  { s with slots := OrdMap.empty, freeSlots := [], nextSlot := 0, file := s.file.map fun _ => [] }

def copyIn (s : Spill) (id slot generation : Nat) : Option Page :=
  s.file.bind fun file =>
    (readAt file (slot * s.slotBytes) s.slotBytes).bind (s.openBody id generation)

def copyOf (s : Spill) (id : Nat) : Option Page :=
  (s.slots.get? id).bind fun entry => s.copyIn id entry.1 entry.2

structure Ok (s : Spill) : Prop where
  slot_lt : ∀ id slot generation, s.slots.get? id = some (slot, generation) → slot < s.nextSlot
  slot_inj : ∀ id id' slot generation generation', s.slots.get? id = some (slot, generation) →
    s.slots.get? id' = some (slot, generation') → id = id'
  free_lt : ∀ slot ∈ s.freeSlots, slot < s.nextSlot
  free_nodup : s.freeSlots.Nodup
  free_unused : ∀ id slot generation, s.slots.get? id = some (slot, generation) → slot ∉ s.freeSlots
  generation_le : ∀ id slot generation, s.slots.get? id = some (slot, generation) →
    generation ≤ s.nextGeneration
  copy_isSome : ∀ id, (s.slots.get? id).isSome → (s.copyOf id).isSome

variable {s : Spill}

lemma Ok.of_empty (hslots : s.slots = empty) (hfree : s.freeSlots = []) : s.Ok := by
  have hnone : ∀ id, s.slots.get? id = none := by
    intro id
    rw [hslots]
    rfl
  constructor
  · intro id slot generation h
    rw [hnone] at h
    cases h
  · intro id id' slot generation generation' h
    rw [hnone] at h
    cases h
  · intro slot h
    rw [hfree] at h
    cases h
  · rw [hfree]
    exact nodup_nil
  · intro id slot generation h
    rw [hnone] at h
    cases h
  · intro id slot generation h
    rw [hnone] at h
    cases h
  · intro id h
    rw [hnone] at h
    cases h

variable {slot generation : Nat}

lemma copyOf_eq {id : Nat} (h : s.slots.get? id = some (slot, generation)) :
    s.copyOf id = s.copyIn id slot generation := by
  rw [copyOf, h]
  rfl

lemma bodyOf_fst (s : Spill) (id generation : Nat) (page : Page) :
    ∃ n, (s.bodyOf id generation page).1 = { s with seals := n } := by
  unfold bodyOf
  split
  · exact ⟨s.seals, rfl⟩
  · split <;> exact ⟨s.seals + 1, rfl⟩

variable {s' : Spill} {page : Page} {bytes : List Byte}

lemma openBody_bodyOf {id : Nat} (h : s.bodyOf id generation page = (s', .ok bytes)) :
    bytes.length = s.slotBytes ∧ s.openBody id generation bytes = some page := by
  unfold bodyOf at h
  unfold slotBytes openBody
  cases hseal : s.sealWith with
  | none =>
    rw [hseal] at h
    cases h
    exact ⟨page.size, page.ofBytes?_bytes⟩
  | some sealing =>
    rw [hseal] at h
    dsimp only at h
    cases hbytes : sealing.sealer.sealInto s.seals (spillAad id generation) page.bytes with
    | none =>
      rw [hbytes] at h
      cases h
    | some sealed =>
      rw [hbytes] at h
      cases h
      refine ⟨(sealing.length_seal _ _ _ _ hbytes).trans (by rw [page.size]; rfl), ?_⟩
      dsimp only
      rw [sealing.sealer.open_seal _ _ _ _ hbytes]
      exact page.ofBytes?_bytes

/-- A slot that no copy is in and that no other write will be given. -/
structure Vacant (s : Spill) (slot : Nat) : Prop where
  lt : slot < s.nextSlot
  unused : ∀ id slot' generation, s.slots.get? id = some (slot', generation) → slot ≠ slot'
  not_free : slot ∉ s.freeSlots

lemma Ok.takeSlot (hok : s.Ok) (id : Nat) (hnew : s.slots.get? id = none) :
    ∃ free next, (s.takeSlot id).1 = { s with freeSlots := free, nextSlot := next } ∧
      (s.takeSlot id).1.Ok ∧ (s.takeSlot id).1.Vacant (s.takeSlot id).2 := by
  cases hfree : s.freeSlots with
  | nil =>
    have htake : s.takeSlot id = ({ s with nextSlot := s.nextSlot + 1 }, s.nextSlot) := by
      unfold Spill.takeSlot
      rw [hnew, hfree]
    rw [htake]
    refine ⟨s.freeSlots, s.nextSlot + 1, rfl, ⟨?_, hok.slot_inj, ?_, hok.free_nodup, hok.free_unused,
      hok.generation_le, hok.copy_isSome⟩, ⟨Nat.lt_succ_self _, ?_, ?_⟩⟩
    · intro id slot generation h
      exact Nat.lt_succ_of_lt (hok.slot_lt id slot generation h)
    · intro slot h
      exact Nat.lt_succ_of_lt (hok.free_lt slot h)
    · intro id slot' generation h
      exact (hok.slot_lt id slot' generation h).ne'
    · show s.nextSlot ∉ s.freeSlots
      rw [hfree]
      exact not_mem_nil
  | cons slot rest =>
    have htake : s.takeSlot id = ({ s with freeSlots := rest }, slot) := by
      unfold Spill.takeSlot
      rw [hnew, hfree]
    rw [htake]
    have hmem : slot ∈ s.freeSlots := hfree ▸ mem_cons_self
    have hnodup := hfree ▸ hok.free_nodup
    refine ⟨rest, s.nextSlot, rfl, ⟨hok.slot_lt, hok.slot_inj, ?_, (nodup_cons.mp hnodup).2, ?_,
      hok.generation_le, hok.copy_isSome⟩, ⟨hok.free_lt slot hmem, ?_, (nodup_cons.mp hnodup).1⟩⟩
    · intro slot' h
      exact hok.free_lt slot' (hfree ▸ mem_cons_of_mem _ h)
    · intro id slot' generation h hrest
      exact hok.free_unused id slot' generation h (hfree ▸ mem_cons_of_mem _ hrest)
    · intro id slot' generation h heq
      exact hok.free_unused id slot' generation h (heq ▸ hmem)

variable {file : List Byte}

lemma copyIn_writeAt {id slot' : Nat} (hfile : s.file = some file)
    (hcopy : s.copyIn id slot' generation = some page) (hne : slot ≠ slot')
    (hfits : bytes.length ≤ s.slotBytes) :
    (readAt (writeAt 0 file (slot * s.slotBytes) bytes) (slot' * s.slotBytes) s.slotBytes).bind
      (s.openBody id generation) = some page := by
  rw [copyIn, hfile, bind_some] at hcopy
  obtain ⟨old, hread, hopen⟩ := bind_eq_some_iff.mp hcopy
  rw [readAt_writeAt_slot hread hne hfits]
  exact hopen

structure Unchanged (s s' : Spill) : Prop where
  slots : s'.slots = s.slots
  generation : s'.nextGeneration = s.nextGeneration
  copy : ∀ id, s'.copyOf id = s.copyOf id

/-- What a write of `page` leaves: one more copy, with a generation of its own. -/
structure Stored (s s' : Spill) (id : Nat) (page : Page) : Prop where
  slots : ∃ slot, s'.slots = s.slots.insert id (slot, s.nextGeneration + 1)
  generation : s'.nextGeneration = s.nextGeneration + 1
  copy_self : s'.copyOf id = some page
  copy_other : ∀ id', id' ≠ id → s'.copyOf id' = s.copyOf id'

section

variable (hok : s.Ok) (hvacant : s.Vacant slot) (hfile : s.file = some file)

include hok hvacant hfile

lemma Ok.copyOf_vacant {id : Nat} (hfits : bytes.length ≤ s.slotBytes)
    (hfile' : s'.file = some (writeAt 0 file (slot * s.slotBytes) bytes))
    (hseal : s'.sealWith = s.sealWith) (hslot : s'.slots.get? id = s.slots.get? id) :
    s'.copyOf id = s.copyOf id := by
  have hwidth : s'.slotBytes = s.slotBytes := by unfold slotBytes; rw [hseal]
  have hopen : s'.openBody = s.openBody := by unfold openBody; rw [hseal]
  rcases hget : s.slots.get? id with _ | entry
  · rw [copyOf, copyOf, hslot, hget, bind_none, bind_none]
  obtain ⟨slot', generation⟩ := entry
  have hsome := hok.copy_isSome id (by rw [hget]; rfl)
  obtain ⟨page, hpage⟩ := isSome_iff_exists.mp hsome
  rw [copyOf_eq (hslot.trans hget), hpage, copyIn, hfile', bind_some, hwidth, hopen]
  rw [copyOf_eq hget] at hpage
  exact copyIn_writeAt hfile hpage (hvacant.unused id slot' generation hget) hfits

lemma Ok.store_failed
    (hfits : bytes.length ≤ s.slotBytes) (id generation n : Nat) :
    (s.store file id generation slot true bytes (.failed n)).1.Ok ∧
      Unchanged s (s.store file id generation slot true bytes (.failed n)).1 := by
  have hcopy : ∀ id', (s.store file id generation slot true bytes (.failed n)).1.copyOf id' =
      s.copyOf id' := by
    intro id'
    refine hok.copyOf_vacant hvacant hfile ?_ rfl rfl rfl
    rw [length_take]
    omega
  refine ⟨⟨hok.slot_lt, hok.slot_inj, ?_, ?_, ?_, hok.generation_le, ?_⟩, ⟨rfl, rfl, hcopy⟩⟩
  · intro slot' h
    rcases mem_cons.mp h with rfl | h
    · exact hvacant.lt
    · exact hok.free_lt slot' h
  · exact nodup_cons.mpr ⟨hvacant.not_free, hok.free_nodup⟩
  · intro id' slot' generation' hget h
    rcases mem_cons.mp h with rfl | h
    · exact hvacant.unused id' slot' generation' hget rfl
    · exact hok.free_unused id' slot' generation' hget h
  · intro id' h
    rw [hcopy]
    exact hok.copy_isSome id' h

/-- A stored copy opens to the page it was made of. -/
lemma Ok.store_stored {id : Nat} (hwidth : bytes.length = s.slotBytes)
    (hopen : s.openBody id (s.nextGeneration + 1) bytes = some page) :
    (s.store file id (s.nextGeneration + 1) slot true bytes .stored).1.Ok ∧
      Stored s (s.store file id (s.nextGeneration + 1) slot true bytes .stored).1 id page := by
  have hslots : (s.store file id (s.nextGeneration + 1) slot true bytes .stored).1.slots =
      s.slots.insert id (slot, s.nextGeneration + 1) := rfl
  have hself : (s.store file id (s.nextGeneration + 1) slot true bytes .stored).1.copyOf id =
      some page := by
    have hget := get?_insert_self s.slots id (slot, s.nextGeneration + 1)
    rw [copyOf_eq hget]
    show (readAt (writeAt 0 file (slot * s.slotBytes) bytes) (slot * s.slotBytes) s.slotBytes).bind
      (s.openBody id (s.nextGeneration + 1)) = some page
    rw [← hwidth, readAt_writeAt_self]
    exact hopen
  have hother : ∀ id', id' ≠ id →
      (s.store file id (s.nextGeneration + 1) slot true bytes .stored).1.copyOf id' = s.copyOf id' := by
    intro id' hne
    refine hok.copyOf_vacant hvacant hfile (le_of_eq hwidth) rfl rfl ?_
    rw [hslots, get?_insert, if_neg (Ne.symm hne)]
  -- an entry of the new map is the new one or an old one
  have hentry : ∀ id' slot' generation',
      (s.slots.insert id (slot, s.nextGeneration + 1)).get? id' = some (slot', generation') →
      (id' = id ∧ slot' = slot ∧ generation' = s.nextGeneration + 1) ∨
        (id' ≠ id ∧ s.slots.get? id' = some (slot', generation')) := by
    intro id' slot' generation' h
    rw [get?_insert] at h
    by_cases hid : id = id'
    · rw [if_pos hid] at h
      cases h
      exact .inl ⟨hid.symm, rfl, rfl⟩
    · rw [if_neg hid] at h
      exact .inr ⟨Ne.symm hid, h⟩
  refine ⟨⟨?_, ?_, hok.free_lt, hok.free_nodup, ?_, ?_, ?_⟩, ⟨⟨slot, hslots⟩, rfl, hself, hother⟩⟩
  · intro id' slot' generation' h
    obtain ⟨-, rfl, -⟩ | ⟨-, h⟩ := hentry id' slot' generation' h
    · exact hvacant.lt
    · exact hok.slot_lt id' slot' generation' h
  · intro id1 id2 slot' generation1 generation2 h1 h2
    obtain ⟨hid1, hslot1, -⟩ | ⟨-, hold1⟩ := hentry id1 slot' generation1 h1 <;>
      obtain ⟨hid2, hslot2, -⟩ | ⟨-, hold2⟩ := hentry id2 slot' generation2 h2
    · rw [hid1, hid2]
    · exact absurd hslot1.symm (hvacant.unused id2 slot' generation2 hold2)
    · exact absurd hslot2.symm (hvacant.unused id1 slot' generation1 hold1)
    · exact hok.slot_inj id1 id2 slot' generation1 generation2 hold1 hold2
  · intro id' slot' generation' h
    obtain ⟨-, rfl, -⟩ | ⟨-, h⟩ := hentry id' slot' generation' h
    · exact hvacant.not_free
    · exact hok.free_unused id' slot' generation' h
  · intro id' slot' generation' h
    obtain ⟨-, -, rfl⟩ | ⟨-, h⟩ := hentry id' slot' generation' h
    · exact le_rfl
    · exact Nat.le_succ_of_le (hok.generation_le id' slot' generation' h)
  · intro id' h
    by_cases hid : id' = id
    · rw [hid, hself]
      rfl
    rw [hother id' hid]
    rw [hslots, get?_insert, if_neg (Ne.symm hid)] at h
    exact hok.copy_isSome id' h

end

/-- A put stores the page, or fails and leaves every copy as it was. -/
lemma Ok.put (hok : s.Ok) {id : Nat} {answer : SinkWrite} {result : Except Error Unit}
    (hnew : s.slots.get? id = none) (h : s.put id page answer = (s', result)) :
    s'.Ok ∧ s'.file.isSome = s.file.isSome ∧
      ((∃ err, result = .error err) ∧ Unchanged s s' ∨ result = .ok () ∧ Stored s s' id page) := by
  unfold Spill.put at h
  cases hfile : s.file with
  | none =>
    rw [hfile] at h
    cases h
    exact ⟨hok, by rw [hfile], .inl ⟨⟨_, rfl⟩, ⟨rfl, rfl, fun _ => rfl⟩⟩⟩
  | some file =>
    rw [hfile] at h
    dsimp only at h
    obtain ⟨n, hn⟩ := s.bodyOf_fst id (s.nextGeneration + 1) page
    cases hbody : s.bodyOf id (s.nextGeneration + 1) page with
    | mk s1 body =>
      rw [hbody] at h hn
      subst hn
      have hok1 : Spill.Ok { s with seals := n } :=
        ⟨hok.slot_lt, hok.slot_inj, hok.free_lt, hok.free_nodup, hok.free_unused, hok.generation_le,
          hok.copy_isSome⟩
      cases body with
      | error err =>
        cases h
        exact ⟨hok1, hfile ▸ rfl, .inl ⟨⟨err, rfl⟩, ⟨rfl, rfl, fun _ => rfl⟩⟩⟩
      | ok bytes =>
        obtain ⟨hwidth, hopen⟩ := openBody_bodyOf hbody
        obtain ⟨free, next, htake, hok2, hvacant⟩ := hok1.takeSlot id hnew
        have hisNew : (!s.slots.contains id) = true := by
          rw [OrdMap.contains, hnew]
          rfl
        dsimp only at h
        rw [hisNew] at h
        generalize Spill.takeSlot { s with seals := n } id = taken at htake hok2 hvacant h
        obtain ⟨s2, slot⟩ := taken
        subst htake
        cases answer with
        | failed m =>
          have hspec := hok2.store_failed hvacant hfile (le_of_eq hwidth) id
            (s.nextGeneration + 1) m
          cases h
          exact ⟨hspec.1, rfl, .inl ⟨⟨_, rfl⟩, ⟨hspec.2.slots, hspec.2.generation, hspec.2.copy⟩⟩⟩
        | stored =>
          have hspec := hok2.store_stored hvacant hfile hwidth hopen
          cases h
          exact ⟨hspec.1, rfl, .inr ⟨rfl, ⟨hspec.2.slots, hspec.2.generation, hspec.2.copy_self,
            hspec.2.copy_other⟩⟩⟩

/-- Removing a page frees its slot and touches no other copy. -/
lemma Ok.remove (hok : s.Ok) (id : Nat) :
    (s.remove id).Ok ∧ (s.remove id).slots = s.slots.erase id ∧
      (s.remove id).nextGeneration = s.nextGeneration ∧
      ∀ id', id' ≠ id → (s.remove id).copyOf id' = s.copyOf id' := by
  unfold Spill.remove
  cases hget : s.slots.get? id with
  | none =>
    exact ⟨hok, (erase_eq_self hget).symm, rfl, fun _ _ => rfl⟩
  | some entry =>
    obtain ⟨slot, generation⟩ := entry
    have hold : ∀ id' entry, (s.slots.erase id).get? id' = some entry →
        id ≠ id' ∧ s.slots.get? id' = some entry := by
      intro id' entry h
      rw [get?_erase] at h
      split at h
      case isTrue => cases h
      case isFalse hne => exact ⟨hne, h⟩
    have hcopy : ∀ id', id' ≠ id →
        copyOf { s with slots := s.slots.erase id, freeSlots := slot :: s.freeSlots } id' =
          s.copyOf id' := by
      intro id' hne
      show ((s.slots.erase id).get? id').bind _ = (s.slots.get? id').bind _
      rw [get?_erase, if_neg (Ne.symm hne)]
      rfl
    refine ⟨⟨?_, ?_, ?_, ?_, ?_, ?_, ?_⟩, rfl, rfl, hcopy⟩
    · intro id' slot' generation' h
      exact hok.slot_lt id' slot' generation' (hold id' _ h).2
    · intro id1 id2 slot' generation1 generation2 h1 h2
      exact hok.slot_inj id1 id2 slot' generation1 generation2 (hold id1 _ h1).2 (hold id2 _ h2).2
    · intro slot' h
      rcases mem_cons.mp h with rfl | h
      · exact hok.slot_lt id slot' generation hget
      · exact hok.free_lt slot' h
    · exact nodup_cons.mpr ⟨hok.free_unused id slot generation hget, hok.free_nodup⟩
    · intro id' slot' generation' h hmem
      obtain ⟨hne, hget'⟩ := hold id' _ h
      rcases mem_cons.mp hmem with rfl | hmem
      · exact hne (hok.slot_inj id id' slot' generation generation' hget hget')
      · exact hok.free_unused id' slot' generation' hget' hmem
    · intro id' slot' generation' h
      exact hok.generation_le id' slot' generation' (hold id' _ h).2
    · intro id' h
      obtain ⟨entry, hentry⟩ := isSome_iff_exists.mp h
      obtain ⟨hne, hget'⟩ := hold id' entry hentry
      rw [hcopy id' (Ne.symm hne)]
      exact hok.copy_isSome id' (by rw [hget']; rfl)

lemma get_eq_some {id : Nat} {readable : Bool}
    (h : s.get id readable = .ok (some (page, generation))) :
    ∃ slot, s.slots.get? id = some (slot, generation) ∧ s.copyOf id = some page := by
  unfold get at h
  split at h
  case h_2 => cases h
  case h_1 file slot generation' hfile hslot =>
    split at h
    case h_1 => cases h
    case h_2 bytes hread =>
      split at h
      case h_1 => cases h
      case h_2 page' hopen =>
        cases h
        refine ⟨slot, hslot, ?_⟩
        rw [copyOf_eq hslot, copyIn, hfile, bind_some]
        split at hread
        case isTrue => rw [hread, bind_some, hopen]
        case isFalse => cases hread

lemma Ok.get_eq_none (hok : s.Ok) {id : Nat} {readable : Bool} (h : s.get id readable = .ok none) :
    s.slots.get? id = none := by
  rcases hslot : s.slots.get? id with _ | entry
  · rfl
  have hcopy := hok.copy_isSome id (by rw [hslot]; rfl)
  rw [copyOf, hslot, bind_some, copyIn] at hcopy
  cases hfile : s.file with
  | none =>
    rw [hfile] at hcopy
    cases hcopy
  | some file =>
    unfold get at h
    rw [hfile, hslot] at h
    dsimp only at h
    split at h
    case h_1 => cases h
    split at h
    case h_1 => cases h
    case h_2 => cases h

end Spill

end NusaDb.Pager
