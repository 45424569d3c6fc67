import NusaDb.Pager.Shuffle

/-!
# What each call does to the pages

A read only rearranges the cache and returns the page's current copy; a write, an edit in place or
an allocation makes one page current under one id and touches no other.
-/

namespace NusaDb.Pager

open Option OrdMap Bool

/-- `page` has become the page of `id`; no other page and no id has changed. -/
structure Writes (s s' : PagedStore) (id : Nat) (page : Page) : Prop where
  nextId : s'.nextId = s.nextId
  free : s'.free = s.free
  freeSet : s'.freeSet = s.freeSet
  file : s'.file = s.file
  self : s'.current id = some page
  other : ∀ id', id' ≠ id → s'.current id' = s.current id'
  copies : ∀ copy, Copy.Ok s copy → Copy.Ok s' copy

variable {page : Page}

lemma Rearranged.writes {s1 s2 s3 : PagedStore} {id : Nat} (h : Rearranged s1 s2)
    (h' : Writes s2 s3 id page) : Writes s1 s3 id page :=
  ⟨h'.nextId.trans h.nextId, h'.free.trans h.free, h'.freeSet.trans h.freeSet, h'.file.trans h.file,
    h'.self, fun id' hne => (h'.other id' hne).trans (h.current id'),
    fun copy hc => h'.copies copy (h.copies copy hc)⟩

lemma Writes.rearranged {s1 s2 s3 : PagedStore} {id : Nat} (h : Writes s1 s2 id page)
    (h' : Rearranged s2 s3) : Writes s1 s3 id page :=
  ⟨h'.nextId.trans h.nextId, h'.free.trans h.free, h'.freeSet.trans h.freeSet, h'.file.trans h.file,
    (h'.current id).trans h.self, fun id' hne => (h'.current id').trans (h.other id' hne),
    fun copy hc => h'.copies copy (h.copies copy hc)⟩

variable {s : PagedStore}

lemma Writes.of_current {s' : PagedStore} {id : Nat} (h : Writes s s' id page)
    (hcurrent : s.current id = some page) : Rearranged s s' := by
  refine ⟨h.nextId, h.free, h.freeSet, h.file, fun id' => ?_, h.copies⟩
  by_cases hid : id' = id
  · rw [hid, h.self, hcurrent]
  · exact h.other id' hid

namespace PagedStore

lemma pushClock_eq (s : PagedStore) (id : Nat) : ∃ clock, s.pushClock id = { s with clock } := by
  unfold pushClock
  dsimp only
  split_ifs
  · exact ⟨_, rfl⟩
  · exact ⟨_, rfl⟩
  · exact ⟨s.clock, rfl⟩

variable {s : PagedStore}

lemma Ok.register (hok : s.Ok) (id : Nat) (page : Page) (dirty : Bool)
    (hframe : s.frames.get? id = none) (hclean : dirty = false → s.imagePage id = some page) :
    (s.register id page dirty).Ok ∧ Writes s (s.register id page dirty) id page := by
  obtain ⟨hspill, hslots, hgeneration, hcopy⟩ := hok.spill.remove id
  have hget : ∀ id', (s.register id page dirty).frames.get? id' =
      if id = id' then some ⟨page, dirty, true⟩ else s.frames.get? id' :=
    fun id' => get?_insert _ _ _ _
  have hslot : ∀ id', (s.register id page dirty).spill.slots.get? id' =
      if id = id' then none else s.spill.slots.get? id' := by
    intro id'
    show (s.spill.remove id).slots.get? id' = _
    rw [hslots, get?_erase]
  refine ⟨⟨hspill, ?_, ?_, ?_⟩, ⟨rfl, rfl, rfl, rfl, ?_, fun id' hne => ?_, fun copy hc => ?_⟩⟩
  · intro id' frame h
    rw [hget] at h
    rw [hslot]
    split_ifs at h ⊢
    · rfl
    · exact hok.apart id' frame h
  · intro id' frame h hdirty
    rw [hget] at h
    split_ifs at h with heq
    · cases h
      exact heq ▸ hclean hdirty
    · exact hok.clean id' frame h hdirty
  · show s.dirtyFrames + dirty.toNat = (s.frames.insert id ⟨page, dirty, true⟩).count Frame.dirty
    rw [count_insert, erase_eq_self hframe, hok.counted]
  · exact current_of_resident ((hget id).trans (if_pos rfl))
  · refine current_congr ?_ ?_ (hcopy id' hne) rfl
    · rw [hget, if_neg (Ne.symm hne)]
    · rw [hslot, if_neg (Ne.symm hne)]
  · refine hc.mono rfl (le_of_eq hgeneration.symm) fun id' slot generation _ h => ?_
    rw [hslot] at h
    split_ifs at h with heq
    exact ⟨h, hcopy id' (Ne.symm heq)⟩

lemma insertFrame_cases (s : PagedStore) (io : Io) (id : Nat) (page : Page) (dirty : Bool)
    (source : Source) :
    (s.insertFrame io id page dirty source = (s.makeRoom io, false) ∧
      ((s.makeRoom io).frames.get? id ≠ none ∨ (s.makeRoom io).spill.admits id source = false)) ∨
    (s.insertFrame io id page dirty source =
        (((s.makeRoom io).register id page dirty).pushClock id, true) ∧
      (s.makeRoom io).frames.get? id = none ∧ (s.makeRoom io).spill.admits id source = true) := by
  unfold insertFrame
  dsimp only
  cases hframe : (s.makeRoom io).frames.get? id with
  | some frame =>
    left
    have hcontains : (s.makeRoom io).frames.contains id = true := by
      rw [contains, hframe]
      rfl
    rw [hcontains, Bool.true_or, if_pos rfl]
    exact ⟨rfl, .inl (some_ne_none frame)⟩
  | none =>
    have hcontains : (s.makeRoom io).frames.contains id = false := by
      rw [contains, hframe]
      rfl
    rw [hcontains, Bool.false_or]
    cases hadmits : (s.makeRoom io).spill.admits id source with
    | false => exact .inl ⟨rfl, .inr rfl⟩
    | true => exact .inr ⟨rfl, rfl, rfl⟩

lemma Ok.registered (hok : s.Ok) (id : Nat) (page : Page) (dirty : Bool)
    (hframe : s.frames.get? id = none) (hclean : dirty = false → s.imagePage id = some page) :
    ((s.register id page dirty).pushClock id).Ok ∧
      Writes s ((s.register id page dirty).pushClock id) id page := by
  obtain ⟨hreg, hwrites⟩ := hok.register id page dirty hframe hclean
  obtain ⟨clock, hclock⟩ := (s.register id page dirty).pushClock_eq id
  rw [hclock]
  obtain ⟨hok', hsame⟩ := (Shuffle.clock clock).sound hreg
  exact ⟨hok', hwrites.rearranged hsame⟩

lemma Ok.insertFrame_fresh {s' : PagedStore} (hok : s.Ok) {io : Io} {id : Nat} {page : Page}
    {inserted : Bool} (h : s.insertFrame io id page true .fresh = (s', inserted)) :
    s'.Ok ∧ (inserted = false ∧ Rearranged s s' ∨ inserted = true ∧ Writes s s' id page) := by
  obtain ⟨hroom, hsame⟩ := Shuffles.sound (s.makeRoom_shuffles io) hok
  obtain ⟨heq, -⟩ | ⟨heq, hframe, -⟩ := s.insertFrame_cases io id page true .fresh
  · rw [heq] at h
    cases h
    exact ⟨hroom, .inl ⟨rfl, hsame⟩⟩
  rw [heq] at h
  cases h
  have hclean : true = false → (s.makeRoom io).imagePage id = some page := by
    intro h
    cases h
  obtain ⟨hok', hwrites⟩ := hroom.registered id page true hframe hclean
  exact ⟨hok', .inr ⟨rfl, hsame.writes hwrites⟩⟩

end PagedStore

lemma Copy.Ok.current_of_admits {copy : Copy} (h : Copy.Ok s copy)
    (hframe : s.frames.get? copy.id = none) (hadmits : s.spill.admits copy.id copy.source = true) :
    s.current copy.id = some copy.page := by
  cases h with
  | @image id page hpage =>
    have hslot : s.spill.slots.get? id = none := by
      rw [Spill.admits, contains, not_eq_true', isSome_eq_false_iff] at hadmits
      exact isNone_iff_eq_none.mp hadmits
    exact (PagedStore.current_of_image hframe hslot).trans hpage
  | @spilled id page generation _ hpage =>
    rw [Spill.admits] at hadmits
    cases hslot : s.spill.slots.get? id with
    | none =>
      rw [hslot] at hadmits
      cases hadmits
    | some entry =>
      rw [hslot, any_some, beq_iff_eq] at hadmits
      obtain ⟨slot, generation'⟩ := entry
      cases hadmits
      exact (PagedStore.current_of_spilled hframe hslot).trans (hpage slot hslot)

lemma Copy.Ok.clean {copy : Copy} (h : Copy.Ok s copy) (hclean : copy.dirty = false) :
    s.imagePage copy.id = some copy.page := by
  cases h with
  | image hpage => exact hpage
  | spilled => cases hclean

namespace PagedStore

variable {s : PagedStore}

lemma Ok.insertCopy (hok : s.Ok) {copy : Copy} (hcopy : Copy.Ok s copy) (io : Io) :
    (s.insertCopy io copy).1.Ok ∧ Rearranged s (s.insertCopy io copy).1 ∧
      ∀ page, (s.insertCopy io copy).2 = some page → s.current copy.id = some page := by
  obtain ⟨hroom, hsame⟩ := Shuffles.sound (s.makeRoom_shuffles io) hok
  have hcopy' := hsame.copies copy hcopy
  unfold PagedStore.insertCopy
  obtain ⟨heq, -⟩ | ⟨heq, hframe, hadmits⟩ :=
    s.insertFrame_cases io copy.id copy.page copy.dirty copy.source
  · rw [heq]
    refine ⟨hroom, hsame, fun page h => ?_⟩
    cases h
  rw [heq]
  have hcurrent := hcopy'.current_of_admits hframe hadmits
  obtain ⟨hok', hwrites⟩ := hroom.registered copy.id copy.page copy.dirty hframe hcopy'.clean
  refine ⟨hok', hsame.trans (hwrites.of_current hcurrent), fun page h => ?_⟩
  cases h
  exact (hsame.current copy.id).symm.trans hcurrent

inductive Loads (s : PagedStore) (id : Nat) : PagedStore → Except Error Loaded → Prop
  | failed (err : Error) : Loads s id s (.error err)
  | resident {frame : Frame} (hframe : s.frames.get? id = some frame) :
    Loads s id (s.reference id frame) (.ok (.resident frame.data))
  /-- A good copy, which is still the latest. -/
  | copy {copy : Copy} (hid : copy.id = id) (hgood : Copy.Ok s copy)
    (hframe : s.frames.get? id = none) (hadmits : s.spill.admits id copy.source = true) :
    Loads s id s (.ok (.copy copy))

variable {result : Except Error Loaded}

/-- A load finds the page in the cache or in the file, or fails and changes nothing. -/
lemma Ok.loads {s' : PagedStore} (hok : s.Ok) {io : Io} {id : Nat}
    (h : s.load io id = (s', result)) : Loads s id s' result := by
  unfold load locate at h
  cases hframe : s.frames.get? id with
  | some frame =>
    rw [hframe] at h
    cases h
    exact .resident hframe
  | none =>
    rw [hframe] at h
    cases hget : s.spill.get id io.spillRead with
    | error err =>
      rw [hget] at h
      cases h
      exact .failed err
    | ok found =>
      rw [hget] at h
      cases found with
      | some entry =>
        obtain ⟨page, generation⟩ := entry
        split_ifs at h
        · cases h
          exact .failed _
        cases h
        obtain ⟨slot, hslot, hcopy⟩ := Spill.get_eq_some hget
        refine .copy rfl (.spilled (hok.spill.generation_le id slot generation hslot)
          fun _ _ => hcopy) hframe ?_
        rw [Spill.admits, hslot]
        exact beq_self_eq_true generation
      | none =>
        split_ifs at h
        · cases h
          exact .failed _
        unfold imageCopy at h
        cases hpage : s.imagePage id with
        | none =>
          rw [imagePage] at hpage
          rw [hpage] at h
          cases h
          exact .failed _
        | some page =>
          have himage := hpage
          rw [imagePage] at hpage
          rw [hpage] at h
          split_ifs at h
          · cases h
            refine .copy rfl (.image himage) hframe ?_
            rw [Spill.admits, contains, hok.spill.get_eq_none hget]
            rfl
          · cases h
            exact .failed _

lemma Loads.sound {s' : PagedStore} {id : Nat} (h : Loads s id s' result) (hok : s.Ok) :
    s'.Ok ∧ Rearranged s s' := by
  cases h with
  | failed | copy => exact ⟨hok, .refl s⟩
  | resident hframe => exact hok.setReferenced hframe true

/-- The rule for the calls' loops: what a pass does the loop does, when a pass that goes round again
has changed no page. -/
lemma Ok.retry {α : Type} (body : PagedStore → PagedStore × Option α)
    (spec : PagedStore → PagedStore → Option α → Prop)
    (hpass : ∀ s, s.Ok → spec s (body s).1 (body s).2)
    (hagain : ∀ s s', spec s s' none ↔ s'.Ok ∧ Rearranged s s')
    (hbefore : ∀ s1 s2 s3 result, Rearranged s1 s2 → spec s2 s3 result → spec s1 s3 result)
    (hok : s.Ok) (passes : Nat) :
    spec s (Pager.retry body passes s).1 (Pager.retry body passes s).2 := by
  induction passes generalizing s with
  | zero => exact (hagain s s).mpr ⟨hok, .refl s⟩
  | succ passes ih =>
    have hfirst := hpass s hok
    rw [Pager.retry]
    cases hbody : body s with
    | mk s' result =>
      rw [hbody] at hfirst
      cases result with
      | some a => exact hfirst
      | none =>
        obtain ⟨hok', hsame⟩ := (hagain s s').mp hfirst
        exact hbefore s s' _ _ hsame (ih hok')

structure ReadsOnly (s s' : PagedStore) (id : Nat) (result : Option (Except Error Page)) : Prop where
  ok : s'.Ok
  rearranged : Rearranged s s'
  page : ∀ page, result = some (.ok page) → s.current id = some page

lemma Ok.readPass (hok : s.Ok) (io : Io) (id : Nat) :
    ReadsOnly s (readPass io id s).1 id (readPass io id s).2 := by
  unfold PagedStore.readPass
  cases hload : s.load io id with
  | mk s1 loaded =>
    have hloads := hok.loads hload
    obtain ⟨hok1, hsame⟩ := hloads.sound hok
    cases hloads with
    | failed err =>
      refine ⟨hok, hsame, fun page h => ?_⟩
      cases h
    | resident hframe =>
      refine ⟨hok1, hsame, fun page h => ?_⟩
      cases h
      exact current_of_resident hframe
    | @copy copy hid hgood hframe hadmits =>
      subst hid
      obtain ⟨hok2, hsame2, hpage⟩ := hok.insertCopy hgood io
      refine ⟨hok2, hsame2, fun page h => ?_⟩
      obtain ⟨page', hpage', heq⟩ := map_eq_some_iff.mp h
      cases heq
      exact hpage page hpage'

lemma Ok.readPage (hok : s.Ok) (io : Io) (id : Nat) :
    ReadsOnly s (s.readPage io id).1 id (s.readPage io id).2 := by
  refine Ok.retry (PagedStore.readPass io id) (fun s s' => ReadsOnly s s' id)
    (fun s hok => hok.readPass io id) (fun s s' => ?_) (fun s1 s2 s3 result h h' => ?_) hok callPasses
  · refine ⟨fun h => ⟨h.ok, h.rearranged⟩, fun h => ⟨h.1, h.2, fun page h => ?_⟩⟩
    cases h
  · exact ⟨h'.ok, h.trans h'.rearranged, fun page hp =>
      (h.current id).symm.trans (h'.page page hp)⟩

lemma Ok.overwrite (hok : s.Ok) {id : Nat} {frame : Frame}
    (hframe : s.frames.get? id = some frame) {page : Page} {changed : Bool}
    (hkeeps : changed = false → page = frame.data) :
    (s.overwrite id frame page changed).Ok ∧ Writes s (s.overwrite id frame page changed) id page := by
  have hget : ∀ id', (s.overwrite id frame page changed).frames.get? id' =
      if id = id' then some ⟨page, frame.dirty || changed, true⟩ else s.frames.get? id' :=
    fun id' => get?_insert _ _ _ _
  refine ⟨⟨hok.spill, ?_, ?_, ?_⟩, ⟨rfl, rfl, rfl, rfl, ?_, fun id' hne => ?_, fun copy hc => ?_⟩⟩
  · intro id' frame' h
    rw [hget] at h
    split_ifs at h with heq
    · exact hok.apart id' frame (heq ▸ hframe)
    · exact hok.apart id' frame' h
  · intro id' frame' h hclean
    rw [hget] at h
    split_ifs at h with heq
    · cases h
      obtain ⟨hdirty, hchanged⟩ := or_eq_false_iff.mp hclean
      rw [hkeeps hchanged]
      exact heq ▸ hok.clean id frame hframe hdirty
    · exact hok.clean id' frame' h hclean
  · show s.dirtyFrames + (changed && !frame.dirty).toNat =
      (s.frames.insert id ⟨page, frame.dirty || changed, true⟩).count Frame.dirty
    rw [count_insert, hok.counted, count_of_some hframe]
    show _ = _ + (frame.dirty || changed).toNat
    cases frame.dirty <;> cases changed <;> rfl
  · exact current_of_resident ((hget id).trans (if_pos rfl))
  · refine current_congr ?_ rfl rfl rfl
    rw [hget, if_neg (Ne.symm hne)]
  · exact hc.mono rfl (le_rfl) fun _ _ _ _ hslot => ⟨hslot, rfl⟩

/-- What a call that writes one page leaves: the page is written, or nothing has changed. -/
structure WritesOr (s s' : PagedStore) (id : Nat) (page : Page) (result : Option (Except Error Unit)) :
    Prop where
  ok : s'.Ok
  written : result = some (.ok ()) → Writes s s' id page
  unwritten : result ≠ some (.ok ()) → Rearranged s s'

lemma Ok.writePass (hok : s.Ok) (io : Io) (id : Nat) (page : Page) :
    WritesOr s (writePass io id page s).1 id page (writePass io id page s).2 := by
  unfold PagedStore.writePass
  cases hframe : s.frames.get? id with
  | some frame =>
    have hkeeps : true = false → page = frame.data := by
      intro h
      cases h
    obtain ⟨hok', hwrites⟩ := hok.overwrite hframe hkeeps
    exact ⟨hok', fun _ => hwrites, fun h => absurd rfl h⟩
  | none =>
    cases hinsert : s.insertFrame io id page true .fresh with
    | mk s1 inserted =>
      obtain ⟨hok', ⟨rfl, hsame⟩ | ⟨rfl, hwrites⟩⟩ := hok.insertFrame_fresh hinsert
      · refine ⟨hok', fun h => ?_, fun _ => hsame⟩
        cases h
      · exact ⟨hok', fun _ => hwrites, fun h => absurd rfl h⟩

lemma Ok.writePage (hok : s.Ok) (io : Io) (id : Nat) (page : Page) :
    WritesOr s (s.writePage io id page).1 id page (s.writePage io id page).2 := by
  unfold PagedStore.writePage
  split_ifs
  · refine ⟨hok, fun h => ?_, fun _ => .refl s⟩
    cases h
  refine Ok.retry (PagedStore.writePass io id page) (fun s s' => WritesOr s s' id page)
    (fun s hok => hok.writePass io id page) (fun s s' => ?_) (fun s1 s2 s3 result h h' => ?_)
    hok callPasses
  · refine ⟨fun h => ⟨h.ok, h.unwritten (some_ne_none _).symm⟩,
      fun h => ⟨h.1, fun h => ?_, fun _ => h.2⟩⟩
    cases h
  · exact ⟨h'.ok, fun hr => h.writes (h'.written hr), fun hr => h.trans (h'.unwritten hr)⟩

/-- What an edit in place leaves: it saw the current page and its result is written, or nothing has
changed. -/
structure Edits {R : Type} (s s' : PagedStore) (id : Nat) (f : PageEdit R)
    (result : Option (Except Error R)) : Prop where
  ok : s'.Ok
  edited : ∀ out, result = some (.ok out) → ∃ page, s.current id = some page ∧
    out = (f.run page).2.1 ∧ Writes s s' id (f.run page).1
  unedited : (∀ out, result ≠ some (.ok out)) → Rearranged s s'

variable {R : Type}

section

variable (hok : s.Ok) (io : Io) (id : Nat)

include hok

lemma Ok.modifyPass (f : PageEdit R) :
    Edits s (modifyPass io id f s).1 id f (modifyPass io id f s).2 := by
  unfold PagedStore.modifyPass
  cases hframe : s.frames.get? id with
  | some frame =>
    obtain ⟨hok', hwrites⟩ := hok.overwrite hframe (f.keeps frame.data)
    refine ⟨hok', fun out h => ⟨frame.data, current_of_resident hframe, ?_, hwrites⟩, fun h => ?_⟩
    · cases h
      rfl
    · exact absurd rfl (h _)
  | none =>
    have hread := hok.readPage io id
    dsimp only
    split
    case h_1 s' err h =>
      rw [h] at hread
      refine ⟨hread.ok, fun out h => ?_, fun _ => hread.rearranged⟩
      cases h
    case h_2 s' result _ h =>
      rw [h] at hread
      refine ⟨hread.ok, fun out h => ?_, fun _ => hread.rearranged⟩
      cases h

lemma Ok.modifyPage (f : PageEdit R) :
    Edits s (s.modifyPage io id f).1 id f (s.modifyPage io id f).2 := by
  unfold PagedStore.modifyPage
  split_ifs
  · refine ⟨hok, fun out h => ?_, fun _ => .refl s⟩
    cases h
  refine Ok.retry (PagedStore.modifyPass io id f) (fun s s' => Edits s s' id f)
    (fun s hok => hok.modifyPass io id f) (fun s s' => ?_) (fun s1 s2 s3 result h h' => ?_)
    hok callPasses
  · refine ⟨fun h => ⟨h.ok, h.unedited fun out => (some_ne_none _).symm⟩,
      fun h => ⟨h.1, fun out h => ?_, fun _ => h.2⟩⟩
    cases h
  · refine ⟨h'.ok, fun out hr => ?_, fun hr => h.trans (h'.unedited hr)⟩
    obtain ⟨page, hcurrent, hout, hwrites⟩ := h'.edited out hr
    exact ⟨page, (h.current id).symm.trans hcurrent, hout, h.writes hwrites⟩

lemma Ok.zeroPage : WritesOr s (s.zeroPage io id).1 id .zero (s.zeroPage io id).2 := by
  unfold PagedStore.zeroPage
  cases hinsert : s.insertFrame io id .zero true .fresh with
  | mk s1 inserted =>
    obtain ⟨hok', ⟨rfl, hsame⟩ | ⟨rfl, hwrites⟩⟩ := hok.insertFrame_fresh hinsert
    · have hwrite := hok'.writePage io id .zero
      exact ⟨hwrite.ok, fun h => hsame.writes (hwrite.written h), fun h =>
        hsame.trans (hwrite.unwritten h)⟩
    · exact ⟨hok', fun _ => hwrites, fun h => absurd rfl h⟩

end

def dropPage (s : PagedStore) (id : Nat) : PagedStore :=
  { s.dropFrame id with spill := (s.dropFrame id).spill.remove id }

lemma deallocatePage_eq (s : PagedStore) (id : Nat) : s.deallocatePage id =
    if s.nextId ≤ id then (s, .error (badPage id)) else ((s.dropPage id).giveBack id, .ok ()) := rfl

lemma Ok.dropFrame_eq (hok : s.Ok) (id : Nat) : s.dropFrame id =
    { s with
      frames := s.frames.erase id
      dirtyFrames := (s.frames.erase id).count Frame.dirty } := by
  unfold dropFrame
  cases hframe : s.frames.get? id with
  | none =>
    rw [erase_eq_self hframe, ← hok.counted]
  | some frame =>
    dsimp only
    rw [hok.counted, count_of_some hframe, Nat.add_sub_cancel]

lemma Ok.dropPage (hok : s.Ok) (id : Nat) :
    (s.dropPage id).Ok ∧ (∀ id', id' ≠ id → (s.dropPage id).current id' = s.current id') ∧
      ∀ copy, Copy.Ok s copy → Copy.Ok (s.dropPage id) copy := by
  obtain ⟨hspill, hslots, hgeneration, hcopy⟩ := hok.spill.remove id
  unfold PagedStore.dropPage
  rw [hok.dropFrame_eq id]
  refine ⟨⟨hspill, ?_, ?_, rfl⟩, fun id' hne => ?_, fun copy hc => ?_⟩
  · intro id' frame h
    obtain ⟨hne, h⟩ := erase_get? h
    show (s.spill.remove id).slots.get? id' = none
    rw [hslots, get?_erase, if_neg hne]
    exact hok.apart id' frame h
  · intro id' frame h
    exact hok.clean id' frame (erase_get? h).2
  · refine current_congr ?_ ?_ (hcopy id' hne) rfl
    · show ((s.frames.erase id).get? id').map Frame.data = _
      rw [get?_erase, if_neg (Ne.symm hne)]
    · show (s.spill.remove id).slots.get? id' = _
      rw [hslots, get?_erase, if_neg (Ne.symm hne)]
  · refine hc.mono rfl (le_of_eq hgeneration.symm) fun id' slot generation _ h => ?_
    rw [show (s.spill.remove id).slots = _ from hslots, get?_erase] at h
    split_ifs at h with heq
    exact ⟨h, hcopy id' (Ne.symm heq)⟩

/-! ### The calls return -/

lemma retry_isSome {α : Type} {body : PagedStore → PagedStore × Option α} (h : (body s).2.isSome)
    (passes : Nat) : retry body (passes + 1) s = body s := by
  rw [Pager.retry]
  cases hbody : body s with
  | mk s' result =>
    rw [hbody] at h
    cases result with
    | some a => rfl
    | none => cases h

lemma Ok.insertFrame_outside (hok : s.Ok) (io : Io) {id : Nat} (page : Page) (dirty : Bool)
    {source : Source} (hframe : s.frames.get? id = none) (hadmits : s.spill.admits id source = true) :
    s.insertFrame io id page dirty source =
      (((s.makeRoom io).register id page dirty).pushClock id, true) := by
  obtain ⟨hframe', hslot⟩ := Shuffles.outside (s.makeRoom_shuffles io) hok hframe
  have hadmits' : (s.makeRoom io).spill.admits id source = true := by
    rw [← hadmits]
    cases source <;> simp only [Spill.admits, contains, hslot]
  obtain ⟨-, hout | hout⟩ | ⟨heq, -, -⟩ := s.insertFrame_cases io id page dirty source
  · exact absurd hframe' hout
  · rw [hadmits'] at hout
    cases hout
  · exact heq

variable (hok : s.Ok) (io : Io) (id : Nat)

include hok

lemma Ok.readPass_returns :
    ∃ result, (PagedStore.readPass io id s).2 = some result ∧ ∀ page, result = .ok page →
      ((PagedStore.readPass io id s).1.frames.get? id).isSome := by
  unfold PagedStore.readPass
  cases hload : s.load io id with
  | mk s1 loaded =>
    cases hok.loads hload with
    | failed err =>
      refine ⟨_, rfl, fun page h => ?_⟩
      cases h
    | resident hframe =>
      refine ⟨_, rfl, fun page _ => ?_⟩
      show ((s.frames.insert id _).get? id).isSome
      rw [get?_insert_self]
      rfl
    | @copy copy hid hgood hframe hadmits =>
      subst hid
      have hinsert := hok.insertFrame_outside io copy.page copy.dirty hframe hadmits
      dsimp only
      unfold PagedStore.insertCopy
      rw [hinsert]
      refine ⟨_, rfl, fun page _ => ?_⟩
      obtain ⟨clock, hclock⟩ :=
        ((s.makeRoom io).register copy.id copy.page copy.dirty).pushClock_eq copy.id
      rw [hclock]
      show (((s.makeRoom io).frames.insert copy.id _).get? copy.id).isSome
      rw [get?_insert_self]
      rfl

lemma Ok.readPage_eq : s.readPage io id = PagedStore.readPass io id s := by
  obtain ⟨result, hresult, -⟩ := hok.readPass_returns io id
  exact retry_isSome (by rw [hresult]; rfl) 1

lemma Ok.writePass_returns (page : Page) : (PagedStore.writePass io id page s).2.isSome := by
  unfold PagedStore.writePass
  cases hframe : s.frames.get? id with
  | some frame => rfl
  | none =>
    rw [hok.insertFrame_outside io page true hframe rfl]
    rfl

/-- The retry loop of an edit ends: after a pass that loads the page, the next one finds it. -/
lemma Ok.modifyPage_returns (f : PageEdit R) : (s.modifyPage io id f).2.isSome := by
  have hresident : ∀ s' : PagedStore, (s'.frames.get? id).isSome → (PagedStore.modifyPass io id f s').2.isSome := by
    intro s' h
    obtain ⟨frame, hframe⟩ := isSome_iff_exists.mp h
    unfold PagedStore.modifyPass
    rw [hframe]
    rfl
  unfold PagedStore.modifyPage
  split_ifs
  · rfl
  cases hframe : s.frames.get? id with
  | some frame =>
    have hpass := hresident s (by rw [hframe]; rfl)
    rw [callPasses, retry_isSome hpass]
    exact hpass
  | none =>
    -- the first pass loads the page or fails; the second finds it resident
    obtain ⟨result, hresult, hloaded⟩ := hok.readPass_returns io id
    cases hread : PagedStore.readPass io id s with
    | mk s' result' =>
      rw [hread] at hresult hloaded
      subst hresult
      have hpage : s.readPage io id = (s', some result) := (hok.readPage_eq io id).trans hread
      cases result with
      | error err =>
        have hpass : PagedStore.modifyPass io id f s = (s', some (.error err)) := by
          unfold PagedStore.modifyPass
          rw [hframe, hpage]
        rw [callPasses, retry_isSome (by rw [hpass]; rfl), hpass]
        rfl
      | ok page =>
        have hpass : PagedStore.modifyPass io id f s = (s', none) := by
          unfold PagedStore.modifyPass
          rw [hframe, hpage]
        have hnext := hresident s' (hloaded page rfl)
        rw [callPasses, Pager.retry, hpass]
        dsimp only
        rw [retry_isSome hnext]
        exact hnext

lemma Ok.writePage_returns (page : Page) : (s.writePage io id page).2.isSome := by
  unfold PagedStore.writePage
  split_ifs
  · rfl
  have hpass := hok.writePass_returns io id page
  rw [callPasses, retry_isSome hpass]
  exact hpass

lemma Ok.zeroPage_returns : (s.zeroPage io id).2.isSome := by
  unfold PagedStore.zeroPage
  cases hinsert : s.insertFrame io id .zero true .fresh with
  | mk s1 inserted =>
    obtain ⟨hok1, -⟩ := hok.insertFrame_fresh hinsert
    cases inserted with
    | true => rfl
    | false => exact hok1.writePage_returns io id .zero

end PagedStore

end NusaDb.Pager
