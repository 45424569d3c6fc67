import Mathlib.Data.List.Infix

/-!
# `LIKE` matching

Where subject and pattern part, `like_match` goes back to the last percent alone, with one character
more of the subject given to it. No match is lost: what stands between two percents takes as many
characters as it has marks, so where a later place of the earlier percent leads to a match, the
later percent has a place for it too (`Behind.within`).

`Reads` and `Matches` say what a pattern stands for without the matcher: its pieces are read off
from left to right, and each stands for its part of the subject. `likeMatch_iff` compares the two.
-/

namespace NusaDb.Sql.Like

open List

/-- A character of the pattern, and whether it is escaped. -/
abbrev Mark := Char × Bool

/-- The pattern as marks (`pat`); an escape character with nothing after it escapes nothing. -/
def expand (escape : Option Char) : List Char → List Mark
  | [] => []
  | [c] => [(c, false)]
  | c :: d :: raw =>
    if some c = escape then (d, true) :: expand escape raw
    else (c, false) :: expand escape (d :: raw)

def isWild (w : Char) (c : Mark) : Bool := c == (w, false)

/-- `lower` is `char::to_lowercase`, of which nothing is assumed. -/
def charEq (lower : Char → List Char) (caseInsensitive : Bool) (p s : Char) : Bool :=
  p == s || (caseInsensitive && lower p == lower s)

variable (eq : Char → Char → Bool)

def takes (c : Mark) (s : Char) : Bool := isWild '_' c || eq c.1 s

/-- Since the last percent, tried at `star.1` and followed by `star.2`, as many characters as marks
have been passed, and no other percent. -/
def Behind (text : List Char) (pat : List Mark) (star : List Char × List Mark) : Prop :=
  ∃ passed seg, star.1 = passed ++ text ∧ star.2 = seg ++ pat ∧ passed.length = seg.length ∧
    ∀ c ∈ seg, ¬isWild '%' c

variable {text raw : List Char} {pat : List Mark} {s : Char} {c : Mark} {star : List Char × List Mark}
  {escape : Option Char}

lemma behind_here (text : List Char) (pat : List Mark) :
    ∀ star ∈ some (text, pat), Behind text pat star := by
  rintro _ ⟨⟩
  exact ⟨[], [], rfl, rfl, rfl, forall_mem_nil _⟩

lemma Behind.cons (hc : ¬isWild '%' c) (h : Behind (s :: text) (c :: pat) star) :
    Behind text pat star := by
  obtain ⟨passed, seg, htext, hpat, hlen, hseg⟩ := h
  refine ⟨passed ++ [s], seg ++ [c], by simp [htext], by simp [hpat], by simp [hlen], ?_⟩
  intro d hd
  rcases mem_append.mp hd with hd | hd
  · exact hseg d hd
  · exact mem_singleton.mp hd ▸ hc

lemma Behind.length_le (h : Behind text pat star) : pat.length ≤ star.2.length := by
  obtain ⟨_, seg, -, hpat, -⟩ := h
  simp [hpat]

lemma Behind.tail_lt (h : Behind (s :: text) pat star) : star.1.tail.length < star.1.length := by
  obtain ⟨passed, _, htext, -⟩ := h
  simp [htext]

/-- The loop of `like_match` and what follows it: `text` and `pat` lie from `ti` and `pi` on, `star`
from `star_text` on and after `star_pat`. -/
def matchLoop (text : List Char) (pat : List Mark)
    (star : Option (List Char × List Mark)) (hstar : ∀ p ∈ star, Behind text pat p) : Bool :=
  match text, pat, star, hstar with
  | [], pat, _, _ => (pat.dropWhile (isWild '%')).isEmpty
  | s :: text, c :: pat, star, hstar =>
    if hany : isWild '%' c then
      matchLoop (s :: text) pat (some (s :: text, pat)) (behind_here _ _)
    else if takes eq c s then
      matchLoop text pat star fun p hp => (hstar p hp).cons hany
    else
      match star, hstar with
      | some (t, p), _ => matchLoop t.tail p (some (t.tail, p)) (behind_here _ _)
      | none, _ => false
  | _ :: _, [], some (t, p), _ => matchLoop t.tail p (some (t.tail, p)) (behind_here _ _)
  | _ :: _, [], none, _ => false
termination_by (star.elim (pat.length + 1) (·.2.length), star.elim 0 (·.1.length), pat.length)
decreasing_by
  · cases star with
    | none => exact .left _ _ (Nat.lt_succ_of_lt (Nat.lt_succ_self _))
    | some p => exact .left _ _ (Nat.lt_of_lt_of_le (Nat.lt_succ_self _) (hstar p rfl).length_le)
  · cases star with
    | none => exact .left _ _ (Nat.lt_succ_self _)
    | some p => exact .right _ (.right _ (Nat.lt_succ_self _))
  all_goals
    rename_i hstar
    exact .right _ (.left _ _ (hstar _ rfl).tail_lt)

def likeMatch (lower : Char → List Char) (subject pattern : String) (escape : Option Char)
    (caseInsensitive : Bool) : Bool :=
  matchLoop (charEq lower caseInsensitive) subject.toList (expand escape pattern.toList) none (by simp)

/-! ## What a pattern stands for -/

/-- A piece of a pattern: any string, any one character, or a given character. -/
inductive Piece
  | string
  | one
  | given (c : Char)

/-- What a character stands for that nothing escapes. -/
def Piece.ofChar : Char → Piece
  | '%' => .string
  | '_' => .one
  | c => .given c

/-- How a pattern is read. The escape character makes the next one stand for itself; at the end of
the pattern it is a character like any other. -/
inductive Reads (escape : Option Char) : List Char → List Piece → Prop
  | nil : Reads escape [] []
  | escaped {e c : Char} {raw : List Char} {pieces : List Piece} (he : some e = escape)
      (h : Reads escape raw pieces) : Reads escape (e :: c :: raw) (.given c :: pieces)
  | plain {c : Char} {raw : List Char} {pieces : List Piece} (he : some c = escape → raw = [])
      (h : Reads escape raw pieces) : Reads escape (c :: raw) (.ofChar c :: pieces)

/-- `p` of the pattern stands for `s`, where `lower` writes a character in lower case. -/
def Same (lower : Char → List Char) (caseInsensitive : Bool) (p s : Char) : Prop :=
  p = s ∨ caseInsensitive ∧ lower p = lower s

/-- The texts that the pieces stand for, one after the other. -/
inductive Matches (same : Char → Char → Prop) : List Piece → List Char → Prop
  | nil : Matches same [] []
  | string {pieces : List Piece} {text : List Char} (any : List Char) (h : Matches same pieces text) :
    Matches same (.string :: pieces) (any ++ text)
  | one {pieces : List Piece} {text : List Char} (s : Char) (h : Matches same pieces text) :
    Matches same (.one :: pieces) (s :: text)
  | given {pieces : List Piece} {text : List Char} {c s : Char} (hc : same c s)
    (h : Matches same pieces text) : Matches same (.given c :: pieces) (s :: text)

def Mark.piece : Mark → Piece
  | (c, true) => .given c
  | (c, false) => .ofChar c

/-- The marks stand for the text. -/
def Takes (pat : List Mark) : List Char → Prop := Matches (fun p s => eq p s) (pat.map Mark.piece)

def Within (pat : List Mark) (text : List Char) : Prop := ∃ u, u <:+ text ∧ Takes eq pat u

variable {eq}

lemma takes_any_iff (hany : isWild '%' c) : Takes eq (c :: pat) text ↔ Within eq pat text := by
  have hc : c = ('%', false) := by simpa [isWild] using hany
  subst hc
  constructor
  · rintro ⟨⟩
    rename_i u any h
    exact ⟨u, suffix_append any u, h⟩
  · rintro ⟨u, ⟨any, rfl⟩, h⟩
    exact .string any h

lemma piece_of_not_any (hany : ¬isWild '%' c) :
    c.piece = if isWild '_' c then .one else .given c.1 := by
  obtain ⟨c, _ | _⟩ := c
  · show Piece.ofChar c = _
    unfold Piece.ofChar
    split <;> simp_all [isWild]
  · simp [isWild, Mark.piece]

lemma takes_one_iff (hany : ¬isWild '%' c) : Takes eq (c :: pat) text ↔
    ∃ s u, text = s :: u ∧ takes eq c s ∧ Takes eq pat u := by
  unfold Takes takes
  rw [map_cons, piece_of_not_any hany]
  split
  case isTrue hone =>
    rw [hone]
    constructor
    · rintro ⟨⟩
      exact ⟨_, _, rfl, rfl, ‹_›⟩
    · rintro ⟨s, u, rfl, -, h⟩
      exact .one s h
  case isFalse hone =>
    simp only [eq_false_of_ne_true hone, Bool.false_or]
    constructor
    · rintro ⟨⟩
      exact ⟨_, _, rfl, ‹_›, ‹_›⟩
    · rintro ⟨s, u, rfl, hs, h⟩
      exact .given hs h

lemma dropWhile_isEmpty_iff : (pat.dropWhile (isWild '%')).isEmpty ↔ Takes eq pat [] := by
  induction pat with
  | nil => exact ⟨fun _ => .nil, fun _ => rfl⟩
  | cons c pat ih =>
    rw [dropWhile_cons]
    split
    case isTrue hany => simp [takes_any_iff hany, Within, ih]
    case isFalse hany => simp [takes_one_iff hany]

lemma within_iff : Within eq pat text ↔ Takes eq pat text ∨ Within eq pat text.tail := by
  cases text with
  | nil => simp [Within]
  | cons s text => simp [Within, suffix_cons_iff, or_and_right, exists_or]

lemma takes_nil_iff : Takes eq [] text ↔ text = [] := by
  constructor
  · rintro ⟨⟩
    rfl
  · rintro rfl
    exact .nil

/-- Marks without a percent take one character each. -/
lemma Takes.drop {seg : List Mark} (hseg : ∀ c ∈ seg, ¬isWild '%' c)
    (h : Takes eq (seg ++ pat) text) : Takes eq pat (text.drop seg.length) := by
  induction seg generalizing text with
  | nil => exact h
  | cons c seg ih =>
    obtain ⟨s, u, rfl, -, hu⟩ := (takes_one_iff (hseg c mem_cons_self)).mp h
    exact ih (fun d hd => hseg d (mem_cons_of_mem c hd)) hu

/-- What a later place of the last percent leads to is found from the cursor on. -/
lemma Behind.within (hstar : Behind text pat star) (h : Within eq star.2 star.1.tail) :
    Within eq pat text := by
  obtain ⟨passed, seg, htext, hpat, hlen, hseg⟩ := hstar
  obtain ⟨u, hu, hm⟩ := h
  rw [hpat] at hm
  have hsuffix : u <:+ star.1 := hu.trans (tail_suffix _)
  have hle := hsuffix.length_le
  rw [htext, length_append, hlen] at hle
  refine ⟨_, suffix_of_suffix_length_le ((drop_suffix ..).trans hsuffix) (htext ▸ suffix_append ..)
    ?_, hm.drop hseg⟩
  rw [length_drop]
  omega

/-- The loop finds what the marks take from the cursor on, or from a later place of the percent. -/
lemma matchLoop_iff (star : Option (List Char × List Mark))
    (hstar : ∀ p ∈ star, Behind text pat p) :
    matchLoop eq text pat star hstar ↔
      Takes eq pat text ∨ ∃ p ∈ star, Within eq p.2 p.1.tail := by
  fun_induction matchLoop eq text pat star hstar with
  | case1 pat star hstar =>
    rw [dropWhile_isEmpty_iff]
    refine ⟨.inl, ?_⟩
    rintro (h | ⟨p, hp, h⟩)
    · exact h
    · simpa [Within] using (hstar p hp).within h
  | case2 s text c pat star hstar hany _ ih =>
    -- the earlier percent is given up: all it could find, this one finds
    have hthis : (∃ p ∈ some (s :: text, pat), Within eq p.2 p.1.tail) ↔
        Within eq pat (s :: text).tail := by simp
    rw [ih, hthis, ← within_iff, ← takes_any_iff hany]
    refine ⟨.inl, ?_⟩
    rintro (h | ⟨p, hp, h⟩)
    · exact h
    · obtain ⟨u, hu, hm⟩ := (hstar p hp).within h
      obtain ⟨v, hv, hm⟩ := (takes_any_iff hany).mp hm
      exact (takes_any_iff hany).mpr ⟨v, hv.trans hu, hm⟩
  | case3 s text c pat star hstar hany hone _ ih =>
    rw [ih, takes_one_iff hany]
    simp [hone]
  | case4 s text c pat hany hone t p hstar _ ih =>
    rw [ih, takes_one_iff hany]
    simp [hone, ← within_iff]
  | case5 s text c pat hany hone =>
    rw [takes_one_iff hany]
    simp [hone]
  | case6 s text t p hstar _ ih =>
    rw [ih]
    simp [takes_nil_iff, ← within_iff]
  | case7 => simp [takes_nil_iff]

lemma reads_iff {pieces : List Piece} :
    Reads escape raw pieces ↔ pieces = (expand escape raw).map Mark.piece := by
  constructor
  · intro h
    induction h with
    | nil => rfl
    | escaped he _ ih => rw [expand, if_pos he, ih, map_cons, Mark.piece]
    | @plain c raw pieces he _ ih =>
      cases raw with
      | nil => rw [ih, expand, expand, map_cons, Mark.piece]
      | cons d raw => rw [expand, if_neg fun h => cons_ne_nil d raw (he h), ih, map_cons, Mark.piece]
  · rintro rfl
    fun_induction expand escape raw with
    | case1 => exact .nil
    | case2 c => exact .plain (fun _ => rfl) .nil
    | case3 c d raw he ih => exact .escaped he ih
    | case4 c d raw he ih => exact .plain (fun h => absurd h he) ih

lemma charEq_iff {lower : Char → List Char} {caseInsensitive : Bool} {p s : Char} :
    charEq lower caseInsensitive p s ↔ Same lower caseInsensitive p s := by
  simp [charEq, Same]

/-- **`LIKE` matching**: the pattern, read with its escapes, stands for the subject. -/
theorem likeMatch_iff (lower : Char → List Char) (subject pattern : String) (escape : Option Char)
    (caseInsensitive : Bool) : likeMatch lower subject pattern escape caseInsensitive ↔
      ∃ pieces, Reads escape pattern.toList pieces ∧
        Matches (Same lower caseInsensitive) pieces subject.toList := by
  rw [likeMatch, matchLoop_iff]
  simp [reads_iff, Takes, charEq_iff]

example : likeMatch (fun c => [c.toLower]) "HeLLo%" "h%O!%" (some '!') true := by
  simp [likeMatch, matchLoop, expand, takes, isWild, charEq]

end NusaDb.Sql.Like
