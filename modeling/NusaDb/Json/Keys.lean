import Mathlib

/-!
# Duplicate keys in JSON text

`has_unique_keys_recursive` (`json.rs`) finds the keys of every object in the raw text and compares
them as they are spelled there. `Spells` is the grammar, and `hasUniqueKeys_iff` says of every text
of it when that is right about the keys a reader of the text decodes: the scan needs no more fuel
than `hasUniqueKeysRecursive` gives it, and it misses a key that is written twice with different
escapes (`hasUniqueKeys_misses_escape`).
-/

namespace NusaDb.Json

open List

abbrev Text := List Char

def isWs (c : Char) : Bool := c ∈ [' ', '\t', '\n', '\r']

def skipWs : Text → Text := dropWhile isWs

def endsScalar (c : Char) : Bool := c ∈ [',', '\x7d', ']'] || isWs c

/-- `take_string`, past the opening quote: the string as it is spelled, and what follows it. -/
def takeString : Text → Option (Text × Text)
  | [] => none
  | '"' :: text => some ([], text)
  | '\\' :: c :: text => (takeString text).map fun (raw, rest) => ('\\' :: c :: raw, rest)
  | c :: text => (takeString text).map fun (raw, rest) => (c :: raw, rest)

mutual

def scanValue : (fuel : Nat) → Text → Option (Bool × Text)
  | 0, _ => none
  | fuel + 1, text =>
    match skipWs text with
    | '\x7b' :: text =>
      match skipWs text with
      | '\x7d' :: rest => some (true, rest)
      | _ => scanObject fuel [] true text
    | '[' :: text =>
      match skipWs text with
      | ']' :: rest => some (true, rest)
      | _ => scanArray fuel true text
    | '"' :: text => (takeString text).map fun (_, rest) => (true, rest)
    | text =>
      let rest := text.dropWhile (!endsScalar ·)
      if rest.length < text.length then some (true, rest) else none

/-- The loop of `scan_object`, past the opening brace of an object that is not empty. -/
def scanObject : (fuel : Nat) → (keys : List Text) → (unique : Bool) → Text → Option (Bool × Text)
  | 0, _, _, _ => none
  | fuel + 1, keys, unique, text => do
    let '"' :: text := skipWs text | none
    let (key, text) ← takeString text
    let ':' :: text := skipWs text | none
    let (value, text) ← scanValue fuel text
    match skipWs text with
    | ',' :: text => scanObject fuel (key :: keys) (unique && key ∉ keys && value) text
    | '\x7d' :: rest => some (unique && key ∉ keys && value, rest)
    | _ => none

def scanArray : (fuel : Nat) → (unique : Bool) → Text → Option (Bool × Text)
  | 0, _, _ => none
  | fuel + 1, unique, text => do
    let (value, text) ← scanValue fuel text
    match skipWs text with
    | ',' :: text => scanArray fuel (unique && value) text
    | ']' :: rest => some (unique && value, rest)
    | _ => none

end

/-- Of two calls in a row one takes a character, so the fuel is enough. -/
def hasUniqueKeysRecursive (text : Text) : Option Bool := do
  let (unique, rest) ← scanValue (2 * text.length + 1) text
  if skipWs rest = [] then some unique else none

/-! ## The grammar -/

/-- The text starts with a string, past its opening quote. -/
inductive Quoted : Text → (raw : Text) → Text → Prop
  | close {rest} : Quoted ('"' :: rest) [] rest
  | escape {c text raw rest} (h : Quoted text raw rest) :
    Quoted ('\\' :: c :: text) ('\\' :: c :: raw) rest
  | char {c text raw rest} (hquote : c ≠ '"') (hescape : c ≠ '\\') (h : Quoted text raw rest) :
    Quoted (c :: text) (c :: raw) rest

inductive Phrase
  | value
  | elements
  | members

/-- The text starts with a value, or with the elements or members of a container up to its end.
`objects` are the keys of each object inside as they are spelled, those of the members first. -/
inductive Spells : Phrase → Text → (objects : List (List Text)) → Text → Prop
  | scalar {text rest} (c cs) (htext : skipWs text = c :: (cs ++ rest))
    (hc : c ∉ ['"', '\x7b', '[']) (hin : ∀ x ∈ c :: cs, !endsScalar x)
    (hend : ∀ x ∈ rest.head?, endsScalar x) : Spells .value text [] rest
  | string {text t raw rest} (ht : skipWs text = '"' :: t) (h : Quoted t raw rest) :
    Spells .value text [] rest
  | emptyObject {text t rest} (ht : skipWs text = '\x7b' :: t) (hend : skipWs t = '\x7d' :: rest) :
    Spells .value text [] rest
  | object {text t keys objects rest} (ht : skipWs text = '\x7b' :: t)
    (hnot : ∀ r, skipWs t ≠ '\x7d' :: r) (h : Spells .members t (keys :: objects) rest) :
    Spells .value text (keys :: objects) rest
  | emptyArray {text t rest} (ht : skipWs text = '[' :: t) (hend : skipWs t = ']' :: rest) :
    Spells .value text [] rest
  | array {text t objects rest} (ht : skipWs text = '[' :: t) (hnot : ∀ r, skipWs t ≠ ']' :: r)
    (h : Spells .elements t objects rest) : Spells .value text objects rest
  | lastElement {text t objects rest} (h : Spells .value text objects t)
    (hend : skipWs t = ']' :: rest) : Spells .elements text objects rest
  | element {text t next objects others rest} (h : Spells .value text objects t)
    (ht : skipWs t = ',' :: next) (hs : Spells .elements next others rest) :
    Spells .elements text (objects ++ others) rest
  | lastMember {text t u v w key objects rest} (hkey : skipWs text = '"' :: t)
    (hq : Quoted t key u) (hcolon : skipWs u = ':' :: v) (h : Spells .value v objects w)
    (hend : skipWs w = '\x7d' :: rest) : Spells .members text ([key] :: objects) rest
  | member {text t u v w next key keys objects others rest} (hkey : skipWs text = '"' :: t)
    (hq : Quoted t key u) (hcolon : skipWs u = ':' :: v) (h : Spells .value v objects w)
    (ht : skipWs w = ',' :: next) (hs : Spells .members next (keys :: others) rest) :
    Spells .members text ((key :: keys) :: (objects ++ others)) rest

def spelledApart (objects : List (List Text)) : Bool := objects.all fun keys => keys.Nodup

def Scans (text : Text) (objects : List (List Text)) (rest : Text) (fuel : Nat) : Phrase → Prop
  | .value => scanValue (fuel + 1) text = some (spelledApart objects, rest)
  | .elements => ∀ unique,
    scanArray (fuel + 2) unique text = some (unique && spelledApart objects, rest)
  | .members => ∀ seen unique keys inner, objects = keys :: inner → (unique = true → seen.Nodup) →
    scanObject (fuel + 1) seen unique text =
      some (unique && (keys ++ seen).Nodup && spelledApart inner, rest)

variable {text rest raw : Text} {p : Phrase} {objects : List (List Text)}

@[grind →]
lemma Quoted.takeString (h : Quoted text raw rest) :
    takeString text = some (raw, rest) ∧ rest.length < text.length := by
  induction h with
  | close => exact ⟨rfl, Nat.lt_succ_self _⟩
  | escape _ ih =>
    rw [Json.takeString, ih.1]
    exact ⟨rfl, by grind⟩
  | char hquote hescape _ ih =>
    rw [Json.takeString, ih.1]
    · exact ⟨rfl, by grind⟩
    · exact hquote
    · exact fun _ _ h _ => hescape h

@[grind →]
lemma length_lt_of_skipWs {c : Char} {t : Text} (h : skipWs text = c :: t) :
    t.length < text.length := by
  have hle : (skipWs text).length ≤ text.length := (dropWhile_suffix _).length_le
  rw [h] at hle
  exact hle

/-- The scanner reads what the grammar spells, and stops where it does; induction on the spelling.
-/
lemma Spells.scans (h : Spells p text objects rest) :
    rest.length < text.length ∧
      ∀ fuel, 2 * text.length ≤ fuel → Scans text objects rest fuel p := by
  induction h with
  | @scalar _ rest c cs htext hc hin hend =>
    have hdrop : dropWhile (!endsScalar ·) (c :: (cs ++ rest)) = rest := by
      rw [← cons_append, dropWhile_append_of_pos hin]
      cases rest with
      | nil => rfl
      | cons x rest => rw [dropWhile_cons_of_neg (by simpa using hend)]
    have hrest := length_lt_of_skipWs htext
    rw [length_append] at hrest
    simp only [mem_cons, not_mem_nil, or_false, not_or] at hc
    refine ⟨by omega, fun fuel hfuel => ?_⟩
    have hlt : rest.length < cs.length + rest.length + 1 := by omega
    simp [Scans, scanValue, htext, hc, hdrop, hlt, spelledApart]
  | string ht h =>
    refine ⟨by grind, fun fuel hfuel => ?_⟩
    simp [Scans, scanValue, ht, h.takeString.1, spelledApart]
  | emptyObject ht hend | emptyArray ht hend =>
    refine ⟨by grind, fun fuel hfuel => ?_⟩
    simp [Scans, scanValue, ht, hend, spelledApart]
  | object ht hnot h ih =>
    refine ⟨by grind, fun fuel hfuel => ?_⟩
    obtain ⟨fuel, rfl⟩ := Nat.exists_eq_add_of_le' (show 1 ≤ fuel by grind)
    have hscan := ih.2 fuel (by grind) [] true _ _ rfl fun _ => nodup_nil
    rw [append_nil, Bool.true_and] at hscan
    simp [Scans, scanValue, ht, hscan, spelledApart]
  | array ht hnot h ih =>
    refine ⟨by grind, fun fuel hfuel => ?_⟩
    obtain ⟨fuel, rfl⟩ := Nat.exists_eq_add_of_le' (show 2 ≤ fuel by grind)
    have hscan := ih.2 fuel (by grind) true
    rw [Bool.true_and] at hscan
    simp [Scans, scanValue, ht, hscan]
  | lastElement h hend ih =>
    refine ⟨by grind, fun fuel hfuel unique => ?_⟩
    have hvalue : scanValue (fuel + 1) _ = _ := ih.2 fuel hfuel
    rw [scanArray, hvalue]
    simp [hend]
  | element h ht hs ih ihs =>
    refine ⟨by grind, fun fuel hfuel unique => ?_⟩
    have hvalue : scanValue (fuel + 1) _ = _ := ih.2 fuel hfuel
    obtain ⟨fuel, rfl⟩ := Nat.exists_eq_add_of_le' (show 1 ≤ fuel by grind)
    rw [scanArray, hvalue]
    simp only [Option.bind_eq_bind, Option.bind_some, ht]
    rw [ihs.2 fuel (by grind)]
    simp only [spelledApart, all_append, Bool.and_assoc]
  | lastMember hkey hq hcolon h hend ih =>
    refine ⟨by grind, ?_⟩
    rintro fuel hfuel seen unique _ _ ⟨⟩ hseen
    obtain ⟨fuel, rfl⟩ := Nat.exists_eq_add_of_le' (show 1 ≤ fuel by grind)
    have hvalue : scanValue (fuel + 1) _ = _ := ih.2 fuel (by grind)
    rw [scanObject]
    simp [hkey, hq.takeString.1, hcolon, hvalue, hend]
    grind
  | member hkey hq hcolon h ht hs ih ihs =>
    refine ⟨by grind, ?_⟩
    rintro fuel hfuel seen unique _ _ ⟨⟩ hseen
    obtain ⟨fuel, rfl⟩ := Nat.exists_eq_add_of_le' (show 1 ≤ fuel by grind)
    have hvalue : scanValue (fuel + 1) _ = _ := ih.2 fuel (by grind)
    rw [scanObject]
    simp [hkey, hq.takeString.1, hcolon, hvalue, ht]
    rw [ihs.2 fuel (by grind) _ _ _ _ rfl]
    · simp only [spelledApart, all_append]
      grind [nodup_middle]
    · grind

/-- **The scanner tells keys apart by their spelling**: it is right about decoded keys exactly where
a text with two that are alike also has two spelled alike. -/
theorem hasUniqueKeys_iff {K : Type} [DecidableEq K] (decode : Text → K)
    (h : Spells .value text objects rest) (hrest : skipWs rest = []) :
    hasUniqueKeysRecursive text = some (objects.all fun keys => (keys.map decode).Nodup) ↔
      ((∀ keys ∈ objects, keys.Nodup) → ∀ keys ∈ objects, (keys.map decode).Nodup) := by
  have hscan : scanValue (2 * text.length + 1) text = some (spelledApart objects, rest) :=
    h.scans.2 _ le_rfl
  have hresult : hasUniqueKeysRecursive text = some (spelledApart objects) := by
    simp [hasUniqueKeysRecursive, hscan, hrest]
  rw [hresult, Option.some_inj, spelledApart, Bool.eq_iff_iff]
  simp only [all_eq_true, decide_eq_true_eq]
  exact ⟨fun h => h.1, fun h => ⟨h, fun hdecoded keys hmem => .of_map decode (hdecoded keys hmem)⟩⟩

/-! ## Two spellings of one key -/

/-- A character in the code units of UTF-16, in which a `\u` escape is written. -/
def codeUnits (c : Char) : List Nat :=
  if c.toNat < 0x10000 then [c.toNat]
  else [0xD800 + (c.toNat - 0x10000) / 0x400, 0xDC00 + (c.toNat - 0x10000) % 0x400]

def hexDigit (c : Char) : Nat :=
  if c.isDigit then c.toNat - '0'.toNat else c.toLower.toNat - 'a'.toNat + 10

def escaped : Char → Char
  | 'b' => '\x08'
  | 'f' => '\x0c'
  | 'n' => '\n'
  | 'r' => '\r'
  | 't' => '\t'
  | c => c

/-- The string that a spelling stands for in JSON. -/
def unescape : Text → List Nat
  | [] => []
  | '\\' :: 'u' :: a :: b :: c :: d :: text =>
    [a, b, c, d].foldl (fun unit digit => 16 * unit + hexDigit digit) 0 :: unescape text
  | '\\' :: c :: text => codeUnits (escaped c) ++ unescape text
  | c :: text => codeUnits c ++ unescape text

example : unescape "\\u0061\\n".toList = unescape "a\n".toList := by decide

/-- The keys are `/` and the same with its escape. -/
def solidus : Text :=
  ['\x7b', '"', '/', '"', ':', '0', ',', '"', '\\', '/', '"', ':', '0', '\x7d']

lemma spells_solidus : Spells .value solidus [[['/'], ['\\', '/']]] [] := by
  have hzero : ∀ rest, (∀ x ∈ rest.head?, endsScalar x) → Spells .value ('0' :: rest) [] rest :=
    fun rest => .scalar '0' [] rfl (by decide) (by simp [endsScalar, isWs])
  have hlast : Spells .members (solidus.drop 7) [[['\\', '/']]] [] :=
    .lastMember rfl (.escape .close) rfl (hzero _ (by simp [endsScalar])) rfl
  exact .object rfl (by rintro _ ⟨⟩) (.member rfl (.char (by decide) (by decide) .close) rfl
    (hzero _ (by simp [endsScalar])) rfl hlast)

theorem hasUniqueKeys_solidus : unescape ['\\', '/'] = unescape ['/'] ∧
    ¬((∀ keys ∈ [[['/'], ['\\', '/']]], keys.Nodup) →
      ∀ keys ∈ [[['/'], ['\\', '/']]], (keys.map unescape).Nodup) :=
  ⟨by decide, fun h => absurd ((hasUniqueKeys_iff unescape spells_solidus rfl).mpr h) (by decide)⟩

theorem hasUniqueKeys_misses_escape : Spells .value solidus [[['/'], ['\\', '/']]] [] ∧
    hasUniqueKeysRecursive solidus = some true ∧ ∀ (K : Type) (decode : Text → K),
      decode ['\\', '/'] = decode ['/'] → ¬([['/'], ['\\', '/']].map decode).Nodup :=
  ⟨spells_solidus, by decide, fun _ _ h => by simp [h]⟩

end NusaDb.Json
