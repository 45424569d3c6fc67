import NusaDb.Sql.DecimalExact

/-!
# Decimals as text

`Decimal::parse` and `Decimal::format`. The digits are read into a positive `i128` before the sign
is applied, so that `i128::MIN` is printed and not read back; every other number is, and is read
from exactly what writes it (`textForm_iff`).
-/

namespace NusaDb.Sql.Decimal

open List Nat

def isWhitespace (c : Char) : Bool :=
  (9 ≤ c.toNat && c.toNat ≤ 13) || (0x2000 ≤ c.toNat && c.toNat ≤ 0x200A) ||
    [0x20, 0x85, 0xA0, 0x1680, 0x2028, 0x2029, 0x202F, 0x205F, 0x3000].contains c.toNat

def trim (s : List Char) : List Char := (s.dropWhile isWhitespace).rdropWhile isWhitespace

/-- An empty string, which has no first byte, leaves an empty body. -/
def splitSign : List Char → Bool × List Char
  | '-' :: body => (true, body)
  | '+' :: body => (false, body)
  | body => (false, body)

/-- `parse` past the sign. Characters that are not ASCII are refused with the digits. -/
def parseBody (neg : Bool) (body : List Char) : Option Decimal :=
  if body.isEmpty then none
  else
    let intPart := body.takeWhile (· != '.')
    let fracPart := (body.dropWhile (· != '.')).tail
    if fracPart.length > maxScale then none
    else if intPart.isEmpty && fracPart.isEmpty then none
    else
      let digits := intPart ++ fracPart
      if digits.isEmpty || !digits.all Char.isDigit then none
      else do
        let mantissa ← checked (ofDigitChars 10 digits 0)
        some ⟨bif neg then -mantissa else mantissa, fracPart.length⟩

def parse (s : List Char) : Option Decimal :=
  if (trim s).map Char.toLower = ['n', 'a', 'n'] then some nan
  else parseBody (splitSign (trim s)).1 (splitSign (trim s)).2

def format (d : Decimal) : List Char :=
  if d.isNan then ['N', 'a', 'N']
  else
    let sign := if d.mantissa < 0 then ['-'] else []
    let digits := toDigits 10 d.mantissa.natAbs
    if d.scale = 0 then sign ++ digits
    else if digits.length > d.scale then
      let point := digits.length - d.scale
      sign ++ (digits.take point ++ '.' :: digits.drop point)
    else sign ++ ('0' :: '.' :: (replicate (d.scale - digits.length) '0' ++ digits))

/-- `body` is `ip` and `fp` with a point between them, or `ip` alone. -/
def Pointed (body ip fp : List Char) : Prop := body = ip ++ '.' :: fp ∨ body = ip ∧ fp = []

/-- `ip` and `fp` are digits, at least one, that make up `d` but for its sign. -/
structure Digits (neg : Bool) (ip fp : List Char) (d : Decimal) : Prop where
  digit : ∀ c ∈ ip ++ fp, c.isDigit = true
  some : ip ++ fp ≠ []
  length : fp.length ≤ maxScale
  eq : d = ⟨(bif neg then -1 else 1) * ofDigitChars 10 (ip ++ fp) 0, fp.length⟩

inductive Signed : List Char → Bool → List Char → Prop
  | plain (body : List Char) : Signed body false body
  | plus (body : List Char) : Signed ('+' :: body) false body
  | minus (body : List Char) : Signed ('-' :: body) true body

/-- `s`, trimmed, is a sign that may be missing and digits with at most one point, and `d`, within
`i128`, is the number they write. -/
def Written (s : List Char) (d : Decimal) : Prop :=
  ∃ neg body ip fp, Signed (trim s) neg body ∧ Pointed body ip fp ∧ Digits neg ip fp d ∧
    FitsI128 d.mantissa

variable {d : Decimal} {neg : Bool} {s body ip fp : List Char} {c : Char}

lemma ne_of_isDigit {x : Char} (h : c.isDigit = true) (hx : x.isDigit = false) : c ≠ x := by
  rintro rfl
  rw [h] at hx
  cases hx

lemma isWhitespace_of_isDigit (h : c.isDigit = true) : isWhitespace c = false := by
  have hrange : 48 ≤ c.toNat ∧ c.toNat ≤ 57 := by
    simpa [Char.isDigit, UInt32.le_iff_toNat_le] using h
  simp [isWhitespace]
  omega

lemma pointed_split (body : List Char) :
    Pointed body (body.takeWhile (· != '.')) (body.dropWhile (· != '.')).tail := by
  have hsplit := takeWhile_append_dropWhile (p := (· != '.')) (l := body)
  cases hdrop : body.dropWhile (· != '.') with
  | nil =>
    rw [hdrop, append_nil] at hsplit
    exact .inr ⟨hsplit.symm, rfl⟩
  | cons c rest =>
    have hc := head?_dropWhile_not (· != '.') body
    rw [hdrop] at hc hsplit
    simp at hc
    subst hc
    exact .inl hsplit.symm

lemma split_of_pointed (h : Pointed body ip fp) (hip : ∀ c ∈ ip, c ≠ '.') :
    body.takeWhile (· != '.') = ip ∧ (body.dropWhile (· != '.')).tail = fp := by
  have hpos : ∀ c ∈ ip, (c != '.') = true := fun c hc => bne_iff_ne.mpr (hip c hc)
  obtain rfl | ⟨rfl, rfl⟩ := h
  · rw [takeWhile_append_of_pos hpos, dropWhile_append_of_pos hpos]
    simp
  · rw [takeWhile_eq_self_iff.mpr hpos, dropWhile_eq_nil_iff.mpr hpos]
    simp

lemma parseBody_eq_some :
    parseBody neg body = some d ↔ (∃ ip fp, Pointed body ip fp ∧ Digits neg ip fp d) ∧
      FitsI128 d.mantissa ∧ d.mantissa ≠ -2 ^ 127 := by
  constructor
  · intro h
    simp only [parseBody] at h
    split_ifs at h with hbody hlen hempty hdigits
    obtain ⟨m, hm, h⟩ := Option.bind_eq_some_iff.mp h
    obtain rfl := Option.some.inj h
    have hfit := checked_fits hm
    have hval := checked_some hm
    simp only [Bool.or_eq_true, List.isEmpty_iff, Bool.not_eq_true', not_or, Bool.not_eq_false,
      all_eq_true] at hdigits
    refine ⟨⟨_, _, pointed_split body, hdigits.2, hdigits.1, Nat.le_of_not_lt hlen, ?_⟩, ?_⟩
    · cases neg <;> simp [hval]
    · cases neg <;> simp only [cond_true, cond_false, FitsI128] at * <;> omega
  · rintro ⟨⟨ip, fp, hp, hdig⟩, hfit, hmin⟩
    obtain ⟨hip, hfp⟩ := split_of_pointed hp fun c hc =>
      ne_of_isDigit (hdig.digit c (mem_append_left _ hc)) rfl
    have hbody : body ≠ [] := by
      rintro rfl
      exact hdig.some (by simp [← hip, ← hfp])
    have hall : (ip ++ fp).all Char.isDigit = true := all_eq_true.mpr hdig.digit
    have hlen := hdig.length
    have heq := hdig.eq
    have hm : checked (ofDigitChars 10 (ip ++ fp) 0) =
        some (ofDigitChars 10 (ip ++ fp) 0 : Int) := by
      rw [checked_eq, if_pos]
      rw [heq] at hfit hmin
      cases neg <;> simp only [cond_true, cond_false, FitsI128] at * <;> omega
    simp only [parseBody, hip, hfp]
    rw [if_neg (by simpa using hbody), if_neg (by omega), if_neg (by simpa using hdig.some),
      if_neg (by simpa [hall] using hdig.some), hm, heq]
    cases neg <;> simp

lemma Pointed.mem (h : Pointed body ip fp) :
    (c ∈ ip ++ fp → c ∈ body) ∧ (c ∈ body → c = '.' ∨ c ∈ ip ++ fp) := by
  obtain rfl | ⟨rfl, rfl⟩ := h
  · simp
    tauto
  · simpa using .inr

lemma signed_splitSign (t : List Char) : Signed t (splitSign t).1 (splitSign t).2 := by
  unfold splitSign
  split
  · exact .minus _
  · exact .plus _
  · exact .plain _

lemma parse_eq_some (hd : d.IsFinite) :
    parse s = some d ↔ Written s d ∧ d.mantissa ≠ -2 ^ 127 := by
  constructor
  · intro h
    rw [parse] at h
    split_ifs at h
    · obtain rfl := Option.some.inj h
      exact absurd hd.1 (by decide)
    · obtain ⟨⟨ip, fp, hp, hdig⟩, hfit, hmin⟩ := parseBody_eq_some.mp h
      exact ⟨⟨_, _, ip, fp, signed_splitSign _, hp, hdig, hfit⟩, hmin⟩
  · rintro ⟨⟨neg, body, ip, fp, hsign, hp, hdig, hfit⟩, hmin⟩
    rw [parse]
    generalize trim s = t at hsign ⊢
    have hnan : t.map Char.toLower ≠ ['n', 'a', 'n'] := by
      intro h
      obtain ⟨c, hc⟩ := exists_mem_of_ne_nil _ hdig.some
      have hmem : c ∈ t := by cases hsign <;> simp [hp.mem.1 hc]
      have hlower : c.toLower ∈ ['n', 'a', 'n'] := h ▸ mem_map_of_mem hmem
      have hdigit := hdig.digit c hc
      have hself : c.toLower = c := by grind [Char.toLower, Char.isDigit]
      have hno : ∀ x ∈ ['n', 'a', 'n'], x.isDigit = false := by simp [Char.isDigit]
      exact ne_of_isDigit hdigit (hno _ hlower) hself.symm
    have hsplit : splitSign t = (neg, body) := by
      cases hsign with
      | plus | minus => rfl
      | plain =>
        -- a body does not start with a sign
        have hbody : ∀ c ∈ body, c = '.' ∨ c.isDigit = true := fun c hc =>
          (hp.mem.2 hc).imp_right (hdig.digit c)
        unfold splitSign
        split
        · exact absurd (hbody '-' mem_cons_self) (by decide)
        · exact absurd (hbody '+' mem_cons_self) (by decide)
        · rfl
    rw [if_neg hnan, hsplit]
    exact parseBody_eq_some.mpr ⟨⟨ip, fp, hp, hdig⟩, hfit, hmin⟩

lemma trim_eq_self (h : ∀ c ∈ s, isWhitespace c = false) : trim s = s := by
  have hdrop : s.dropWhile isWhitespace = s :=
    dropWhile_eq_self_iff.mpr fun hl => by simp [h _ (getElem_mem hl)]
  rw [trim, hdrop, rdropWhile_eq_self_iff]
  exact fun hl => by simp [h _ (getLast_mem hl)]

/-- The text is a sign, digits and a point, and they are the digits of the number. -/
lemma format_spec (hd : d.IsFinite) : ∃ body ip fp,
    format d = (if d.mantissa < 0 then ['-'] else []) ++ body ∧ Pointed body ip fp ∧
      Digits (d.mantissa < 0) ip fp d := by
  have hdigit : ∀ c ∈ toDigits 10 d.mantissa.natAbs, c.isDigit = true := fun c =>
    isDigit_of_mem_toDigits (by decide) (by decide)
  have hval : ofDigitChars 10 (toDigits 10 d.mantissa.natAbs) 0 = d.mantissa.natAbs :=
    ofDigitChars_ten_toDigits
  have hne : toDigits 10 d.mantissa.natAbs ≠ [] := toDigits_ne_nil
  have hself : ∀ {k n : Nat}, n = d.mantissa.natAbs → k = d.scale →
      d = ⟨(bif d.mantissa < 0 then -1 else 1) * n, k⟩ := by
    rintro k n rfl rfl
    obtain ⟨m, s⟩ := d
    by_cases hneg : m < 0
    · simp [hneg, abs_of_neg hneg]
    · simp [hneg, abs_of_nonneg (not_lt.mp hneg)]
  rw [format, if_neg (by simp [hd.isNan])]
  generalize toDigits 10 d.mantissa.natAbs = digits at *
  dsimp only
  generalize (if d.mantissa < 0 then ['-'] else []) = sign
  split_ifs with hscale hlong
  · exact ⟨digits, digits, [], rfl, .inr ⟨rfl, rfl⟩, by simpa, by simpa, zero_le _,
      hself (by simpa) hscale.symm⟩
  · have hlen : (digits.drop (digits.length - d.scale)).length = d.scale := by
      rw [length_drop]
      omega
    refine ⟨_, _, _, rfl, .inl rfl, ?_, ?_, hlen.trans_le hd.1, hself ?_ hlen⟩
    all_goals rwa [take_append_drop]
  · have hlen : (replicate (d.scale - digits.length) '0' ++ digits).length = d.scale := by
      rw [length_append, length_replicate]
      omega
    refine ⟨_, ['0'], _, rfl, .inl rfl, ?_, by simp, hlen.trans_le hd.1, hself ?_ hlen⟩
    · intro c hc
      simp only [mem_append, mem_singleton, mem_replicate] at hc
      rcases hc with rfl | ⟨-, rfl⟩ | hc
      · rfl
      · rfl
      · exact hdigit c hc
    · rw [← append_assoc, ofDigitChars_append, ofDigitChars_append, ofDigitChars_replicate_zero]
      simpa [ofDigitChars_cons] using hval

lemma written_format (hd : d.IsFinite) : Written (format d) d := by
  obtain ⟨body, ip, fp, heq, hp, hdig⟩ := format_spec hd
  refine ⟨_, body, ip, fp, ?_, hp, hdig, hd.2⟩
  have hwhite : ∀ c ∈ body, isWhitespace c = false := by
    intro c hc
    rcases hp.mem.2 hc with rfl | hc
    · decide
    · exact isWhitespace_of_isDigit (hdig.digit c hc)
  rw [heq]
  split_ifs with hneg
  · rw [trim_eq_self (by simpa using ⟨by decide, hwhite⟩), decide_eq_true hneg]
    exact .minus body
  · rw [trim_eq_self (by simpa using hwhite), decide_eq_false hneg]
    exact .plain body

/-- `d` is read back from what it is printed as, and read from exactly what writes it. -/
structure TextForm (d : Decimal) : Prop where
  roundTrip : parse (format d) = some d
  accepted : ∀ s, parse s = some d ↔ Written s d

/-- **The text of a number is that number** off `i128::MIN`, which is printed and not read. -/
theorem textForm_iff (hd : d.IsFinite) : TextForm d ↔ d.mantissa ≠ -2 ^ 127 := by
  constructor
  · exact fun h => ((parse_eq_some hd).mp h.roundTrip).2
  · exact fun hmin => ⟨(parse_eq_some hd).mpr ⟨written_format hd, hmin⟩,
      fun _ => (parse_eq_some hd).trans (and_iff_left hmin)⟩

theorem textForm_minus_five_hundredths : TextForm ⟨-5, 2⟩ :=
  (textForm_iff (by decide)).mpr (by decide)

theorem min_printed_not_read :
    parse (format ⟨-2 ^ 127, 0⟩) = none ∧ ¬ TextForm ⟨-2 ^ 127, 0⟩ := by
  have hnone : parse (format ⟨-2 ^ 127, 0⟩) = none := by decide +kernel
  refine ⟨hnone, fun h => ?_⟩
  rw [h.roundTrip] at hnone
  cases hnone

end NusaDb.Sql.Decimal
