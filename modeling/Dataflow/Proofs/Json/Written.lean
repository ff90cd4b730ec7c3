import Dataflow.Json.Codec
import Mathlib.Data.List.Basic
import Mathlib.Tactic.SplitIfs

/-!
# Reading what is written

Texts, numbers and truth values are read back from the way in which they are written, and the
reader stops right behind them, whatever follows (for a number: whatever cannot be a part of it,
`Delimits`). A written text has the escapes that `escapeChar` chooses; a written number has digits
only, with no zero in front, and if it fits in 64 bits then it is not taken to be huge.

* `Reader.bind_eq`, `Reader.map_eq`: a reader whose first part is known.
* `Reader.quotedChars_escapeChar`: one character of a text.
* **`Reader.text_quoteText`**, **`Reader.bool_write`**, **`Reader.word64_digits`**: single values.
* `Numeral.not_isHuge_digits`: a number that fits in 64 bits is far from the largest binary number.
-/

namespace Dataflow.Json

namespace Reader

variable {α β : Type} {r : Reader α} {f : α → Reader β} {x : α} {c : Char}
  {cs cs' rest : List Char} {n : Nat} {early : Failure}

/-! ## Steps of a reader -/

theorem bind_eq (h : r cs = .ok (x, cs')) : (r >>= f) cs = f x cs' := by
  change (r cs >>= fun p => f p.1 p.2) = f x cs'
  rw [h]
  rfl

theorem map_eq (h : r cs = .ok (x, cs')) (g : α → β) : (g <$> r) cs = .ok (g x, cs') := by
  change (r cs >>= fun p => pure (g p.1, p.2)) = _
  rw [h]
  rfl

theorem discard_eq (h : r cs = .ok (x, cs')) : discard r cs = .ok ((), cs') :=
  map_eq h _

theorem peek_cons (h : isBlank c = false) : peek (c :: cs) = .ok (c, c :: cs) := by
  unfold peek
  rw [List.dropWhile_cons_of_neg (by simp [h])]

theorem exactly_append (cs rest : List Char) : exactly cs (cs ++ rest) = .ok ((), rest) := by
  induction cs with
  | nil => rfl
  | cons c cs ih =>
    have hnext : next (c :: cs ++ rest) = .ok (c, cs ++ rest) := rfl
    rw [exactly, bind_eq hnext, if_pos rfl]
    exact ih

theorem punctuation_cons (h : isBlank c = false) : punctuation c (c :: cs) = .ok ((), cs) := by
  rw [punctuation, bind_eq (peek_cons h), if_pos rfl]
  exact discard_eq rfl

/-! ## Texts -/

theorem hexValue?_hexDigit (h : n < 16) : hexValue? (hexDigit n) = some n := by
  have hall : ∀ n < 16, hexValue? (hexDigit n) = some n := by decide
  exact hall n h

/-- The number of a control character. -/
theorem numberedChar_of_control (h : c.toNat < 32) :
    numberedChar ('0' :: '0' :: hexDigit (c.toNat / 16) :: hexDigit (c.toNat % 16) :: cs) =
      .ok (c, cs) := by
  have hhex : hexadecimal
      ('0' :: '0' :: hexDigit (c.toNat / 16) :: hexDigit (c.toNat % 16) :: cs) =
      .ok (c.toNat, cs) := by
    have hzero : hexValue? '0' = some 0 := by decide
    have hvalue : ((0 * 16 + 0) * 16 + c.toNat / 16) * 16 + c.toNat % 16 = c.toNat := by omega
    simp only [hexadecimal, hzero, hexValue?_hexDigit (show c.toNat / 16 < 16 by omega),
      hexValue?_hexDigit (show c.toNat % 16 < 16 by omega), hvalue]
  have htrailing : isTrailingSurrogate c.toNat = false := by simp [isTrailingSurrogate]; omega
  have hleading : isLeadingSurrogate c.toNat = false := by simp [isLeadingSurrogate]; omega
  rw [numberedChar, bind_eq hhex, htrailing, hleading, Char.ofNat_toNat]
  rfl

/-- A letter behind a backslash is read as the character that it stands for. -/
theorem quotedChars_escaped {letters : List Char} (h : escape letters = .ok (c, cs)) (fuel : Nat) :
    quotedChars (fuel + 1) ('\\' :: letters) = ((c :: ·) <$> quotedChars fuel) cs := by
  have hnext : next ('\\' :: letters) = .ok ('\\', letters) := rfl
  rw [quotedChars, bind_eq hnext, if_neg (by decide), if_pos rfl, bind_eq h]
  rfl

/-- A character is read back from the form that it has inside of a text. -/
theorem quotedChars_escapeChar (fuel : Nat) (c : Char) (cs : List Char) :
    quotedChars (fuel + 1) (escapeChar c ++ cs) = ((c :: ·) <$> quotedChars fuel) cs := by
  unfold escapeChar
  split_ifs with hquote hbackslash hnewline hreturn htab hbackspace hfeed hcontrol
  · subst hquote
    exact quotedChars_escaped rfl fuel
  · subst hbackslash
    exact quotedChars_escaped rfl fuel
  · subst hnewline
    exact quotedChars_escaped rfl fuel
  · subst hreturn
    exact quotedChars_escaped rfl fuel
  · subst htab
    exact quotedChars_escaped rfl fuel
  · subst hbackspace
    exact quotedChars_escaped rfl fuel
  · subst hfeed
    exact quotedChars_escaped rfl fuel
  · have hletter : ∀ cs, escape ('u' :: cs) = numberedChar cs := fun _ => rfl
    exact quotedChars_escaped ((hletter _).trans (numberedChar_of_control hcontrol)) fuel
  · have hnext : next ([c] ++ cs) = .ok (c, cs) := rfl
    rw [quotedChars, bind_eq hnext, if_neg hquote, if_neg hbackslash, if_neg hcontrol]
    rfl

theorem quotedChars_quote (rest : List Char) : ∀ {cs : List Char} {fuel : Nat}, cs.length < fuel →
    quotedChars fuel (cs.flatMap escapeChar ++ '"' :: rest) = .ok (cs, rest)
  | [], fuel + 1, _ => by
    have hnext : next ('"' :: rest) = .ok ('"', rest) := rfl
    rw [List.flatMap_nil, List.nil_append, quotedChars, bind_eq hnext, if_pos rfl]
    rfl
  | c :: cs, fuel + 1, h => by
    rw [List.flatMap_cons, List.append_assoc, quotedChars_escapeChar]
    exact map_eq (quotedChars_quote rest (Nat.lt_of_succ_lt_succ h)) _

/-- No form of a character is empty. -/
theorem length_le_length_flatMap_escapeChar (cs : List Char) :
    cs.length ≤ (cs.flatMap escapeChar).length := by
  induction cs with
  | nil => exact Nat.le_refl _
  | cons c cs ih =>
    have hpos : 0 < (escapeChar c).length := by
      unfold escapeChar
      split_ifs <;> exact Nat.succ_pos _
    rw [List.flatMap_cons, List.length_append, List.length_cons]
    omega

theorem quotedText_quoteText (s : String) (rest : List Char) :
    quotedText (quoteText s ++ rest) = .ok (s, rest) := by
  have hopen : exactly ['"'] (quoteText s ++ rest) =
      .ok ((), s.toList.flatMap escapeChar ++ '"' :: rest) := by
    have hquote : quoteText s ++ rest =
        ['"'] ++ (s.toList.flatMap escapeChar ++ '"' :: rest) := by
      simp [quoteText, quote]
    rw [hquote]
    exact exactly_append ['"'] _
  have hremaining : ∀ cs, remaining cs = .ok (cs.length, cs) := fun _ => rfl
  have hfuel : s.toList.length < (s.toList.flatMap escapeChar ++ '"' :: rest).length + 1 := by
    have := length_le_length_flatMap_escapeChar s.toList
    rw [List.length_append]
    omega
  rw [quotedText, bind_eq hopen, bind_eq (hremaining _), bind_eq (quotedChars_quote rest hfuel),
    String.ofList_toList]
  rfl

/-! ## Numbers -/

/-- What may follow a value: nothing that a number could go on with. -/
def Delimits (cs : List Char) : Prop :=
  ∀ c ∈ cs.head?, isDigit c = false ∧ c ≠ '.' ∧ c ≠ 'e' ∧ c ≠ 'E'

theorem delimits_nil : Delimits [] := by simp [Delimits]

theorem delimits_cons (h : isDigit c = false ∧ c ≠ '.' ∧ c ≠ 'e' ∧ c ≠ 'E') :
    Delimits (c :: cs) := by
  simpa [Delimits] using h

/-- The digits of a natural number: at least one, and no zero in front of others. -/
structure IsWhole (ds : List Char) : Prop where
  ne_nil : ds ≠ []
  digits : ∀ d ∈ ds, isDigit d = true
  first : ∀ d ds', ds ≠ '0' :: d :: ds'

/-- Only zero is written with a zero in front. -/
theorem head?_digits (h : 0 < n) : (Json.digits n).head? ≠ some '0' := by
  induction n using Nat.strongRecOn with
  | _ n ih =>
    unfold Json.digits at ih ⊢
    by_cases hsmall : n < 10
    · have hall : ∀ n < 10, 0 < n → Nat.digitChar n ≠ '0' := by decide
      rw [Nat.toDigits_of_lt_base hsmall]
      simpa using hall n hsmall h
    · rw [Nat.toDigits_of_base_le (by decide) (Nat.le_of_not_lt hsmall),
        List.head?_append_of_ne_nil _ Nat.toDigits_ne_nil]
      exact ih (n / 10) (by omega) (by omega)

theorem isWhole_digits (n : Nat) : IsWhole (Json.digits n) := by
  refine ⟨Nat.toDigits_ne_nil, fun d hd => ?_, fun d ds h => ?_⟩
  · exact Nat.isDigit_of_mem_toDigits (by decide) (by decide) hd
  · rcases Nat.eq_zero_or_pos n with rfl | hpos
    · have hzero : Json.digits 0 = ['0'] := rfl
      rw [hzero] at h
      exact absurd (List.cons.inj h).2 nofun
    · exact absurd (congrArg List.head? h) (head?_digits hpos)

variable {ds : List Char}

theorem takeWhile_isDigit (hd : ∀ d ∈ ds, isDigit d = true) (hr : Delimits rest) :
    takeWhile isDigit (ds ++ rest) = .ok (ds, rest) := by
  have hrest : rest.takeWhile isDigit = [] ∧ rest.dropWhile isDigit = rest := by
    cases rest with
    | nil => exact ⟨rfl, rfl⟩
    | cons c cs =>
      have hc : isDigit c = false := (hr c rfl).1
      simp [hc]
  unfold takeWhile
  rw [List.takeWhile_append_of_pos hd, List.dropWhile_append_of_pos hd, hrest.1, hrest.2,
    List.append_nil]

theorem digits_append (h : IsWhole ds) (hr : Delimits rest) :
    digits early (ds ++ rest) = .ok (ds, rest) := by
  rw [digits, bind_eq (takeWhile_isDigit h.digits hr)]
  split
  · exact absurd rfl h.ne_nil
  · rfl

theorem wholeDigits_append (h : IsWhole ds) (hr : Delimits rest) :
    wholeDigits early (ds ++ rest) = .ok (ds, rest) := by
  rw [wholeDigits, bind_eq (digits_append h hr)]
  split
  · exact absurd rfl (h.first _ _)
  · rfl

theorem takeIf_of_head {condition : Char → Bool} (h : ∀ c ∈ cs.head?, condition c = false) :
    takeIf condition cs = .ok (none, cs) := by
  cases cs with
  | nil => rfl
  | cons c cs =>
    have hc : condition c = false := h c rfl
    simp [takeIf, hc]

theorem numeral_append (h : IsWhole ds) (hr : Delimits rest) :
    numeral early (ds ++ rest) = .ok ({ negative := false, whole := ds }, rest) := by
  have hsign : takeIf (· = '-') (ds ++ rest) = .ok (none, ds ++ rest) := by
    refine takeIf_of_head fun c hc => ?_
    rw [List.head?_append_of_ne_nil _ h.ne_nil] at hc
    have hd : isDigit c = true := h.digits c (List.mem_of_mem_head? hc)
    refine decide_eq_false ?_
    rintro rfl
    exact absurd hd (by decide)
  have hpoint : takeIf (· = '.') rest = .ok (none, rest) :=
    takeIf_of_head fun c hc => by simp [(hr c hc).2.1]
  have hmark : takeIf (fun c => c = 'e' || c = 'E') rest = .ok (none, rest) :=
    takeIf_of_head fun c hc => by simp [(hr c hc).2.2]
  rw [numeral, bind_eq hsign, bind_eq (wholeDigits_append h hr), bind_eq hpoint]
  simp only [Option.isSome_none, Bool.false_eq_true, if_false, pure_bind]
  rw [bind_eq hmark]
  rfl

end Reader

namespace Numeral

variable {n : Nat} {ds : List Char}

/-- Appending digits does not make a number smaller. -/
theorem le_ofDigitChars (ds : List Char) (n : Nat) : n ≤ Nat.ofDigitChars 10 ds n := by
  rw [Nat.ofDigitChars_eq_ofDigitChars_zero]
  exact Nat.le_add_right_of_le (Nat.le_mul_of_pos_left n (Nat.pow_pos (by decide)))

/-- Digits that fit in 64 bits are all appended. -/
theorem appendDigits_of_lt (h : Nat.ofDigitChars 10 ds n < UInt64.size) :
    appendDigits n ds = (Nat.ofDigitChars 10 ds n, []) := by
  induction ds generalizing n with
  | nil => rfl
  | cons d ds ih =>
    have hcons : Nat.ofDigitChars 10 (d :: ds) n =
        Nat.ofDigitChars 10 ds (Nat.ofDigitChars 10 [d] n) := by
      rw [Nat.ofDigitChars_cons, Nat.ofDigitChars_cons, Nat.ofDigitChars_nil]
    have hle : Nat.ofDigitChars 10 [d] n ≤ Nat.ofDigitChars 10 (d :: ds) n :=
      hcons ▸ le_ofDigitChars ds _
    rw [appendDigits, if_pos (Nat.lt_of_le_of_lt hle h), hcons]
    exact ih (hcons ▸ h)

theorem scaled_digits (h : n < UInt64.size) :
    ({ negative := false, whole := Json.digits n } : Numeral).scaled = (n, 0) := by
  have hvalue : Nat.ofDigitChars 10 (Json.digits n) 0 = n := Nat.ofDigitChars_ten_toDigits
  have happend : appendDigits 0 (Json.digits n) = (n, []) := by
    rw [appendDigits_of_lt (hvalue.symm ▸ h), hvalue]
  simp [scaled, happend, appendDigits]

/-- Rounding at most doubles a number. -/
theorem nearestBinary64_le (n : Nat) : nearestBinary64 n ≤ 2 * n + 1 := by
  have hunit : Nat.pow 2 (n.log2 - 52) ≤ n + 1 := by
    rcases Nat.eq_zero_or_pos n with rfl | hpos
    · decide
    · calc Nat.pow 2 (n.log2 - 52) ≤ 2 ^ n.log2 := Nat.pow_le_pow_right (by decide) (Nat.sub_le _ _)
        _ ≤ n := Nat.log2_self_le (Nat.ne_of_gt hpos)
        _ ≤ n + 1 := Nat.le_succ n
  have hbelow : n / Nat.pow 2 (n.log2 - 52) * Nat.pow 2 (n.log2 - 52) ≤ n := Nat.div_mul_le_self _ _
  unfold nearestBinary64
  simp only [Nat.add_mul, Nat.one_mul]
  split <;> omega

/-- A number that fits in 64 bits is not huge. -/
theorem not_isHuge_digits (h : n < UInt64.size) :
    ({ negative := false, whole := Json.digits n } : Numeral).isHuge = false := by
  have hone : nearestBinary64 (Nat.pow 10 0) = 1 := nearestBinary64_of_log2_le (by decide)
  have hbound : 2 * UInt64.size < hugeBound := by decide +kernel
  have hle := nearestBinary64_le n
  unfold isHuge
  rw [scaled_digits h]
  change (if 0 > 308 then decide (n ≠ 0)
    else decide (nearestBinary64 n * nearestBinary64 (Nat.pow 10 0) ≥ hugeBound)) = false
  rw [if_neg (by decide), hone, Nat.mul_one]
  exact decide_eq_false (by omega)

theorem toNat?_digits (n : Nat) :
    ({ negative := false, whole := Json.digits n } : Numeral).toNat? = some n := by
  have hvalue : Nat.ofDigitChars 10 (Json.digits n) 0 = n := Nat.ofDigitChars_ten_toDigits
  simp [toNat?, hvalue]

end Numeral

/-! ## Values -/

namespace Reader

variable {rest : List Char}

theorem peek_quoteText (s : String) (rest : List Char) :
    peek (quoteText s ++ rest) = .ok ('"', quoteText s ++ rest) := peek_cons rfl

theorem text_quoteText (s : String) (rest : List Char) :
    text (quoteText s ++ rest) = .ok (s, rest) := by
  rw [text, bind_eq (peek_quoteText s rest), if_pos rfl]
  exact quotedText_quoteText s rest

theorem bool_write (b : Bool) (rest : List Char) :
    bool ((Json.bool b).write ++ rest) = .ok (b, rest) := by
  cases b with
  | false =>
    have hpeek : peek ((Json.bool false).write ++ rest) = .ok ('f', _) := peek_cons rfl
    rw [bool, bind_eq hpeek, if_neg (by decide), if_pos rfl]
    exact bind_eq (exactly_append ['f', 'a', 'l', 's', 'e'] rest)
  | true =>
    have hpeek : peek ((Json.bool true).write ++ rest) = .ok ('t', _) := peek_cons rfl
    rw [bool, bind_eq hpeek, if_pos rfl]
    exact bind_eq (exactly_append ['t', 'r', 'u', 'e'] rest)

theorem isBlank_of_isDigit {c : Char} (h : isDigit c = true) : isBlank c = false := by
  by_contra hblank
  simp only [isBlank, Bool.not_eq_false, Bool.or_eq_true, decide_eq_true_eq] at hblank
  rcases hblank with ((rfl | rfl) | rfl) | rfl <;> exact absurd h (by decide)

theorem word64_digits (x : UInt64) (hr : Delimits rest) :
    word64 (Json.digits x.toNat ++ rest) = .ok (x, rest) := by
  have hwhole := isWhole_digits x.toNat
  have hlt : x.toNat < UInt64.size := x.toNat_lt
  obtain ⟨d, ds, hds⟩ := List.exists_cons_of_ne_nil hwhole.ne_nil
  have hd : isDigit d = true := hwhole.digits d (hds ▸ List.mem_cons_self)
  have hpeek : peek (Json.digits x.toNat ++ rest) = .ok (d, Json.digits x.toNat ++ rest) := by
    rw [hds]
    exact peek_cons (isBlank_of_isDigit hd)
  rw [word64, bind_eq hpeek, if_pos (by simp [hd]), bind_eq (numeral_append hwhole hr)]
  simp only [Numeral.not_isHuge_digits hlt, Numeral.toNat?_digits, Bool.false_eq_true, if_false,
    if_pos hlt, UInt64.ofNat_toNat]
  rfl

end Reader

end Dataflow.Json
