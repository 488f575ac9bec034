import VDevLab.Lib.Json

/-!
# Texts that load

`Scans lim t v` says that the scanner reads the text `t` as the value `v`
wherever it stands, as long as what follows cannot continue a number. The
rules below build such texts: strings without escapes, decimal integers,
fixed-point numbers, and objects of these without blanks. What a program
prints with fixed formats is a text of this kind.
-/

namespace Json

open PyStr

/-- A character that a number does not go on with. -/
def Ends (rest : PyStr) : Prop :=
  ∀ c ∈ rest.head?, isDigit c = false ∧ c ≠ ch '.' ∧ c ≠ ch 'e' ∧ c ≠ ch 'E'

/-- The scanner reads `t` as `v`, whatever ends it. -/
def Scans (lim : IntLimit) (t : PyStr) (v : PyValue) : Prop :=
  ∀ rest fuel, Ends rest → t.length ≤ fuel → scanOnce lim fuel (t ++ rest) = .ok (v, rest)

/-! ## Strings -/

/-- A character that stands for itself in a string. -/
def Plain (c : CodePoint) : Prop := c ≠ ch '"' ∧ c ≠ ch '\\' ∧ 0x1f < c.val

instance (c : CodePoint) : Decidable (Plain c) := inferInstanceAs (Decidable (_ ∧ _ ∧ _))

theorem plain_of_all {s : PyStr} (h : (s.all fun c => decide (Plain c)) = true) :
    ∀ c ∈ s, Plain c := by
  intro c hc
  exact of_decide_eq_true (List.all_eq_true.mp h c hc)

theorem scanString_plain {t : PyStr} (h : ∀ c ∈ t, Plain c) (rest : PyStr) {fuel : Nat}
    (hfuel : t.length < fuel) : scanString fuel (t ++ ch '"' :: rest) = .ok (t, rest) := by
  induction t generalizing fuel with
  | nil =>
    obtain ⟨fuel, rfl⟩ : ∃ f, fuel = f + 1 := ⟨fuel - 1, by simp at hfuel; omega⟩
    rw [List.nil_append, scanString, if_pos rfl]
  | cons c t ih =>
    obtain ⟨fuel, rfl⟩ : ∃ f, fuel = f + 1 := ⟨fuel - 1, by simp at hfuel; omega⟩
    obtain ⟨hquote, hslash, hctl⟩ := h c List.mem_cons_self
    rw [List.cons_append, scanString, if_neg hquote, if_neg hslash, if_neg (by omega),
      ih (fun d hd => h d (List.mem_cons_of_mem c hd)) (by simp at hfuel; omega)]
    rfl

theorem Scans.str (lim : IntLimit) {t : PyStr} (h : ∀ c ∈ t, Plain c) :
    Scans lim (ch '"' :: t ++ [ch '"']) (.str t) := by
  intro rest fuel _ hfuel
  obtain ⟨fuel, rfl⟩ : ∃ f, fuel = f + 1 := ⟨fuel - 1, by simp at hfuel; omega⟩
  have htext : ch '"' :: t ++ [ch '"'] ++ rest = ch '"' :: (t ++ ch '"' :: rest) := by simp
  rw [htext, scanOnce, if_pos rfl, scanString_plain h rest (by simp)]
  rfl

/-! ## Numbers -/

theorem Ends.not_digit {rest : PyStr} (h : Ends rest) :
    rest.takeWhile isDigit = [] ∧ rest.dropWhile isDigit = rest := by
  cases rest with
  | nil => exact ⟨rfl, rfl⟩
  | cons c rest =>
    have hc := (h c rfl).1
    simp [hc]

theorem takeWhile_digits {s rest : PyStr} (hs : ∀ c ∈ s, isDigit c = true)
    (hrest : rest.takeWhile isDigit = [] ∧ rest.dropWhile isDigit = rest) :
    (s ++ rest).takeWhile isDigit = s ∧ (s ++ rest).dropWhile isDigit = rest := by
  rw [List.takeWhile_append_of_pos hs, List.dropWhile_append_of_pos hs, hrest.1, hrest.2,
    List.append_nil]
  exact ⟨rfl, rfl⟩

theorem scanInteger_numeral {s rest : PyStr} (hs : IsNumeral s)
    (hrest : rest.takeWhile isDigit = [] ∧ rest.dropWhile isDigit = rest) :
    scanInteger (s ++ rest) = some (s, rest) := by
  obtain ⟨hne, hdigits, hzero⟩ := hs
  rw [List.all_eq_true] at hdigits
  obtain ⟨c, t, rfl⟩ := List.exists_cons_of_ne_nil hne
  obtain ⟨htake, hdrop⟩ := takeWhile_digits hdigits hrest
  by_cases hc : c = digit 0
  · obtain ⟨rfl, rfl⟩ := List.cons.inj (hzero (by rw [hc]; rfl))
    rw [List.cons_append, scanInteger, if_pos rfl]
    rfl
  · rw [List.cons_append, scanInteger, if_neg hc, if_pos (hdigits c List.mem_cons_self),
      ← List.cons_append, htake, hdrop]

theorem Ends.scanFraction {rest : PyStr} (h : Ends rest) : scanFraction rest = none := by
  cases rest with
  | nil => rfl
  | cons c rest =>
    have hc := (h c rfl).2.1
    simp [Json.scanFraction, hc]

theorem Ends.scanExponent {rest : PyStr} (h : Ends rest) : scanExponent rest = none := by
  cases rest with
  | nil => rfl
  | cons c rest =>
    have hc := (h c rfl).2.2
    simp [Json.scanExponent, hc.1, hc.2]

theorem scanUnsigned_decimal (lim : IntLimit) {n : Nat} (hn : n < 10 ^ 640) {rest : PyStr}
    (h : Ends rest) : scanUnsigned lim false (decimal n ++ rest) = .ok (.int n, rest) := by
  rw [scanUnsigned, scanInteger_numeral (isNumeral_decimal n) h.not_digit]
  simp [h.scanFraction, h.scanExponent, toInt_decimal lim hn]

theorem scanUnsigned_fraction (lim : IntLimit) (neg : Bool) (n : Nat) {frac : PyStr}
    (hne : frac ≠ []) (hfrac : ∀ c ∈ frac, isDigit c = true) {rest : PyStr} (h : Ends rest) :
    scanUnsigned lim neg (decimal n ++ ch '.' :: (frac ++ rest)) =
      .ok (.float (.ofDecimal neg (natOfDigits (decimal n ++ frac)) (-frac.length)), rest) := by
  obtain ⟨htake, hdrop⟩ := takeWhile_digits hfrac h.not_digit
  have hpoint : ((ch '.' :: (frac ++ rest)).takeWhile isDigit = []) ∧
      (ch '.' :: (frac ++ rest)).dropWhile isDigit = ch '.' :: (frac ++ rest) := by
    have hdot : isDigit (ch '.') = false := by decide
    simp [hdot]
  have hscan : Json.scanFraction (ch '.' :: (frac ++ rest)) = some (frac, rest) := by
    simp [Json.scanFraction, htake, hdrop, hne]
  rw [scanUnsigned, scanInteger_numeral (isNumeral_decimal n) hpoint]
  simp only [hscan, h.scanExponent]

/-- A literal is not there when the first characters differ. -/
theorem literal_of_ne {d c : CodePoint} (h : d ≠ c) (word rest : PyStr) :
    literal (d :: word) (c :: rest) = none := by
  have hbeq : (d == c) = false := beq_eq_false_iff_ne.mpr h
  simp [literal, List.isPrefixOf, hbeq]

theorem isDigit_ne {c d : CodePoint} (hc : isDigit c = true) (hd : isDigit d = false) : d ≠ c := by
  rintro rfl
  rw [hc] at hd
  cases hd

/-- Only the literals are tried before a number, and none begins like one. -/
theorem scanLiteral_digit {c : CodePoint} (hc : isDigit c = true) (rest : PyStr) :
    scanLiteral (c :: rest) = none := by
  have hne := fun d => isDigit_ne (d := d) hc
  have h1 : literal (py "null") (c :: rest) = none := literal_of_ne (hne _ (by decide)) _ _
  have h2 : literal (py "true") (c :: rest) = none := literal_of_ne (hne _ (by decide)) _ _
  have h3 : literal (py "false") (c :: rest) = none := literal_of_ne (hne _ (by decide)) _ _
  have h4 : literal (py "NaN") (c :: rest) = none := literal_of_ne (hne _ (by decide)) _ _
  have h5 : literal (py "Infinity") (c :: rest) = none := literal_of_ne (hne _ (by decide)) _ _
  have h6 : literal (py "-Infinity") (c :: rest) = none := literal_of_ne (hne _ (by decide)) _ _
  simp [scanLiteral, h1, h2, h3, h4, h5, h6]

theorem scanLiteral_minus {c : CodePoint} (hc : isDigit c = true) (rest : PyStr) :
    scanLiteral (ch '-' :: c :: rest) = none := by
  have hne : ch 'I' ≠ c := isDigit_ne hc (by decide)
  have h1 : literal (py "null") (ch '-' :: c :: rest) = none := literal_of_ne (by decide) _ _
  have h2 : literal (py "true") (ch '-' :: c :: rest) = none := literal_of_ne (by decide) _ _
  have h3 : literal (py "false") (ch '-' :: c :: rest) = none := literal_of_ne (by decide) _ _
  have h4 : literal (py "NaN") (ch '-' :: c :: rest) = none := literal_of_ne (by decide) _ _
  have h5 : literal (py "Infinity") (ch '-' :: c :: rest) = none := literal_of_ne (by decide) _ _
  have h6 : literal (py "-Infinity") (ch '-' :: c :: rest) = none := by
    have hword : py "-Infinity" = ch '-' :: ch 'I' :: py "nfinity" := by decide
    have hbeq : (ch 'I' == c) = false := beq_eq_false_iff_ne.mpr hne
    simp [hword, literal, List.isPrefixOf, hbeq]
  simp [scanLiteral, h1, h2, h3, h4, h5, h6]

/-- A text that begins with a digit, or with a sign and a digit, is left to
the number scanner. -/
theorem scanOnce_digit (lim : IntLimit) (fuel : Nat) {c : CodePoint} (hc : isDigit c = true)
    (rest : PyStr) :
    scanOnce lim (fuel + 1) (c :: rest) = scanUnsigned lim false (c :: rest) := by
  have hne := fun d hd => (isDigit_ne (d := d) hc hd).symm
  rw [scanOnce, if_neg (hne _ (by decide)), if_neg (hne _ (by decide)), if_neg (hne _ (by decide)),
    scanLiteral_digit hc, scanNumber, if_neg (hne _ (by decide))]

theorem scanOnce_minus (lim : IntLimit) (fuel : Nat) {c : CodePoint} (hc : isDigit c = true)
    (rest : PyStr) :
    scanOnce lim (fuel + 1) (ch '-' :: c :: rest) = scanUnsigned lim true (c :: rest) := by
  rw [scanOnce, if_neg (by decide), if_neg (by decide), if_neg (by decide), scanLiteral_minus hc,
    scanNumber, if_pos rfl]

theorem decimal_eq_cons (n : Nat) : ∃ c t, decimal n = c :: t ∧ isDigit c = true := by
  obtain ⟨hne, hdigits, -⟩ := isNumeral_decimal n
  obtain ⟨c, t, hct⟩ := List.exists_cons_of_ne_nil hne
  rw [hct, List.all_cons, Bool.and_eq_true] at hdigits
  exact ⟨c, t, hct, hdigits.1⟩

theorem Scans.nat (lim : IntLimit) {n : Nat} (hn : n < 10 ^ 640) :
    Scans lim (decimal n) (.int n) := by
  intro rest fuel hrest hfuel
  obtain ⟨c, t, hct, hc⟩ := decimal_eq_cons n
  obtain ⟨fuel, rfl⟩ : ∃ f, fuel = f + 1 := ⟨fuel - 1, by simp [hct] at hfuel; omega⟩
  have hscan := scanUnsigned_decimal lim hn hrest
  rw [hct, List.cons_append] at hscan ⊢
  rw [scanOnce_digit lim fuel hc, hscan]

theorem Scans.fraction (lim : IntLimit) (neg : Bool) (n : Nat) {frac : PyStr} (hne : frac ≠ [])
    (hfrac : ∀ c ∈ frac, isDigit c = true) :
    Scans lim ((if neg then py "-" else []) ++ decimal n ++ ch '.' :: frac)
      (.float (.ofDecimal neg (natOfDigits (decimal n ++ frac)) (-frac.length))) := by
  intro rest fuel hrest hfuel
  have hscan := scanUnsigned_fraction lim neg n hne hfrac hrest
  obtain ⟨c, t, hct, hc⟩ := decimal_eq_cons n
  obtain ⟨fuel, rfl⟩ : ∃ f, fuel = f + 1 := ⟨fuel - 1, by simp at hfuel; omega⟩
  cases neg with
  | false =>
    have htext : (if false = true then py "-" else []) ++ decimal n ++ ch '.' :: frac ++ rest =
        decimal n ++ ch '.' :: (frac ++ rest) := by simp
    rw [htext, ← hscan, hct, List.cons_append, scanOnce_digit lim fuel hc]
  | true =>
    have hminus : py "-" = [ch '-'] := by decide
    have htext : (if true = true then py "-" else []) ++ decimal n ++ ch '.' :: frac ++ rest =
        ch '-' :: (decimal n ++ ch '.' :: (frac ++ rest)) := by simp [hminus]
    rw [htext, ← hscan, hct, List.cons_append, scanOnce_minus lim fuel hc]

/-- The double that a fixed-point text loads as. -/
def fixedValue (neg : Bool) (mant : Nat) (exp : Int) (places : Nat) : Binary64 :=
  let n := Binary64.scaledAbs mant exp places
  .ofDecimal neg (natOfDigits (decimal (n / 10 ^ places) ++ Binary64.padded places n)) (-places)

theorem Scans.fixed (lim : IntLimit) (neg : Bool) (mant : Nat) (exp : Int) {places : Nat}
    (hpos : 0 < places) :
    Scans lim (Binary64.fixed neg mant exp places) (.float (fixedValue neg mant exp places)) := by
  have hpoint : py "." = [ch '.'] := by decide
  have hlen := Binary64.length_padded places (Binary64.scaledAbs mant exp places)
  have hne : Binary64.padded places (Binary64.scaledAbs mant exp places) ≠ [] := by
    rw [← List.length_pos_iff, hlen]
    exact hpos
  have hscans := Scans.fraction lim neg (Binary64.scaledAbs mant exp places / 10 ^ places) hne
    (Binary64.padded_isDigit _ _)
  have htext : Binary64.fixed neg mant exp places = (if neg then py "-" else []) ++
      decimal (Binary64.scaledAbs mant exp places / 10 ^ places) ++
      ch '.' :: Binary64.padded places (Binary64.scaledAbs mant exp places) := by
    simp [Binary64.fixed, hpoint]
  rw [← htext, hlen] at hscans
  exact hscans

/-! ## Objects -/

/-- A member: the key, the text of the value, the value. -/
structure Member where
  key : PyStr
  text : PyStr
  value : PyValue

/-- The key is printed as it is, and the text is one of the value. -/
structure Member.Written (lim : IntLimit) (m : Member) : Prop where
  key : ∀ c ∈ m.key, Plain c
  text : Scans lim m.text m.value

def Member.print (m : Member) : PyStr := ch '"' :: m.key ++ ch '"' :: ch ':' :: m.text

/-- The members with commas between, and the closing brace. -/
def membersText : Member → List Member → PyStr
  | m, [] => m.print ++ [ch '}']
  | m, m' :: ms => m.print ++ ch ',' :: membersText m' ms

/-- An object without blanks. -/
def objectText (m : Member) (ms : List Member) : PyStr := ch '{' :: membersText m ms

/-- The dict that the members make. -/
def membersDict (d : PyDict) (ms : List Member) : PyDict :=
  ms.foldl (fun d m => d.insert m.key m.value) d

/-- Nothing begins with a blank. -/
theorem scanOnce_blank (lim : IntLimit) {c : CodePoint} (hc : isWs c = true) (fuel : Nat)
    (rest : PyStr) : scanOnce lim (fuel + 1) (c :: rest) = .error .decode := by
  simp only [isWs, Bool.or_eq_true, beq_iff_eq] at hc
  rcases hc with ((rfl | rfl) | rfl) | rfl <;> rfl

/-- A text that loads is not empty and does not begin with a blank. -/
theorem Scans.skipWs_append {lim : IntLimit} {t : PyStr} {v : PyValue} (h : Scans lim t v)
    (rest : PyStr) : skipWs (t ++ rest) = t ++ rest := by
  have hload := h [] (t.length + 1) (by simp [Ends]) (by omega)
  rw [List.append_nil] at hload
  cases t with
  | nil => cases hload
  | cons c t =>
    cases hc : isWs c with
    | false => simp [skipWs, hc]
    | true =>
      rw [scanOnce_blank lim hc] at hload
      cases hload

theorem scanKey_print {lim : IntLimit} {m : Member} (h : m.Written lim) (rest : PyStr) :
    scanKey (m.print ++ rest) = .ok (m.key, m.text ++ rest) := by
  have htext : m.print ++ rest = ch '"' :: (m.key ++ ch '"' :: (ch ':' :: (m.text ++ rest))) := by
    simp [Member.print]
  have hcolon : skipWs (ch ':' :: (m.text ++ rest)) = ch ':' :: (m.text ++ rest) := by
    have : isWs (ch ':') = false := by decide
    simp [skipWs, this]
  rw [htext, scanKey, if_neg (by simp), scanString_plain h.key _ (by simp)]
  simp only [hcolon]
  rw [if_pos trivial, h.text.skipWs_append]

theorem ends_of_delimiter {d : CodePoint} (hd : d = ch ',' ∨ d = ch '}') (rest : PyStr) :
    Ends (d :: rest) := by
  intro c hc
  cases Option.mem_some_iff.mp hc
  rcases hd with rfl | rfl <;> decide

theorem skipWs_delimiter {d : CodePoint} (hd : d = ch ',' ∨ d = ch '}') (rest : PyStr) :
    skipWs (d :: rest) = d :: rest := by
  have : isWs d = false := by rcases hd with rfl | rfl <;> decide
  simp [skipWs, this]

theorem skipWs_membersText (m : Member) (ms : List Member) (rest : PyStr) :
    skipWs (membersText m ms ++ rest) = membersText m ms ++ rest := by
  have hquote : isWs (ch '"') = false := by decide
  cases ms <;> simp [membersText, Member.print, skipWs, hquote]

theorem scanMembers_membersText {lim : IntLimit} {m : Member} {ms : List Member}
    (h : ∀ m' ∈ m :: ms, m'.Written lim) (rest : PyStr) (acc : PyDict) {fuel : Nat}
    (hfuel : (membersText m ms).length ≤ fuel) :
    scanMembers lim fuel (membersText m ms ++ rest) acc =
      .ok (.dict (membersDict acc (m :: ms)), rest) := by
  induction ms generalizing m acc fuel with
  | nil =>
    obtain ⟨fuel, rfl⟩ : ∃ f, fuel = f + 1 := ⟨fuel - 1, by simp [membersText] at hfuel; omega⟩
    have hm := h m List.mem_cons_self
    have hlen : m.text.length ≤ fuel := by
      simp [membersText, Member.print] at hfuel
      omega
    have htext : membersText m [] ++ rest = m.print ++ (ch '}' :: rest) := by simp [membersText]
    -- the value ends at the closing brace
    have hvalue := hm.text (ch '}' :: rest) fuel (ends_of_delimiter (.inr rfl) rest) hlen
    rw [htext, scanMembers, scanKey_print hm]
    simp only [hvalue, skipWs_delimiter (.inr rfl)]
    rw [if_pos trivial]
    rfl
  | cons m' ms ih =>
    obtain ⟨fuel, rfl⟩ : ∃ f, fuel = f + 1 := ⟨fuel - 1, by simp [membersText] at hfuel; omega⟩
    have hm := h m List.mem_cons_self
    have hlen : m.text.length ≤ fuel ∧ (membersText m' ms).length ≤ fuel := by
      simp [membersText, Member.print] at hfuel
      omega
    have htext : membersText m (m' :: ms) ++ rest =
        m.print ++ (ch ',' :: (membersText m' ms ++ rest)) := by
      simp [membersText]
    -- the value ends at the comma, and the other members follow
    have hvalue := hm.text (ch ',' :: (membersText m' ms ++ rest)) fuel
      (ends_of_delimiter (.inl rfl) _) hlen.1
    have hcomma : ch ',' ≠ ch '}' := by decide
    rw [htext, scanMembers, scanKey_print hm]
    simp only [hvalue, skipWs_delimiter (.inl rfl), if_neg hcomma, skipWs_membersText]
    rw [if_pos trivial, ih (fun m'' hm'' => h m'' (List.mem_cons_of_mem m hm'')) _ hlen.2]
    rfl

/-- An object of written members loads as their dict. -/
theorem loads_objectText {lim : IntLimit} {m : Member} {ms : List Member}
    (h : ∀ m' ∈ m :: ms, m'.Written lim) :
    loads lim (objectText m ms) = .ok (.dict (membersDict [] (m :: ms))) := by
  have hbrace : isWs (ch '{') = false := by decide
  have hskip : skipWs (objectText m ms) = objectText m ms := by simp [objectText, skipWs, hbrace]
  have hmembers := scanMembers_membersText h [] [] le_rfl
  have hcons : ∃ t, membersText m ms = ch '"' :: t := by
    cases ms <;> exact ⟨_, rfl⟩
  obtain ⟨t, ht⟩ := hcons
  have hquote : skipWs (ch '"' :: t) = ch '"' :: t := by
    have : isWs (ch '"') = false := by decide
    simp [skipWs, this]
  have hscan : scanOnce lim (objectText m ms).length (objectText m ms) =
      .ok (.dict (membersDict [] (m :: ms)), []) := by
    rw [List.append_nil] at hmembers
    rw [objectText, List.length_cons, scanOnce, if_neg (by decide), if_pos rfl, ht, hquote]
    simp only
    rw [if_neg (by decide), ← ht, hmembers]
  have hbom : (objectText m ms).head? ≠ some 0xFEFF := by
    simp only [objectText, List.head?_cons, ne_eq, Option.some.injEq]
    decide
  rw [loads, if_neg hbom, hskip, hscan]
  rfl

end Json
